import Sm8750Modules.IpaNat.WellFormed
import Sm8750Modules.IpaNat.RuleSet
import Sm8750Modules.Ufcs.RoundTrip
import Sm8750Modules.Voter.Agreement
import Sm8750Modules.Voter.Queries
import Sm8750Modules.CamSync.Undo
import Sm8750Modules.CamSync.Notify
import Sm8750Modules.Serialization.Blocking
import Sm8750Modules.Serialization.BulkCancel
import Sm8750Modules.HwFence.Unique
import Sm8750Modules.HwFence.Queue
import Sm8750Modules.BatterySmooth.Continuity
import Sm8750Modules.UfcsPe.Timers
import Sm8750Modules.UfcsPe.Requests
import Sm8750Modules.UfcsSender.Deadlock
import Sm8750Modules.SynxGlobal.Status
import Sm8750Modules.Synx.Waits
import Sm8750Modules.Rmnet.Ingress
import Sm8750Modules.Rmnet.FlowRuns
import Sm8750Modules.KgslEvents.Fires
import Sm8750Modules.KgslTimeline.Queries
import Sm8750Modules.KgslTimeline.Fences
import Sm8750Modules.Vidc.MsgQueue
import Sm8750Modules.Fastrpc.Pages
import Sm8750Modules.Fastrpc.HandleMapsKept
import Sm8750Modules.KgslSyncpoints.Balance
import Sm8750Modules.Dsc.Wakeups
import Sm8750Modules.Mmrm.Budget
import Sm8750Modules.DpRx.BlockAckWindows
import Sm8750Modules.Smcinvoke.TransactionsOnce
import Sm8750Modules.MgmtRxReo.HalfRange
import Sm8750Modules.MgmtRxReo.Counters
import Sm8750Modules.Rmnet.CoalescedBounds
import Sm8750Modules.Ufcs.PayloadCodec
import Sm8750Modules.Ufcs.Acceptance
import Sm8750Modules.Cpa.Ranking
import Sm8750Modules.BatterySmooth.TrackFifo
import Sm8750Modules.CamReqMgr.Workq
import Sm8750Modules.CamReqMgr.Rejections
import Sm8750Modules.KgslVbo.Unbind
import Sm8750Modules.DpRx.FragList
import Sm8750Modules.KgslTimeline.Submit
import Sm8750Modules.HwFence.ClientData
import Sm8750Modules.Vidc.QueueFifo
import Sm8750Modules.RmnetPerf.QuickAck
import Sm8750Modules.Rmnet.Linearize
import Sm8750Modules.Rmnet.DlTrailer
import Sm8750Modules.Fastrpc.Banks
import Sm8750Modules.IpaNat.Checksum
import Sm8750Modules.IpaNat.FailedCalls
import Sm8750Modules.IpaNat.Pdn
import Sm8750Modules.IpaNat.SwitchTo
import Sm8750Modules.Mmrm.ReqLevel
import Sm8750Modules.Mmrm.CrmVotes
import Sm8750Modules.Qdf.ArrayParse
import Sm8750Modules.Qdf.AddrParse
import Sm8750Modules.DpRx.TkipMic
