import Sm8750Modules.IpaNat.Rule

/-!
# Checksum differences of a NAT rule

The hardware adds these to the checksums of a packet, as numbers modulo 65535. Each addition is folded
before the next one.
-/

namespace Sm8750Modules.IpaNat

open List

def halves (addr : UInt32) : ℕ := (addr &&& 0xFFFF).toNat + (addr >>> 16).toNat

def ipAddends (pubIpAddr privIpAddr : UInt32) : List ℕ :=
  [(pubIpAddr >>> 16).toNat, (~~~privIpAddr &&& 0xFFFF).toNat, (~~~privIpAddr >>> 16).toNat]

def tcpUdpAddends (pubIpAddr : UInt32) (pubPort : UInt16) (privIpAddr : UInt32) (privPort : UInt16) :
    List ℕ :=
  [(pubIpAddr >>> 16).toNat, pubPort.toNat, (~~~privIpAddr &&& 0xFFFF).toNat,
    (~~~privIpAddr >>> 16).toNat, (~~~privPort).toNat]

def accumulators (pubIpAddr : UInt32) (addends : List ℕ) : List ℕ :=
  addends.scanl cksumAdd (pubIpAddr &&& 0xFFFF).toNat

theorem and_ffff (n : ℕ) : n &&& 0xFFFF = n % 2 ^ 16 := Nat.and_two_pow_sub_one_eq_mod n 16

theorem cksumAdd_eq {c x : ℕ} (hc : c ≤ 0xFFFF) (hx : x ≤ 0xFFFF) :
    cksumAdd c x = if c + x ≤ 0xFFFF then c + x else c + x - 0xFFFF := by
  rw [cksumAdd]
  simp only [Nat.shiftRight_eq_div_pow, and_ffff]
  split_ifs <;> omega

theorem cksumAdd_le {c x : ℕ} (hc : c ≤ 0xFFFF) (hx : x ≤ 0xFFFF) : cksumAdd c x ≤ 0xFFFF := by
  rw [cksumAdd_eq hc hx]
  split_ifs <;> omega

theorem cksumAdd_modEq {c x : ℕ} (hc : c ≤ 0xFFFF) (hx : x ≤ 0xFFFF) :
    cksumAdd c x ≡ c + x [MOD 65535] := by
  rw [cksumAdd_eq hc hx, Nat.ModEq]
  split_ifs with hle
  · rfl
  · exact (Nat.mod_eq_sub_mod (by omega)).symm

theorem foldl_cksumAdd {c : ℕ} (hc : c ≤ 0xFFFF) {xs : List ℕ} (hxs : ∀ x ∈ xs, x ≤ 0xFFFF) :
    (∀ a ∈ xs.scanl cksumAdd c, a ≤ 0xFFFF) ∧ xs.foldl cksumAdd c ≤ 0xFFFF ∧
      xs.foldl cksumAdd c ≡ c + xs.sum [MOD 65535] := by
  induction xs generalizing c with
  | nil => simpa [Nat.ModEq] using hc
  | cons x xs ih =>
    have hx := hxs x mem_cons_self
    obtain ⟨hall, hle, hmod⟩ := ih (cksumAdd_le hc hx) fun y hy => hxs y (mem_cons_of_mem x hy)
    refine ⟨?_, hle, ?_⟩
    · rw [scanl_cons, forall_mem_cons]
      exact ⟨hc, hall⟩
    · rw [foldl_cons, sum_cons, ← Nat.add_assoc]
      exact hmod.trans ((cksumAdd_modEq hc hx).add_right _)

variable (addr : UInt32)

theorem low_half : (addr &&& 0xFFFF).toNat = addr.toNat % 2 ^ 16 := by
  rw [UInt32.toNat_and]
  exact and_ffff _

theorem high_half : (addr >>> 16).toNat = addr.toNat / 2 ^ 16 := by
  rw [UInt32.toNat_shiftRight]
  exact Nat.shiftRight_eq_div_pow _ 16

theorem half_le : (addr &&& 0xFFFF).toNat ≤ 0xFFFF ∧ (addr >>> 16).toNat ≤ 0xFFFF := by
  have hlt := addr.toNat_lt
  rw [low_half, high_half]
  omega

theorem halves_complement : halves (~~~addr) + halves addr = 2 * 65535 := by
  have hlt := addr.toNat_lt
  have hnot : (~~~addr).toNat = 2 ^ 32 - 1 - addr.toNat := by
    rw [UInt32.toNat_not]
    rfl
  rw [halves, halves, low_half, low_half, high_half, high_half, hnot]
  omega

theorem port_complement (port : UInt16) : (~~~port).toNat + port.toNat = 65535 := by
  have hlt := port.toNat_lt
  have hnot : (~~~port).toNat = 2 ^ 16 - 1 - port.toNat := by
    rw [UInt16.toNat_not]
    rfl
  omega

theorem sum_modEq {cksum pub priv comp k : ℕ} (h : cksum ≡ pub + comp [MOD 65535])
    (hcomp : comp + priv = k * 65535) : (cksum : ℤ) ≡ pub - priv [ZMOD 65535] := by
  have hint : (comp : ℤ) = k * 65535 - priv := by omega
  have hcast : (cksum : ℤ) ≡ pub + comp [ZMOD 65535] := by exact_mod_cast Int.natCast_modEq_iff.mpr h
  refine hcast.trans ?_
  rw [hint, Int.ModEq, show (pub : ℤ) + (k * 65535 - priv) = pub - priv + k * 65535 by ring]
  exact Int.add_mul_emod_self_right _ _ _

/-- **The checksum differences**: no accumulator is above 16 bits after a fold, the last one is returned,
and it is the public half of the rule less the private one. -/
theorem calcCksum_spec (pubIpAddr privIpAddr : UInt32) (pubPort privPort : UInt16) :
    ((∀ a ∈ accumulators pubIpAddr (ipAddends pubIpAddr privIpAddr), a ≤ 0xFFFF) ∧
      (accumulators pubIpAddr (ipAddends pubIpAddr privIpAddr)).getLast? =
        some (ipaNatiCalcIpCksum pubIpAddr privIpAddr) ∧
      (ipaNatiCalcIpCksum pubIpAddr privIpAddr : ℤ) ≡
        halves pubIpAddr - halves privIpAddr [ZMOD 65535]) ∧
    (∀ a ∈ accumulators pubIpAddr (tcpUdpAddends pubIpAddr pubPort privIpAddr privPort), a ≤ 0xFFFF) ∧
      (accumulators pubIpAddr (tcpUdpAddends pubIpAddr pubPort privIpAddr privPort)).getLast? =
        some (ipaNatiCalcTcpUdpCksum pubIpAddr pubPort privIpAddr privPort) ∧
      (ipaNatiCalcTcpUdpCksum pubIpAddr pubPort privIpAddr privPort : ℤ) ≡
        (halves pubIpAddr + pubPort.toNat : ℕ) - (halves privIpAddr + privPort.toNat : ℕ)
          [ZMOD 65535] := by
  obtain ⟨hlow, hhigh⟩ := half_le pubIpAddr
  obtain ⟨hnlow, hnhigh⟩ := half_le (~~~privIpAddr)
  have hpub : pubPort.toNat ≤ 0xFFFF := Nat.le_of_lt_succ pubPort.toNat_lt
  have hpriv : (~~~privPort).toNat ≤ 0xFFFF := Nat.le_of_lt_succ (~~~privPort).toNat_lt
  have hip : ∀ x ∈ ipAddends pubIpAddr privIpAddr, x ≤ 0xFFFF := by
    simp only [ipAddends, forall_mem_cons]
    exact ⟨hhigh, hnlow, hnhigh, nofun⟩
  have htcp : ∀ x ∈ tcpUdpAddends pubIpAddr pubPort privIpAddr privPort, x ≤ 0xFFFF := by
    simp only [tcpUdpAddends, forall_mem_cons]
    exact ⟨hhigh, hpub, hnlow, hnhigh, hpriv, nofun⟩
  obtain ⟨hall, hle, hmod⟩ := foldl_cksumAdd hlow hip
  obtain ⟨hall', hle', hmod'⟩ := foldl_cksumAdd hlow htcp
  have hret : ipaNatiCalcIpCksum pubIpAddr privIpAddr =
      (ipAddends pubIpAddr privIpAddr).foldl cksumAdd (pubIpAddr &&& 0xFFFF).toNat :=
    Nat.mod_eq_of_lt (Nat.lt_succ_of_le hle)
  have hret' : ipaNatiCalcTcpUdpCksum pubIpAddr pubPort privIpAddr privPort =
      (tcpUdpAddends pubIpAddr pubPort privIpAddr privPort).foldl cksumAdd (pubIpAddr &&& 0xFFFF).toNat :=
    Nat.mod_eq_of_lt (Nat.lt_succ_of_le hle')
  have hcomp := halves_complement privIpAddr
  have hport := port_complement privPort
  refine ⟨⟨hall, ?_, ?_⟩, hall', ?_, ?_⟩
  · rw [hret]
    rfl
  · rw [hret]
    have hsum : (pubIpAddr &&& 0xFFFF).toNat + (ipAddends pubIpAddr privIpAddr).sum =
        halves pubIpAddr + halves (~~~privIpAddr) := by
      simp only [ipAddends, sum_cons, sum_nil, halves]
      omega
    rw [hsum] at hmod
    exact sum_modEq hmod hcomp
  · rw [hret']
    rfl
  · rw [hret']
    have hsum : (pubIpAddr &&& 0xFFFF).toNat +
        (tcpUdpAddends pubIpAddr pubPort privIpAddr privPort).sum =
        halves pubIpAddr + pubPort.toNat + (halves (~~~privIpAddr) + (~~~privPort).toNat) := by
      simp only [tcpUdpAddends, sum_cons, sum_nil, halves]
      omega
    have hboth : halves (~~~privIpAddr) + (~~~privPort).toNat + (halves privIpAddr + privPort.toNat) =
        3 * 65535 := by
      omega
    rw [hsum] at hmod'
    exact sum_modEq hmod' hboth

end Sm8750Modules.IpaNat
