import DpdkTools.Config.Construct

/-! Which ring a packet is put into: `device::service_tx` and `device::tx_ring` (`dpdkx/device.cpp`).

Both take a hint modulo a number that the constructor bounds from above and nothing bounds from
below. With no ring, no tx queue or no service ring the remainder is a division by zero. -/
namespace DpdkTools.Config
set_option autoImplicit false

/-- A remainder; `none` is the division by zero. -/
def remainder (a n : ℕ) : Option ℕ := if n = 0 then none else some (a % n)

namespace Constructed

/-- `tx_jobs_.size()` -/
def txJobsSize (d : Constructed) : BitVec 64 := BitVec.ofNat 64 d.txJobs.length

/-- The index that `device::service_tx` computes. -/
def serviceTx (d : Constructed) (hint : BitVec 16) : Option (BitVec 64) :=
  (remainder hint.toNat d.config.svcTxN.toNat).map fun r =>
    BitVec.ofNat 64 r + d.txJobsSize - d.config.svcTxN.zeroExtend 64

/-- The index that `device::tx_ring` computes. -/
def txRing (d : Constructed) (hint : BitVec 16) : Option (BitVec 64) :=
  (remainder hint.toNat d.txJobsSize.toNat).map (BitVec.ofNat 64)

/-- The index was computed and there is a job at it. -/
def Selects (d : Constructed) (ix : Option (BitVec 64)) : Prop :=
  ∃ i, ix = some i ∧ i.toNat < d.txJobs.length

end Constructed

/-! ## The divisors of a constructed device -/

theorem remainder_lt (a n r : ℕ) (h : remainder a n = some r) : r < n := by
  unfold remainder at h
  split at h
  · cases h
  · rename_i hn
    cases h
    exact Nat.mod_lt a (Nat.pos_of_ne_zero hn)

theorem remainder_some (a n : ℕ) (h : n ≠ 0) : remainder a n = some (a % n) :=
  if_neg h

section Made
variable (host : Host) (eth : EthDev) (config : Device) (d : Constructed)
  (h : makeDevice host eth config = .ok d)
include h

/-- There is a job for each ring, as far as the queues go. -/
theorem txJobs_length : d.txJobs.length = min config.txRings.toNat config.txNbQueues.toNat := by
  rw [(makeDevice_ok host eth config d h).txJobs, length_txJobQueues_direct]

theorem txJobs_length_lt : d.txJobs.length < 2 ^ 16 := by
  have hlen := txJobs_length host eth config d h
  have hnb := config.txNbQueues.isLt
  have hle : min config.txRings.toNat config.txNbQueues.toNat ≤ config.txNbQueues.toNat :=
    Nat.min_le_right _ _
  omega

theorem txJobsSize_toNat : d.txJobsSize.toNat = d.txJobs.length := by
  have hlt := txJobs_length_lt host eth config d h
  rw [Constructed.txJobsSize, BitVec.toNat_ofNat]
  apply Nat.mod_eq_of_lt
  omega

theorem svcTxN_eq : d.config.svcTxN.toNat = min config.svcTxN.toNat d.txJobs.length :=
  (makeDevice_ok host eth config d h).svcTxN

theorem svcTxN_le : d.config.svcTxN.toNat ≤ d.txJobs.length := by
  rw [svcTxN_eq host eth config d h]
  exact Nat.min_le_right _ _

/-! ## One selection -/

theorem txRing_selects (hint : BitVec 16) (hjobs : d.txJobs.length ≠ 0) :
    d.Selects (d.txRing hint) := by
  have hlen := txJobs_length_lt host eth config d h
  have hlt := Nat.mod_lt hint.toNat (Nat.pos_of_ne_zero hjobs)
  refine ⟨BitVec.ofNat 64 (hint.toNat % d.txJobs.length), ?_, ?_⟩
  · rw [Constructed.txRing, txJobsSize_toNat host eth config d h, remainder_some _ _ hjobs,
      Option.map_some]
  · rw [BitVec.toNat_ofNat, Nat.mod_eq_of_lt (by omega)]
    exact hlt

/-- The service rings are the last ones. -/
theorem serviceTx_toNat (hint : BitVec 16) (i : BitVec 64) (hi : d.serviceTx hint = some i) :
    i.toNat = d.txJobs.length - d.config.svcTxN.toNat + hint.toNat % d.config.svcTxN.toNat := by
  obtain ⟨r, hr, rfl⟩ := Option.map_eq_some_iff.mp hi
  have hrlt := remainder_lt _ _ _ hr
  have hr' : r = hint.toNat % d.config.svcTxN.toNat := by
    rw [remainder_some _ _ (by omega)] at hr
    exact (Option.some_inj.mp hr).symm
  have hlen := txJobs_length_lt host eth config d h
  have hle := svcTxN_le host eth config d h
  have hsize := txJobsSize_toNat host eth config d h
  have hext : (d.config.svcTxN.zeroExtend 64).toNat = d.config.svcTxN.toNat :=
    BitVec.toNat_setWidth_of_le (by decide)
  -- the sum is at least the number of service rings, so the difference does not wrap
  rw [BitVec.toNat_sub, BitVec.toNat_add, BitVec.toNat_ofNat, hsize, hext, ← hr']
  omega

theorem serviceTx_selects (hint : BitVec 16) (hne : d.config.svcTxN.toNat ≠ 0) :
    d.Selects (d.serviceTx hint) := by
  obtain ⟨i, hi⟩ : ∃ i, d.serviceTx hint = some i := by
    rw [Constructed.serviceTx, remainder_some _ _ hne]
    exact ⟨_, rfl⟩
  have htoNat := serviceTx_toNat host eth config d h hint i hi
  have hlt := Nat.mod_lt hint.toNat (Nat.pos_of_ne_zero hne)
  have hle := svcTxN_le host eth config d h
  refine ⟨i, hi, ?_⟩
  omega

end Made

/-! ## Every selection -/

theorem not_selects_none (d : Constructed) : ¬ d.Selects none := by
  rintro ⟨i, hi, -⟩
  cases hi

/-- Rings are selected for every hint exactly when there is a ring, a tx queue and a service ring. -/
theorem selects_iff (host : Host) (eth : EthDev) (config : Device) (d : Constructed)
    (h : makeDevice host eth config = .ok d) :
    (∀ hint, d.Selects (d.serviceTx hint) ∧ d.Selects (d.txRing hint)) ↔
      config.txRings ≠ 0 ∧ config.txNbQueues ≠ 0 ∧ config.svcTxN ≠ 0 := by
  have hlen := txJobs_length host eth config d h
  have hsvc := svcTxN_eq host eth config d h
  have hzero (v : BitVec 16) : v ≠ 0 ↔ v.toNat ≠ 0 := (BitVec.toNat_inj (y := 0)).not.symm
  have hnumbers : (config.txRings ≠ 0 ∧ config.txNbQueues ≠ 0 ∧ config.svcTxN ≠ 0) ↔
      d.config.svcTxN.toNat ≠ 0 := by
    rw [hzero, hzero, hzero, hsvc, hlen]
    omega
  rw [hnumbers]
  constructor
  · intro hall hz
    apply not_selects_none d
    have hselects := (hall 0).1
    rw [Constructed.serviceTx, hz] at hselects
    exact hselects
  · intro hne hint
    refine ⟨serviceTx_selects host eth config d h hint hne, txRing_selects host eth config d h hint ?_⟩
    omega

/-- Without options there are as many rings as queues. -/
theorem selects_iff_bare : ∃ d, makeDevice igcHost (willingEth none) (bareDevice.setTxNbQueues 4) = .ok d ∧
    ∀ hint, d.Selects (d.serviceTx hint) ∧ d.Selects (d.txRing hint) := by
  refine ⟨_, rfl, ?_⟩
  apply (selects_iff igcHost (willingEth none) (bareDevice.setTxNbQueues 4) _ rfl).mpr
  decide

def ringlessOption (key : String) : Option String :=
  if key = "net_igc.tx_rings" then some "0" else none

/-- With `tx_rings=0` the loader and the constructor succeed, and both selections divide by zero. -/
theorem ringless_divides : ∃ config d,
    deviceConfiguration cksumFlags ringlessOption igcPort = .ok config ∧
      makeDevice igcHost (willingEth none) config = .ok d ∧
      d.serviceTx 0 = none ∧ d.txRing 0 = none ∧
      ¬ (d.Selects (d.serviceTx 0) ∧ d.Selects (d.txRing 0)) := by
  refine ⟨_, _, rfl, rfl, rfl, rfl, ?_⟩
  rintro ⟨⟨i, hi, -⟩, -⟩
  cases hi

end DpdkTools.Config
