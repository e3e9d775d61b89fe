import DpdkTools.Lib.Runs
import DpdkTools.Net.ByteOrder
import Mathlib.Logic.Function.Basic
import Mathlib.Data.Nat.Cast.Basic

/-! Multicast membership of a device: `join_mcast`, `leave_mcast` (`dpdkx/device.cpp`) and the
reports `mcast_group` puts on the service ring (`dpdkx/mcast.cpp`).

`joined_mcasts_` counts the references to each group in eight bits. A report is represented by
what its record says: the group address and the record type. -/
namespace DpdkTools
open Runs
set_option autoImplicit false

inductive Errc where
  | addressInUse
  | badAddress
  | invalidArgument
  | noBufferSpace
  | resourceUnavailableTryAgain
  | noAvalibleQueue
  | flow
  deriving Repr, DecidableEq

/-- `std::error_code`; `none` is success. -/
abbrev ErrorCode := Option Errc

inductive IgmpType where
  | changeToExcludeMode
  | changeToIncludeMode
  deriving Repr, DecidableEq

structure IgmRecord where
  group : Be32
  type : IgmpType
  deriving Repr, DecidableEq

/-- How the service path answers one report: is there an mbuf, is there room on the ring. -/
structure SvcTx where
  mbuf : Bool
  room : Bool
  deriving Repr, DecidableEq

/-- The members of `device` that the multicast functions use, and the records sent so far. -/
structure Mcasts where
  joinedMcasts : Be32 → Option UInt8
  reports : List IgmRecord

namespace Mcasts

def empty : Mcasts := ⟨fun _ => none, []⟩

/-- `device::mcast_group`. The test reads the network-order address as if it were host order. -/
def mcastGroup (m : Mcasts) (ip4addr : Be32) (type : IgmpType) (svc : SvcTx) :
    Mcasts × ErrorCode :=
  if rteIsIpv4Mcast ip4addr then (m, some .badAddress)
  else if !svc.mbuf then (m, some .noBufferSpace)
  else if svc.room then ({ m with reports := m.reports ++ [⟨ip4addr, type⟩] }, none)
  else (m, some .resourceUnavailableTryAgain)

def joinMcast (m : Mcasts) (ip4addr : Be32) (svc : SvcTx) : Mcasts × ErrorCode :=
  match m.joinedMcasts ip4addr with
  | some count =>
    ({ m with joinedMcasts := Function.update m.joinedMcasts ip4addr (some (count + 1)) },
      some .addressInUse)
  | none =>
    mcastGroup { m with joinedMcasts := Function.update m.joinedMcasts ip4addr (some 1) }
      ip4addr .changeToExcludeMode svc

def leaveMcast (m : Mcasts) (ip4addr : Be32) (svc : SvcTx) : Mcasts × ErrorCode :=
  match m.joinedMcasts ip4addr with
  | none => (m, some .badAddress)
  | some count =>
    mcastGroup
      { m with
        joinedMcasts := Function.update m.joinedMcasts ip4addr
          (if count - 1 = 0 then none else some (count - 1)) }
      ip4addr .changeToIncludeMode svc

def lastReport (m : Mcasts) (g : Be32) : Option IgmpType :=
  (m.reports.reverse.find? (·.group = g)).map IgmRecord.type

def held (m : Mcasts) (g : Be32) : ℕ :=
  match m.joinedMcasts g with
  | none => 0
  | some count => count.toNat

def Sendable (g : Be32) (svc : SvcTx) : Prop :=
  rteIsIpv4Mcast g = false ∧ svc.mbuf = true ∧ svc.room = true

instance (g : Be32) (svc : SvcTx) : Decidable (Sendable g svc) :=
  inferInstanceAs (Decidable (_ ∧ _ ∧ _))

theorem mcastGroup_sent (m : Mcasts) (g : Be32) (type : IgmpType) (svc : SvcTx)
    (h : Sendable g svc) :
    mcastGroup m g type svc = ({ m with reports := m.reports ++ [⟨g, type⟩] }, none) := by
  obtain ⟨hg, hm, hr⟩ := h
  simp [mcastGroup, hg, hm, hr]

theorem joinMcast_first (m : Mcasts) (g : Be32) (svc : SvcTx) (hs : Sendable g svc)
    (h : m.joinedMcasts g = none) :
    m.joinMcast g svc = (⟨Function.update m.joinedMcasts g (some 1),
      m.reports ++ [⟨g, .changeToExcludeMode⟩]⟩, none) := by
  simp [joinMcast, h, mcastGroup_sent _ _ _ _ hs]

theorem leaveMcast_present (m : Mcasts) (g : Be32) (svc : SvcTx) (hs : Sendable g svc) (count : UInt8)
    (h : m.joinedMcasts g = some count) :
    m.leaveMcast g svc =
      (⟨Function.update m.joinedMcasts g (if count - 1 = 0 then none else some (count - 1)),
        m.reports ++ [⟨g, .changeToIncludeMode⟩]⟩, none) := by
  simp [leaveMcast, h, mcastGroup_sent _ _ _ _ hs]

@[simp] theorem lastReport_append (j : Be32 → Option UInt8) (m : Mcasts) (g g' : Be32)
    (type : IgmpType) :
    lastReport ⟨j, m.reports ++ [⟨g, type⟩]⟩ g' =
      if g = g' then some type else m.lastReport g' := by
  unfold lastReport
  rw [List.reverse_append, List.reverse_singleton, List.singleton_append, List.find?_cons]
  by_cases h : g = g'
  · simp [h]
  · simp [h]

end Mcasts

/-! ## Histories of joins and leaves -/

inductive McastEvent where
  | join (g : Be32) (svc : SvcTx)
  | leave (g : Be32) (svc : SvcTx)

def McastEvent.group : McastEvent → Be32
  | .join g _ => g
  | .leave g _ => g

/-- The device, with the joins and the successful leaves of each group counted on the side. -/
structure McastHistory where
  mcasts : Mcasts
  joins : Be32 → ℕ
  leaves : Be32 → ℕ

namespace McastHistory

def initial : McastHistory := ⟨Mcasts.empty, fun _ => 0, fun _ => 0⟩

def step (s : McastHistory) : McastEvent → Option McastHistory
  | .join g svc =>
    some { s with
      mcasts := (s.mcasts.joinMcast g svc).1
      joins := Function.update s.joins g (s.joins g + 1) }
  | .leave g svc =>
    some { s with
      mcasts := (s.mcasts.leaveMcast g svc).1
      leaves := if (s.mcasts.leaveMcast g svc).2 = none then
        Function.update s.leaves g (s.leaves g + 1) else s.leaves }

def balance (s : McastHistory) (g : Be32) : ℤ := s.joins g - s.leaves g

/-- The last report of the group says what its balance says, and the counter is the balance. -/
def Member (s : McastHistory) (g : Be32) : Prop :=
  (s.mcasts.lastReport g = some .changeToExcludeMode ↔ 0 < s.balance g) ∧
    (s.mcasts.held g : ℤ) = s.balance g

/-- If the call has a report to send, it can be sent. -/
def Reports (s : McastHistory) : McastEvent → Prop
  | .join g svc => s.mcasts.joinedMcasts g = none → Mcasts.Sendable g svc
  | .leave g svc => s.mcasts.joinedMcasts g ≠ none → Mcasts.Sendable g svc

instance (s : McastHistory) (e : McastEvent) : Decidable (s.Reports e) :=
  match e with
  | .join g svc => inferInstanceAs (Decidable (s.mcasts.joinedMcasts g = none → Mcasts.Sendable g svc))
  | .leave g svc => inferInstanceAs (Decidable (s.mcasts.joinedMcasts g ≠ none → Mcasts.Sendable g svc))

/-- No leave while more than one reference is held, no join on top of a full counter. -/
def Single (s : McastHistory) : McastEvent → Prop
  | .join g _ => s.mcasts.joinedMcasts g ≠ some 255
  | .leave g _ => s.mcasts.joinedMcasts g = none ∨ s.mcasts.joinedMcasts g = some 1

instance (s : McastHistory) (e : McastEvent) : Decidable (s.Single e) :=
  match e with
  | .join g _ => inferInstanceAs (Decidable (s.mcasts.joinedMcasts g ≠ some 255))
  | .leave g _ => inferInstanceAs
      (Decidable (s.mcasts.joinedMcasts g = none ∨ s.mcasts.joinedMcasts g = some 1))

def Inv (s : McastHistory) : Prop := ∀ g, s.Member g ∧ s.mcasts.joinedMcasts g ≠ some 0

theorem inv_initial : initial.Inv := by
  intro g
  refine ⟨⟨?_, ?_⟩, ?_⟩
  · simp [initial, Mcasts.empty, Mcasts.lastReport, balance]
  · simp [initial, Mcasts.empty, Mcasts.held, balance]
  · simp [initial, Mcasts.empty]

/-! ## One call: the four ways it can go -/

section Calls
variable (s : McastHistory) (g : Be32) (svc : SvcTx)

theorem step_join_again (count : UInt8) (h : s.mcasts.joinedMcasts g = some count) :
    s.step (.join g svc) = some
      ⟨⟨Function.update s.mcasts.joinedMcasts g (some (count + 1)), s.mcasts.reports⟩,
        Function.update s.joins g (s.joins g + 1), s.leaves⟩ := by
  simp [step, Mcasts.joinMcast, h]

theorem step_join_first (hs : Mcasts.Sendable g svc) (h : s.mcasts.joinedMcasts g = none) :
    s.step (.join g svc) = some
      ⟨⟨Function.update s.mcasts.joinedMcasts g (some 1),
          s.mcasts.reports ++ [⟨g, .changeToExcludeMode⟩]⟩,
        Function.update s.joins g (s.joins g + 1), s.leaves⟩ := by
  simp [step, Mcasts.joinMcast_first _ g svc hs h]

theorem step_leave_absent (h : s.mcasts.joinedMcasts g = none) :
    s.step (.leave g svc) = some s := by
  simp [step, Mcasts.leaveMcast, h]

theorem step_leave_present (hs : Mcasts.Sendable g svc) (count : UInt8)
    (h : s.mcasts.joinedMcasts g = some count) :
    s.step (.leave g svc) = some
      ⟨⟨Function.update s.mcasts.joinedMcasts g (if count - 1 = 0 then none else some (count - 1)),
          s.mcasts.reports ++ [⟨g, .changeToIncludeMode⟩]⟩,
        s.joins, Function.update s.leaves g (s.leaves g + 1)⟩ := by
  simp [step, Mcasts.leaveMcast_present _ g svc hs count h]

end Calls

theorem step_frame (s s' : McastHistory) (e : McastEvent) (g' : Be32) (hs : s.Reports e)
    (hne : g' ≠ e.group) (h : s.step e = some s') :
    (s'.Member g' ↔ s.Member g') ∧ s'.mcasts.joinedMcasts g' = s.mcasts.joinedMcasts g' := by
  cases e with
  | join g svc =>
    have hne' : g' ≠ g := hne
    cases hj : s.mcasts.joinedMcasts g with
    | none =>
      rw [step_join_first s g svc (hs hj) hj] at h
      obtain rfl := Option.some.inj h
      simp [Member, Mcasts.held, balance, hne', hne'.symm]
    | some count =>
      rw [step_join_again s g svc count hj] at h
      obtain rfl := Option.some.inj h
      simp [Member, Mcasts.held, balance, Mcasts.lastReport, hne']
  | leave g svc =>
    have hne' : g' ≠ g := hne
    cases hj : s.mcasts.joinedMcasts g with
    | none =>
      rw [step_leave_absent s g svc hj] at h
      obtain rfl := Option.some.inj h
      simp
    | some count =>
      rw [step_leave_present s g svc (hs (by simp [hj])) count hj] at h
      obtain rfl := Option.some.inj h
      simp [Member, Mcasts.held, balance, hne', hne'.symm]

theorem counted {s : McastHistory} {g : Be32} {count : UInt8}
    (hj : s.mcasts.joinedMcasts g = some count) (hheld : (s.mcasts.held g : ℤ) = s.balance g)
    (hzero : s.mcasts.joinedMcasts g ≠ some 0) : s.balance g = count.toNat ∧ 0 < count.toNat := by
  refine ⟨by simpa [Mcasts.held, hj, eq_comm] using hheld, Nat.pos_of_ne_zero ?_⟩
  intro h0
  apply hzero
  rw [hj, Option.some.injEq]
  exact UInt8.toNat.inj h0

theorem count_room {count : UInt8} (h : count ≠ 255) : count.toNat + 1 < 256 := by
  have hlt := count.toNat_lt
  have hne : count.toNat ≠ 255 := fun he => h (UInt8.toNat.inj he)
  omega

theorem step_join_own (s s' : McastHistory) (g : Be32) (svc : SvcTx) (hs : s.Reports (.join g svc))
    (hi : s.Inv) (h : s.step (.join g svc) = some s') :
    (s.Single (.join g svc) → s'.Member g ∧ s'.mcasts.joinedMcasts g ≠ some 0) ∧
      (s'.Member g → s.Single (.join g svc)) := by
  obtain ⟨⟨hlast, hheld⟩, hzero⟩ := hi g
  cases hj : s.mcasts.joinedMcasts g with
  | none =>
    rw [step_join_first s g svc (hs hj) hj] at h
    obtain rfl := Option.some.inj h
    have hb : s.balance g = 0 := by simpa [Mcasts.held, hj, eq_comm] using hheld
    have hb' : ((s.joins g : ℤ) + 1) - s.leaves g = 1 := by unfold balance at hb; omega
    simp [Member, Single, Mcasts.held, balance, hj, hb']
  | some count =>
    rw [step_join_again s g svc count hj] at h
    obtain rfl := Option.some.inj h
    obtain ⟨hb, hpos⟩ := counted hj hheld hzero
    have hb' : ((s.joins g : ℤ) + 1) - s.leaves g = count.toNat + 1 := by unfold balance at hb; omega
    refine ⟨fun hc => ⟨⟨?_, ?_⟩, ?_⟩, fun hm hc => ?_⟩
    · simp only [balance, Function.update_self]
      exact ⟨fun _ => by omega, fun _ => hlast.mpr (by omega)⟩
    · have hc' : count.toNat + 1 < 256 := count_room (by simpa [Single, hj] using hc)
      simp [Mcasts.held, balance, hb', UInt8.toNat_add, Nat.mod_eq_of_lt hc']
    · have hc' : count.toNat + 1 < 256 := count_room (by simpa [Single, hj] using hc)
      simp only [Function.update_self, ne_eq, Option.some.injEq]
      intro h0
      have := congrArg UInt8.toNat h0
      simp [UInt8.toNat_add, Nat.mod_eq_of_lt hc'] at this
    · obtain rfl : count = 255 := by simpa [hj] using hc
      have := hm.2
      simp [Mcasts.held, balance, hb'] at this

theorem step_leave_own (s s' : McastHistory) (g : Be32) (svc : SvcTx) (hs : s.Reports (.leave g svc))
    (hi : s.Inv) (h : s.step (.leave g svc) = some s') :
    (s.Single (.leave g svc) → s'.Member g ∧ s'.mcasts.joinedMcasts g ≠ some 0) ∧
      (s'.Member g → s.Single (.leave g svc)) := by
  obtain ⟨⟨hlast, hheld⟩, hzero⟩ := hi g
  cases hj : s.mcasts.joinedMcasts g with
  | none =>
    rw [step_leave_absent s g svc hj] at h
    obtain rfl := Option.some.inj h
    exact ⟨fun _ => ⟨⟨hlast, hheld⟩, hzero⟩, fun _ => Or.inl hj⟩
  | some count =>
    rw [step_leave_present s g svc (hs (by simp [hj])) count hj] at h
    obtain rfl := Option.some.inj h
    obtain ⟨hb, hpos⟩ := counted hj hheld hzero
    have hb' : (s.joins g : ℤ) - (s.leaves g + 1) = count.toNat - 1 := by unfold balance at hb; omega
    refine ⟨fun hc => ?_, fun hm => ?_⟩
    · obtain rfl : count = 1 := by simpa [Single, hj] using hc
      simp [Member, Mcasts.held, balance, hb']
    · have hle : ¬ (0 : ℤ) < count.toNat - 1 := by
        have := hm.1
        simpa [balance, hb'] using this
      refine Or.inr ?_
      rw [hj, Option.some.injEq]
      apply UInt8.toNat.inj
      simp
      omega

theorem step_own (s s' : McastHistory) (e : McastEvent) (hs : s.Reports e) (hi : s.Inv)
    (h : s.step e = some s') :
    (s.Single e → s'.Member e.group ∧ s'.mcasts.joinedMcasts e.group ≠ some 0) ∧
      (s'.Member e.group → s.Single e) := by
  cases e with
  | join g svc => exact step_join_own s s' g svc hs hi h
  | leave g svc => exact step_leave_own s s' g svc hs hi h

theorem step_inv (s : McastHistory) (e : McastEvent) (s' : McastHistory) (hi : s.Inv)
    (hs : s.Reports e) (hc : s.Single e) (h : s.step e = some s') : s'.Inv := by
  intro g
  by_cases hg : g = e.group
  · subst hg
    exact (step_own s s' e hs hi h).1 hc
  · obtain ⟨hmem, hcount⟩ := step_frame s s' e g hs hg h
    exact ⟨hmem.mpr (hi g).1, hcount ▸ (hi g).2⟩

/-- Along every history of joins and leaves whose reports can be sent, report and counter of every
group follow the balance exactly when no call leaves a group that has a further reference or
joins one whose counter is full. -/
theorem run_membership (es : List McastEvent) (tr : List (Transition McastHistory McastEvent))
    (htr : trace step initial es = some tr) (hs : ∀ t ∈ tr, t.pre.Reports t.event) :
    (∀ t ∈ tr, ∀ g, t.post.Member g) ↔ ∀ t ∈ tr, t.pre.Single t.event := by
  constructor
  · intro hm
    exact trace_condition Inv Single Reports (fun s => ∀ g, s.Member g) step_inv
      (fun s e s' hi hs h hgood => (step_own s s' e hs hi h).2 (hgood _))
      initial es tr htr inv_initial hs hm
  · intro hc t ht g
    have hinv := trace_invariant Inv (fun s e => s.Reports e ∧ s.Single e)
      (fun s e s' hi hse => step_inv s e s' hi hse.1 hse.2) initial es tr htr inv_initial
      (fun t ht => ⟨hs t ht, hc t ht⟩)
    exact ((hinv.2 t ht).2 g).1

theorem run_membership_join_leave :
    ∃ tr, trace step initial [.join 0x010000e0 ⟨true, true⟩, .leave 0x010000e0 ⟨true, true⟩] = some tr ∧
      (∀ t ∈ tr, t.pre.Reports t.event) ∧ ∀ t ∈ tr, ∀ g, t.post.Member g := by
  refine ⟨_, rfl, ?_, ?_⟩
  · simp only [List.forall_mem_cons]
    exact ⟨by decide, by decide, by simp⟩
  · refine (run_membership [.join 0x010000e0 ⟨true, true⟩, .leave 0x010000e0 ⟨true, true⟩] _ rfl ?_).mpr ?_
    · simp only [List.forall_mem_cons]
      exact ⟨by decide, by decide, by simp⟩
    · simp only [List.forall_mem_cons]
      exact ⟨by decide, by decide, by simp⟩

theorem second_leave_reports_early :
    ∃ tr, trace step initial [.join 0x010000e0 ⟨true, true⟩, .join 0x010000e0 ⟨true, true⟩,
        .leave 0x010000e0 ⟨true, true⟩] = some tr ∧
      (∀ t ∈ tr, t.pre.Reports t.event) ∧ ∃ t ∈ tr, ¬ t.post.Member 0x010000e0 := by
  refine ⟨_, rfl, ?_, _, List.mem_cons_of_mem _ (List.mem_cons_of_mem _ (List.mem_cons_self ..)), ?_⟩
  · simp only [List.forall_mem_cons]
    exact ⟨by decide, by decide, by decide, by simp⟩
  · intro hm
    have := hm.1.mpr (by decide)
    revert this
    decide

end McastHistory

end DpdkTools
