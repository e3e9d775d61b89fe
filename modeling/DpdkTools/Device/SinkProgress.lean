import DpdkTools.Device.SinkCas
import Mathlib.Algebra.Order.BigOperators.Group.Finset
import Mathlib.Data.Finset.Card

/-! Every call of `attach_rx` and `detach_rx` returns, in every interleaving.

An attach whose compare-exchange fails ends in its second round. A detach starts a new round only
when an attach has published a table since its load, and an attach publishes once. So the steps
that are left have a bound: three for each detach, to be paid by every attach that still may publish. -/
namespace DpdkTools
open Runs
set_option autoImplicit false

def CasEvent.entered : CasEvent → Option ℕ
  | .enter i _ _ _ => some i
  | _ => none

def callsOf (es : List CasEvent) : Finset ℕ := (es.filterMap CasEvent.entered).toFinset

def CasEvent.callStep : CasEvent → ℕ
  | .run _ _ => 1
  | _ => 0

def callSteps (es : List CasEvent) : ℕ := (es.map CasEvent.callStep).sum

namespace CasState

/-- The locals at the compare-exchange: an attach has moved from `ch`, a detach has built nothing. -/
def Shaped (c : Call) : Prop :=
  ∀ active new, c.pc = .cas active new →
    (c.op = .attach → c.ch = none) ∧ (c.op = .detach → new = active)

theorem shaped_of_move (sh sh' : Shared) (c c' : Call) (svc : SvcTx) (hm : CallMove sh c svc sh' c') :
    Shaped c' := by
  intro active' new' hpc'
  cases hm with
  | build active hpc hop hch =>
    refine ⟨fun _ => rfl, fun hop' => ?_⟩
    exact absurd (hop.symm.trans hop') (by simp)
  | erase active hpc hop hfound =>
    refine ⟨fun hop' => absurd (hop.symm.trans hop') (by simp), fun _ => ?_⟩
    simp only [Pc.cas.injEq] at hpc'
    exact hpc'.2.symm.trans hpc'.1
  | load hpc => exact absurd hpc' (by simp)
  | refuse active hpc hop hch => exact absurd hpc' (by simp)
  | missing active hpc hop hfound => exact absurd hpc' (by simp)
  | swap active new hpc hactive => exact absurd hpc' (by simp)
  | retry active new hpc hactive => exact absurd hpc' (by simp)
  | adjust hpc hmcast => exact absurd hpc' (by simp)
  | finish hpc hmcast => exact absurd hpc' (by simp)

/-! ## The steps left -/

/-- The steps left to a call, with the rounds it can still cause in `n` other calls. -/
def stepsLeft (n : ℕ) (sh : Shared) (c : Call) : ℕ :=
  match c.op, c.pc with
  | .attach, .load => if c.ch = none then 3 else 3 * n + 6
  | .attach, .edit _ => if c.ch = none then 2 else 3 * n + 5
  | .attach, .cas _ _ => 3 * n + 4
  | .detach, .load => 4
  | .detach, .edit active => if active = sh.store.sinks then 3 else 6
  | .detach, .cas active _ => if active = sh.store.sinks then 2 else 5
  | _, .adjust => 1
  | _, .done _ => 0

theorem stepsLeft_le (n : ℕ) (sh sh' : Shared) (c : Call) :
    stepsLeft n sh' c ≤ stepsLeft n sh c + 3 := by
  unfold stepsLeft
  cases c.op with
  | attach => cases c.pc <;> simp
  | detach =>
    cases c.pc with
    | edit active =>
      simp only
      split_ifs <;> omega
    | cas active new =>
      simp only
      split_ifs <;> omega
    | load => simp
    | adjust => simp
    | done r => simp

theorem stepsLeft_congr (n : ℕ) (sh sh' : Shared) (c : Call)
    (h : sh'.store.sinks = sh.store.sinks) : stepsLeft n sh' c = stepsLeft n sh c := by
  unfold stepsLeft
  rw [h]

/-- A step costs one, and the publication of a table three more for every call. -/
theorem stepsLeft_move (n : ℕ) (sh sh' : Shared) (c c' : Call) (svc : SvcTx) (hshape : Shaped c)
    (hm : CallMove sh c svc sh' c') :
    (sh'.store.sinks = sh.store.sinks ∧ stepsLeft n sh' c' + 1 ≤ stepsLeft n sh c) ∨
      stepsLeft n sh' c' + 3 * n + 1 ≤ stepsLeft n sh c := by
  obtain ⟨op, ep, arg, ch, attempt, adjusts, pc⟩ := c
  cases hm with
  | load hpc =>
    obtain rfl : pc = .load := hpc
    left
    refine ⟨rfl, ?_⟩
    cases op with
    | attach =>
      simp only [stepsLeft]
      split_ifs <;> omega
    | detach => simp [stepsLeft]
  | refuse active hpc hop hch =>
    obtain rfl : pc = .edit active := hpc
    obtain rfl : op = .attach := hop
    left
    exact ⟨rfl, by simp [stepsLeft, show ch = none from hch]⟩
  | build active hpc hop hch =>
    obtain rfl : pc = .edit active := hpc
    obtain rfl : op = .attach := hop
    left
    refine ⟨rfl, ?_⟩
    simp only [stepsLeft, if_neg (show ¬ ch = none from hch)]
    omega
  | erase active hpc hop hfound =>
    obtain rfl : pc = .edit active := hpc
    obtain rfl : op = .detach := hop
    left
    refine ⟨rfl, ?_⟩
    show (if active = sh.store.sinks then 2 else 5) + 1 ≤ if active = sh.store.sinks then 3 else 6
    split_ifs <;> omega
  | missing active hpc hop hfound =>
    obtain rfl : pc = .edit active := hpc
    obtain rfl : op = .detach := hop
    left
    refine ⟨rfl, ?_⟩
    show 0 + 1 ≤ if active = sh.store.sinks then 3 else 6
    split_ifs <;> omega
  | swap active new hpc hactive =>
    obtain rfl : pc = .cas active new := hpc
    cases op with
    | attach =>
      right
      simp only [stepsLeft]
      omega
    | detach =>
      obtain rfl : new = active := (hshape active new rfl).2 rfl
      left
      refine ⟨hactive.symm, ?_⟩
      simp [stepsLeft, hactive]
  | retry active new hpc hactive =>
    obtain rfl : pc = .cas active new := hpc
    left
    refine ⟨rfl, ?_⟩
    cases op with
    | attach =>
      obtain rfl : ch = none := (hshape active new rfl).1 rfl
      simp only [stepsLeft, if_true]
      omega
    | detach => simp [stepsLeft, Ne.symm hactive]
  | adjust hpc hmcast =>
    obtain rfl : pc = .adjust := hpc
    left
    refine ⟨rfl, ?_⟩
    cases op <;> simp [stepsLeft]
  | finish hpc hmcast =>
    obtain rfl : pc = .adjust := hpc
    left
    refine ⟨rfl, ?_⟩
    cases op <;> simp [stepsLeft]

/-! ## A whole run -/

def slotLeft (n : ℕ) (sh : Shared) : Option Call → ℕ
  | none => 3 * n + 7
  | some c => stepsLeft n sh c

def runLeft (ids : Finset ℕ) (s : CasState) : ℕ :=
  ∑ k ∈ ids, slotLeft ids.card s.shared (s.calls k)

structure Counted (ids : Finset ℕ) (s : CasState) : Prop where
  shaped : ∀ i c, s.calls i = some c → Shaped c
  entered : ∀ i c, s.calls i = some c → i ∈ ids

theorem Counted.update {ids : Finset ℕ} {s : CasState} (h : Counted ids s) (sh' : Shared) (i : ℕ)
    (c' : Call) (hc' : Shaped c') (hi : i ∈ ids) :
    Counted ids ⟨sh', Function.update s.calls i (some c'), s.held⟩ := by
  constructor
  · intro k d hk
    rcases calls_update s i k c' d hk with ⟨_, rfl⟩ | ⟨_, hk⟩
    · exact hc'
    · exact h.shaped k d hk
  · intro k d hk
    rcases calls_update s i k c' d hk with ⟨rfl, _⟩ | ⟨_, hk⟩
    · exact hi
    · exact h.entered k d hk

theorem sum_pays (ids : Finset ℕ) (i b : ℕ) (f g : ℕ → ℕ) (hi : i ∈ ids)
    (hother : ∀ k, k ≠ i → g k ≤ f k + b) (hown : g i + b * ids.card + 1 ≤ f i) :
    ∑ k ∈ ids, g k + 1 ≤ ∑ k ∈ ids, f k := by
  have hrest : ∑ k ∈ ids.erase i, g k ≤ ∑ k ∈ ids.erase i, f k + b * (ids.erase i).card := by
    calc ∑ k ∈ ids.erase i, g k
        ≤ ∑ k ∈ ids.erase i, (f k + b) :=
          Finset.sum_le_sum fun k hk => hother k (Finset.ne_of_mem_erase hk)
      _ = ∑ k ∈ ids.erase i, f k + b * (ids.erase i).card := by
          rw [Finset.sum_add_distrib, Finset.sum_const, Nat.nsmul_eq_mul, Nat.mul_comm]
  have hcard : b * (ids.erase i).card ≤ b * ids.card :=
    Nat.mul_le_mul_left b (Finset.card_le_card (Finset.erase_subset ..))
  have hg := Finset.add_sum_erase ids g hi
  have hf := Finset.add_sum_erase ids f hi
  omega

theorem slotLeft_le (n : ℕ) (sh sh' : Shared) (c : Option Call) :
    slotLeft n sh' c ≤ slotLeft n sh c + 3 := by
  cases c with
  | none => exact Nat.le_add_right _ _
  | some c => exact stepsLeft_le n sh sh' c

theorem slotLeft_congr (n : ℕ) (sh sh' : Shared) (c : Option Call)
    (h : sh'.store.sinks = sh.store.sinks) : slotLeft n sh' c = slotLeft n sh c := by
  cases c with
  | none => rfl
  | some c => exact stepsLeft_congr n sh sh' c h

theorem stepsLeft_enter (n : ℕ) (sh : Shared) (op : CallOp) (ep : Ip4Endpoint)
    (ch : Option ChannelPtr) : stepsLeft n sh (.enter op ep ch) ≤ 3 * n + 7 := by
  cases op with
  | attach =>
    show (if ch = none then 3 else 3 * n + 6) ≤ 3 * n + 7
    split_ifs
    · omega
    · omega
  | detach =>
    show 4 ≤ 3 * n + 7
    omega

theorem step_runLeft (ids : Finset ℕ) (s : CasState) (e : CasEvent) (s' : CasState)
    (h : Counted ids s) (he : ∀ i, e.entered = some i → i ∈ ids) (hstep : s.step e = some s') :
    Counted ids s' ∧ runLeft ids s' + e.callStep ≤ runLeft ids s := by
  cases e with
  | enter i op ep ch =>
    obtain ⟨hi, rfl⟩ := s.step_enter s' i op ep ch hstep
    refine ⟨h.update s.shared i _ ?_ (he i rfl), ?_⟩
    · intro active new hpc
      exact absurd hpc (by simp [Call.enter])
    · apply Finset.sum_le_sum
      intro k _
      by_cases hki : k = i
      · subst hki
        simp only [Function.update_self, hi, slotLeft]
        exact stepsLeft_enter ids.card s.shared op ep ch
      · simp only [Function.update_of_ne hki]
        exact Nat.le_refl _
  | run i svc =>
    obtain ⟨c, sh', c', hc, hm, rfl⟩ := s.step_run s' i svc hstep
    have hi : i ∈ ids := h.entered i c hc
    refine ⟨h.update sh' i c' (shaped_of_move s.shared sh' c c' svc hm) hi, ?_⟩
    rcases stepsLeft_move ids.card s.shared sh' c c' svc (h.shaped i c hc) hm with ⟨hsinks, hpay⟩ | hpay
    · apply sum_pays ids i 0 _ _ hi
      · intro k hk
        simp only [Function.update_of_ne hk, slotLeft_congr ids.card s.shared sh' _ hsinks]
        exact Nat.le_refl _
      · simp only [Function.update_self, hc, slotLeft]
        omega
    · apply sum_pays ids i 3 _ _ hi
      · intro k hk
        simp only [Function.update_of_ne hk]
        exact slotLeft_le ids.card s.shared sh' _
      · simp only [Function.update_self, hc, slotLeft]
        omega
  | reload j =>
    obtain rfl := Option.some.inj hstep
    exact ⟨⟨h.shaped, h.entered⟩, Nat.le_refl _⟩

theorem mem_callsOf (es : List CasEvent) (e : CasEvent) (he : e ∈ es) (i : ℕ)
    (hi : e.entered = some i) : i ∈ callsOf es :=
  List.mem_toFinset.mpr (List.mem_filterMap.mpr ⟨e, he, hi⟩)

/-- The steps of `n` calls are at most `n * (3 * n + 7)`, in whatever order they come. -/
theorem run_callSteps_le (es : List CasEvent) (tr : List (Transition CasState CasEvent))
    (htr : trace step initial es = some tr) :
    callSteps es ≤ (callsOf es).card * (3 * (callsOf es).card + 7) := by
  have hcost := trace_cost (Counted (callsOf es)) (fun _ e => ∀ i, e.entered = some i → i ∈ callsOf es)
    (runLeft (callsOf es)) CasEvent.callStep (fun s e s' h he => step_runLeft _ s e s' h he)
    initial es tr htr ⟨by simp [initial], by simp [initial]⟩
    (fun t ht => mem_callsOf es t.event (trace_event_mem initial es tr htr t ht))
  have hstart : runLeft (callsOf es) initial =
      (callsOf es).card * (3 * (callsOf es).card + 7) := by
    simp [runLeft, initial, slotLeft]
  rw [hstart] at hcost
  exact (Nat.le_add_left _ _).trans hcost

theorem run_isSome (c : Call) (sh : Shared) (svc : SvcTx) (h : ∀ r, c.pc ≠ .done r) :
    (c.run sh svc).isSome := by
  obtain ⟨op, ep, arg, ch, attempt, adjusts, pc⟩ := c
  cases pc with
  | load => rfl
  | edit active =>
    cases op with
    | attach =>
      simp only [Call.run]
      split_ifs <;> rfl
    | detach =>
      simp only [Call.run]
      split_ifs <;> rfl
  | cas active new =>
    simp only [Call.run]
    split_ifs <;> rfl
  | adjust =>
    simp only [Call.run]
    split_ifs <;> rfl
  | done r => exact absurd rfl (h r)

theorem step_run_isSome (s : CasState) (i : ℕ) (c : Call) (svc : SvcTx) (hc : s.calls i = some c)
    (h : ∀ r, c.pc ≠ .done r) : (s.step (.run i svc)).isSome := by
  simp only [step, hc, Option.bind_some, Option.isSome_map]
  exact run_isSome c s.shared svc h

end CasState

end DpdkTools
