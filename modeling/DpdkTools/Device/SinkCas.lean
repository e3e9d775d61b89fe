import DpdkTools.Device.Attach
import DpdkTools.Lib.Runs

/-! `attach_rx` (over the sink table) and `detach_rx` as threads that share `sinks_`.

A call takes atomic steps: it loads `sinks_`, builds its new table, tries the compare-exchange, and
adjusts the multicast reference. An attach builds a copy, and moves its channel into it, so that a
second round finds the channel null. A detach builds nothing: its `sinks` is the loaded pointer, and
it erases in that vector. Receive jobs hold pointers that only their own reload replaces.

`CallMove` says once what a step of a call can do; all invariants are proved by its cases. -/
namespace DpdkTools
open Runs
set_option autoImplicit false

inductive CallOp where
  | attach
  | detach
  deriving Repr, DecidableEq

inductive Pc where
  | load
  | edit (active : TablePtr)
  | cas (active new : TablePtr)
  | adjust
  | done (r : CallResult)
  deriving Repr, DecidableEq

structure Call where
  op : CallOp
  ep : Ip4Endpoint
  /-- The argument; `ch` is the local variable, which an attach moves from. -/
  arg : Option ChannelPtr
  ch : Option ChannelPtr
  attempt : ℕ
  adjusts : ℕ
  pc : Pc
  deriving Repr, DecidableEq

def Call.enter (op : CallOp) (ep : Ip4Endpoint) (ch : Option ChannelPtr) : Call :=
  ⟨op, ep, ch, ch, 0, 0, .load⟩

def Call.isMcast (c : Call) : Bool := rteIsIpv4Mcast (rteBeToCpu32 c.ep.1)

-- `published` records the pointers that `sinks_` has held
structure Shared where
  store : SinkStore
  mcasts : Mcasts
  published : List TablePtr

def Shared.initial : Shared := ⟨SinkStore.initial, Mcasts.empty, [SinkStore.initial.sinks]⟩

def Shared.tables (sh : Shared) : TablePtr → Sinks := sh.store.tables

/-- A vector at a new address, not yet visible. -/
def Shared.build (sh : Shared) (sinks : Sinks) : Shared :=
  { sh with
    store :=
      { sh.store with
        tables := Function.update sh.tables sh.store.nextTable sinks
        nextTable := sh.store.nextTable + 1 } }

def Shared.overwrite (sh : Shared) (p : TablePtr) (sinks : Sinks) : Shared :=
  { sh with store := { sh.store with tables := Function.update sh.tables p sinks } }

def Shared.swap (sh : Shared) (new : TablePtr) : Shared :=
  { sh with store := { sh.store with sinks := new }, published := new :: sh.published }

/-- `find_sink(*sinks, ep.second)`, with the channel there compared to `ch`. -/
def Call.found (c : Call) (sinks : Sinks) : Bool :=
  sinks[findSink sinks c.ep.2]?.map Prod.snd = some c.ch

def Call.adjust (c : Call) (m : Mcasts) (svc : SvcTx) : Mcasts × ErrorCode :=
  match c.op with
  | .attach => m.joinMcast c.ep.1 svc
  | .detach => m.leaveMcast c.ep.1 svc

/-- The next step of a call; `none` when it has returned. -/
def Call.run (c : Call) (sh : Shared) (svc : SvcTx) : Option (Shared × Call) :=
  match c.pc with
  | .load => some (sh, { c with pc := .edit sh.store.sinks })
  | .edit active =>
    match c.op with
    | .attach =>
      if c.ch = none then some (sh, { c with pc := .done (.returned (some .addressInUse)) })
      else
        some (sh.build (sh.tables active ++ [(c.ep, c.ch)]),
          { c with ch := none, pc := .cas active sh.store.nextTable })
    | .detach =>
      if c.found (sh.tables active) then
        some (sh.overwrite active ((sh.tables active).eraseIdx (findSink (sh.tables active) c.ep.2)),
          { c with attempt := c.attempt + 1, pc := .cas active active })
      else
        some (sh, { c with
          pc := .done (if c.attempt = 0 then .returned (some .invalidArgument) else .success) })
  | .cas active new =>
    if sh.store.sinks = active then some (sh.swap new, { c with pc := .adjust })
    else some (sh, { c with pc := .load })
  | .adjust =>
    if c.isMcast then
      some ({ sh with mcasts := (c.adjust sh.mcasts svc).1 },
        { c with adjusts := c.adjusts + 1, pc := .done (.returned (c.adjust sh.mcasts svc).2) })
    else some (sh, { c with pc := .done .success })
  | .done _ => none

inductive CallMove (sh : Shared) (c : Call) (svc : SvcTx) : Shared → Call → Prop where
  | load (hpc : c.pc = .load) : CallMove sh c svc sh { c with pc := .edit sh.store.sinks }
  | refuse (active : TablePtr) (hpc : c.pc = .edit active) (hop : c.op = .attach) (hch : c.ch = none) :
      CallMove sh c svc sh { c with pc := .done (.returned (some .addressInUse)) }
  | build (active : TablePtr) (hpc : c.pc = .edit active) (hop : c.op = .attach) (hch : c.ch ≠ none) :
      CallMove sh c svc (sh.build (sh.tables active ++ [(c.ep, c.ch)]))
        { c with ch := none, pc := .cas active sh.store.nextTable }
  | erase (active : TablePtr) (hpc : c.pc = .edit active) (hop : c.op = .detach)
      (hfound : c.found (sh.tables active) = true) :
      CallMove sh c svc
        (sh.overwrite active ((sh.tables active).eraseIdx (findSink (sh.tables active) c.ep.2)))
        { c with attempt := c.attempt + 1, pc := .cas active active }
  | missing (active : TablePtr) (hpc : c.pc = .edit active) (hop : c.op = .detach)
      (hfound : c.found (sh.tables active) = false) :
      CallMove sh c svc sh { c with
        pc := .done (if c.attempt = 0 then .returned (some .invalidArgument) else .success) }
  | swap (active new : TablePtr) (hpc : c.pc = .cas active new) (hactive : sh.store.sinks = active) :
      CallMove sh c svc (sh.swap new) { c with pc := .adjust }
  | retry (active new : TablePtr) (hpc : c.pc = .cas active new) (hactive : sh.store.sinks ≠ active) :
      CallMove sh c svc sh { c with pc := .load }
  | adjust (hpc : c.pc = .adjust) (hmcast : c.isMcast = true) :
      CallMove sh c svc { sh with mcasts := (c.adjust sh.mcasts svc).1 }
        { c with adjusts := c.adjusts + 1, pc := .done (.returned (c.adjust sh.mcasts svc).2) }
  | finish (hpc : c.pc = .adjust) (hmcast : c.isMcast = false) :
      CallMove sh c svc sh { c with pc := .done .success }

theorem Call.run_move (c : Call) (sh : Shared) (svc : SvcTx) (r : Shared × Call)
    (h : c.run sh svc = some r) : CallMove sh c svc r.1 r.2 := by
  obtain ⟨op, ep, arg, ch, attempt, adjusts, pc⟩ := c
  cases pc with
  | load =>
    obtain rfl := Option.some.inj h
    exact .load rfl
  | edit active =>
    cases op with
    | attach =>
      by_cases hch : ch = none
      · simp only [Call.run, if_pos hch] at h
        obtain rfl := Option.some.inj h
        exact .refuse active rfl rfl hch
      · simp only [Call.run, if_neg hch] at h
        obtain rfl := Option.some.inj h
        exact .build active rfl rfl hch
    | detach =>
      cases hfound : Call.found ⟨.detach, ep, arg, ch, attempt, adjusts, .edit active⟩ (sh.tables active) with
      | true =>
        simp only [Call.run, hfound, if_true] at h
        obtain rfl := Option.some.inj h
        exact .erase active rfl rfl hfound
      | false =>
        simp only [Call.run, hfound, Bool.false_eq_true, if_false] at h
        obtain rfl := Option.some.inj h
        exact .missing active rfl rfl hfound
  | cas active new =>
    by_cases hactive : sh.store.sinks = active
    · simp only [Call.run, if_pos hactive] at h
      obtain rfl := Option.some.inj h
      exact .swap active new rfl hactive
    · simp only [Call.run, if_neg hactive] at h
      obtain rfl := Option.some.inj h
      exact .retry active new rfl hactive
  | adjust =>
    cases hmcast : Call.isMcast ⟨op, ep, arg, ch, attempt, adjusts, .adjust⟩ with
    | true =>
      simp only [Call.run, hmcast, if_true] at h
      obtain rfl := Option.some.inj h
      exact .adjust rfl hmcast
    | false =>
      simp only [Call.run, hmcast, Bool.false_eq_true, if_false] at h
      obtain rfl := Option.some.inj h
      exact .finish rfl hmcast
  | done r' => exact absurd h (by simp [Call.run])

theorem Call.run_of_move (c c' : Call) (sh sh' : Shared) (svc : SvcTx) (hm : CallMove sh c svc sh' c') :
    c.run sh svc = some (sh', c') := by
  unfold Call.run
  cases hm with
  | load hpc => simp only [hpc]
  | refuse active hpc hop hch => simp only [hpc, hop, hch, if_true]
  | build active hpc hop hch => simp only [hpc, hop, if_neg hch]
  | erase active hpc hop hfound => simp only [hpc, hop, hfound, if_true]
  | missing active hpc hop hfound => simp only [hpc, hop, hfound, Bool.false_eq_true, if_false]
  | swap active new hpc hactive => simp only [hpc, if_pos hactive]
  | retry active new hpc hactive => simp only [hpc, if_neg hactive]
  | adjust hpc hmcast => simp only [hpc, hmcast, if_true]
  | finish hpc hmcast => simp only [hpc, hmcast, Bool.false_eq_true, if_false]

/-! ## A call without a second thread -/

def Call.steps (svc : SvcTx) : ℕ → Shared → Call → Shared × Call
  | 0, sh, c => (sh, c)
  | n + 1, sh, c =>
    match c.run sh svc with
    | none => (sh, c)
    | some r => Call.steps svc n r.1 r.2

theorem Call.steps_succ (svc : SvcTx) (n : ℕ) (sh sh' : Shared) (c c' : Call)
    (hm : CallMove sh c svc sh' c') : Call.steps svc (n + 1) sh c = Call.steps svc n sh' c' := by
  simp only [Call.steps, c.run_of_move c' sh sh' svc hm]

theorem Call.steps_done (svc : SvcTx) (n : ℕ) (sh : Shared) (c : Call) (r : CallResult)
    (h : c.pc = .done r) : Call.steps svc n sh c = (sh, c) := by
  cases n with
  | zero => rfl
  | succ n => simp only [Call.steps, Call.run, h]

def Shared.Agrees (r : Shared × Call) (d : Device × CallResult) : Prop :=
  r.1.store = d.1.store ∧ r.1.mcasts = d.1.mcasts ∧ r.2.pc = .done d.2

section Alone
variable (d : Device) (published : List TablePtr) (ep : Ip4Endpoint) (ch : Option ChannelPtr)
  (svc : SvcTx)

theorem Call.adjust_alone (c : Call) (hpc : c.pc = .adjust) :
    Shared.Agrees (Call.steps svc 1 ⟨d.store, d.mcasts, published⟩ c)
      (match c.op with
        | .attach => d.joinEndpoint c.ep svc
        | .detach => d.leaveEndpoint c.ep svc) := by
  unfold Device.joinEndpoint Device.leaveEndpoint
  cases hm : c.isMcast with
  | true =>
    have hm' : rteIsIpv4Mcast (rteBeToCpu32 c.ep.1) = true := hm
    rw [Call.steps_succ svc 0 _ _ c _ (.adjust hpc hm)]
    simp only [hm', if_true]
    rcases hop : c.op with _ | _
    · simp [Shared.Agrees, Call.steps, Call.adjust, hop]
    · simp [Shared.Agrees, Call.steps, Call.adjust, hop]
  | false =>
    have hm' : rteIsIpv4Mcast (rteBeToCpu32 c.ep.1) = false := hm
    rw [Call.steps_succ svc 0 _ _ c _ (.finish hpc hm)]
    simp only [hm', Bool.false_eq_true, if_false]
    rcases c.op with _ | _
    · exact ⟨rfl, rfl, rfl⟩
    · exact ⟨rfl, rfl, rfl⟩

/-- Without a second thread an attach does what `attachRss` says. -/
theorem Call.attach_alone :
    Shared.Agrees (Call.steps svc 4 ⟨d.store, d.mcasts, published⟩ (.enter .attach ep ch))
      (d.attachRss ep ch svc) := by
  unfold Device.attachRss
  rw [Call.steps_succ svc 3 _ _ _ _ (.load rfl)]
  by_cases hch : ch = none
  · rw [if_pos hch, Call.steps_succ svc 2 _ _ _ _ (.refuse _ rfl rfl hch), Call.steps_done svc 2 _ _ _ rfl]
    exact ⟨rfl, rfl, rfl⟩
  · rw [if_neg hch, Call.steps_succ svc 2 _ _ _ _ (.build _ rfl rfl hch),
      Call.steps_succ svc 1 _ _ _ _ (.swap _ _ rfl rfl)]
    exact Call.adjust_alone { d with store := d.store.publish (d.table ++ [(ep, ch)]) } _ svc _ rfl

theorem Call.detach_alone :
    Shared.Agrees (Call.steps svc 4 ⟨d.store, d.mcasts, published⟩ (.enter .detach ep ch))
      (d.detachRx ep ch svc) := by
  unfold Device.detachRx
  rw [Call.steps_succ svc 3 _ _ _ _ (.load rfl)]
  cases hs : d.table[findSink d.table ep.2]? with
  | none =>
    have hfound : Call.found ⟨.detach, ep, ch, ch, 0, 0, .edit d.store.sinks⟩ d.table = false := by
      simp [Call.found, hs]
    rw [Call.steps_succ svc 2 _ _ _ _ (.missing _ rfl rfl hfound),
      Call.steps_done svc 2 _ _ _ rfl]
    exact ⟨rfl, rfl, rfl⟩
  | some s =>
    by_cases hch : s.2 = ch
    · have hfound : Call.found ⟨.detach, ep, ch, ch, 0, 0, .edit d.store.sinks⟩ d.table = true := by
        simp [Call.found, hs, hch]
      rw [Call.steps_succ svc 2 _ _ _ _ (.erase _ rfl rfl hfound),
        Call.steps_succ svc 1 _ _ _ _ (.swap _ _ rfl rfl)]
      simp only [hch, ne_eq, not_true_eq_false, if_false]
      exact Call.adjust_alone { d with store := d.store.eraseAt (findSink d.table ep.2) } _ svc _ rfl
    · have hfound : Call.found ⟨.detach, ep, ch, ch, 0, 0, .edit d.store.sinks⟩ d.table = false := by
        simp [Call.found, hs, hch]
      rw [Call.steps_succ svc 2 _ _ _ _ (.missing _ rfl rfl hfound),
        Call.steps_done svc 2 _ _ _ rfl]
      simp only [ne_eq, hch, not_false_eq_true, if_true]
      exact ⟨rfl, rfl, rfl⟩

end Alone

/-! ## The system -/

structure CasState where
  shared : Shared
  calls : ℕ → Option Call
  held : ℕ → TablePtr

inductive CasEvent where
  | enter (i : ℕ) (op : CallOp) (ep : Ip4Endpoint) (ch : Option ChannelPtr)
  | run (i : ℕ) (svc : SvcTx)
  | reload (j : ℕ)

namespace CasState

def initial : CasState := ⟨Shared.initial, fun _ => none, fun _ => SinkStore.initial.sinks⟩

def step (s : CasState) : CasEvent → Option CasState
  | .enter i op ep ch =>
    if s.calls i = none then some { s with calls := Function.update s.calls i (some (.enter op ep ch)) }
    else none
  | .run i svc =>
    (s.calls i).bind fun c =>
      (c.run s.shared svc).map fun r =>
        { s with shared := r.1, calls := Function.update s.calls i (some r.2) }
  | .reload j => some { s with held := Function.update s.held j s.shared.store.sinks }

theorem step_run (s s' : CasState) (i : ℕ) (svc : SvcTx) (h : s.step (.run i svc) = some s') :
    ∃ c sh' c', s.calls i = some c ∧ CallMove s.shared c svc sh' c' ∧
      s' = ⟨sh', Function.update s.calls i (some c'), s.held⟩ := by
  simp only [step, Option.bind_eq_some_iff, Option.map_eq_some_iff] at h
  obtain ⟨c, hc, r, hr, rfl⟩ := h
  exact ⟨c, r.1, r.2, hc, c.run_move s.shared svc r hr, rfl⟩

theorem step_enter (s s' : CasState) (i : ℕ) (op : CallOp) (ep : Ip4Endpoint) (ch : Option ChannelPtr)
    (h : s.step (.enter i op ep ch) = some s') :
    s.calls i = none ∧
      s' = { s with calls := Function.update s.calls i (some (.enter op ep ch)) } := by
  by_cases hi : s.calls i = none
  · simp only [step, if_pos hi] at h
    exact ⟨hi, (Option.some.inj h).symm⟩
  · simp [step, hi] at h

theorem calls_update (s : CasState) (i k : ℕ) (c' d : Call)
    (h : Function.update s.calls i (some c') k = some d) :
    (k = i ∧ d = c') ∨ (k ≠ i ∧ s.calls k = some d) := by
  by_cases hk : k = i
  · subst hk
    left
    exact ⟨rfl, (Option.some.inj (by simpa using h)).symm⟩
  · right
    exact ⟨hk, by simpa [Function.update_of_ne hk] using h⟩

theorem update_other (s : CasState) (i k : ℕ) (c' d : Call) (hk : k ≠ i) (h : s.calls k = some d) :
    Function.update s.calls i (some c') k = some d := by
  rw [Function.update_of_ne hk]
  exact h

theorem update_entered (s : CasState) (i k : ℕ) (c' d : Call) (hi : s.calls i = none)
    (h : s.calls k = some d) : Function.update s.calls i (some c') k = some d := by
  apply update_other s i k c' d _ h
  rintro rfl
  exact absurd (hi.symm.trans h) (by simp)

/-! ## Copy on write -/

/-- The pointers a call still works with have been published, or were built and are old. -/
def PtrsOk (sh : Shared) (c : Call) : Prop :=
  match c.pc with
  | .edit active => active ∈ sh.published
  | .cas active new => active ∈ sh.published ∧ new < sh.store.nextTable
  | _ => True

structure Inv (s : CasState) : Prop where
  sinks_published : s.shared.store.sinks ∈ s.shared.published
  published_old : ∀ p ∈ s.shared.published, p < s.shared.store.nextTable
  held_published : ∀ j, s.held j ∈ s.shared.published
  calls : ∀ i c, s.calls i = some c → PtrsOk s.shared c

theorem inv_initial : initial.Inv where
  sinks_published := by simp [initial, Shared.initial]
  published_old := by simp [initial, Shared.initial, SinkStore.initial]
  held_published := by simp [initial, Shared.initial]
  calls := by simp [initial]

theorem ptrsOk_mono (sh sh' : Shared) (c : Call) (hpub : sh.published ⊆ sh'.published)
    (hnext : sh.store.nextTable ≤ sh'.store.nextTable) (h : PtrsOk sh c) : PtrsOk sh' c := by
  unfold PtrsOk at h ⊢
  cases hpc : c.pc with
  | edit active =>
    simp only [hpc] at h ⊢
    exact hpub h
  | cas active new =>
    simp only [hpc] at h ⊢
    exact ⟨hpub h.1, Nat.lt_of_lt_of_le h.2 hnext⟩
  | load => exact trivial
  | adjust => exact trivial
  | done r => exact trivial

theorem move_pointers (sh sh' : Shared) (c c' : Call) (svc : SvcTx) (hm : CallMove sh c svc sh' c')
    (hsinks : sh.store.sinks ∈ sh.published) (hold : ∀ p ∈ sh.published, p < sh.store.nextTable)
    (hc : PtrsOk sh c) :
    sh'.store.sinks ∈ sh'.published ∧ (∀ p ∈ sh'.published, p < sh'.store.nextTable) ∧
      sh.published ⊆ sh'.published ∧ sh.store.nextTable ≤ sh'.store.nextTable ∧ PtrsOk sh' c' := by
  unfold PtrsOk at hc
  cases hm with
  | load hpc => exact ⟨hsinks, hold, fun _ h => h, Nat.le_refl _, hsinks⟩
  | refuse active hpc hop hch => exact ⟨hsinks, hold, fun _ h => h, Nat.le_refl _, trivial⟩
  | build active hpc hop hch =>
    simp only [hpc] at hc
    exact ⟨hsinks, fun p hp => Nat.lt_succ_of_lt (hold p hp), fun _ h => h, Nat.le_succ _, hc,
      Nat.lt_succ_self _⟩
  | erase active hpc hop hfound =>
    simp only [hpc] at hc
    exact ⟨hsinks, hold, fun _ h => h, Nat.le_refl _, hc, hold active hc⟩
  | missing active hpc hop hfound => exact ⟨hsinks, hold, fun _ h => h, Nat.le_refl _, trivial⟩
  | swap active new hpc hactive =>
    simp only [hpc] at hc
    refine ⟨List.mem_cons_self .., ?_, fun _ h => List.mem_cons_of_mem _ h, Nat.le_refl _, trivial⟩
    intro p hp
    rcases List.mem_cons.mp hp with rfl | hp
    · exact hc.2
    · exact hold p hp
  | retry active new hpc hactive => exact ⟨hsinks, hold, fun _ h => h, Nat.le_refl _, trivial⟩
  | adjust hpc hmcast => exact ⟨hsinks, hold, fun _ h => h, Nat.le_refl _, trivial⟩
  | finish hpc hmcast => exact ⟨hsinks, hold, fun _ h => h, Nat.le_refl _, trivial⟩

theorem step_inv (s : CasState) (e : CasEvent) (s' : CasState) (h : s.Inv) (hstep : s.step e = some s') :
    s'.Inv := by
  cases e with
  | enter i op ep ch =>
    obtain ⟨_, rfl⟩ := s.step_enter s' i op ep ch hstep
    refine ⟨h.sinks_published, h.published_old, h.held_published, ?_⟩
    intro k c hk
    rcases calls_update s i k _ c hk with ⟨_, rfl⟩ | ⟨_, hk⟩
    · exact trivial
    · exact h.calls k c hk
  | run i svc =>
    obtain ⟨c, sh', c', hc, hmove, rfl⟩ := s.step_run s' i svc hstep
    obtain ⟨hsinks, hold, hpub, hnext, hc'⟩ := move_pointers s.shared sh' c c' svc hmove
      h.sinks_published h.published_old (h.calls i c hc)
    refine ⟨hsinks, hold, fun j => hpub (h.held_published j), ?_⟩
    intro k d hk
    rcases calls_update s i k c' d hk with ⟨_, rfl⟩ | ⟨_, hk⟩
    · exact hc'
    · exact ptrsOk_mono s.shared sh' d hpub hnext (h.calls k d hk)
  | reload j =>
    obtain rfl := Option.some.inj hstep
    refine ⟨h.sinks_published, h.published_old, ?_, h.calls⟩
    intro k
    by_cases hkj : k = j
    · subst hkj
      simpa using h.sinks_published
    · simpa [Function.update_of_ne hkj] using h.held_published k

def Swaps (s : CasState) (e : CasEvent) : Prop :=
  ∃ i svc c active new, e = .run i svc ∧ s.calls i = some c ∧ c.pc = .cas active new ∧
    s.shared.store.sinks = active

def Erases (s : CasState) (e : CasEvent) : Prop :=
  ∃ i svc c active, e = .run i svc ∧ s.calls i = some c ∧ c.op = .detach ∧ c.pc = .edit active ∧
    c.found (s.shared.tables active) = true

/-- A published vector stays as it is, the table a job holds changes by its own reload only, and the
visible table by a successful compare-exchange only. -/
structure CopyOnWrite (t : Transition CasState CasEvent) : Prop where
  published : ∀ p ∈ t.pre.shared.published, t.post.shared.tables p = t.pre.shared.tables p
  held : ∀ j, t.event ≠ .reload j → t.post.held j = t.pre.held j ∧
    t.post.shared.tables (t.post.held j) = t.pre.shared.tables (t.pre.held j)
  visible : t.post.shared.store.table ≠ t.pre.shared.store.table → t.pre.Swaps t.event

/-- Every move but an erase leaves the published vectors alone, and every move but a swap the
published pointer. -/
theorem move_tables (sh sh' : Shared) (c c' : Call) (svc : SvcTx) (hm : CallMove sh c svc sh' c')
    (hold : ∀ p ∈ sh.published, p < sh.store.nextTable)
    (hne : ∀ active, c.op = .detach → c.pc = .edit active → c.found (sh.tables active) = false) :
    (∀ p ∈ sh.published, sh'.tables p = sh.tables p) ∧
      (sh'.store.sinks = sh.store.sinks ∨
        ∃ active new, c.pc = .cas active new ∧ sh.store.sinks = active) := by
  cases hm with
  | build active hpc hop hch =>
    refine ⟨?_, Or.inl rfl⟩
    intro p hp
    exact Function.update_of_ne (Nat.ne_of_lt (hold p hp)) ..
  | erase active hpc hop hfound =>
    rw [hne active hop hpc] at hfound
    exact absurd hfound (by simp)
  | swap active new hpc hactive => exact ⟨fun _ _ => rfl, Or.inr ⟨active, new, hpc, hactive⟩⟩
  | load hpc => exact ⟨fun _ _ => rfl, Or.inl rfl⟩
  | refuse active hpc hop hch => exact ⟨fun _ _ => rfl, Or.inl rfl⟩
  | missing active hpc hop hfound => exact ⟨fun _ _ => rfl, Or.inl rfl⟩
  | retry active new hpc hactive => exact ⟨fun _ _ => rfl, Or.inl rfl⟩
  | adjust hpc hmcast => exact ⟨fun _ _ => rfl, Or.inl rfl⟩
  | finish hpc hmcast => exact ⟨fun _ _ => rfl, Or.inl rfl⟩

theorem copyOnWrite_of_not_erases (s : CasState) (e : CasEvent) (s' : CasState) (h : s.Inv)
    (hne : ¬ s.Erases e) (hstep : s.step e = some s') : CopyOnWrite ⟨s, e, s'⟩ := by
  cases e with
  | enter i op ep ch =>
    obtain ⟨_, rfl⟩ := s.step_enter s' i op ep ch hstep
    exact ⟨fun _ _ => rfl, fun _ _ => ⟨rfl, rfl⟩, fun hv => absurd rfl hv⟩
  | reload j =>
    obtain rfl := Option.some.inj hstep
    refine ⟨fun _ _ => rfl, ?_, fun hv => absurd rfl hv⟩
    intro k hk
    have hkj : k ≠ j := by
      rintro rfl
      exact hk rfl
    simp [Function.update_of_ne hkj]
  | run i svc =>
    obtain ⟨c, sh', c', hc, hmove, rfl⟩ := s.step_run s' i svc hstep
    have hnot : ∀ active, c.op = .detach → c.pc = .edit active →
        c.found (s.shared.tables active) = false := by
      intro active hop hpc
      by_contra hf
      exact hne ⟨i, svc, c, active, rfl, hc, hop, hpc, by simpa using hf⟩
    obtain ⟨htables, hsinks⟩ := move_tables s.shared sh' c c' svc hmove h.published_old hnot
    refine ⟨htables, fun j _ => ⟨rfl, htables _ (h.held_published j)⟩, ?_⟩
    intro hv
    rcases hsinks with hs | ⟨active, new, hpc, hactive⟩
    · refine absurd ?_ hv
      show sh'.tables sh'.store.sinks = s.shared.tables s.shared.store.sinks
      rw [hs, htables _ h.sinks_published]
    · exact ⟨i, svc, c, active, new, rfl, hc, hpc, hactive⟩

theorem found_lt (c : Call) (sinks : Sinks) (h : c.found sinks = true) :
    findSink sinks c.ep.2 < sinks.length := by
  unfold Call.found at h
  by_contra hlt
  rw [List.getElem?_eq_none (Nat.le_of_not_lt hlt)] at h
  simp at h

theorem erases_not_copyOnWrite (s : CasState) (e : CasEvent) (s' : CasState) (h : s.Inv)
    (he : s.Erases e) (hstep : s.step e = some s') : ¬ CopyOnWrite ⟨s, e, s'⟩ := by
  obtain ⟨i, svc, c, active, rfl, hc, hop, hpc, hfound⟩ := he
  intro hcow
  have hactive : active ∈ s.shared.published := by
    have := h.calls i c hc
    simpa only [PtrsOk, hpc] using this
  have hrun : c.run s.shared svc = some (s.shared.overwrite active
      ((s.shared.tables active).eraseIdx (findSink (s.shared.tables active) c.ep.2)),
      { c with attempt := c.attempt + 1, pc := .cas active active }) := by
    simp only [Call.run, hpc, hop, hfound, if_true]
  simp only [step, hc, Option.bind_some, hrun, Option.map_some, Option.some.injEq] at hstep
  subst hstep
  have hsame := hcow.published active hactive
  have hnew : ((s.shared.overwrite active ((s.shared.tables active).eraseIdx
      (findSink (s.shared.tables active) c.ep.2))).tables active) =
      (s.shared.tables active).eraseIdx (findSink (s.shared.tables active) c.ep.2) :=
    Function.update_self ..
  have hlen : ((s.shared.tables active).eraseIdx (findSink (s.shared.tables active) c.ep.2)).length =
      (s.shared.tables active).length := congrArg List.length (hnew.symm.trans hsame)
  have hlt := found_lt c _ hfound
  rw [List.length_eraseIdx_of_lt hlt] at hlen
  omega

/-- Over every interleaving: the tables are copy-on-write exactly when no detach erases. -/
theorem run_copyOnWrite_iff (es : List CasEvent) (tr : List (Transition CasState CasEvent))
    (htr : trace step initial es = some tr) :
    (∀ t ∈ tr, CopyOnWrite t) ↔ ∀ t ∈ tr, ¬ t.pre.Erases t.event := by
  obtain ⟨_, hinv⟩ := trace_invariant Inv (fun _ _ => True) (fun s e s' h _ => step_inv s e s' h)
    initial es tr htr inv_initial (fun _ _ => trivial)
  have hsteps : ∀ t ∈ tr, t.pre.step t.event = some t.post :=
    trace_forall (fun s e s' => s.step e = some s') (fun _ _ _ h => h) _ _ _ htr
  constructor
  · intro hcow t ht he
    exact erases_not_copyOnWrite _ _ _ (hinv t ht).1 he (hsteps t ht) (hcow t ht)
  · intro hne t ht
    exact copyOnWrite_of_not_erases _ _ _ (hinv t ht).1 (hne t ht) (hsteps t ht)

theorem run_copyOnWrite_attach :
    ∃ tr, trace step initial [.enter 0 .attach (1, 1) (some 7), .run 0 ⟨true, true⟩,
        .run 0 ⟨true, true⟩, .reload 0, .run 0 ⟨true, true⟩, .reload 0] = some tr ∧
      ∀ t ∈ tr, CopyOnWrite t := by
  refine ⟨_, rfl, ?_⟩
  refine (run_copyOnWrite_iff [.enter 0 .attach (1, 1) (some 7), .run 0 ⟨true, true⟩,
    .run 0 ⟨true, true⟩, .reload 0, .run 0 ⟨true, true⟩, .reload 0] _ rfl).mpr ?_
  intro t ht he
  obtain ⟨i, svc, c, active, hev, hc, hop, -⟩ := he
  simp only [List.mem_cons, List.not_mem_nil, or_false] at ht
  rcases ht with rfl | rfl | rfl | rfl | rfl | rfl
  all_goals simp only [reduceCtorEq, CasEvent.run.injEq] at hev
  all_goals obtain ⟨rfl, -⟩ := hev
  all_goals obtain rfl := Option.some.inj hc
  all_goals exact absurd hop (by decide)

theorem detach_edits_published :
    ∃ tr, trace step initial [.enter 0 .attach (1, 1) (some 7), .run 0 ⟨true, true⟩,
        .run 0 ⟨true, true⟩, .run 0 ⟨true, true⟩, .run 0 ⟨true, true⟩, .reload 0,
        .enter 1 .detach (1, 1) (some 7), .run 1 ⟨true, true⟩, .run 1 ⟨true, true⟩] = some tr ∧
      ∃ t ∈ tr, 1 ∈ t.pre.shared.published ∧ t.pre.held 0 = 1 ∧
        t.post.shared.tables 1 ≠ t.pre.shared.tables 1 ∧ ¬ CopyOnWrite t := by
  refine ⟨_, rfl, _, List.mem_of_getElem? (i := 8) rfl, by decide, by decide, by decide, ?_⟩
  intro hcow
  exact absurd (hcow.published 1 (by decide)) (by decide)

end CasState

end DpdkTools
