import DpdkTools.Flow.Rules

/-! The flow objects as `FlowQueue` has them, with the rules in place of the pointers.

The operations of `FlowQueue` read the answers of the NIC and no NIC. They are what happens on the NIC:
an object's rules change as its `FlowQueue` does, and every other object keeps its own. -/
namespace DpdkTools
open Runs
set_option autoImplicit false

/-! ## The rules behind a list of pointers -/

section Behind
variable {α β : Type}

/-- What is left of a list when the `k`-th answer from `calls` on says whether the `k`-th element goes. -/
def survivors (answers : ℕ → Bool) (calls : ℕ) (l : List α) : List α :=
  ((l.zipIdx calls).filter fun f => !answers f.2).map Prod.fst

theorem survivors_cons (answers : ℕ → Bool) (calls : ℕ) (a : α) (l : List α) :
    survivors answers calls (a :: l) =
      if answers calls then survivors answers (calls + 1) l
      else a :: survivors answers (calls + 1) l := by
  rw [survivors, List.zipIdx_cons, List.filter_cons]
  cases answers calls <;> rfl

theorem survivors_map (g : α → β) (answers : ℕ → Bool) (l : List α) (calls : ℕ) :
    survivors answers calls (l.map g) = (survivors answers calls l).map g := by
  induction l generalizing calls with
  | nil => rfl
  | cons a l ih =>
    rw [List.map_cons, survivors_cons, survivors_cons, ih]
    split_ifs <;> rfl

theorem filterMap_of_map_some (g : α → Option β) (l : List α) (vs : List β) (h : l.map g = vs.map some) :
    l.filterMap g = vs := by
  have hid : (l.map g).filterMap id = (vs.map some).filterMap id := congrArg _ h
  simpa [List.filterMap_map] using hid

theorem map_some_of_present (g : α → Option β) (l : List α) (h : ∀ a ∈ l, g a ≠ none) :
    l.map g = (l.filterMap g).map some := by
  induction l with
  | nil => rfl
  | cons a l ih =>
    obtain ⟨b, hb⟩ := Option.ne_none_iff_exists'.mp (h a List.mem_cons_self)
    rw [List.map_cons, List.filterMap_cons_some hb, List.map_cons, hb,
      ih fun a' ha' => h a' (List.mem_cons_of_mem _ ha')]

end Behind

namespace FlowPort

theorem destroyAll_survivors (answers : ℕ → Bool) (fs : List FlowPtr) (calls : ℕ) (p : FlowPort) :
    (destroyAll answers calls p fs).2 = survivors answers calls fs := by
  induction fs generalizing calls p with
  | nil => rfl
  | cons f fs ih => rw [survivors_cons, destroyAll, ih]

theorem destroyBack_rest (rules : FlowPtr → Option FlowRule) (env : FlowEnv) (fs : List FlowPtr)
    (vs : List FlowRule) (calls : ℕ) (p : FlowPort) (h : fs.map rules = vs.map some) :
    (destroyBack env.destroy calls p fs).2.1.map rules =
        (FlowQueue.destroyRest env calls vs).1.map some ∧
      (destroyBack env.destroy calls p fs).2.2 = (FlowQueue.destroyRest env calls vs).2 := by
  induction fs generalizing vs calls p with
  | nil =>
    obtain rfl := List.map_eq_nil_iff.mp h.symm
    exact ⟨rfl, rfl⟩
  | cons f fs ih =>
    cases vs with
    | nil => exact absurd h (by simp)
    | cons v vs =>
      rw [destroyBack, FlowQueue.destroyRest]
      split_ifs
      · exact ih vs (calls + 1) _ (List.cons.inj h).2
      · exact ⟨h, rfl⟩

end FlowPort

/-! ## One operation -/

namespace FlowObject

def view (rules : FlowPtr → Option FlowRule) (q : FlowObject) : FlowQueue :=
  ⟨q.queueId, q.flows.filterMap rules, q.channel⟩

theorem view_congr {rules rules' : FlowPtr → Option FlowRule} (q : FlowObject)
    (h : ∀ f ∈ q.flows, rules' f = rules f) : q.view rules' = q.view rules := by
  rw [view, view, List.filterMap_congr h]

/-- The operation does on the NIC what its counterpart does, and answers the same. -/
def Answers (r : FlowPort × FlowObject × ErrorCode) (v : FlowQueue × ErrorCode) : Prop :=
  r.2.1.view r.1.rules = v.1 ∧ r.2.2 = v.2

variable {q : FlowObject} {p : FlowPort} {create : Option FlowPtr}

theorem routeTo_answers (hnew : FlowState.New p create) (hin : ∀ f ∈ q.flows, p.rules f ≠ none)
    (answers : ℕ → Bool) (ep : Ip4Endpoint) :
    Answers (q.routeTo p create ep) ((q.view p.rules).routeTo ⟨answers, create.isSome⟩ ep) := by
  cases create with
  | none => exact ⟨rfl, rfl⟩
  | some f =>
    refine ⟨?_, rfl⟩
    have hsame : ∀ g ∈ q.flows, Function.update p.rules f (some (makeUdpFlow q.queueId ep)) g = p.rules g := by
      intro g hg
      refine Function.update_of_ne ?_ _ _
      rintro rfl
      exact hin g hg (hnew g rfl)
    have hself : [f].filterMap (Function.update p.rules f (some (makeUdpFlow q.queueId ep))) =
        [makeUdpFlow q.queueId ep] := by
      rw [List.filterMap_cons_some (Function.update_self ..)]
      rfl
    change FlowQueue.mk q.queueId ((q.flows ++ [f]).filterMap
      (Function.update p.rules f (some (makeUdpFlow q.queueId ep)))) q.channel = _
    rw [List.filterMap_append, List.filterMap_congr hsame, hself]
    rfl

theorem start_answers (hnew : FlowState.New p create) (hin : ∀ f ∈ q.flows, p.rules f ≠ none)
    (answers : ℕ → Bool) :
    Answers (q.start p create) ((q.view p.rules).start ⟨answers, create.isSome⟩) := by
  have hempty : (q.view p.rules).flows = [] ↔ q.flows = [] := by
    have hmap := congrArg List.length (map_some_of_present p.rules q.flows hin)
    rw [List.length_map, List.length_map] at hmap
    rw [← List.length_eq_zero_iff, ← List.length_eq_zero_iff, hmap]
    rfl
  rw [start, FlowQueue.start]
  split_ifs with hleft hright hright
  · exact routeTo_answers hnew hin answers _
  · exact absurd (hempty.mpr hleft) hright
  · exact absurd (hempty.mp hright) hleft
  · exact ⟨rfl, rfl⟩

end FlowObject

/-- The destroying part of `reset(ch, ep)`. -/
def FlowQueue.clear (q : FlowQueue) (env : FlowEnv) : FlowQueue × ErrorCode :=
  let rest := destroyRest env q.flows.length (q.resetFlows env).flows.reverse
  ({ q with flows := rest.1.reverse }, rest.2)

theorem FlowQueue.reset_clear (q : FlowQueue) (env : FlowEnv) (ch : Option ChannelPtr) (ep : Ip4Endpoint) :
    q.reset env ch ep =
      match q.clear env with
      | (q', some e) => (q', some e)
      | (q', none) => { q' with channel := ch }.routeTo env ep := by
  unfold reset clear
  dsimp only
  generalize destroyRest env q.flows.length (q.resetFlows env).flows.reverse = r
  obtain ⟨rest, error⟩ := r
  cases error <;> rfl

namespace FlowObject
variable {q : FlowObject} {p : FlowPort} {create : Option FlowPtr}

theorem clear_shown (hin : ∀ f ∈ q.flows, p.rules f ≠ none) (env : FlowEnv) :
    (q.clear p env.destroy).2.1.flows.map p.rules = ((q.view p.rules).clear env).1.flows.map some ∧
      (q.clear p env.destroy).2.2 = ((q.view p.rules).clear env).2 := by
  have hshown := map_some_of_present p.rules q.flows hin
  have hlength : (q.flows.filterMap p.rules).length = q.flows.length := by
    have hmap := congrArg List.length hshown
    rw [List.length_map, List.length_map] at hmap
    exact hmap.symm
  have hfirst : (q.resetFlows p env.destroy).2.flows.reverse.map p.rules =
      (survivors env.destroy 0 (q.flows.filterMap p.rules)).reverse.map some := by
    change (FlowPort.destroyAll env.destroy 0 p q.flows).2.reverse.map p.rules = _
    rw [FlowPort.destroyAll_survivors, List.map_reverse, List.map_reverse, ← survivors_map, hshown,
      survivors_map]
  obtain ⟨hleft, herror⟩ := FlowPort.destroyBack_rest p.rules env _ _ q.flows.length
    (q.resetFlows p env.destroy).1 hfirst
  constructor
  · change (FlowPort.destroyBack env.destroy q.flows.length (q.resetFlows p env.destroy).1
        (q.resetFlows p env.destroy).2.flows.reverse).2.1.reverse.map p.rules =
      (FlowQueue.destroyRest env (q.flows.filterMap p.rules).length
        (survivors env.destroy 0 (q.flows.filterMap p.rules)).reverse).1.reverse.map some
    rw [hlength, List.map_reverse, List.map_reverse, hleft]
  · change _ = (FlowQueue.destroyRest env (q.flows.filterMap p.rules).length
      (survivors env.destroy 0 (q.flows.filterMap p.rules)).reverse).2
    rw [hlength]
    exact herror

section Clear
variable (hnodup : q.flows.Nodup) (hin : ∀ f ∈ q.flows, p.rules f ≠ none)
include hnodup hin

/-- What `clear` keeps is still there, and the rest of the NIC is as it was. -/
theorem clear_kept (answers : ℕ → Bool) :
    ∀ f ∈ (q.clear p answers).2.1.flows, (q.clear p answers).1.rules f = p.rules f ∧ p.rules f ≠ none := by
  obtain ⟨gone, hgone, hperm⟩ := clear_destroyed answers hnodup hin
  intro f hf
  have hout : f ∉ gone := fun h => (List.nodup_append.mp (hperm.nodup hnodup)).2.2 f h f hf rfl
  refine ⟨by rw [hgone.rules, if_neg hout], hin f ?_⟩
  exact hperm.mem_iff.mpr (List.mem_append_right _ hf)

theorem clear_answers (env : FlowEnv) :
    Answers (q.clear p env.destroy) ((q.view p.rules).clear env) := by
  obtain ⟨hflows, herror⟩ := clear_shown hin env
  refine ⟨?_, herror⟩
  rw [view_congr _ fun f hf => (clear_kept hnodup hin env.destroy f hf).1, view,
    filterMap_of_map_some p.rules _ _ hflows]
  rfl

theorem reset_answers (answers : ℕ → Bool) (hnew : FlowState.New (q.clear p answers).1 create)
    (ch : Option ChannelPtr) (ep : Ip4Endpoint) :
    Answers (q.reset p answers create ch ep)
      ((q.view p.rules).reset ⟨answers, create.isSome⟩ ch ep) := by
  obtain ⟨hview, herror⟩ := clear_answers hnodup hin ⟨answers, create.isSome⟩
  have hkept := clear_kept hnodup hin answers
  rw [FlowQueue.reset_clear]
  dsimp only at hview herror
  unfold reset
  split
  · next p' q' e hclear =>
    rw [hclear] at hview herror
    dsimp only at hview herror
    split
    · next v e' hv =>
      rw [hv] at hview herror
      exact ⟨hview, herror⟩
    · next v hv =>
      rw [hv] at herror
      exact absurd herror (Option.some_ne_none e)
  · next p' q' hclear =>
    rw [hclear] at hview herror hkept hnew
    dsimp only at hview herror
    split
    · next v e' hv =>
      rw [hv] at herror
      exact absurd herror.symm (Option.some_ne_none e')
    · next v hv =>
      rw [hv] at hview
      obtain rfl := hview
      have hthere : ∀ f ∈ q'.flows, p'.rules f ≠ none := by
        intro f hf
        obtain ⟨hsame, hne⟩ := hkept f hf
        rwa [hsame]
      exact routeTo_answers (q := { q' with channel := ch }) hnew hthere answers ep

end Clear

end FlowObject

/-! ## Runs -/

/-- The operations on the objects of a port, over the rules alone. -/
def rulesStep (vs : List FlowQueue) : FlowEvent → List FlowQueue
  | .construct queueId => vs ++ [⟨queueId, [], none⟩]
  | .start i create =>
    match vs[i]? with
    | none => vs
    | some v => vs.set i (v.start ⟨fun _ => false, create.isSome⟩).1
  | .routeTo i ep create =>
    match vs[i]? with
    | none => vs
    | some v => vs.set i (v.routeTo ⟨fun _ => false, create.isSome⟩ ep).1
  | .reset i ch ep answers create =>
    match vs[i]? with
    | none => vs
    | some v => vs.set i (v.reset ⟨answers, create.isSome⟩ ch ep).1
  | .move i =>
    match vs[i]? with
    | none => vs
    | some v =>
      if v.channel = none then vs.set i { v with flows := [] } ++ [v] else vs.set i { v with flows := [] }
  | .destruct i _ => vs.eraseIdx i

namespace FlowState

def views (s : FlowState) : List FlowQueue := s.objects.map (FlowObject.view s.port.rules)

section Step
variable {s : FlowState} {i : ℕ} {q : FlowObject} (h : Owned s) (hq : s.objects[i]? = some q)
include h hq

/-- The other objects see none of it. -/
theorem Owned.view_other {p' : FlowPort} {q' : FlowObject} {gone kept new : List FlowPtr}
    (he : FlowEffect s.port q p' q' gone kept new) :
    ∀ x ∈ s.objects.eraseIdx i, x.view p'.rules = x.view s.port.rules := by
  intro x hx
  apply FlowObject.view_congr
  intro f hf
  have hrest : f ∈ s.rest i := List.mem_append_left _ (List.mem_flatMap.mpr ⟨x, hx, hf⟩)
  exact h.same hq he f (List.mem_append_right _ hrest)

theorem Owned.views_put {r : FlowPort × FlowObject × ErrorCode} {gone kept new : List FlowPtr}
    (he : FlowEffect s.port q r.1 r.2.1 gone kept new) :
    (s.put i r).views = s.views.set i (r.2.1.view r.1.rules) := by
  have hi := (List.getElem?_eq_some_iff.mp hq).1
  apply List.ext_getElem?
  intro j
  change ((s.objects.set i r.2.1).map (FlowObject.view r.1.rules))[j]? =
    ((s.objects.map (FlowObject.view s.port.rules)).set i (r.2.1.view r.1.rules))[j]?
  by_cases hj : i = j
  · subst hj
    rw [List.getElem?_map, List.getElem?_set_self hi, List.getElem?_set_self (by rwa [List.length_map])]
    rfl
  · rw [List.getElem?_map, List.getElem?_set_ne hj, List.getElem?_set_ne hj, List.getElem?_map]
    cases hx : s.objects[j]? with
    | none => rfl
    | some x =>
      have hmem : x ∈ s.objects.eraseIdx i :=
        List.mem_eraseIdx_iff_getElem?.mpr ⟨j, fun hji => hj hji.symm, hx⟩
      rw [Option.map_some, Option.map_some, h.view_other hq he x hmem]

theorem Owned.views_destruct (answers : ℕ → Bool) :
    (s.destruct i q answers).views = s.views.eraseIdx i := by
  obtain ⟨gone, hgone, hperm⟩ := FlowObject.resetFlows_destroyed answers (h.nodup hq) (h.present hq)
  have he : FlowEffect s.port q (q.resetFlows s.port answers).1 (q.resetFlows s.port answers).2 gone
      (q.resetFlows s.port answers).2.flows [] := FlowObject.effect_destroyed hgone _ rfl hperm
  change (s.objects.eraseIdx i).map (FlowObject.view (q.resetFlows s.port answers).1.rules) =
    (s.objects.map (FlowObject.view s.port.rules)).eraseIdx i
  rw [List.eraseIdx_map]
  exact List.map_congr_left (h.view_other hq he)

/-- The rules change as those of the `FlowQueue`s do. -/
theorem Owned.puts_views {e : FlowEvent} {r : FlowPort × FlowObject × ErrorCode}
    (hputs : Puts s e i q r) : s.views.set i (r.2.1.view r.1.rules) = rulesStep s.views e := by
  have hview : s.views[i]? = some (q.view s.port.rules) := by
    rw [views, List.getElem?_map, hq, Option.map_some]
  cases hputs with
  | start _ _ create hnew =>
    rw [rulesStep, hview, (FlowObject.start_answers hnew (h.present hq) _).1]
  | routeTo _ _ ep create hnew =>
    rw [rulesStep, hview, (FlowObject.routeTo_answers hnew (h.present hq) _ ep).1]
  | reset _ _ ch ep answers create hnew =>
    rw [rulesStep, hview, (FlowObject.reset_answers (h.nodup hq) (h.present hq) answers hnew ch ep).1]

end Step

theorem views_move (s : FlowState) (i : ℕ) (q : FlowObject) (hq : s.objects[i]? = some q) :
    (s.moveFrom i q).views = rulesStep s.views (.move i) := by
  have hview : s.views[i]? = some (q.view s.port.rules) := by
    rw [views, List.getElem?_map, hq, Option.map_some]
  have hset : (s.objects.set i { q with flows := [] }).map (FlowObject.view s.port.rules) =
      s.views.set i ⟨q.queueId, [], q.channel⟩ := by
    rw [views, List.map_set]
    rfl
  rw [rulesStep, hview]
  change (s.moveFrom i q).views =
    if q.channel = none then s.views.set i ⟨q.queueId, [], q.channel⟩ ++ [q.view s.port.rules]
    else s.views.set i ⟨q.queueId, [], q.channel⟩
  rw [← hset, moveFrom]
  split_ifs
  · exact List.map_append
  · rfl

theorem views_step {s s' : FlowState} {e : FlowEvent} (h : Owned s) (hm : Moves s e s') :
    s'.views = rulesStep s.views e := by
  cases hm with
  | construct queueId => exact List.map_append
  | puts _ i q r hq hputs =>
    obtain ⟨gone, kept, new, he⟩ := h.puts hq hputs
    rw [h.views_put hq he]
    exact h.puts_views hq hputs
  | move i q hq => exact views_move s i q hq
  | destruct i q answers hq => exact h.views_destruct hq answers

/-- In every run the rules on the NIC are those of the `FlowQueue`s, whichever object is at work. -/
theorem run_refines (es : List FlowEvent) (tr : List (Transition FlowState FlowEvent))
    (htr : trace step initial es = some tr) :
    ∀ t ∈ tr, t.post.views = rulesStep t.pre.views t.event := by
  have hinv := trace_invariant Owned (fun _ _ => True)
    (fun s e s' hs _ hstep => owned_step hs (step_moves hstep)) initial es tr htr owned_initial
    (fun _ _ => trivial)
  have hmoves := trace_forall Moves (fun s e s' hstep => step_moves hstep) initial es tr htr
  intro t ht
  exact views_step (hinv.2 t ht).1 (hmoves t ht)

theorem run_refines_two :
    ∃ tr, trace step initial twoQueues = some tr ∧
      ∀ t ∈ tr, t.post.views = rulesStep t.pre.views t.event := by
  obtain ⟨tr, htr⟩ := Option.isSome_iff_exists.mp twoQueues_isSome
  exact ⟨tr, htr, run_refines twoQueues tr htr⟩

end FlowState

end DpdkTools
