import DpdkTools.Flow.RxQueue
import DpdkTools.Lib.Runs
import Mathlib.Data.List.Nodup
import Mathlib.Data.List.Perm.Subperm
import Mathlib.Logic.Function.Basic

/-! The flow rules on the NIC and the `rte_flow` pointers that `flow::rx_queue` objects keep for them
(`dpdkx/flow/rx_queue.cpp`).

The objects of one port are constructed, started, routed, reset, moved and destroyed in any order, and
every `rte_flow_create` and `rte_flow_destroy` may fail. What is asked of the NIC is that a rule it
creates is not one it has already. -/
namespace DpdkTools
open Runs
set_option autoImplicit false

/-- `rte_flow *` -/
abbrev FlowPtr := ℕ

/-- The rules of a port. `misused` counts the calls of `rte_flow_destroy` with a pointer to no rule. -/
structure FlowPort where
  rules : FlowPtr → Option FlowRule
  misused : ℕ

namespace FlowPort

def create (p : FlowPort) (f : FlowPtr) (rule : FlowRule) : FlowPort :=
  { p with rules := Function.update p.rules f (some rule) }

/-- `rte_flow_destroy`, and whether it succeeds. -/
def destroy (p : FlowPort) (done : Bool) (f : FlowPtr) : FlowPort :=
  match p.rules f with
  | none => { p with misused := p.misused + 1 }
  | some _ => if done then { p with rules := Function.update p.rules f none } else p

/-- What the calls of one `reset()` leave. -/
def destroyAll (answers : ℕ → Bool) : ℕ → FlowPort → List FlowPtr → FlowPort × List FlowPtr
  | _, p, [] => (p, [])
  | calls, p, f :: fs =>
    let rest := destroyAll answers (calls + 1) (p.destroy (answers calls) f) fs
    (rest.1, if answers calls then rest.2 else f :: rest.2)

/-- The second attempt of `reset(ch, ep)`, over the flows from the last one on. -/
def destroyBack (answers : ℕ → Bool) : ℕ → FlowPort → List FlowPtr → FlowPort × List FlowPtr × ErrorCode
  | _, p, [] => (p, [], none)
  | calls, p, f :: fs =>
    if answers calls then destroyBack answers (calls + 1) (p.destroy true f) fs
    else (p.destroy false f, f :: fs, some .flow)

end FlowPort

/-! ## The objects -/

/-- `flow_stub_endpoint` -/
def flowStubEndpoint (queueId : ℕ) : Ip4Endpoint := (0xe0 ||| rteBeToCpu32 (UInt32.ofNat queueId), 0)

/-- The members of `flow::rx_queue`. -/
structure FlowObject where
  queueId : ℕ
  flows : List FlowPtr
  channel : Option ChannelPtr
  deriving Repr, DecidableEq

namespace FlowObject

/-- The answer `create` is the pointer that `rte_flow_create` gives. -/
def routeTo (q : FlowObject) (p : FlowPort) (create : Option FlowPtr) (ep : Ip4Endpoint) :
    FlowPort × FlowObject × ErrorCode :=
  match create with
  | none => (p, q, some .flow)
  | some f => (p.create f (makeUdpFlow q.queueId ep), { q with flows := q.flows ++ [f] }, none)

def start (q : FlowObject) (p : FlowPort) (create : Option FlowPtr) : FlowPort × FlowObject × ErrorCode :=
  if q.flows = [] then q.routeTo p create (flowStubEndpoint q.queueId) else (p, q, none)

def resetFlows (q : FlowObject) (p : FlowPort) (answers : ℕ → Bool) : FlowPort × FlowObject :=
  let rest := FlowPort.destroyAll answers 0 p q.flows
  (rest.1, { q with flows := rest.2 })

/-- The destroying part of `reset(ch, ep)`. -/
def clear (q : FlowObject) (p : FlowPort) (answers : ℕ → Bool) : FlowPort × FlowObject × ErrorCode :=
  let first := q.resetFlows p answers
  let second := FlowPort.destroyBack answers q.flows.length first.1 first.2.flows.reverse
  (second.1, { q with flows := second.2.1.reverse }, second.2.2)

def reset (q : FlowObject) (p : FlowPort) (answers : ℕ → Bool) (create : Option FlowPtr)
    (ch : Option ChannelPtr) (ep : Ip4Endpoint) : FlowPort × FlowObject × ErrorCode :=
  match q.clear p answers with
  | (p', q', some e) => (p', q', some e)
  | (p', q', none) => { q' with channel := ch }.routeTo p' create ep

end FlowObject

/-- `start` over the rules alone. -/
def FlowQueue.start (q : FlowQueue) (env : FlowEnv) : FlowQueue × ErrorCode :=
  if q.flows = [] then q.routeTo env (flowStubEndpoint q.queueId) else (q, none)

/-! ## Runs -/

inductive FlowEvent where
  | construct (queueId : ℕ)
  | start (i : ℕ) (create : Option FlowPtr)
  | routeTo (i : ℕ) (ep : Ip4Endpoint) (create : Option FlowPtr)
  | reset (i : ℕ) (ch : Option ChannelPtr) (ep : Ip4Endpoint) (answers : ℕ → Bool)
      (create : Option FlowPtr)
  | move (i : ℕ)
  | destruct (i : ℕ) (answers : ℕ → Bool)

/-- The objects of a port. `leaked` records the pointers that were dropped with their rules in place. -/
structure FlowState where
  port : FlowPort
  objects : List FlowObject
  leaked : List FlowPtr

namespace FlowState

def initial : FlowState := ⟨⟨fun _ => none, 0⟩, [], []⟩

/-- The pointer to a new rule is not one to a rule that is there. -/
def New (p : FlowPort) (create : Option FlowPtr) : Prop := ∀ f ∈ create, p.rules f = none

instance (p : FlowPort) (create : Option FlowPtr) : Decidable (New p create) :=
  match create with
  | none => isTrue (fun _ h => absurd h (by simp))
  | some f =>
    if h : p.rules f = none then isTrue (fun g hg => Option.some.inj hg ▸ h)
    else isFalse (fun hnew => h (hnew f rfl))


def put (s : FlowState) (i : ℕ) (r : FlowPort × FlowObject × ErrorCode) : FlowState :=
  { s with port := r.1, objects := s.objects.set i r.2.1 }

/-- The move constructor throws when a channel is assigned, after the flows were moved. -/
def moveFrom (s : FlowState) (i : ℕ) (q : FlowObject) : FlowState :=
  if q.channel = none then
    { s with objects := s.objects.set i { q with flows := [] } ++ [q] }
  else { s with objects := s.objects.set i { q with flows := [] }, leaked := s.leaked ++ q.flows }

def destruct (s : FlowState) (i : ℕ) (q : FlowObject) (answers : ℕ → Bool) : FlowState :=
  let r := q.resetFlows s.port answers
  ⟨r.1, s.objects.eraseIdx i, s.leaked ++ r.2.flows⟩

def step (s : FlowState) : FlowEvent → Option FlowState
  | .construct queueId => some { s with objects := s.objects ++ [⟨queueId, [], none⟩] }
  | .start i create =>
    s.objects[i]?.bind fun q =>
      if New s.port create then some (s.put i (q.start s.port create)) else none
  | .routeTo i ep create =>
    s.objects[i]?.bind fun q =>
      if New s.port create then some (s.put i (q.routeTo s.port create ep)) else none
  | .reset i ch ep answers create =>
    s.objects[i]?.bind fun q =>
      if New (q.clear s.port answers).1 create then some (s.put i (q.reset s.port answers create ch ep))
      else none
  | .move i => s.objects[i]?.map (s.moveFrom i)
  | .destruct i answers => s.objects[i]?.map fun q => s.destruct i q answers

end FlowState

/-! ## What the destroying calls do -/

namespace FlowPort

/-- The rules of `gone` were destroyed, and nothing else has happened. -/
structure Destroyed (p p' : FlowPort) (gone : List FlowPtr) : Prop where
  misused : p'.misused = p.misused
  rules : ∀ f, p'.rules f = if f ∈ gone then none else p.rules f

theorem Destroyed.refl (p : FlowPort) : Destroyed p p [] where
  misused := rfl
  rules := fun f => by rw [if_neg (List.not_mem_nil)]

theorem Destroyed.trans {p p' p'' : FlowPort} {gone gone' : List FlowPtr} (h : Destroyed p p' gone)
    (h' : Destroyed p' p'' gone') : Destroyed p p'' (gone ++ gone') where
  misused := h'.misused.trans h.misused
  rules := by
    intro f
    rw [h'.rules, h.rules]
    by_cases hgone : f ∈ gone
    · simp [hgone]
    · simp [hgone]

theorem destroy_done (p : FlowPort) (f : FlowPtr) (h : p.rules f ≠ none) :
    Destroyed p (p.destroy true f) [f] := by
  obtain ⟨rule, hrule⟩ := Option.ne_none_iff_exists'.mp h
  have hdestroy : p.destroy true f = { p with rules := Function.update p.rules f none } := by
    rw [destroy, hrule]
    rfl
  rw [hdestroy]
  refine ⟨rfl, ?_⟩
  intro g
  dsimp only
  rw [Function.update_apply]
  exact if_congr List.mem_singleton.symm rfl rfl

theorem destroy_failed (p : FlowPort) (f : FlowPtr) (h : p.rules f ≠ none) : p.destroy false f = p := by
  obtain ⟨rule, hrule⟩ := Option.ne_none_iff_exists'.mp h
  rw [destroy, hrule]
  rfl

theorem Destroyed.present {p p' : FlowPort} {f : FlowPtr} {fs : List FlowPtr} (h : Destroyed p p' [f])
    (hnodup : (f :: fs).Nodup) (hin : ∀ g ∈ f :: fs, p.rules g ≠ none) : ∀ g ∈ fs, p'.rules g ≠ none := by
  intro g hg
  have hne : g ∉ [f] := by
    rw [List.mem_singleton]
    rintro rfl
    exact (List.nodup_cons.mp hnodup).1 hg
  rw [h.rules, if_neg hne]
  exact hin g (List.mem_cons_of_mem _ hg)

theorem destroyAll_spec (answers : ℕ → Bool) (fs : List FlowPtr) (calls : ℕ) (p : FlowPort)
    (hnodup : fs.Nodup) (hin : ∀ f ∈ fs, p.rules f ≠ none) :
    ∃ gone, Destroyed p (destroyAll answers calls p fs).1 gone ∧
      fs.Perm (gone ++ (destroyAll answers calls p fs).2) := by
  induction fs generalizing calls p with
  | nil => exact ⟨[], Destroyed.refl p, List.Perm.refl _⟩
  | cons f fs ih =>
    have hf := hin f List.mem_cons_self
    rw [destroyAll]
    cases answers calls with
    | true =>
      have hfirst := destroy_done p f hf
      obtain ⟨gone, hrest, hperm⟩ := ih (calls + 1) (p.destroy true f) (List.nodup_cons.mp hnodup).2
        (hfirst.present hnodup hin)
      exact ⟨f :: gone, hfirst.trans hrest, hperm.cons f⟩
    | false =>
      rw [destroy_failed p f hf]
      obtain ⟨gone, hrest, hperm⟩ := ih (calls + 1) p (List.nodup_cons.mp hnodup).2
        fun g hg => hin g (List.mem_cons_of_mem _ hg)
      exact ⟨gone, hrest, (hperm.cons f).trans List.perm_middle.symm⟩

theorem destroyBack_spec (answers : ℕ → Bool) (fs : List FlowPtr) (calls : ℕ) (p : FlowPort)
    (hnodup : fs.Nodup) (hin : ∀ f ∈ fs, p.rules f ≠ none) :
    ∃ gone, Destroyed p (destroyBack answers calls p fs).1 gone ∧
      fs.Perm (gone ++ (destroyBack answers calls p fs).2.1) := by
  induction fs generalizing calls p with
  | nil => exact ⟨[], Destroyed.refl p, List.Perm.refl _⟩
  | cons f fs ih =>
    have hf := hin f List.mem_cons_self
    rw [destroyBack]
    split_ifs with hanswer
    · have hfirst := destroy_done p f hf
      obtain ⟨gone, hrest, hperm⟩ := ih (calls + 1) (p.destroy true f) (List.nodup_cons.mp hnodup).2
        (hfirst.present hnodup hin)
      exact ⟨f :: gone, hfirst.trans hrest, hperm.cons f⟩
    · rw [destroy_failed p f hf]
      exact ⟨[], Destroyed.refl p, List.Perm.refl _⟩

end FlowPort

/-! ## What an operation does -/

/-- An operation on an object takes away rules of its own and adds new ones for its queue. The pointer
to a new rule may be one that was given back. -/
structure FlowEffect (p : FlowPort) (q : FlowObject) (p' : FlowPort) (q' : FlowObject)
    (gone kept new : List FlowPtr) : Prop where
  misused : p'.misused = p.misused
  queueId : q'.queueId = q.queueId
  before : q.flows.Perm (gone ++ kept)
  after : q'.flows.Perm (kept ++ new)
  nodup : new.Nodup
  absent : ∀ f ∈ new, f ∉ kept ∧ (f ∉ gone → p.rules f = none)
  created : ∀ f ∈ new, ∃ rule, p'.rules f = some rule ∧ rule.queue = q.queueId
  destroyed : ∀ f ∈ gone, f ∉ new → p'.rules f = none
  others : ∀ f, f ∉ gone → f ∉ new → p'.rules f = p.rules f

namespace FlowObject
variable {q : FlowObject} {p : FlowPort}

theorem effect_none (p : FlowPort) (q : FlowObject) : FlowEffect p q p q [] q.flows [] where
  misused := rfl
  queueId := rfl
  before := List.Perm.refl _
  after := by rw [List.append_nil]
  nodup := List.nodup_nil
  absent := by simp
  created := by simp
  destroyed := by simp
  others := fun _ _ _ => rfl

theorem effect_routeTo {create : Option FlowPtr} (hnew : FlowState.New p create)
    (hin : ∀ f ∈ q.flows, p.rules f ≠ none) (ep : Ip4Endpoint) :
    ∃ new, FlowEffect p q (q.routeTo p create ep).1 (q.routeTo p create ep).2.1 [] q.flows new := by
  cases create with
  | none => exact ⟨[], effect_none p q⟩
  | some f =>
    refine ⟨[f], rfl, rfl, List.Perm.refl _, List.Perm.refl _, List.nodup_singleton f, ?_, ?_, by simp, ?_⟩
    · intro g hg
      obtain rfl := List.mem_singleton.mp hg
      exact ⟨fun hmem => hin g hmem (hnew g rfl), fun _ => hnew g rfl⟩
    · intro g hg
      obtain rfl := List.mem_singleton.mp hg
      exact ⟨makeUdpFlow q.queueId ep, Function.update_self .., rfl⟩
    · intro g _ hg
      exact Function.update_of_ne (fun h => hg (List.mem_singleton.mpr h)) _ _

theorem effect_start {create : Option FlowPtr} (hnew : FlowState.New p create)
    (hin : ∀ f ∈ q.flows, p.rules f ≠ none) :
    ∃ new, FlowEffect p q (q.start p create).1 (q.start p create).2.1 [] q.flows new := by
  rw [start]
  split_ifs
  · exact effect_routeTo hnew hin _
  · exact ⟨[], effect_none p q⟩

theorem effect_destroyed {p' : FlowPort} {gone : List FlowPtr} (hgone : FlowPort.Destroyed p p' gone)
    (q' : FlowObject) (hid : q'.queueId = q.queueId) (hperm : q.flows.Perm (gone ++ q'.flows)) :
    FlowEffect p q p' q' gone q'.flows [] where
  misused := hgone.misused
  queueId := hid
  before := hperm
  after := by rw [List.append_nil]
  nodup := List.nodup_nil
  absent := by simp
  created := by simp
  destroyed := fun f hf _ => by rw [hgone.rules, if_pos hf]
  others := fun f hf _ => by rw [hgone.rules, if_neg hf]

section Clear
variable (answers : ℕ → Bool) (hnodup : q.flows.Nodup) (hin : ∀ f ∈ q.flows, p.rules f ≠ none)
include hnodup hin

theorem resetFlows_destroyed :
    ∃ gone, FlowPort.Destroyed p (q.resetFlows p answers).1 gone ∧
      q.flows.Perm (gone ++ (q.resetFlows p answers).2.flows) :=
  FlowPort.destroyAll_spec answers q.flows 0 p hnodup hin

theorem clear_destroyed :
    ∃ gone, FlowPort.Destroyed p (q.clear p answers).1 gone ∧
      q.flows.Perm (gone ++ (q.clear p answers).2.1.flows) := by
  obtain ⟨gone, hfirst, hperm⟩ := resetFlows_destroyed answers hnodup hin
  have hboth := hperm.nodup hnodup
  have hleft : (q.resetFlows p answers).2.flows.reverse.Nodup :=
    List.nodup_reverse.mpr (List.nodup_append.mp hboth).2.1
  have hthere : ∀ f ∈ (q.resetFlows p answers).2.flows.reverse,
      (q.resetFlows p answers).1.rules f ≠ none := by
    intro f hf
    have hf' := List.mem_reverse.mp hf
    have hgone : f ∉ gone := fun hgone => (List.nodup_append.mp hboth).2.2 f hgone f hf' rfl
    rw [hfirst.rules, if_neg hgone]
    exact hin f (hperm.mem_iff.mpr (List.mem_append_right _ hf'))
  obtain ⟨gone', hsecond, hperm'⟩ := FlowPort.destroyBack_spec answers
    (q.resetFlows p answers).2.flows.reverse q.flows.length (q.resetFlows p answers).1 hleft hthere
  refine ⟨gone ++ gone', hfirst.trans hsecond, ?_⟩
  have hrest : (q.resetFlows p answers).2.flows.Perm (gone' ++ (q.clear p answers).2.1.flows) :=
    (List.reverse_perm _).symm.trans (hperm'.trans ((List.reverse_perm _).symm.append_left gone'))
  rw [List.append_assoc]
  exact hperm.trans (hrest.append_left gone)

theorem effect_reset {create : Option FlowPtr} (hnew : FlowState.New (q.clear p answers).1 create)
    (ch : Option ChannelPtr) (ep : Ip4Endpoint) :
    ∃ gone kept new, FlowEffect p q (q.reset p answers create ch ep).1
      (q.reset p answers create ch ep).2.1 gone kept new := by
  obtain ⟨gone, hgone, hperm⟩ := clear_destroyed answers hnodup hin
  have hboth := hperm.nodup hnodup
  have hleft : ∀ f ∈ (q.clear p answers).2.1.flows, (q.clear p answers).1.rules f ≠ none := by
    intro f hf
    have hout : f ∉ gone := fun h => (List.nodup_append.mp hboth).2.2 f h f hf rfl
    rw [hgone.rules, if_neg hout]
    exact hin f (hperm.mem_iff.mpr (List.mem_append_right _ hf))
  unfold reset
  split
  · next p' q' e hclear =>
    rw [hclear] at hgone hperm
    exact ⟨gone, q'.flows, [], effect_destroyed hgone q' (congrArg (·.2.1.queueId) hclear).symm hperm⟩
  · next p' q' hclear =>
    rw [hclear] at hgone hperm hnew hleft
    have hid : q'.queueId = q.queueId := (congrArg (·.2.1.queueId) hclear).symm
    obtain ⟨new, hroute⟩ := effect_routeTo (q := { q' with channel := ch }) hnew hleft ep
    refine ⟨gone, q'.flows, new, hroute.misused.trans hgone.misused, hroute.queueId.trans hid, hperm,
      hroute.after, hroute.nodup, ?_, ?_, ?_, ?_⟩
    · intro f hf
      obtain ⟨hkept, habsent⟩ := hroute.absent f hf
      refine ⟨hkept, fun hout => ?_⟩
      have hnone := habsent List.not_mem_nil
      rwa [hgone.rules, if_neg hout] at hnone
    · intro f hf
      obtain ⟨rule, hrule, hqueue⟩ := hroute.created f hf
      exact ⟨rule, hrule, hqueue.trans hid⟩
    · intro f hf hout
      rw [hroute.others f List.not_mem_nil hout, hgone.rules, if_pos hf]
    · intro f hf hout
      rw [hroute.others f List.not_mem_nil hout, hgone.rules, if_neg hf]

end Clear

end FlowObject

/-! ## Each rule has one object -/

namespace FlowState

def held (s : FlowState) : List FlowPtr := s.objects.flatMap FlowObject.flows ++ s.leaked

/-- What is asked of every state: no pointer is kept twice, the rules on the NIC are the ones that
pointers are kept to (or were dropped), each rule feeds the queue of the object that keeps it, and no
pointer was given back that was none to a rule. -/
structure Owned (s : FlowState) : Prop where
  misused : s.port.misused = 0
  once : s.held.Nodup
  there : ∀ f, s.port.rules f ≠ none ↔ f ∈ s.held
  theirs : ∀ q ∈ s.objects, ∀ f ∈ q.flows, ∀ rule, s.port.rules f = some rule → rule.queue = q.queueId

theorem owned_initial : Owned initial where
  misused := rfl
  once := List.nodup_nil
  there := fun f => by simp [initial, held]
  theirs := by simp [initial]

/-- What is kept apart from the flows of the `i`-th object. -/
def rest (s : FlowState) (i : ℕ) : List FlowPtr := (s.objects.eraseIdx i).flatMap FlowObject.flows ++ s.leaked

theorem flatMap_set (objects : List FlowObject) (i : ℕ) (q' : FlowObject) (h : i < objects.length) :
    ((objects.set i q').flatMap FlowObject.flows).Perm
      (q'.flows ++ (objects.eraseIdx i).flatMap FlowObject.flows) := by
  induction objects generalizing i with
  | nil => exact absurd h (Nat.not_lt_zero i)
  | cons q objects ih =>
    cases i with
    | zero => exact List.Perm.refl _
    | succ i =>
      rw [List.set_cons_succ, List.eraseIdx_cons_succ, List.flatMap_cons, List.flatMap_cons]
      have hrest := (ih i (Nat.lt_of_succ_lt_succ h)).append_left q.flows
      exact hrest.trans (List.perm_append_comm_assoc _ _ _)

theorem held_rest (s : FlowState) (i : ℕ) (q : FlowObject) (h : s.objects[i]? = some q) :
    s.held.Perm (q.flows ++ s.rest i) := by
  obtain ⟨hi, hq⟩ := List.getElem?_eq_some_iff.mp h
  have hset := flatMap_set s.objects i q hi
  rw [← hq, List.set_getElem_self, hq] at hset
  rw [rest, ← List.append_assoc]
  exact hset.append_right s.leaked

theorem held_effect {s : FlowState} {i : ℕ} {q : FlowObject} (hq : s.objects[i]? = some q)
    {p' : FlowPort} {q' : FlowObject} {gone kept new : List FlowPtr}
    (he : FlowEffect s.port q p' q' gone kept new) : s.held.Perm (gone ++ (kept ++ s.rest i)) := by
  rw [← List.append_assoc]
  exact (held_rest s i q hq).trans (he.before.append_right _)

section Effect
variable {s : FlowState} {i : ℕ} {q : FlowObject} (h : Owned s) (hq : s.objects[i]? = some q)
include h hq

theorem Owned.nodup : q.flows.Nodup :=
  (List.nodup_append.mp ((held_rest s i q hq).nodup h.once)).1

theorem Owned.present : ∀ f ∈ q.flows, s.port.rules f ≠ none := by
  intro f hf
  exact (h.there f).mpr ((held_rest s i q hq).mem_iff.mpr (List.mem_append_left _ hf))

theorem Owned.queue {x : FlowObject} (hx : x ∈ s.objects) {f : FlowPtr} (hf : f ∈ q.flows)
    (hfx : f ∈ x.flows) : x.queueId = q.queueId := by
  obtain ⟨rule, hrule⟩ := Option.ne_none_iff_exists'.mp (h.present hq f hf)
  rw [← h.theirs x hx f hfx rule hrule]
  exact h.theirs q (List.mem_of_getElem? hq) f hf rule hrule

/-- A new pointer is kept nowhere yet. -/
theorem Owned.fresh {p' : FlowPort} {q' : FlowObject} {gone kept new : List FlowPtr}
    (he : FlowEffect s.port q p' q' gone kept new) : ∀ f ∈ new, f ∉ kept ++ s.rest i := by
  have hbefore := held_effect hq he
  intro f hf hmem
  obtain ⟨hkept, habsent⟩ := he.absent f hf
  have hout : f ∉ gone := fun hin => (List.nodup_append.mp (hbefore.nodup h.once)).2.2 f hin f hmem rfl
  exact (h.there f).mpr (hbefore.mem_iff.mpr (List.mem_append_right _ hmem)) (habsent hout)

theorem Owned.same {p' : FlowPort} {q' : FlowObject} {gone kept new : List FlowPtr}
    (he : FlowEffect s.port q p' q' gone kept new) :
    ∀ f ∈ kept ++ s.rest i, p'.rules f = s.port.rules f := by
  have hnodup := (held_effect hq he).nodup h.once
  intro f hf
  exact he.others f (fun hin => (List.nodup_append.mp hnodup).2.2 f hin f hf rfl)
    fun hin => h.fresh hq he f hin hf

/-- After an operation on the `i`-th object, wherever its flows are then kept. -/
theorem Owned.effect {p' : FlowPort} {q' : FlowObject} {gone kept new : List FlowPtr}
    (he : FlowEffect s.port q p' q' gone kept new) (objects : List FlowObject) (leaked : List FlowPtr)
    (hheld : (FlowState.mk p' objects leaked).held.Perm (q'.flows ++ s.rest i))
    (hfrom : ∀ x ∈ objects, x ∈ s.objects ∨ x.queueId = q'.queueId ∧ x.flows ⊆ q'.flows) :
    Owned ⟨p', objects, leaked⟩ := by
  have hbefore := held_effect hq he
  have hfresh := h.fresh hq he
  have hafter : (FlowState.mk p' objects leaked).held.Perm (new ++ (kept ++ s.rest i)) := by
    rw [← List.append_assoc]
    exact hheld.trans ((he.after.trans List.perm_append_comm).append_right _)
  obtain ⟨hgone, hstay, hapart⟩ := List.nodup_append.mp (hbefore.nodup h.once)
  refine ⟨he.misused.trans h.misused, ?_, ?_, ?_⟩
  · refine hafter.nodup_iff.mpr (List.nodup_append.mpr ⟨he.nodup, hstay, ?_⟩)
    intro f hf g hg hfg
    exact hfresh f hf (hfg ▸ hg)
  · intro f
    rw [hafter.mem_iff, List.mem_append]
    by_cases hnew : f ∈ new
    · obtain ⟨rule, hrule, -⟩ := he.created f hnew
      exact iff_of_true (by rw [hrule]; exact Option.some_ne_none rule) (Or.inl hnew)
    · by_cases hout : f ∈ gone
      · refine iff_of_false (fun hne => hne (he.destroyed f hout hnew)) ?_
        exact fun hmem => hmem.elim hnew fun hmem => hapart f hout f hmem rfl
      · rw [he.others f hout hnew, h.there f, hbefore.mem_iff, List.mem_append]
        exact ⟨fun hmem => Or.inr (hmem.resolve_left hout), fun hmem => Or.inr (hmem.resolve_left hnew)⟩
  · intro x hx f hf rule hrule
    by_cases hnew : f ∈ new
    · obtain ⟨rule', hrule', hqueue⟩ := he.created f hnew
      obtain rfl := Option.some.inj (hrule'.symm.trans hrule)
      obtain hold | ⟨hid, -⟩ := hfrom x hx
      · -- the pointer was given back by the `i`-th object, so both feed one queue
        have hout : f ∈ gone := by
          by_contra hout
          have hmem : f ∈ s.held := List.mem_append_left _ (List.mem_flatMap.mpr ⟨x, hold, hf⟩)
          exact (h.there f).mpr hmem ((he.absent f hnew).2 hout)
        have hown : f ∈ q.flows := he.before.mem_iff.mpr (List.mem_append_left _ hout)
        exact hqueue.trans (h.queue hq hold hown hf).symm
      · exact hqueue.trans (hid.trans he.queueId).symm
    · have hout : f ∉ gone := by
        intro hout
        rw [he.destroyed f hout hnew] at hrule
        exact Option.some_ne_none rule hrule.symm
      rw [he.others f hout hnew] at hrule
      obtain hold | ⟨hid, hsub⟩ := hfrom x hx
      · exact h.theirs x hold f hf rule hrule
      · have hkept : f ∈ kept :=
          (List.mem_append.mp (he.after.mem_iff.mp (hsub hf))).resolve_right hnew
        have hown : f ∈ q.flows := he.before.mem_iff.mpr (List.mem_append_right _ hkept)
        rw [h.theirs q (List.mem_of_getElem? hq) f hown rule hrule]
        exact (hid.trans he.queueId).symm

theorem Owned.put {r : FlowPort × FlowObject × ErrorCode} {gone kept new : List FlowPtr}
    (he : FlowEffect s.port q r.1 r.2.1 gone kept new) : Owned (s.put i r) := by
  have hi := (List.getElem?_eq_some_iff.mp hq).1
  refine h.effect hq he _ _ ?_ ?_
  · rw [rest, ← List.append_assoc]
    exact (flatMap_set s.objects i r.2.1 hi).append_right s.leaked
  · intro x hx
    obtain hx | rfl := List.mem_or_eq_of_mem_set hx
    · exact Or.inl hx
    · exact Or.inr ⟨rfl, List.Subset.refl _⟩

theorem Owned.destruct (answers : ℕ → Bool) : Owned (s.destruct i q answers) := by
  obtain ⟨gone, hgone, hperm⟩ := FlowObject.resetFlows_destroyed answers (h.nodup hq) (h.present hq)
  refine h.effect hq
    (FlowObject.effect_destroyed hgone (q.resetFlows s.port answers).2 rfl hperm) _ _ ?_ ?_
  · change ((s.objects.eraseIdx i).flatMap FlowObject.flows ++
      (s.leaked ++ (q.resetFlows s.port answers).2.flows)).Perm _
    rw [rest, ← List.append_assoc]
    exact List.perm_append_comm
  · exact fun x hx => Or.inl (List.mem_of_mem_eraseIdx hx)

theorem Owned.moveFrom : Owned (s.moveFrom i q) := by
  have hi := (List.getElem?_eq_some_iff.mp hq).1
  have hset := flatMap_set s.objects i { q with flows := [] } hi
  have hold : ∀ x ∈ s.objects.set i { q with flows := [] }, x ∈ s.objects ∨
      x.queueId = q.queueId ∧ x.flows ⊆ q.flows := by
    intro x hx
    obtain hx | rfl := List.mem_or_eq_of_mem_set hx
    · exact Or.inl hx
    · exact Or.inr ⟨rfl, List.nil_subset _⟩
  unfold FlowState.moveFrom
  split_ifs
  · refine h.effect hq (FlowObject.effect_none s.port q) _ _ ?_ ?_
    · change ((s.objects.set i { q with flows := [] } ++ [q]).flatMap FlowObject.flows ++ s.leaked).Perm _
      rw [rest, ← List.append_assoc, List.flatMap_append, List.flatMap_singleton]
      exact ((hset.append_right q.flows).trans List.perm_append_comm).append_right s.leaked
    · intro x hx
      obtain hx | hx := List.mem_append.mp hx
      · exact hold x hx
      · obtain rfl := List.mem_singleton.mp hx
        exact Or.inl (List.mem_of_getElem? hq)
  · refine h.effect hq (FlowObject.effect_none s.port q) _ _ ?_ hold
    change ((s.objects.set i { q with flows := [] }).flatMap FlowObject.flows ++
      (s.leaked ++ q.flows)).Perm _
    rw [rest, ← List.append_assoc]
    exact ((hset.append_right s.leaked).append_right q.flows).trans List.perm_append_comm

end Effect

theorem owned_construct (s : FlowState) (h : Owned s) (queueId : ℕ) :
    Owned { s with objects := s.objects ++ [⟨queueId, [], none⟩] } := by
  have hheld : (FlowState.mk s.port (s.objects ++ [⟨queueId, [], none⟩]) s.leaked).held = s.held := by
    rw [held, held, List.flatMap_append, List.flatMap_singleton, List.append_nil]
  refine ⟨h.misused, hheld ▸ h.once, fun f => by rw [hheld]; exact h.there f, ?_⟩
  intro x hx f hf
  obtain hx | hx := List.mem_append.mp hx
  · exact h.theirs x hx f hf
  · obtain rfl := List.mem_singleton.mp hx
    exact absurd hf List.not_mem_nil

/-- Operations that put an object back in its place. -/
inductive Puts (s : FlowState) : FlowEvent → ℕ → FlowObject → FlowPort × FlowObject × ErrorCode → Prop
  | start (i : ℕ) (q : FlowObject) (create : Option FlowPtr) : New s.port create →
      Puts s (.start i create) i q (q.start s.port create)
  | routeTo (i : ℕ) (q : FlowObject) (ep : Ip4Endpoint) (create : Option FlowPtr) : New s.port create →
      Puts s (.routeTo i ep create) i q (q.routeTo s.port create ep)
  | reset (i : ℕ) (q : FlowObject) (ch : Option ChannelPtr) (ep : Ip4Endpoint) (answers : ℕ → Bool)
      (create : Option FlowPtr) : New (q.clear s.port answers).1 create →
      Puts s (.reset i ch ep answers create) i q (q.reset s.port answers create ch ep)

inductive Moves (s : FlowState) : FlowEvent → FlowState → Prop
  | construct (queueId : ℕ) :
      Moves s (.construct queueId) { s with objects := s.objects ++ [⟨queueId, [], none⟩] }
  | puts (e : FlowEvent) (i : ℕ) (q : FlowObject) (r : FlowPort × FlowObject × ErrorCode) :
      s.objects[i]? = some q → Puts s e i q r → Moves s e (s.put i r)
  | move (i : ℕ) (q : FlowObject) : s.objects[i]? = some q → Moves s (.move i) (s.moveFrom i q)
  | destruct (i : ℕ) (q : FlowObject) (answers : ℕ → Bool) : s.objects[i]? = some q →
      Moves s (.destruct i answers) (s.destruct i q answers)

theorem step_moves {s s' : FlowState} {e : FlowEvent} (h : s.step e = some s') : Moves s e s' := by
  cases e with
  | construct queueId =>
    obtain rfl := Option.some.inj h
    exact .construct queueId
  | start i create =>
    obtain ⟨q, hq, hput⟩ := Option.bind_eq_some_iff.mp h
    split_ifs at hput with hnew
    obtain rfl := Option.some.inj hput
    exact .puts _ i q _ hq (.start i q create hnew)
  | routeTo i ep create =>
    obtain ⟨q, hq, hput⟩ := Option.bind_eq_some_iff.mp h
    split_ifs at hput with hnew
    obtain rfl := Option.some.inj hput
    exact .puts _ i q _ hq (.routeTo i q ep create hnew)
  | reset i ch ep answers create =>
    obtain ⟨q, hq, hput⟩ := Option.bind_eq_some_iff.mp h
    split_ifs at hput with hnew
    obtain rfl := Option.some.inj hput
    exact .puts _ i q _ hq (.reset i q ch ep answers create hnew)
  | move i =>
    obtain ⟨q, hq, rfl⟩ := Option.map_eq_some_iff.mp h
    exact .move i q hq
  | destruct i answers =>
    obtain ⟨q, hq, rfl⟩ := Option.map_eq_some_iff.mp h
    exact .destruct i q answers hq

theorem Owned.puts {s : FlowState} {e : FlowEvent} {i : ℕ} {q : FlowObject}
    {r : FlowPort × FlowObject × ErrorCode} (h : Owned s) (hq : s.objects[i]? = some q)
    (hputs : Puts s e i q r) : ∃ gone kept new, FlowEffect s.port q r.1 r.2.1 gone kept new := by
  cases hputs with
  | start _ _ create hnew =>
    obtain ⟨new, he⟩ := FlowObject.effect_start hnew (h.present hq)
    exact ⟨_, _, new, he⟩
  | routeTo _ _ ep create hnew =>
    obtain ⟨new, he⟩ := FlowObject.effect_routeTo hnew (h.present hq) ep
    exact ⟨_, _, new, he⟩
  | reset _ _ ch ep answers create hnew =>
    exact FlowObject.effect_reset answers (h.nodup hq) (h.present hq) hnew ch ep

theorem owned_step {s s' : FlowState} {e : FlowEvent} (h : Owned s) (hm : Moves s e s') : Owned s' := by
  cases hm with
  | construct queueId => exact owned_construct s h queueId
  | puts _ i q r hq hputs =>
    obtain ⟨gone, kept, new, he⟩ := h.puts hq hputs
    exact h.put hq he
  | move i q hq => exact h.moveFrom hq
  | destruct i q answers hq => exact h.destruct hq answers

/-! ## Nothing is leaked unless a call fails -/

/-- Destroying an object destroys its rules, and no object with a channel is moved. -/
def Tidy (s : FlowState) : FlowEvent → Prop
  | .move i => ∀ q ∈ s.objects[i]?, q.channel = none
  | .destruct _ answers => ∀ calls, answers calls = true
  | _ => True

theorem destroyAll_nil (answers : ℕ → Bool) (hall : ∀ calls, answers calls = true) (fs : List FlowPtr)
    (calls : ℕ) (p : FlowPort) : (FlowPort.destroyAll answers calls p fs).2 = [] := by
  induction fs generalizing calls p with
  | nil => rfl
  | cons f fs ih =>
    rw [FlowPort.destroyAll, if_pos (hall calls)]
    exact ih _ _

theorem leaked_step {s s' : FlowState} {e : FlowEvent} (hs : s.leaked = []) (htidy : Tidy s e)
    (hm : Moves s e s') : s'.leaked = [] := by
  cases hm with
  | construct queueId => exact hs
  | puts _ i q r hq hputs => exact hs
  | move i q hq =>
    rw [moveFrom, if_pos (htidy q hq)]
    exact hs
  | destruct i q answers hq =>
    change s.leaked ++ (FlowPort.destroyAll answers 0 s.port q.flows).2 = []
    rw [hs, destroyAll_nil answers htidy, List.append_nil]

/-- In every run each rule on the NIC is kept by one object, the one whose queue it feeds, and the code
never destroys a rule that is gone. Where no call fails that cannot be made good, no rule outlives its
object. -/
theorem run_owned (es : List FlowEvent) (tr : List (Transition FlowState FlowEvent))
    (htr : trace step initial es = some tr) :
    (∀ t ∈ tr, Owned t.post) ∧ ((∀ t ∈ tr, Tidy t.pre t.event) → ∀ t ∈ tr, t.post.leaked = []) := by
  constructor
  · have hinv := trace_invariant Owned (fun _ _ => True)
      (fun s e s' hs _ hstep => owned_step hs (step_moves hstep)) initial es tr htr owned_initial
      (fun _ _ => trivial)
    exact fun t ht => (hinv.2 t ht).2
  · intro htidy
    have hinv := trace_invariant (fun s => s.leaked = []) Tidy
      (fun s e s' hs ht hstep => leaked_step hs ht (step_moves hstep)) initial es tr htr rfl htidy
    exact fun t ht => (hinv.2 t ht).2

/-- Two queues are started. The first one gets a channel, and its new rule the place of the old one; the
second one is moved, and both are destroyed. -/
def twoQueues : List FlowEvent :=
  [.construct 0, .construct 1, .start 0 (some 7), .start 1 (some 8),
    .reset 0 (some 5) (0x0100007f, 53) (fun _ => true) (some 7), .routeTo 1 (0x0100007f, 54) none, .move 1,
    .destruct 2 (fun _ => true), .destruct 0 (fun _ => true)]

theorem twoQueues_isSome : (trace step initial twoQueues).isSome := by
  decide +kernel

theorem run_owned_two :
    ∃ tr, trace step initial twoQueues = some tr ∧ ∀ t ∈ tr, Owned t.post := by
  obtain ⟨tr, htr⟩ := Option.isSome_iff_exists.mp twoQueues_isSome
  exact ⟨tr, htr, (run_owned twoQueues tr htr).1⟩

end FlowState

end DpdkTools
