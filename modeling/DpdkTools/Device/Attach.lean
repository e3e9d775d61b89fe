import DpdkTools.Device.Sinks
import DpdkTools.Flow.RxQueue
import DpdkTools.Lib.Runs

/-! `device::attach_rx` and `device::detach_rx` (`dpdkx/device.cpp`), one call at a time.

Tables are vectors behind pointers: an attach publishes a fresh copy, a detach erases in the
published vector itself. Without a second thread the compare-exchange succeeds at once. -/
namespace DpdkTools
open Runs
set_option autoImplicit false

structure Device where
  store : SinkStore
  fqueues : List FlowQueue
  mcasts : Mcasts

inductive AttachMode where
  | any
  | rss
  | flow
  deriving Repr, DecidableEq

inductive CallResult where
  | returned (e : ErrorCode)
  | threw
  deriving Repr, DecidableEq

def CallResult.success : CallResult := .returned none

structure AttachEnv where
  flow : FlowEnv
  svc : SvcTx

-- the three ways `attach_rx` can take, with the position of the queue it uses
inductive AttachPath where
  | assigned (i : ℕ)
  | free (i : ℕ)
  | unavailable
  | rss
  deriving Repr, DecidableEq

namespace Device

def create (fqueues : List FlowQueue) : Device :=
  ⟨SinkStore.initial, fqueues, Mcasts.empty⟩

def table (d : Device) : Sinks := d.store.table

def channels (d : Device) : List (Option ChannelPtr) := d.fqueues.map FlowQueue.channel

/-- `RTE_IS_IPV4_MCAST(rte_be_to_cpu_32(ep.first)) ? join_mcast(ep.first) : std::error_code{}`. -/
def joinEndpoint (d : Device) (ep : Ip4Endpoint) (svc : SvcTx) : Device × CallResult :=
  if rteIsIpv4Mcast (rteBeToCpu32 ep.1) then
    let r := d.mcasts.joinMcast ep.1 svc
    ({ d with mcasts := r.1 }, .returned r.2)
  else (d, .success)

def leaveEndpoint (d : Device) (ep : Ip4Endpoint) (svc : SvcTx) : Device × CallResult :=
  if rteIsIpv4Mcast (rteBeToCpu32 ep.1) then
    let r := d.mcasts.leaveMcast ep.1 svc
    ({ d with mcasts := r.1 }, .returned r.2)
  else (d, .success)

/-- The branches of `attach_rx` up to the first effect. -/
def attachPath (d : Device) (ch : Option ChannelPtr) (mode : AttachMode) : AttachPath :=
  if mode = .rss then .rss
  else
    match d.fqueues.findIdx? (fun q => q.channel = ch) with
    | some i => .assigned i
    | none =>
      match d.fqueues.findIdx? (fun q => !q.assigned) with
      | some i => .free i
      | none => if mode = .flow then .unavailable else .rss

-- `.second` of the emplaced pair is the channel pointer
def attachRss (d : Device) (ep : Ip4Endpoint) (ch : Option ChannelPtr) (svc : SvcTx) :
    Device × CallResult :=
  if ch = none then (d, .returned (some .addressInUse))
  else { d with store := d.store.publish (d.table ++ [(ep, ch)]) }.joinEndpoint ep svc

def attachAssigned (d : Device) (env : AttachEnv) (ep : Ip4Endpoint) (i : ℕ) : Device × CallResult :=
  match d.fqueues[i]? with
  | none => (d, .threw)
  | some q =>
    match q.routeTo env.flow ep with
    | (_, some e) => (d, .returned (some e))
    | (q', none) => { d with fqueues := d.fqueues.set i q' }.joinEndpoint ep env.svc

def attachFree (d : Device) (env : AttachEnv) (ep : Ip4Endpoint) (ch : Option ChannelPtr) (i : ℕ) :
    Device × CallResult :=
  match d.fqueues[i]? with
  | none => (d, .threw)
  | some q =>
    match q.reset env.flow ch ep with
    | (q', some _) => ({ d with fqueues := d.fqueues.set i q' }, .threw)
    | (q', none) => { d with fqueues := d.fqueues.set i q' }.joinEndpoint ep env.svc

def attachRx (d : Device) (env : AttachEnv) (ep : Ip4Endpoint) (ch : Option ChannelPtr)
    (mode : AttachMode) : Device × CallResult :=
  match d.attachPath ch mode with
  | .assigned i => d.attachAssigned env ep i
  | .free i => d.attachFree env ep ch i
  | .unavailable => (d, .returned (some .noAvalibleQueue))
  | .rss => d.attachRss ep ch env.svc

def detachRx (d : Device) (ep : Ip4Endpoint) (ch : Option ChannelPtr) (svc : SvcTx) :
    Device × CallResult :=
  match d.table[findSink d.table ep.2]? with
  | none => (d, .returned (some .invalidArgument))
  | some s =>
    if s.2 ≠ ch then (d, .returned (some .invalidArgument))
    else { d with store := d.store.eraseAt (findSink d.table ep.2) }.leaveEndpoint ep svc

/-! ## What the operations do to the tables -/

@[simp] theorem joinEndpoint_store (d : Device) (ep : Ip4Endpoint) (svc : SvcTx) :
    (d.joinEndpoint ep svc).1.store = d.store := by
  unfold joinEndpoint
  split_ifs <;> rfl

@[simp] theorem joinEndpoint_fqueues (d : Device) (ep : Ip4Endpoint) (svc : SvcTx) :
    (d.joinEndpoint ep svc).1.fqueues = d.fqueues := by
  unfold joinEndpoint
  split_ifs <;> rfl

@[simp] theorem leaveEndpoint_store (d : Device) (ep : Ip4Endpoint) (svc : SvcTx) :
    (d.leaveEndpoint ep svc).1.store = d.store := by
  unfold leaveEndpoint
  split_ifs <;> rfl

theorem attachAssigned_store (d : Device) (env : AttachEnv) (ep : Ip4Endpoint) (i : ℕ) :
    (d.attachAssigned env ep i).1.store = d.store := by
  unfold attachAssigned
  cases d.fqueues[i]? with
  | none => rfl
  | some q =>
    simp only
    rcases q.routeTo env.flow ep with ⟨q', _ | e⟩
    · rw [joinEndpoint_store]
    · rfl

theorem attachFree_store (d : Device) (env : AttachEnv) (ep : Ip4Endpoint) (ch : Option ChannelPtr)
    (i : ℕ) : (d.attachFree env ep ch i).1.store = d.store := by
  unfold attachFree
  cases d.fqueues[i]? with
  | none => rfl
  | some q =>
    simp only
    rcases q.reset env.flow ch ep with ⟨q', _ | e⟩
    · rw [joinEndpoint_store]
    · rfl

theorem attachRss_store (d : Device) (ep : Ip4Endpoint) (ch : Option ChannelPtr) (svc : SvcTx) :
    (d.attachRss ep ch svc).1.store =
      if ch = none then d.store else d.store.publish (d.table ++ [(ep, ch)]) := by
  unfold attachRss
  split_ifs
  · rfl
  · rw [joinEndpoint_store]

theorem attachRx_store (d : Device) (env : AttachEnv) (ep : Ip4Endpoint) (ch : Option ChannelPtr)
    (mode : AttachMode) :
    (d.attachRx env ep ch mode).1.store =
      if d.attachPath ch mode = .rss ∧ ch ≠ none then d.store.publish (d.table ++ [(ep, ch)])
      else d.store := by
  unfold attachRx
  cases d.attachPath ch mode with
  | unavailable => rfl
  | assigned i => simpa using d.attachAssigned_store env ep i
  | free i => simpa using d.attachFree_store env ep ch i
  | rss =>
    rw [attachRss_store]
    by_cases hch : ch = none <;> simp [hch]

theorem attachRx_table (d : Device) (env : AttachEnv) (ep : Ip4Endpoint) (ch : Option ChannelPtr)
    (mode : AttachMode) :
    (d.attachRx env ep ch mode).1.table =
      if d.attachPath ch mode = .rss ∧ ch ≠ none then d.table ++ [(ep, ch)] else d.table := by
  rw [table, attachRx_store]
  split_ifs
  · rw [SinkStore.table_publish]
  · rfl

/-- The position a detach erases: the first entry of its port, if the channel is the given one. -/
def detached (d : Device) (ep : Ip4Endpoint) (ch : Option ChannelPtr) : Option ℕ :=
  if d.table[findSink d.table ep.2]?.map Prod.snd = some ch then some (findSink d.table ep.2) else none

theorem detachRx_store (d : Device) (ep : Ip4Endpoint) (ch : Option ChannelPtr) (svc : SvcTx) :
    (d.detachRx ep ch svc).1.store =
      match d.detached ep ch with
      | none => d.store
      | some i => d.store.eraseAt i := by
  unfold detachRx detached
  cases d.table[findSink d.table ep.2]? with
  | none => rfl
  | some s =>
    by_cases hch : s.2 = ch
    · simp [hch]
    · simp [hch]

end Device

/-! ## Sequences of calls and the endpoints in the table -/

inductive DeviceCall where
  | attach (env : AttachEnv) (ep : Ip4Endpoint) (ch : Option ChannelPtr) (mode : AttachMode)
  | detach (ep : Ip4Endpoint) (ch : Option ChannelPtr) (svc : SvcTx)

namespace Device

def call (d : Device) : DeviceCall → Device × CallResult
  | .attach env ep ch mode => d.attachRx env ep ch mode
  | .detach ep ch svc => d.detachRx ep ch svc

def step (d : Device) (e : DeviceCall) : Option Device := some (d.call e).1

def endpoints (d : Device) : List Ip4Endpoint := d.table.map Prod.fst

def AttachesAgain (d : Device) : DeviceCall → Prop
  | .attach _ ep ch mode => d.attachPath ch mode = .rss ∧ ep ∈ d.endpoints
  | .detach _ _ _ => False

/-- The endpoints are distinct after the call, and one attached again is refused. -/
def Unique (t : Transition Device DeviceCall) : Prop :=
  t.post.endpoints.Nodup ∧
    (t.pre.AttachesAgain t.event →
      (t.pre.call t.event).2 = .returned (some .addressInUse) ∧ t.post.table = t.pre.table)

def NewEndpoint (d : Device) : DeviceCall → Prop
  | .attach _ ep ch mode => d.attachPath ch mode = .rss → ch ≠ none → ep ∉ d.endpoints
  | .detach _ _ _ => True

instance (d : Device) (e : DeviceCall) : Decidable (d.NewEndpoint e) :=
  match e with
  | .attach _ ep ch mode =>
    inferInstanceAs (Decidable (d.attachPath ch mode = .rss → ch ≠ none → ep ∉ d.endpoints))
  | .detach _ _ _ => inferInstanceAs (Decidable True)

theorem call_attach_again (d : Device) (env : AttachEnv) (ep : Ip4Endpoint) (ch : Option ChannelPtr)
    (mode : AttachMode) (hpath : d.attachPath ch mode = .rss) :
    (d.call (.attach env ep ch mode)).1.table = (if ch = none then d.table else d.table ++ [(ep, ch)]) ∧
      (ch = none → (d.call (.attach env ep ch mode)).2 = .returned (some .addressInUse)) := by
  constructor
  · rw [call, attachRx_table]
    by_cases hch : ch = none <;> simp [hpath, hch]
  · intro hch
    rw [call, attachRx, hpath]
    simp [attachRss, hch]

theorem step_nodup (d : Device) (e : DeviceCall) (hd : d.endpoints.Nodup) (hnew : d.NewEndpoint e) :
    (d.call e).1.endpoints.Nodup := by
  cases e with
  | attach env ep ch mode =>
    rw [endpoints, call, attachRx_table]
    by_cases happ : d.attachPath ch mode = .rss ∧ ch ≠ none
    · rw [if_pos happ, List.map_append, List.map_singleton]
      have hmem : ep ∉ d.endpoints := hnew happ.1 happ.2
      rw [List.nodup_append]
      refine ⟨hd, by simp, ?_⟩
      intro a ha b hb hab
      rw [List.mem_singleton.mp hb] at hab
      exact hmem (by rwa [hab] at ha)
    · rw [if_neg happ]
      exact hd
  | detach ep ch svc =>
    rw [endpoints, call, table, detachRx_store]
    cases d.detached ep ch with
    | none => exact hd
    | some i =>
      simp only [SinkStore.table_eraseAt]
      exact hd.sublist ((List.eraseIdx_sublist ..).map _)

theorem unique_of_newEndpoint (d d' : Device) (e : DeviceCall) (hd : d.endpoints.Nodup)
    (hnew : d.NewEndpoint e) (hstep : d.step e = some d') : Unique ⟨d, e, d'⟩ := by
  obtain rfl : (d.call e).1 = d' := Option.some.inj hstep
  refine ⟨step_nodup d e hd hnew, ?_⟩
  intro hagain
  cases e with
  | detach ep ch svc => exact absurd hagain (by simp [AttachesAgain])
  | attach env ep ch mode =>
    have hch : ch = none := by
      by_contra hch
      exact hnew hagain.1 hch hagain.2
    obtain ⟨htable, hres⟩ := call_attach_again d env ep ch mode hagain.1
    exact ⟨hres hch, by rw [htable, if_pos hch]⟩

theorem newEndpoint_of_unique (d d' : Device) (e : DeviceCall) (hstep : d.step e = some d')
    (hu : Unique ⟨d, e, d'⟩) : d.NewEndpoint e := by
  obtain rfl : (d.call e).1 = d' := Option.some.inj hstep
  cases e with
  | detach ep ch svc => exact trivial
  | attach env ep ch mode =>
    intro hpath hch hep
    have hsame := (hu.2 ⟨hpath, hep⟩).2
    obtain ⟨htable, _⟩ := call_attach_again d env ep ch mode hpath
    simp only [htable, if_neg hch] at hsame
    simpa using congrArg List.length hsame

/-- Over every run: endpoints stay unique and repeated attaches are refused exactly when no call
attaches a channel over the table to an endpoint that the table already holds. -/
theorem run_unique_iff (fqueues : List FlowQueue) (es : List DeviceCall)
    (tr : List (Transition Device DeviceCall)) (htr : trace step (create fqueues) es = some tr) :
    (∀ t ∈ tr, Unique t) ↔ ∀ t ∈ tr, t.pre.NewEndpoint t.event := by
  have hstart : (create fqueues).endpoints.Nodup := by simp [create, endpoints, table]
  constructor
  · intro hu t ht
    have hsteps : ∀ t ∈ tr, t.pre.step t.event = some t.post :=
      trace_forall (fun d e d' => d.step e = some d') (fun _ _ _ h => h) _ _ _ htr
    exact newEndpoint_of_unique _ _ _ (hsteps t ht) (hu t ht)
  · intro hnew t ht
    have hsteps : ∀ t ∈ tr, t.pre.step t.event = some t.post :=
      trace_forall (fun d e d' => d.step e = some d') (fun _ _ _ h => h) _ _ _ htr
    obtain ⟨_, hinv⟩ := trace_invariant (fun d : Device => d.endpoints.Nodup) NewEndpoint
      (fun d e d' hd hn hs => (unique_of_newEndpoint d d' e hd hn hs).1) _ _ _ htr hstart hnew
    exact unique_of_newEndpoint _ _ _ (hinv t ht).1 (hnew t ht) (hsteps t ht)

def readyEnv : AttachEnv := ⟨⟨fun _ => true, true⟩, ⟨true, true⟩⟩

theorem run_unique_two_ports :
    ∃ tr, trace step (create []) [.attach readyEnv (1, 1) (some 7) .any,
        .attach readyEnv (1, 2) (some 7) .any, .detach (1, 1) (some 7) ⟨true, true⟩] = some tr ∧
      ∀ t ∈ tr, Unique t := by
  refine ⟨_, rfl, ?_⟩
  refine (run_unique_iff [] [.attach readyEnv (1, 1) (some 7) .any,
    .attach readyEnv (1, 2) (some 7) .any, .detach (1, 1) (some 7) ⟨true, true⟩] _ rfl).mpr ?_
  simp only [List.forall_mem_cons]
  exact ⟨by decide, by decide, by decide, by simp⟩

theorem second_attach_succeeds :
    ∃ tr, trace step (create []) [.attach readyEnv (1, 1) (some 7) .rss,
        .attach readyEnv (1, 1) (some 8) .rss] = some tr ∧
      ∃ t ∈ tr, t.pre.AttachesAgain t.event ∧ (t.pre.call t.event).2 = .success ∧
        ¬ t.post.endpoints.Nodup ∧ ¬ Unique t := by
  refine ⟨_, rfl, _, List.mem_cons_of_mem _ (List.mem_cons_self ..), ⟨by decide, by decide⟩, by decide,
    by decide, ?_⟩
  intro hu
  exact absurd hu.1 (by decide)

end Device

end DpdkTools
