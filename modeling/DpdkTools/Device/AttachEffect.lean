import DpdkTools.Device.RxExact
import DpdkTools.Device.SinkCache
import DpdkTools.Device.Staleness

/-! When a channel that is attached over the sink table gets its packets.

Any number of receive jobs poll one device while channels are attached. An attach publishes a longer
table and leaves the vectors alone that the jobs hold; a job goes on with its own until the call that
finds the counter at the hint. Behind the start of a call a job looks at the published pointer again
only where its hint is 0, so that calls may be taken as steps. -/
namespace DpdkTools
open Runs
set_option autoImplicit false

/-- What a receive call gets from the NIC, and how the channels and the services answer. The tag loops
of the burst end. -/
structure RxBurst where
  heap : MbufHeap
  burst : List MbufPtr
  measured : MbufHeap
  enqueue : ChannelPtr → List MbufPtr → ℕ
  env : RxEnv
  tags : updateL2sizes heap burst = some measured
  recycle_le : ∀ ch bs, enqueue ch bs ≤ bs.length

def RxBurst.callOf (p : RxBurst) (store : SinkStore) : RxCall :=
  ⟨store.tables, store.sinks, p.enqueue, p.env⟩

structure Receivers where
  device : Device
  arp : ArpTable
  jobs : List RxJob

inductive ReceiverEvent where
  | attach (env : AttachEnv) (ep : Ip4Endpoint) (ch : Option ChannelPtr) (mode : AttachMode)
  | receive (i : ℕ) (p : RxBurst)

def ReceiverEvent.isReceive (i : ℕ) : ReceiverEvent → Bool
  | .attach .. => false
  | .receive k _ => k = i

namespace Receivers

/-- The jobs as the constructor of the device leaves them, one for each array. -/
def create (fqueues : List FlowQueue) (burtsSize reloadHint : ℕ)
    (arrays : List (Slots MbufPtr (2 * maxPktBurst))) : Receivers :=
  ⟨Device.create fqueues, fun _ => none,
    arrays.map fun buffers => RxJob.create SinkStore.initial.sinks burtsSize reloadHint buffers⟩

/-- The call of `process` that job `j` would make now. -/
def call (s : Receivers) (j : RxJob) (p : RxBurst) : Option RxOutcome :=
  j.process (p.callOf s.device.store) p.heap s.arp p.burst

def step (s : Receivers) : ReceiverEvent → Option Receivers
  | .attach env ep ch mode => some { s with device := (s.device.attachRx env ep ch mode).1 }
  | .receive i p =>
    s.jobs[i]?.bind fun j =>
      (s.call j p).map fun o =>
        { s with arp := o.packets.arp, jobs := s.jobs.set i { j with view := o.view } }

/-- The calls of job `i` in a run. -/
def callsOf (i : ℕ) (tr : List (Transition Receivers ReceiverEvent)) : ℕ :=
  tr.countP fun t => t.event.isReceive i

end Receivers

/-! ## Tables that only grow -/

/-- Every vector that was ever published is a prefix of the published one. -/
structure SinkStore.Grown (store : SinkStore) : Prop where
  published_old : store.sinks < store.nextTable
  nullFirst : ∀ p < store.nextTable, NullFirst (store.tables p)
  grows : ∀ p < store.nextTable, store.tables p <+: store.table

theorem grown_initial : SinkStore.initial.Grown where
  published_old := Nat.zero_lt_one
  nullFirst := fun _ _ => ⟨nullSink, rfl, rfl⟩
  grows := fun _ _ => List.prefix_rfl

theorem publish_tables (store : SinkStore) (sinks : Sinks) (p : TablePtr) (hp : p < store.nextTable) :
    (store.publish sinks).tables p = store.tables p :=
  Function.update_of_ne (Nat.ne_of_lt hp) ..

theorem grown_publish (store : SinkStore) (x : Sink) (h : store.Grown) :
    (store.publish (store.table ++ [x])).Grown := by
  have hnew : (store.publish (store.table ++ [x])).tables store.nextTable = store.table ++ [x] :=
    Function.update_self ..
  refine ⟨Nat.lt_succ_self _, ?_, ?_⟩
  · intro p hp
    obtain hold | rfl := Nat.lt_succ_iff_lt_or_eq.mp hp
    · rw [publish_tables store _ p hold]
      exact h.nullFirst p hold
    · rw [hnew]
      exact Cache.nullFirst_append _ _ (h.nullFirst _ h.published_old)
  · intro p hp
    rw [SinkStore.table_publish]
    obtain hold | rfl := Nat.lt_succ_iff_lt_or_eq.mp hp
    · rw [publish_tables store _ p hold]
      exact (h.grows p hold).trans (List.prefix_append _ _)
    · rw [hnew]

/-- An attach publishes a longer table or none. -/
theorem attachRx_publishes (d : Device) (env : AttachEnv) (ep : Ip4Endpoint) (ch : Option ChannelPtr)
    (mode : AttachMode) :
    (d.attachRx env ep ch mode).1.store = d.store ∨
      ∃ x, (d.attachRx env ep ch mode).1.store = d.store.publish (d.store.table ++ [x]) := by
  rw [Device.attachRx_store]
  split_ifs
  · exact Or.inr ⟨_, rfl⟩
  · exact Or.inl rfl

theorem findSink_append (sinks rest : Sinks) (port : Be16) (h : findSink sinks port < sinks.length) :
    findSink (sinks ++ rest) port = findSink sinks port := by
  unfold findSink
  rw [List.findIdx_append]
  exact if_pos h

theorem channelOf_prefix (sinks sinks' : Sinks) (port : Be16) (ch : ChannelPtr)
    (h : sinks <+: sinks') (hch : channelOf sinks port = some ch) : channelOf sinks' port = some ch := by
  obtain ⟨rest, rfl⟩ := h
  have hlt : findSink sinks port < sinks.length := by
    by_contra hout
    rw [channelOf_absent sinks port (Nat.le_antisymm (findSink_le sinks port) (Nat.le_of_not_lt hout))] at hch
    exact absurd hch (Option.some_ne_none ch).symm
  rw [channelOf, findSink_append sinks rest port hlt, List.getElem?_append_left hlt]
  exact hch

theorem channelOf_new (sinks : Sinks) (ep : Ip4Endpoint) (ch : ChannelPtr) (h : ep.2 ∉ ports sinks) :
    channelOf (sinks ++ [(ep, some ch)]) ep.2 = some ch := by
  have hnone : ∀ s ∈ sinks, (s.1.2 == ep.2) = false := by
    intro s hs
    rw [beq_eq_false_iff_ne]
    rintro heq
    exact h (List.mem_map.mpr ⟨s, hs, heq⟩)
  have hfind : findSink (sinks ++ [(ep, some ch)]) ep.2 = sinks.length := by
    unfold findSink
    rw [List.findIdx_append, List.findIdx_eq_length.mpr hnone, if_neg (Nat.lt_irrefl _)]
    simp [List.findIdx_cons]
  rw [channelOf, hfind, List.getElem?_concat_length]
  rfl

theorem names_prefix (sinks sinks' : Sinks) (i : ℕ) (h : sinks <+: sinks') (hi : Names sinks i) :
    Names sinks' i := by
  obtain ⟨rest, rfl⟩ := h
  obtain ⟨x, hx, hfind⟩ := hi
  have hlt : i < sinks.length := (List.getElem?_eq_some_iff.mp hx).1
  refine ⟨x, ?_, ?_⟩
  · rw [List.getElem?_append_left hlt]
    exact hx
  · rw [findSink_append sinks rest x.1.2 (hfind ▸ hlt)]
    exact hfind

/-! ## One call -/

theorem foldl_advance (ds : List ℕ) (v : SinkView) :
    (ds.foldl SinkView.advance v).sinks = v.sinks ∧ (ds.foldl SinkView.advance v).last = v.last := by
  induction ds generalizing v with
  | nil => exact ⟨rfl, rfl⟩
  | cons d ds ih => exact ih (v.advance d)

/-- A call of a job whose table is in order behind the reload: dispatch is exact on that table, and the
job goes on holding it. -/
theorem process_reloaded (j : RxJob) (c : RxCall) (heap heap' : MbufHeap) (arp : ArpTable)
    (burst : List MbufPtr) (hburst : j.burstSize ≤ maxPktBurst) (hle : burst.length ≤ j.burstSize)
    (hl2 : updateL2sizes heap burst = some heap') (hc : ∀ ch bs, c.enqueue ch bs ≤ bs.length)
    (v : SinkView) (hv : (j.view.tryReloadSinks c.published).1 = v) (hset : Settled c v) :
    DispatchExact (c.tables v.sinks) heap' burst (j.process c heap arp burst) ∧
      ∀ o, j.process c heap arp burst = some o →
        o.view.sinks = v.sinks ∧ Names (c.tables v.sinks) o.view.last := by
  by_cases hne : burst = []
  · subst hne
    rw [RxJob.process, if_pos rfl, hv]
    refine ⟨⟨_, rfl, rfl, rfl⟩, ?_⟩
    rintro o ho
    obtain rfl := Option.some.inj ho
    exact ⟨rfl, hset.names⟩
  · obtain ⟨v', hverdicts, hsinks, hset'⟩ := verdicts_fresh c heap' burst v hset
    have hfilter : (remaining (c.tables v.sinks) heap' burst).length ≤ burst.length :=
      List.length_filter_le ..
    have hproc := process_spec j c heap heap' arp burst hne hle hl2 hc
    rw [hv, hverdicts, Option.bind_some] at hproc
    simp only [deferred_fresh] at hproc
    rw [if_pos (by omega)] at hproc
    rw [hproc]
    refine ⟨⟨_, rfl, ?_, ?_⟩, ?_⟩
    · rw [(handed_settle _ _ _ _ _ _ _).1, delivered_fresh]
    · rw [(handed_settle _ _ _ _ _ _ _).2, deferred_fresh]
    · rintro o ho
      obtain rfl := Option.some.inj ho
      obtain ⟨ds, hds⟩ := Cache.settle_view c heap' arp j.burstSize burst.length v'
        (burst.map fun b => (b, verdictOf (c.tables v.sinks) (heap' b)))
      obtain ⟨hheld, hlast⟩ := foldl_advance ds v'
      rw [hds, hheld, hlast, ← hsinks]
      exact ⟨rfl, hset'.names⟩

/-- The reload leaves a job with a table in order: its own one, or the published one. -/
theorem settled_reload (store : SinkStore) (h : store.Grown) (hlen : store.table.length ≤ 2 ^ 16)
    (v : SinkView) (hold : v.sinks < store.nextTable) (hnames : Names (store.tables v.sinks) v.last)
    (p : RxBurst) :
    (v.tryReloadSinks store.sinks).1.sinks < store.nextTable ∧
      Settled (p.callOf store) (v.tryReloadSinks store.sinks).1 := by
  obtain ⟨hlast, hsinks⟩ := v.tryReloadSinks_sinks store.sinks
  have hheld : (v.tryReloadSinks store.sinks).1.sinks < store.nextTable ∧
      Names (store.tables (v.tryReloadSinks store.sinks).1.sinks) v.last := by
    obtain hkept | ⟨hnew, -, -⟩ := hsinks
    · rw [hkept]
      exact ⟨hold, hnames⟩
    · rw [hnew]
      exact ⟨h.published_old, names_prefix _ _ _ (h.grows v.sinks hold) hnames⟩
  refine ⟨hheld.1, ?_, ?_, h.nullFirst _ hheld.1, ?_⟩
  · exact v.tryReloadSinks_quiet store.sinks
  · rw [hlast]
    exact hheld.2
  · exact (h.grows _ hheld.1).length_le.trans hlen

/-! ## The states of a run -/

/-- A job between two calls: it holds a table that was published once. -/
structure RxJob.Between (burtsSize reloadHint : ℕ) (store : SinkStore) (j : RxJob) : Prop where
  burst : j.burstSize = burtsSize
  hint : j.view.reloadCheckpoint = reloadHint
  held_old : j.view.sinks < store.nextTable
  names : Names (store.tables j.view.sinks) j.view.last

namespace Receivers

structure Inv (burtsSize reloadHint : ℕ) (s : Receivers) : Prop where
  grown : s.device.store.Grown
  jobs : ∀ j ∈ s.jobs, j.Between burtsSize reloadHint s.device.store

theorem inv_create (fqueues : List FlowQueue) (burtsSize reloadHint : ℕ)
    (arrays : List (Slots MbufPtr (2 * maxPktBurst))) (hburst : burtsSize ≤ maxPktBurst) :
    Inv burtsSize reloadHint (create fqueues burtsSize reloadHint arrays) where
  grown := grown_initial
  jobs := by
    intro j hj
    obtain ⟨buffers, -, rfl⟩ := List.mem_map.mp hj
    exact ⟨Polled.burstSize_create _ _ _ _ hburst, rfl, Nat.zero_lt_one,
      names_zero _ (NullFirst.pos ⟨nullSink, rfl, rfl⟩)⟩

section Steps
variable {burtsSize reloadHint : ℕ} {s : Receivers} (h : Inv burtsSize reloadHint s)
include h

theorem inv_attach (env : AttachEnv) (ep : Ip4Endpoint) (ch : Option ChannelPtr) (mode : AttachMode) :
    Inv burtsSize reloadHint { s with device := (s.device.attachRx env ep ch mode).1 } := by
  obtain hsame | ⟨x, hnew⟩ := attachRx_publishes s.device env ep ch mode
  · refine ⟨?_, ?_⟩
    · dsimp only
      rw [hsame]
      exact h.grown
    · dsimp only
      rw [hsame]
      exact h.jobs
  · refine ⟨?_, ?_⟩
    · dsimp only
      rw [hnew]
      exact grown_publish _ x h.grown
    · dsimp only
      rw [hnew]
      intro j hj
      obtain ⟨hb, hh, hold, hnames⟩ := h.jobs j hj
      refine ⟨hb, hh, Nat.lt_succ_of_lt hold, ?_⟩
      rw [publish_tables _ _ _ hold]
      exact hnames

/-- Every call dispatches exactly on a table that was published once, and leaves the job in order. -/
theorem call_spec (hburst : burtsSize ≤ maxPktBurst) (hlen : s.device.table.length ≤ 2 ^ 16) (j : RxJob)
    (hj : j ∈ s.jobs) (p : RxBurst) (hp : p.burst.length ≤ burtsSize) :
    (j.view.tryReloadSinks s.device.store.sinks).1.sinks < s.device.store.nextTable ∧
      DispatchExact (s.device.store.tables (j.view.tryReloadSinks s.device.store.sinks).1.sinks)
        p.measured p.burst (s.call j p) ∧
      ∀ o, s.call j p = some o →
        o.view.sinks = (j.view.tryReloadSinks s.device.store.sinks).1.sinks ∧
          RxJob.Between burtsSize reloadHint s.device.store { j with view := o.view } := by
  obtain ⟨hb, hh, hold, hnames⟩ := h.jobs j hj
  obtain ⟨hheld, hset⟩ := settled_reload s.device.store h.grown hlen j.view hold hnames p
  obtain ⟨hexact, hview⟩ := process_reloaded j (p.callOf s.device.store) p.heap p.measured s.arp p.burst
    (hb.trans_le hburst) (hb ▸ hp) p.tags p.recycle_le _ rfl hset
  refine ⟨hheld, hexact, ?_⟩
  intro o ho
  obtain ⟨hsinks, hlast⟩ := hview o ho
  refine ⟨hsinks, hb, ?_, ?_, ?_⟩
  · exact (process_counter j _ _ _ _ o ho).1.trans hh
  · exact hsinks.trans_lt hheld
  · exact hsinks ▸ hlast

theorem call_length (j : RxJob) (hj : j ∈ s.jobs) (p : RxBurst) (o : RxOutcome)
    (ho : s.call j p = some o) : p.burst.length ≤ burtsSize := by
  rw [← (h.jobs j hj).burst]
  obtain ⟨hempty, -⟩ | ⟨-, hle, -⟩ := j.process_cases _ _ _ _ o ho
  · rw [hempty]
    exact Nat.zero_le _
  · exact hle

end Steps

theorem step_inv (burtsSize reloadHint : ℕ) (hburst : burtsSize ≤ maxPktBurst) (s s' : Receivers)
    (e : ReceiverEvent) (h : Inv burtsSize reloadHint s) (hlen : s.device.table.length ≤ 2 ^ 16)
    (hstep : s.step e = some s') : Inv burtsSize reloadHint s' := by
  cases e with
  | attach env ep ch mode =>
    obtain rfl := Option.some.inj hstep
    exact inv_attach h env ep ch mode
  | receive i p =>
    obtain ⟨j, hj, hcall⟩ := Option.bind_eq_some_iff.mp hstep
    obtain ⟨o, ho, rfl⟩ := Option.map_eq_some_iff.mp hcall
    have hin := List.mem_of_getElem? hj
    obtain ⟨-, -, hbetween⟩ := call_spec h hburst hlen j hin p (call_length h j hin p o ho)
    refine ⟨h.grown, ?_⟩
    intro j' hj'
    obtain hold | rfl := List.mem_or_eq_of_mem_set hj'
    · exact h.jobs j' hold
    · exact (hbetween o ho).2

/-- A step leaves the published table as it is or makes it longer. -/
theorem step_grows (s s' : Receivers) (e : ReceiverEvent) (hstep : s.step e = some s') :
    s.device.table <+: s'.device.table := by
  cases e with
  | attach env ep ch mode =>
    obtain rfl := Option.some.inj hstep
    obtain hsame | ⟨x, hnew⟩ := attachRx_publishes s.device env ep ch mode
    · unfold Device.table
      dsimp only
      rw [hsame]
    · unfold Device.table
      dsimp only
      rw [hnew, SinkStore.table_publish]
      exact List.prefix_append _ _
  | receive i p =>
    obtain ⟨j, -, hcall⟩ := Option.bind_eq_some_iff.mp hstep
    obtain ⟨o, -, rfl⟩ := Option.map_eq_some_iff.mp hcall
    exact List.prefix_rfl

/-! ## The calls behind an attach -/

/-- Job `i` holds the table, or will compare after `n` calls at most fewer than its hint. -/
def Seen (i : ℕ) (table : Sinks) (n : ℕ) (s : Receivers) : Prop :=
  table <+: s.device.table ∧
    ∀ j, s.jobs[i]? = some j → table <+: s.device.store.tables j.view.sinks ∨ n ≤ j.view.checkpoint

theorem reload_seen (v : SinkView) (store : SinkStore) (table : Sinks) (hpub : table <+: store.table)
    (h : table <+: store.tables v.sinks ∨ v.reloadCheckpoint ≤ v.checkpoint) :
    table <+: store.tables (v.tryReloadSinks store.sinks).1.sinks := by
  unfold SinkView.tryReloadSinks
  split_ifs with hdue hsame
  · exact hpub
  · rw [not_not.mp hsame]
    exact hpub
  · exact h.resolve_right hdue

/-- A call compares, or counts up without a wrap. -/
theorem call_seen {burtsSize reloadHint : ℕ} {s : Receivers} (h : Inv burtsSize reloadHint s)
    (hburst : burtsSize ≤ maxPktBurst) (hroom : reloadHint + 2 * burtsSize < 2 ^ 16)
    (hlen : s.device.table.length ≤ 2 ^ 16) (j : RxJob) (hj : j ∈ s.jobs) (p : RxBurst) (o : RxOutcome)
    (ho : s.call j p = some o) (table : Sinks) (hpub : table <+: s.device.table) (n : ℕ)
    (hseen : table <+: s.device.store.tables j.view.sinks ∨ n ≤ j.view.checkpoint) :
    table <+: s.device.store.tables o.view.sinks ∨ n + 1 ≤ o.view.checkpoint := by
  obtain ⟨-, -, hbetween⟩ := call_spec h hburst hlen j hj p (call_length h j hj p o ho)
  obtain ⟨-, d, hd, hd', hcheck⟩ := process_counter j _ _ _ _ o ho
  rw [(hbetween o ho).1]
  by_cases hdue : j.view.reloadCheckpoint ≤ j.view.checkpoint
  · exact Or.inl (reload_seen j.view s.device.store table hpub (Or.inr hdue))
  · refine hseen.imp ?_ ?_
    · intro hheld
      exact reload_seen j.view s.device.store table hpub (Or.inl hheld)
    · intro hn
      have hstart : j.view.startCheckpoint = j.view.checkpoint := if_neg hdue
      have hb := (h.jobs j hj).burst
      have hh := (h.jobs j hj).hint
      rw [hb] at hd'
      rw [hh] at hdue
      rw [hcheck, hstart, Nat.mod_eq_of_lt (by omega)]
      omega

theorem step_seen (burtsSize reloadHint : ℕ) (hburst : burtsSize ≤ maxPktBurst)
    (hroom : reloadHint + 2 * burtsSize < 2 ^ 16) (i : ℕ) (table : Sinks) (n : ℕ) (s : Receivers)
    (e : ReceiverEvent) (s' : Receivers) (h : Inv burtsSize reloadHint s ∧ Seen i table n s)
    (hlen : s.device.table.length ≤ 2 ^ 16) (hstep : s.step e = some s') :
    Inv burtsSize reloadHint s' ∧ Seen i table (n + if e.isReceive i then 1 else 0) s' := by
  obtain ⟨hinv, hpub, hjob⟩ := h
  refine ⟨step_inv burtsSize reloadHint hburst s s' e hinv hlen hstep,
    hpub.trans (step_grows s s' e hstep), ?_⟩
  cases e with
  | attach env ep ch mode =>
    obtain rfl := Option.some.inj hstep
    intro j hj
    have hheld : (s.device.attachRx env ep ch mode).1.store.tables j.view.sinks =
        s.device.store.tables j.view.sinks := by
      obtain hsame | ⟨x, hnew⟩ := attachRx_publishes s.device env ep ch mode
      · rw [hsame]
      · rw [hnew]
        exact publish_tables _ _ _ (hinv.jobs j (List.mem_of_getElem? hj)).held_old
    dsimp only
    rw [hheld]
    exact hjob j hj
  | receive k p =>
    obtain ⟨j₀, hj₀, hcall⟩ := Option.bind_eq_some_iff.mp hstep
    obtain ⟨o, ho, rfl⟩ := Option.map_eq_some_iff.mp hcall
    intro j hj
    dsimp only at hj ⊢
    by_cases hk : k = i
    · subst hk
      rw [List.getElem?_set_self (List.getElem?_eq_some_iff.mp hj₀).1] at hj
      obtain rfl := Option.some.inj hj
      have hcount : ReceiverEvent.isReceive k (.receive k p) = true := decide_eq_true rfl
      rw [if_pos hcount]
      exact call_seen hinv hburst hroom hlen j₀ (List.mem_of_getElem? hj₀) p o ho table hpub n
        (hjob j₀ hj₀)
    · rw [List.getElem?_set_ne hk] at hj
      have hcount : ReceiverEvent.isReceive i (.receive k p) = false := decide_eq_false hk
      rw [hcount]
      exact hjob j hj

/-! ## Whole runs -/

section Run
variable (fqueues : List FlowQueue) (burtsSize reloadHint : ℕ)
  (arrays : List (Slots MbufPtr (2 * maxPktBurst))) (hburst : burtsSize ≤ 256) (es : List ReceiverEvent)
  (tr : List (Transition Receivers ReceiverEvent))
  (htr : trace step (create fqueues burtsSize reloadHint arrays) es = some tr)
  (hlen : (final (create fqueues burtsSize reloadHint arrays) tr).device.table.length ≤ 2 ^ 16)
include htr hlen

/-- No table of a run is longer than the last one. -/
theorem run_short : ∀ t ∈ tr, t.pre.device.table.length ≤ 2 ^ 16 := by
  obtain ⟨-, hgrows⟩ := trace_grows (fun a b : Receivers => a.device.table <+: b.device.table)
    (fun _ => List.prefix_rfl) (fun _ _ _ => List.IsPrefix.trans)
    (fun s e s' => step_grows s s' e) _ es tr htr
  exact fun t ht => (hgrows t ht).length_le.trans hlen

include hburst

theorem run_inv :
    Inv burtsSize reloadHint (final (create fqueues burtsSize reloadHint arrays) tr) ∧
      ∀ t ∈ tr, Inv burtsSize reloadHint t.pre ∧ Inv burtsSize reloadHint t.post :=
  trace_invariant (Inv burtsSize reloadHint) (fun s _ => s.device.table.length ≤ 2 ^ 16)
    (fun s e s' h hlen => step_inv burtsSize reloadHint hburst s s' e h hlen) _ es tr htr
    (inv_create fqueues burtsSize reloadHint arrays hburst)
    (run_short fqueues burtsSize reloadHint arrays es tr htr hlen)

/-- As many calls as its hint says behind an attach, the table of a job has the new channel. -/
theorem attached_seen (hroom : reloadHint + 2 * burtsSize < 2 ^ 16)
    (before after : List (Transition Receivers ReceiverEvent)) (s s' : Receivers) (env : AttachEnv)
    (ep : Ip4Endpoint) (ch : ChannelPtr) (mode : AttachMode)
    (hsplit : tr = before ++ ⟨s, .attach env ep (some ch) mode, s'⟩ :: after)
    (hpath : s.device.attachPath (some ch) mode = .rss) (hnew : ep.2 ∉ ports s.device.table) (i : ℕ)
    (j : RxJob) (hj : (final (create fqueues burtsSize reloadHint arrays) tr).jobs[i]? = some j)
    (hcalls : reloadHint ≤ callsOf i after) :
    channelOf ((final (create fqueues burtsSize reloadHint arrays) tr).device.store.tables
      (j.view.tryReloadSinks
        (final (create fqueues burtsSize reloadHint arrays) tr).device.store.sinks).1.sinks) ep.2 =
      some ch := by
  have hshort := run_short fqueues burtsSize reloadHint arrays es tr htr hlen
  obtain ⟨-, hinv⟩ := run_inv fqueues burtsSize reloadHint arrays hburst es tr htr hlen
  subst hsplit
  have hin : (⟨s, .attach env ep (some ch) mode, s'⟩ : Transition Receivers ReceiverEvent) ∈
      before ++ ⟨s, .attach env ep (some ch) mode, s'⟩ :: after :=
    List.mem_append_right _ List.mem_cons_self
  obtain ⟨hattach, es', hes'⟩ := trace_split _ es before _ after htr
  have htable : s'.device.table = s.device.table ++ [(ep, some ch)] := by
    have hpost := congrArg (fun t : Receivers => t.device.table) (Option.some.inj hattach)
    have happend := s.device.attachRx_table env ep (some ch) mode
    rw [if_pos ⟨hpath, Option.some_ne_none ch⟩] at happend
    exact hpost.symm.trans happend
  have hseen : Seen i s'.device.table 0 s' := ⟨List.prefix_rfl, fun _ _ => Or.inr (Nat.zero_le _)⟩
  obtain ⟨hfinal, hpub, hjob⟩ := trace_count (fun s _ => s.device.table.length ≤ 2 ^ 16)
    (fun n s => Inv burtsSize reloadHint s ∧ Seen i s'.device.table n s) (ReceiverEvent.isReceive i)
    (step_seen burtsSize reloadHint hburst hroom i s'.device.table) 0 s' es' after hes'
    ⟨(hinv _ hin).2, hseen⟩
    (fun t ht => hshort t (List.mem_append_right _ (List.mem_cons_of_mem _ ht)))
  rw [Nat.zero_add] at hjob
  rw [final_split] at hj ⊢
  have hmem := List.mem_of_getElem? hj
  have hdue : s'.device.table <+: (final s' after).device.store.tables j.view.sinks ∨
      j.view.reloadCheckpoint ≤ j.view.checkpoint := by
    refine (hjob j hj).imp id ?_
    rw [(hfinal.jobs j hmem).hint]
    exact hcalls.trans
  apply channelOf_prefix _ _ ep.2 ch (reload_seen j.view _ _ hpub hdue)
  rw [htable]
  exact channelOf_new s.device.table ep ch hnew

/-- Calls of the jobs and attaches come in any order. Each call of a job in a state reached is exact on
a part of the published table; and where a channel was attached over the sink table to a port that no
entry had, and the job has made as many calls since as its hint says, on one in which the channel has
the port. -/
theorem attach_takes_effect (hroom : reloadHint + 2 * burtsSize < 2 ^ 16) (i : ℕ) (j : RxJob)
    (hj : (final (create fqueues burtsSize reloadHint arrays) tr).jobs[i]? = some j) (p : RxBurst)
    (hp : p.burst.length ≤ burtsSize) :
    ∃ sinks, sinks <+: (final (create fqueues burtsSize reloadHint arrays) tr).device.table ∧
      DispatchExact sinks p.measured p.burst
        ((final (create fqueues burtsSize reloadHint arrays) tr).call j p) ∧
      ∀ before after s s' env ep ch mode,
        tr = before ++ ⟨s, .attach env ep (some ch) mode, s'⟩ :: after →
        s.device.attachPath (some ch) mode = .rss → ep.2 ∉ ports s.device.table →
        reloadHint ≤ callsOf i after → channelOf sinks ep.2 = some ch := by
  have hfinal := (run_inv fqueues burtsSize reloadHint arrays hburst es tr htr hlen).1
  obtain ⟨hheld, hexact, -⟩ := call_spec hfinal hburst hlen j (List.mem_of_getElem? hj) p hp
  refine ⟨_, hfinal.grown.grows _ hheld, hexact, ?_⟩
  intro before after s s' env ep ch mode hsplit hpath hnew hcalls
  exact attached_seen fqueues burtsSize reloadHint arrays hburst es tr htr hlen hroom before after s s'
    env ep ch mode hsplit hpath hnew i j hj hcalls

end Run

theorem nothingBack (ch : ChannelPtr) (bs : List MbufPtr) :
    (sampleCall fun _ _ => 0).enqueue ch bs ≤ bs.length :=
  Nat.zero_le _

/-- Two UDP packets for port 0x1092, and an ARP packet. -/
def mixedReceive : RxBurst where
  heap := mixedHeap
  burst := [0, 1, 2]
  measured := mixedHeap
  enqueue := (sampleCall fun _ _ => 0).enqueue
  env := (sampleCall fun _ _ => 0).env
  tags := mixedHeap_fixed _
  recycle_le := nothingBack

def quietReceive : RxBurst := { mixedReceive with burst := [], tags := mixedHeap_fixed [] }

def attachMixed : ReceiverEvent :=
  .attach Device.readyEnv (0x010101EF, rteBe16 0x1092) (some 7) .rss

def oneJob : Receivers := create [] 32 1 [(freshJob 32).buffers]

theorem oneJob_final :
    ((trace step oneJob [attachMixed, .receive 0 quietReceive]).map fun tr =>
      ((final oneJob tr).device.table.length, (final oneJob tr).jobs.length)) = some (2, 1) := by
  decide +kernel

/-- The job has had no packets since the attach, and one call. -/
theorem attach_takes_effect_mixed :
    ∃ (s' s'' : Receivers) (j : RxJob), oneJob.step attachMixed = some s' ∧
      s'.step (.receive 0 quietReceive) = some s'' ∧ s''.jobs[0]? = some j ∧
      ∃ sinks, sinks <+: s''.device.table ∧
        DispatchExact sinks mixedHeap [0, 1, 2] (s''.call j mixedReceive) ∧
        channelOf sinks (rteBe16 0x1092) = some 7 := by
  obtain ⟨tr, htr, hfinal⟩ := Option.map_eq_some_iff.mp oneJob_final
  obtain ⟨s', rest, hattach, hrest, rfl⟩ := trace_cons htr
  obtain ⟨s'', rest', hreceive, hnil, rfl⟩ := trace_cons hrest
  obtain rfl := trace_nil hnil
  obtain ⟨htable, hjobs⟩ := Prod.mk.inj hfinal
  have hlast : final oneJob [⟨oneJob, attachMixed, s'⟩, ⟨s', .receive 0 quietReceive, s''⟩] = s'' := rfl
  rw [hlast] at htable hjobs
  have hj : s''.jobs[0]? = some (s''.jobs[0]) := List.getElem?_eq_getElem (by omega)
  obtain ⟨sinks, hprefix, hexact, hch⟩ := attach_takes_effect [] 32 1 [(freshJob 32).buffers]
    (by decide) _ _ htr (htable.trans_le (by decide)) (by decide) 0 _ hj mixedReceive (by decide)
  have hcalls : callsOf 0 [⟨s', .receive 0 quietReceive, s''⟩] = 1 := rfl
  exact ⟨s', s'', _, hattach, hreceive, hj, sinks, hprefix, hexact,
    hch [] _ oneJob s' Device.readyEnv (0x010101EF, rteBe16 0x1092) 7 .rss rfl (by decide) (by decide)
      hcalls.ge⟩

end Receivers

end DpdkTools
