import DpdkTools.Device.Attach
import DpdkTools.Device.RxDispatch
import DpdkTools.Lib.Runs

/-! The cached position `last_` of a receive job while channels are attached and detached.

A run interleaves calls of `attach_rx` and `detach_rx` with the steps of the polls of one receive
job: the reload at the start of a poll, one lookup for each UDP packet, and the advance of the
checkpoint at its end (`process_events`). A detach erases in the vector that the job may hold, and
a reload puts another vector under the old position; a lookup is right as long as both leave
`last_` at the first entry of its port. -/
namespace DpdkTools
open Runs
set_option autoImplicit false

structure Cache where
  device : Device
  view : SinkView

inductive CacheEvent where
  | call (e : DeviceCall)
  | reload
  | lookup (ep : Ip4Endpoint)
  | advance (d : ℕ)

namespace Cache

def create (fqueues : List FlowQueue) (reloadHint : ℕ) : Cache :=
  ⟨Device.create fqueues, ⟨0, 1001, reloadHint, SinkStore.initial.sinks⟩⟩

def held (s : Cache) : Sinks := s.device.store.tables s.view.sinks

-- a lookup outside the table has no defined effect; the state is then left as it is
def next (s : Cache) : CacheEvent → Cache
  | .call e => { s with device := (s.device.call e).1 }
  | .reload => { s with view := (s.view.tryReloadSinks s.device.store.sinks).1 }
  | .lookup ep =>
    match s.view.findRxChannel s.device.store.tables s.device.store.sinks ep with
    | none => s
    | some r => { s with view := r.1 }
  | .advance d => { s with view := s.view.advance d }

def step (s : Cache) (e : CacheEvent) : Option Cache := some (s.next e)

/-- A lookup for `ep` here: `last_` is inside the held table, and the answer is that of a fresh
search in the table held when the lookup returns. -/
def Agrees (s : Cache) (ep : Ip4Endpoint) : Prop :=
  s.view.last < s.held.length ∧
    ∃ v, s.view.findRxChannel s.device.store.tables s.device.store.sinks ep =
      some (v, channelOf (s.device.store.tables v.sinks) ep.2)

/-- Attaches keep the table within 65536 entries; a detach leaves the entry without channel in
front, and `last_` at the first entry of its port if the job holds the table; so does a reload. -/
def Keeps (s : Cache) : CacheEvent → Prop
  | .call (.attach _ _ ch mode) =>
    s.device.attachPath ch mode = .rss → ch ≠ none → s.device.table.length < 2 ^ 16
  | .call (.detach ep ch _) =>
    ∀ i, s.device.detached ep ch = some i → i ≠ 0 ∧
      (s.view.sinks = s.device.store.sinks → Names (s.device.table.eraseIdx i) s.view.last)
  | .reload =>
    s.view.reloadCheckpoint ≤ s.view.checkpoint → s.view.sinks ≠ s.device.store.sinks →
      Names s.device.table s.view.last
  | .lookup _ => True
  | .advance _ => True

structure Inv (s : Cache) : Prop where
  held_old : s.view.sinks < s.device.store.nextTable
  published_old : s.device.store.sinks < s.device.store.nextTable
  names : Names s.held s.view.last
  held : NullFirst s.held ∧ s.held.length ≤ 2 ^ 16
  published : NullFirst s.device.table ∧ s.device.table.length ≤ 2 ^ 16

theorem inv_create (fqueues : List FlowQueue) (reloadHint : ℕ) : (create fqueues reloadHint).Inv := by
  have hnull : NullFirst [nullSink] ∧ [nullSink].length ≤ 2 ^ 16 := ⟨⟨nullSink, rfl, rfl⟩, by simp⟩
  exact ⟨Nat.zero_lt_one, Nat.zero_lt_one, names_zero _ (by simp [held, create, Device.create, SinkStore.initial]),
    hnull, hnull⟩

theorem agrees_of_inv (s : Cache) (h : s.Inv) (ep : Ip4Endpoint) : s.Agrees ep := by
  obtain ⟨v, hfind, _, _⟩ := s.view.findRxChannel_agrees s.device.store.tables s.device.store.sinks ep
    h.names h.held h.published
  exact ⟨h.names.lt, v, hfind⟩

/-! ## The steps -/

theorem nullFirst_append (sinks : Sinks) (s : Sink) (h : NullFirst sinks) : NullFirst (sinks ++ [s]) := by
  obtain ⟨s₀, hs₀, hnone⟩ := h
  refine ⟨s₀, ?_, hnone⟩
  rw [List.getElem?_append_left (List.getElem?_eq_some_iff.mp hs₀).1]
  exact hs₀

theorem nullFirst_eraseIdx (sinks : Sinks) (i : ℕ) (hi : i ≠ 0) (h : NullFirst sinks) :
    NullFirst (sinks.eraseIdx i) := by
  obtain ⟨s₀, hs₀, hnone⟩ := h
  refine ⟨s₀, ?_, hnone⟩
  rw [List.getElem?_eraseIdx_of_lt (Nat.pos_of_ne_zero hi)]
  exact hs₀

theorem inv_publish (s : Cache) (h : s.Inv) (d : Device) (x : Sink)
    (hd : d.store = s.device.store.publish (s.device.table ++ [x]))
    (hlen : s.device.table.length < 2 ^ 16) : Inv { s with device := d } := by
  have hheld : Cache.held { s with device := d } = s.held := by
    show d.store.tables s.view.sinks = _
    rw [hd]
    exact Function.update_of_ne (Nat.ne_of_lt h.held_old) ..
  have hpub : d.table = s.device.table ++ [x] := by rw [Device.table, hd, SinkStore.table_publish]
  have hnext : d.store.nextTable = s.device.store.nextTable + 1 := by rw [hd]; rfl
  have hsinks : d.store.sinks = s.device.store.nextTable := by rw [hd]; rfl
  refine ⟨?_, ?_, ?_, ?_, ?_⟩
  · show s.view.sinks < d.store.nextTable
    rw [hnext]
    exact Nat.lt_succ_of_lt h.held_old
  · show d.store.sinks < d.store.nextTable
    rw [hnext, hsinks]
    exact Nat.lt_succ_self _
  · rw [hheld]
    exact h.names
  · rw [hheld]
    exact h.held
  · show NullFirst d.table ∧ d.table.length ≤ 2 ^ 16
    rw [hpub]
    refine ⟨nullFirst_append _ _ h.published.1, ?_⟩
    rw [List.length_append, List.length_singleton]
    omega

theorem inv_eraseAt (s : Cache) (h : s.Inv) (d : Device) (i : ℕ) (hi : i ≠ 0)
    (hd : d.store = s.device.store.eraseAt i)
    (hnames : s.view.sinks = s.device.store.sinks → Names (s.device.table.eraseIdx i) s.view.last) :
    Inv { s with device := d } := by
  have hpub : d.table = s.device.table.eraseIdx i := by rw [Device.table, hd, SinkStore.table_eraseAt]; rfl
  have hgood : NullFirst d.table ∧ d.table.length ≤ 2 ^ 16 := by
    rw [hpub]
    refine ⟨nullFirst_eraseIdx _ _ hi h.published.1, ?_⟩
    exact Nat.le_trans (List.length_eraseIdx_le ..) h.published.2
  have hsinks : d.store.sinks = s.device.store.sinks := by rw [hd]; rfl
  have hnext : d.store.nextTable = s.device.store.nextTable := by rw [hd]; rfl
  have hheldOld : s.view.sinks < d.store.nextTable := by
    rw [hnext]
    exact h.held_old
  have hpublishedOld : d.store.sinks < d.store.nextTable := by
    rw [hsinks, hnext]
    exact h.published_old
  by_cases hsame : s.view.sinks = s.device.store.sinks
  · have hheld : Cache.held { s with device := d } = d.table := by
      show d.store.tables s.view.sinks = d.store.tables d.store.sinks
      rw [hsame, hsinks]
    refine ⟨hheldOld, hpublishedOld, ?_, ?_, hgood⟩
    · rw [hheld, hpub]
      exact hnames hsame
    · rw [hheld]
      exact hgood
  · have hheld : Cache.held { s with device := d } = s.held := by
      show d.store.tables s.view.sinks = _
      rw [hd]
      exact Function.update_of_ne hsame ..
    refine ⟨hheldOld, hpublishedOld, ?_, ?_, hgood⟩
    · rw [hheld]
      exact h.names
    · rw [hheld]
      exact h.held

/-- A step of the job itself: it holds its old table or the published one, at a position that
names an entry. -/
theorem inv_view (s : Cache) (h : s.Inv) (v : SinkView)
    (hsinks : v.sinks = s.view.sinks ∨ v.sinks = s.device.store.sinks)
    (hnames : Names (s.device.store.tables v.sinks) v.last) : Inv { s with view := v } := by
  refine ⟨?_, h.published_old, hnames, ?_, h.published⟩
  · show v.sinks < s.device.store.nextTable
    rcases hsinks with hs | hs
    · rw [hs]
      exact h.held_old
    · rw [hs]
      exact h.published_old
  · show NullFirst (s.device.store.tables v.sinks) ∧ (s.device.store.tables v.sinks).length ≤ 2 ^ 16
    rcases hsinks with hs | hs
    · rw [hs]
      exact h.held
    · rw [hs]
      exact h.published

theorem inv_same (s : Cache) (h : s.Inv) (d : Device) (hd : d.store = s.device.store) :
    Inv { s with device := d } := by
  obtain ⟨store, fqueues, mcasts⟩ := d
  obtain rfl : store = s.device.store := hd
  exact ⟨h.held_old, h.published_old, h.names, h.held, h.published⟩

theorem step_inv (s : Cache) (e : CacheEvent) (s' : Cache) (h : s.Inv) (hk : s.Keeps e)
    (hstep : s.step e = some s') : s'.Inv := by
  cases e with
  | call e =>
    obtain rfl := Option.some.inj hstep
    cases e with
    | attach env ep ch mode =>
      have hstore := s.device.attachRx_store env ep ch mode
      by_cases happ : s.device.attachPath ch mode = .rss ∧ ch ≠ none
      · rw [if_pos happ] at hstore
        exact inv_publish s h _ (ep, ch) hstore (hk happ.1 happ.2)
      · rw [if_neg happ] at hstore
        exact inv_same s h _ hstore
    | detach ep ch svc =>
      have hstore := s.device.detachRx_store ep ch svc
      cases hdet : s.device.detached ep ch with
      | none =>
        rw [hdet] at hstore
        exact inv_same s h _ hstore
      | some i =>
        rw [hdet] at hstore
        obtain ⟨hi, hnames⟩ := hk i hdet
        exact inv_eraseAt s h _ i hi hstore hnames
  | reload =>
    obtain rfl := Option.some.inj hstep
    obtain ⟨hlast, hsinks⟩ := s.view.tryReloadSinks_sinks s.device.store.sinks
    rcases hsinks with hs | ⟨hs, hdue, hne⟩
    · refine inv_view s h _ (Or.inl hs) ?_
      rw [hs, hlast]
      exact h.names
    · refine inv_view s h _ (Or.inr hs) ?_
      rw [hs, hlast]
      exact hk hdue hne
  | lookup ep =>
    obtain ⟨v, hfind, hsinks, hnames⟩ := s.view.findRxChannel_agrees s.device.store.tables
      s.device.store.sinks ep h.names h.held h.published
    simp only [step, next, hfind] at hstep
    obtain rfl := Option.some.inj hstep
    exact inv_view s h v hsinks hnames
  | advance d =>
    obtain rfl := Option.some.inj hstep
    exact inv_view s h _ (Or.inl rfl) h.names

/-! ## A poll as such steps -/

theorem classify_events (c : RxCall) (d : Device) (htables : c.tables = d.store.tables)
    (hpub : c.published = d.store.sinks) (v v' : SinkView) (m : Mbuf) (k : Verdict)
    (h : classify c v m = some (v', k)) :
    ∃ eps : List Ip4Endpoint, (eps.map CacheEvent.lookup).foldl next ⟨d, v⟩ = ⟨d, v'⟩ := by
  rcases classify_cases c v v' m k h with ⟨rfl, _⟩ | ⟨ch, _, _, _, hfind, _⟩
  · exact ⟨[], rfl⟩
  · rw [htables, hpub] at hfind
    refine ⟨[m.udpEndpoint], ?_⟩
    show next ⟨d, v⟩ (.lookup m.udpEndpoint) = _
    unfold next
    dsimp only
    rw [hfind]

theorem verdicts_events (c : RxCall) (d : Device) (htables : c.tables = d.store.tables)
    (hpub : c.published = d.store.sinks) (heap : MbufHeap) (burst : List MbufPtr) :
    ∀ v v' vs, verdicts c heap v burst = some (v', vs) →
      ∃ eps : List Ip4Endpoint, (eps.map CacheEvent.lookup).foldl next ⟨d, v⟩ = ⟨d, v'⟩ := by
  induction burst with
  | nil =>
    intro v v' vs h
    obtain ⟨rfl, -⟩ := Prod.mk.inj (Option.some.inj h)
    exact ⟨[], rfl⟩
  | cons b bs ih =>
    intro v v' vs h
    obtain ⟨v₁, k, rest, hcl, hrest, rfl⟩ := verdicts_cons_some c heap v v' b bs vs h
    obtain ⟨eps, heps⟩ := classify_events c d htables hpub v v₁ (heap b) k hcl
    obtain ⟨eps', heps'⟩ := ih v₁ v' rest hrest
    refine ⟨eps ++ eps', ?_⟩
    rw [List.map_append, List.foldl_append, heps, heps']

theorem foldl_advance (d : Device) (ds : List ℕ) :
    ∀ v, (ds.map CacheEvent.advance).foldl next ⟨d, v⟩ = ⟨d, ds.foldl SinkView.advance v⟩ := by
  induction ds with
  | nil =>
    intro v
    rfl
  | cons x ds ih =>
    intro v
    exact ih (v.advance x)

theorem settle_view (c : RxCall) (heap : MbufHeap) (arp : ArpTable) (burstSize n : ℕ) (v : SinkView)
    (vs : List (MbufPtr × Verdict)) :
    ∃ ds : List ℕ, (settle c heap arp burstSize n v vs).view = ds.foldl SinkView.advance v := by
  unfold settle
  dsimp only
  by_cases hnil : deferred vs = []
  · rw [if_pos hnil]
    exact ⟨[1], rfl⟩
  · rw [if_neg hnil]
    by_cases hsmall : n = (deferred vs).length ∧ (deferred vs).length ≠ burstSize
    · exact ⟨[2 * burstSize, 1], by simp only [if_pos hsmall, List.foldl_cons, List.foldl_nil]⟩
    · exact ⟨[1], by simp only [if_neg hsmall, List.foldl_cons, List.foldl_nil]⟩

/-- What a poll does to the members around the table: a reload, lookups, and advances of the
checkpoint. -/
theorem process_events (j : RxJob) (c : RxCall) (heap : MbufHeap) (arp : ArpTable)
    (burst : List MbufPtr) (hc : ∀ ch bs, c.enqueue ch bs ≤ bs.length) (d : Device)
    (htables : c.tables = d.store.tables) (hpub : c.published = d.store.sinks) (o : RxOutcome)
    (h : j.process c heap arp burst = some o) :
    ∃ (eps : List Ip4Endpoint) (ds : List ℕ),
      (CacheEvent.reload :: (eps.map CacheEvent.lookup ++ ds.map CacheEvent.advance)).foldl next
        ⟨d, j.view⟩ = ⟨d, o.view⟩ := by
  have hreload : next ⟨d, j.view⟩ .reload = ⟨d, (j.view.tryReloadSinks c.published).1⟩ := by
    rw [hpub]
    rfl
  simp only [List.foldl_cons, List.foldl_append, hreload]
  rcases j.process_cases c heap arp burst o h with ⟨_, rfl⟩ | ⟨hne, hle, _, heap', _, hl2, _, _⟩
  · exact ⟨[], [2 * j.burstSize, 1], rfl⟩
  · rw [process_spec j c heap heap' arp burst hne hle hl2 hc, Option.bind_eq_some_iff] at h
    obtain ⟨⟨v, vs⟩, hv, ho⟩ := h
    split_ifs at ho
    obtain rfl := Option.some.inj ho
    obtain ⟨eps, heps⟩ := verdicts_events c d htables hpub heap' burst _ _ _ hv
    obtain ⟨ds, hds⟩ := settle_view c heap' arp j.burstSize burst.length v vs
    refine ⟨eps, ds, ?_⟩
    rw [heps, hds]
    exact foldl_advance d ds v

/-! ## Whole runs -/

/-- In every run whose calls and reloads leave `last_` at the first entry of its port, every cached
lookup agrees with the plain one. -/
theorem run_lookup_agrees (fqueues : List FlowQueue) (reloadHint : ℕ) (es : List CacheEvent)
    (tr : List (Transition Cache CacheEvent)) (htr : trace step (create fqueues reloadHint) es = some tr)
    (hk : ∀ t ∈ tr, t.pre.Keeps t.event) :
    ∀ t ∈ tr, ∀ ep, t.event = .lookup ep → t.pre.Agrees ep := by
  intro t ht ep _
  obtain ⟨_, hinv⟩ := trace_invariant Inv Keeps step_inv _ es tr htr (inv_create fqueues reloadHint) hk
  exact agrees_of_inv t.pre (hinv t ht).1 ep

theorem run_lookup_agrees_detached :
    ∃ tr, trace step (create [] 1001)
        [.call (.attach Device.readyEnv (1, 1) (some 7) .rss),
          .call (.attach Device.readyEnv (1, 2) (some 8) .rss), .reload, .lookup (1, 1),
          .call (.detach (1, 2) (some 8) ⟨true, true⟩), .lookup (1, 2)] = some tr ∧
      ∀ t ∈ tr, ∀ ep, t.event = .lookup ep → t.pre.Agrees ep := by
  refine ⟨_, rfl, ?_⟩
  refine run_lookup_agrees [] 1001
    [.call (.attach Device.readyEnv (1, 1) (some 7) .rss),
      .call (.attach Device.readyEnv (1, 2) (some 8) .rss), .reload, .lookup (1, 1),
      .call (.detach (1, 2) (some 8) ⟨true, true⟩), .lookup (1, 2)] _ rfl ?_
  simp only [List.forall_mem_cons]
  refine ⟨fun _ _ => by decide, fun _ _ => by decide, ?_, trivial, ?_, trivial, by simp⟩
  · intro _ _
    exact names_zero _ (by decide)
  · intro i hi
    obtain rfl : 2 = i := Option.some.inj hi
    exact ⟨by decide, fun _ => ⟨_, rfl, by decide⟩⟩

theorem lookup_after_detach :
    ∃ tr, trace step (create [] 1001)
        [.call (.attach Device.readyEnv (1, 1) (some 7) .rss),
          .call (.attach Device.readyEnv (1, 2) (some 8) .rss), .reload, .lookup (1, 2),
          .call (.detach (1, 2) (some 8) ⟨true, true⟩), .lookup (1, 2)] = some tr ∧
      ∃ t ∈ tr, t.event = .lookup (1, 2) ∧ ¬ t.pre.Agrees (1, 2) := by
  refine ⟨_, rfl, _, List.mem_of_getElem? (i := 5) rfl, rfl, ?_⟩
  intro h
  exact absurd h.1 (by decide)

end Cache

end DpdkTools
