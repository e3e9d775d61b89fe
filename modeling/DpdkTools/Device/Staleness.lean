import DpdkTools.Device.RxExact

/-! How old the sink table of a receive job may get (`rx_job::try_reload_sinks` and the counter
`checkpoint_` in `rx_job::process`).

Every call adds one to the counter, and `2 * burst_size_` more when it found nothing, or nothing but
packets for no channel in a short burst. The table is compared with the published one when the
counter has reached the hint. The counter has 16 bits. -/
namespace DpdkTools
set_option autoImplicit false

/-! ## One call -/

/-- `try_reload_sinks` compares the tables. -/
def SinkView.Due (v : SinkView) : Prop := v.reloadCheckpoint ≤ v.checkpoint

instance (v : SinkView) : Decidable v.Due := inferInstanceAs (Decidable (_ ≤ _))

/-- What is left of the counter behind `try_reload_sinks`. -/
def SinkView.startCheckpoint (v : SinkView) : ℕ :=
  if v.reloadCheckpoint ≤ v.checkpoint then 0 else v.checkpoint

def SinkView.counter (v : SinkView) : ℕ × ℕ := (v.reloadCheckpoint, v.checkpoint)

theorem tryReloadSinks_counter (v : SinkView) (published : TablePtr) :
    (v.tryReloadSinks published).1.counter = (v.reloadCheckpoint, v.startCheckpoint) := by
  unfold SinkView.tryReloadSinks SinkView.startCheckpoint SinkView.counter
  split_ifs
  all_goals rfl

/-- Behind the reload that begins a call the counter stays as it is until the call ends: a lookup
compares again only where the hint is 0, and then finds the counter at 0. -/
def SinkView.Still (v : SinkView) : Prop := v.startCheckpoint = v.checkpoint

theorem still_of_counter (v v' : SinkView) (h : v'.counter = v.counter) (hv : v.Still) : v'.Still := by
  obtain ⟨hreload, hcheck⟩ := Prod.mk.inj h
  unfold SinkView.Still SinkView.startCheckpoint at hv ⊢
  rw [hreload, hcheck]
  exact hv

theorem still_tryReloadSinks (v : SinkView) (published : TablePtr) :
    (v.tryReloadSinks published).1.Still := by
  unfold SinkView.tryReloadSinks SinkView.Still SinkView.startCheckpoint
  split_ifs
  all_goals rfl

theorem tryReloadSinks_still (v : SinkView) (published : TablePtr) (hv : v.Still) :
    (v.tryReloadSinks published).1.counter = v.counter := by
  rw [tryReloadSinks_counter, hv]
  rfl

theorem lastChannel_counter (v : SinkView) (tables : TablePtr → Sinks)
    (r : SinkView × Option ChannelPtr) (h : v.lastChannel tables = some r) :
    r.1.counter = v.counter := by
  obtain ⟨s, _, rfl⟩ := Option.map_eq_some_iff.mp h
  rfl

theorem findRxChannel_counter (v : SinkView) (tables : TablePtr → Sinks) (published : TablePtr)
    (ep : Ip4Endpoint) (r : SinkView × Option ChannelPtr)
    (h : v.findRxChannel tables published ep = some r) (hv : v.Still) : r.1.counter = v.counter := by
  have hreload := tryReloadSinks_still v published hv
  unfold SinkView.findRxChannel at h
  cases hlast : (tables v.sinks)[v.last]? with
  | none => simp [hlast] at h
  | some s =>
    simp only [hlast] at h
    split_ifs at h
    · exact lastChannel_counter (v.searchSinks tables ep.2) tables r h
    · have hfound := lastChannel_counter _ tables r h
      exact hfound.trans hreload
    · exact (lastChannel_counter _ tables r h).trans hreload
    · exact lastChannel_counter v tables r h

theorem classify_counter (c : RxCall) (v : SinkView) (m : Mbuf) (r : SinkView × Verdict)
    (h : classify c v m = some r) (hv : v.Still) : r.1.counter = v.counter := by
  rcases classify_cases c v r.1 m r.2 h with ⟨hsame, _⟩ | ⟨ch, _, _, _, hfind, _⟩
  · rw [hsame]
  · exact findRxChannel_counter v c.tables c.published m.udpEndpoint (r.1, ch) hfind hv

/-! ## The loop of a call -/

theorem flush_view (s t : RxLoop) (i : ℕ) (h : s.flush i = some t) : t.view = s.view := by
  unfold RxLoop.flush at h
  by_cases hready : s.ready ≠ 0
  · rw [if_pos hready] at h
    cases hch : s.channel with
    | none => simp [hch] at h
    | some ch =>
      cases hslice : s.readySlice i with
      | none => simp [hch, hslice] at h
      | some bs =>
        simp only [hch, hslice, Option.some.injEq] at h
        exact h ▸ rfl
  · rw [if_neg hready] at h
    exact (Option.some.inj h) ▸ rfl

theorem flushRecycle_view (s t : RxLoop) (c : RxCall) (i : ℕ) (h : s.flushRecycle c i = some t) :
    t.view = s.view := by
  unfold RxLoop.flushRecycle at h
  by_cases hready : s.ready ≠ 0
  · rw [if_pos hready] at h
    cases hch : s.channel with
    | none => simp [hch] at h
    | some ch =>
      cases hslice : s.readySlice i with
      | none => simp [hch, hslice] at h
      | some bs =>
        simp only [hch, hslice] at h
        by_cases hback : c.enqueue ch bs ≠ 0
        · rw [if_pos hback] at h
          obtain ⟨rs, _, rfl⟩ := Option.map_eq_some_iff.mp h
          rfl
        · rw [if_neg hback] at h
          exact (Option.some.inj h) ▸ rfl
  · rw [if_neg hready] at h
    exact (Option.some.inj h) ▸ rfl

theorem act_view (s t : RxLoop) (c : RxCall) (i : ℕ) (b : MbufPtr) (verdict : Verdict)
    (h : s.act c i b verdict = some t) : t.view = s.view := by
  cases verdict with
  | broken => exact flush_view { s with log := s.log ++ [.free b] } t i h
  | shortUdp => exact flush_view { s with log := s.log ++ [.free b] } t i h
  | deliver ch =>
    unfold RxLoop.act at h
    by_cases hch : s.channel ≠ some ch
    · simp only [if_pos hch] at h
      obtain ⟨u, hu, rfl⟩ := Option.map_eq_some_iff.mp h
      have hview := flushRecycle_view _ u c i hu
      exact hview
    · simp only [if_neg hch, Option.some.injEq] at h
      exact h ▸ rfl
  | other =>
    obtain ⟨buffers, _, hflush⟩ := Option.bind_eq_some_iff.mp h
    have hview := flush_view _ t i hflush
    exact hview

theorem step_counter (s t : RxLoop) (c : RxCall) (i : ℕ) (h : s.step c i = some t)
    (hs : s.view.Still) : t.view.counter = s.view.counter := by
  unfold RxLoop.step at h
  cases hb : s.buffers.cells[i]? with
  | none => simp [hb] at h
  | some b =>
    cases hr : classify c s.view (s.heap b) with
    | none => simp [hb, hr] at h
    | some r =>
      simp only [hb, hr] at h
      rw [act_view _ t c i b r.2 h]
      exact classify_counter c s.view (s.heap b) r hr hs

theorem loop_counter (c : RxCall) (count i : ℕ) (s t : RxLoop)
    (h : RxLoop.loop c count i s = some t) (hs : s.view.Still) : t.view.counter = s.view.counter := by
  induction count generalizing i s with
  | zero =>
    obtain rfl := Option.some.inj h
    rfl
  | succ count ih =>
    obtain ⟨u, hu, hrest⟩ := Option.bind_eq_some_iff.mp h
    have hstep := step_counter s u c i hu hs
    exact (ih (i + 1) u hrest (still_of_counter s.view u.view hstep hs)).trans hstep

theorem finish_counter (s : RxLoop) (c : RxCall) (arp : ArpTable) (burstSize n : ℕ) (o : RxOutcome)
    (h : s.finish c arp burstSize n = some o) :
    o.view = s.view.advance 1 ∨ o.view = (s.view.advance (2 * burstSize)).advance 1 := by
  obtain ⟨t, hflush, _, _, _, hview⟩ := s.finish_cases c arp burstSize n o h
  rw [flush_view s t n hflush] at hview
  exact hview

theorem advance_idle (v : SinkView) (d : ℕ) : (v.advance d).advance 1 = v.advance (d + 1) := by
  have hmod : ((v.checkpoint + d) % 2 ^ 16 + 1) % 2 ^ 16 = (v.checkpoint + (d + 1)) % 2 ^ 16 := by
    omega
  unfold SinkView.advance
  dsimp only
  rw [hmod]

/-- A call that gets nothing adds `2 * burst_size_ + 1`, any other call that much or one. -/
theorem process_counter (j : RxJob) (c : RxCall) (heap : MbufHeap) (arp : ArpTable)
    (burst : List MbufPtr) (o : RxOutcome) (h : j.process c heap arp burst = some o) :
    o.view.reloadCheckpoint = j.view.reloadCheckpoint ∧
      ∃ d, 1 ≤ d ∧ d ≤ 2 * j.burstSize + 1 ∧
        o.view.checkpoint = (j.view.startCheckpoint + d) % 2 ^ 16 := by
  have hreload := tryReloadSinks_counter j.view c.published
  have hstill := still_tryReloadSinks j.view c.published
  -- the view at the end of the loop, and the last lines of the call
  have hend : ∃ v : SinkView, v.counter = (j.view.reloadCheckpoint, j.view.startCheckpoint) ∧
      (o.view = v.advance 1 ∨ o.view = (v.advance (2 * j.burstSize)).advance 1) := by
    rcases j.process_cases c heap arp burst o h with ⟨_, rfl⟩ | ⟨_, _, hroom, heap', s, _, hloop, hfinish⟩
    · exact ⟨(j.view.tryReloadSinks c.published).1, hreload, Or.inr rfl⟩
    · have hcounter := loop_counter c burst.length 0 _ s hloop hstill
      exact ⟨s.view, hcounter.trans hreload,
        finish_counter s c arp j.burstSize burst.length o hfinish⟩
  obtain ⟨v, hv, hview⟩ := hend
  obtain ⟨hhint, hcheck⟩ := Prod.mk.inj hv
  rw [advance_idle] at hview
  rcases hview with hview | hview
  · rw [hview]
    refine ⟨hhint, 1, Nat.le_refl 1, by omega, ?_⟩
    rw [← hcheck]
    rfl
  · rw [hview]
    refine ⟨hhint, 2 * j.burstSize + 1, by omega, Nat.le_refl _, ?_⟩
    rw [← hcheck]
    rfl

/-! ## Runs of calls -/

/-- A job between two calls, with the calls of `process` that have ended since its table was last
compared. The comparison begins a call, which then ends after it. -/
structure Polled where
  job : RxJob
  completed : ℕ

structure Poll where
  call : RxCall
  heap : MbufHeap
  arp : ArpTable
  burst : List MbufPtr

namespace Polled

def poll (s : Polled) (p : Poll) : Option Polled :=
  (s.job.process p.call p.heap p.arp p.burst).map fun o =>
    ⟨{ s.job with view := o.view }, if s.job.view.Due then 1 else s.completed + 1⟩

inductive Reachable (burtsSize reloadHint : ℕ) : Polled → Prop where
  | create (published : TablePtr) (buffers : Slots MbufPtr (2 * maxPktBurst)) :
    Reachable burtsSize reloadHint ⟨RxJob.create published burtsSize reloadHint buffers, 0⟩
  | poll {s s' : Polled} (p : Poll) : Reachable burtsSize reloadHint s → s.poll p = some s' →
    Reachable burtsSize reloadHint s'

/-- The counter has kept up with the calls. -/
def Counted (reloadHint : ℕ) (s : Polled) : Prop :=
  min reloadHint s.completed ≤ s.job.view.checkpoint

/-- The counter has kept up, and the table is no older than the hint. -/
structure Fresh (reloadHint : ℕ) (s : Polled) : Prop where
  counted : s.Counted reloadHint
  recent : s.completed ≤ reloadHint

theorem poll_spec (s s' : Polled) (p : Poll) (h : s.poll p = some s') :
    s'.job.burstSize = s.job.burstSize ∧
      s'.job.view.reloadCheckpoint = s.job.view.reloadCheckpoint ∧
      s'.completed = (if s.job.view.Due then 1 else s.completed + 1) ∧
      ∃ d, 1 ≤ d ∧ d ≤ 2 * s.job.burstSize + 1 ∧
        s'.job.view.checkpoint = (s.job.view.startCheckpoint + d) % 2 ^ 16 := by
  obtain ⟨o, ho, rfl⟩ := Option.map_eq_some_iff.mp h
  obtain ⟨hhint, hcheck⟩ := process_counter s.job p.call p.heap p.arp p.burst o ho
  exact ⟨rfl, hhint, rfl, hcheck⟩

/-- While the largest step from below the hint stays below `2 ^ 16`, the counter is never behind the
calls that have ended. -/
structure Inv (burtsSize reloadHint : ℕ) (s : Polled) : Prop where
  burst : s.job.burstSize = burtsSize
  hint : s.job.view.reloadCheckpoint = reloadHint
  counted : s.completed ≤ s.job.view.checkpoint
  recent : s.completed ≤ max reloadHint 1

theorem inv_poll (burtsSize reloadHint : ℕ) (hroom : reloadHint + 2 * burtsSize < 2 ^ 16)
    (s s' : Polled) (p : Poll) (hs : Inv burtsSize reloadHint s) (h : s.poll p = some s') :
    Inv burtsSize reloadHint s' := by
  obtain ⟨hburst, hhint, hcompleted, d, hd, hd', hcheck⟩ := poll_spec s s' p h
  have hcounted := hs.counted
  rw [hs.burst] at hburst hd'
  rw [hs.hint] at hhint
  by_cases hdue : s.job.view.Due
  · have hstart : s.job.view.startCheckpoint = 0 := if_pos hdue
    rw [if_pos hdue] at hcompleted
    rw [hstart, Nat.mod_eq_of_lt (by omega)] at hcheck
    exact ⟨hburst, hhint, by omega, by omega⟩
  · have hstart : s.job.view.startCheckpoint = s.job.view.checkpoint := if_neg hdue
    have hbelow : s.job.view.checkpoint < reloadHint := by
      rw [← hs.hint]
      exact Nat.lt_of_not_le hdue
    rw [if_neg hdue] at hcompleted
    rw [hstart, Nat.mod_eq_of_lt (by omega)] at hcheck
    exact ⟨hburst, hhint, by omega, by omega⟩

theorem burstSize_create (published : TablePtr) (burtsSize reloadHint : ℕ)
    (buffers : Slots MbufPtr (2 * maxPktBurst)) (h : burtsSize ≤ 256) :
    (RxJob.create published burtsSize reloadHint buffers).burstSize = burtsSize := by
  apply Nat.min_eq_left
  unfold maxPktBurst
  omega

theorem inv_of_reachable (burtsSize reloadHint : ℕ) (hburst : burtsSize ≤ 256)
    (hroom : reloadHint + 2 * burtsSize < 2 ^ 16) (s : Polled)
    (h : Reachable burtsSize reloadHint s) : Inv burtsSize reloadHint s := by
  induction h with
  | create published buffers =>
    exact ⟨burstSize_create published burtsSize reloadHint buffers hburst, rfl, Nat.zero_le _,
      Nat.zero_le _⟩
  | poll p _ hp ih => exact inv_poll burtsSize reloadHint hroom _ _ p ih hp

/-! ## A counter that wraps -/

def brokenMbuf : Mbuf := ⟨fun _ => 0, 60, 14, 0, 0, 0⟩

/-- One packet of ethertype 0, which is freed. -/
def brokenPoll : Poll := ⟨sampleCall fun _ _ => 0, fun _ => brokenMbuf, fun _ => none, [0]⟩

def emptyPoll : Poll := ⟨sampleCall fun _ _ => 0, fun _ => brokenMbuf, fun _ => none, []⟩

theorem process_broken (j : RxJob) (hj : 1 ≤ j.burstSize) :
    ∃ o, j.process brokenPoll.call brokenPoll.heap brokenPoll.arp brokenPoll.burst = some o ∧
      o.view = (j.view.tryReloadSinks brokenPoll.call.published).1.advance 1 := by
  have hl2 : updateL2sizes brokenPoll.heap [0] = some brokenPoll.heap := by
    apply updateL2sizes_fixed
    intro b _
    exact ⟨_, Mbuf.updateL2size_tags brokenMbuf 0 (by decide) (fun i hi => absurd hi (Nat.not_lt_zero i))
      (by decide) (by decide)⟩
  have hproto : brokenMbuf.ethProto = 0 := by decide
  have hclass : ∀ v : SinkView, classify brokenPoll.call v (brokenPoll.heap 0) = some (v, .broken) :=
    fun v => if_pos hproto
  have hverdicts : ∀ v : SinkView,
      verdicts brokenPoll.call brokenPoll.heap v [0] = some (v, [(0, .broken)]) := by
    intro v
    rw [verdicts, hclass]
    rfl
  have hspec := process_spec j brokenPoll.call brokenPoll.heap brokenPoll.heap brokenPoll.arp [0]
    (by simp) hj hl2 (by simp [brokenPoll, sampleCall])
  rw [hverdicts] at hspec
  exact ⟨_, hspec, rfl⟩

theorem poll_broken (s : Polled) (hj : 1 ≤ s.job.burstSize) (hdue : ¬ s.job.view.Due) :
    ∃ s', s.poll brokenPoll = some s' ∧ s'.job.burstSize = s.job.burstSize ∧
      s'.job.view.reloadCheckpoint = s.job.view.reloadCheckpoint ∧
      s'.job.view.checkpoint = (s.job.view.checkpoint + 1) % 2 ^ 16 ∧
      s'.completed = s.completed + 1 := by
  obtain ⟨o, ho, hview⟩ := process_broken s.job hj
  have hnot : ¬ s.job.view.reloadCheckpoint ≤ s.job.view.checkpoint := hdue
  have hsame : (s.job.view.tryReloadSinks brokenPoll.call.published).1 = s.job.view := by
    rw [SinkView.tryReloadSinks, if_neg hnot]
  rw [hsame] at hview
  refine ⟨⟨{ s.job with view := o.view }, s.completed + 1⟩, ?_, rfl, ?_, ?_, rfl⟩
  · rw [poll, ho, Option.map_some, if_neg hdue]
  · rw [hview]
    rfl
  · rw [hview]
    rfl

/-- Broken packets take the counter up to the hint one by one. -/
theorem reachable_broken (burtsSize reloadHint n : ℕ) (hhint : reloadHint < 2 ^ 16) (s : Polled)
    (hs : Reachable burtsSize reloadHint s) (hj : 1 ≤ s.job.burstSize)
    (hreload : s.job.view.reloadCheckpoint = reloadHint)
    (hn : s.job.view.checkpoint + n ≤ reloadHint) :
    ∃ s', Reachable burtsSize reloadHint s' ∧ s'.job.burstSize = s.job.burstSize ∧
      s'.job.view.reloadCheckpoint = reloadHint ∧
      s'.job.view.checkpoint = s.job.view.checkpoint + n ∧ s'.completed = s.completed + n := by
  induction n with
  | zero => exact ⟨s, hs, rfl, hreload, rfl, rfl⟩
  | succ n ih =>
    obtain ⟨t, ht, htB, htR, htC, htN⟩ := ih (by omega)
    have hdue : ¬ t.job.view.Due := by
      unfold SinkView.Due
      omega
    obtain ⟨u, hu, huB, huR, huC, huN⟩ := poll_broken t (by omega) hdue
    rw [htC, Nat.mod_eq_of_lt (by omega)] at huC
    exact ⟨u, ht.poll brokenPoll hu, huB.trans htB, huR.trans htR, by omega, by omega⟩

theorem poll_empty (s : Polled) :
    ∃ s', s.poll emptyPoll = some s' ∧
      s'.completed = (if s.job.view.Due then 1 else s.completed + 1) ∧
      s'.job.view.checkpoint = (s.job.view.startCheckpoint + (2 * s.job.burstSize + 1)) % 2 ^ 16 := by
  have hcounter := tryReloadSinks_counter s.job.view emptyPoll.call.published
  obtain ⟨_, hcheck⟩ := Prod.mk.inj hcounter
  refine ⟨⟨{ s.job with view := ((s.job.view.tryReloadSinks emptyPoll.call.published).1.advance
    (2 * s.job.burstSize)).advance 1 }, if s.job.view.Due then 1 else s.completed + 1⟩, ?_, rfl, ?_⟩
  · rw [poll, RxJob.process, emptyPoll]
    rfl
  · rw [advance_idle, ← hcheck]
    rfl

/-- An empty burst right before the next comparison takes the counter past its end. -/
theorem wraps (burtsSize reloadHint : ℕ) (hburst : 1 ≤ burtsSize) (hburst' : burtsSize ≤ 256)
    (hhint : reloadHint < 2 ^ 16) (hroom : 2 ^ 16 ≤ reloadHint + 2 * burtsSize) :
    ∃ s, Reachable burtsSize reloadHint s ∧ ¬ s.Counted reloadHint := by
  have hcreate := @Reachable.create burtsSize reloadHint 0
    ⟨List.replicate (2 * maxPktBurst) 0, List.length_replicate⟩
  have hsize := burstSize_create 0 burtsSize reloadHint
    ⟨List.replicate (2 * maxPktBurst) 0, List.length_replicate⟩ hburst'
  have hcheck : (RxJob.create 0 burtsSize reloadHint
      ⟨List.replicate (2 * maxPktBurst) 0, List.length_replicate⟩).view.checkpoint = 1001 := rfl
  obtain ⟨t, ht, htB, htR, htC, htN⟩ := reachable_broken burtsSize reloadHint (reloadHint - 1002)
    hhint _ hcreate (hburst.trans_eq hsize.symm) rfl (by dsimp only; omega)
  dsimp only at htB htC htN
  rw [hsize] at htB
  rw [hcheck] at htC
  obtain ⟨u, hu, huN, huC⟩ := poll_empty t
  have hdue : ¬ t.job.view.Due := by
    unfold SinkView.Due
    omega
  have hstart : t.job.view.startCheckpoint = t.job.view.checkpoint := if_neg hdue
  rw [if_neg hdue] at huN
  rw [hstart, htB, htC] at huC
  refine ⟨u, ht.poll emptyPoll hu, ?_⟩
  have hsmall : u.job.view.checkpoint < 1000 := by omega
  have hmany : 1000 ≤ u.completed := by omega
  unfold Counted
  omega

theorem counted_iff (burtsSize reloadHint : ℕ) (hburst : 1 ≤ burtsSize) (hburst' : burtsSize ≤ 256)
    (hhint : reloadHint < 2 ^ 16) :
    (∀ s, Reachable burtsSize reloadHint s → s.Counted reloadHint) ↔
      reloadHint + 2 * burtsSize < 2 ^ 16 := by
  constructor
  · intro hall
    by_contra hroom
    obtain ⟨s, hs, hbehind⟩ := wraps burtsSize reloadHint hburst hburst' hhint (by omega)
    exact hbehind (hall s hs)
  · intro hroom s hs
    have hinv := inv_of_reachable burtsSize reloadHint hburst' hroom s hs
    exact (Nat.min_le_right _ _).trans hinv.counted

/-- With hint 0 the first call compares, and has ended after it. -/
theorem hint_zero_late (burtsSize : ℕ) : ∃ s, Reachable burtsSize 0 s ∧ ¬ s.Fresh 0 := by
  have hcreate := @Reachable.create burtsSize 0 0
    ⟨List.replicate (2 * maxPktBurst) 0, List.length_replicate⟩
  obtain ⟨s, hs, hcompleted, _⟩ := poll_empty ⟨RxJob.create 0 burtsSize 0
    ⟨List.replicate (2 * maxPktBurst) 0, List.length_replicate⟩, 0⟩
  refine ⟨s, hcreate.poll emptyPoll hs, ?_⟩
  intro hfresh
  have hdue : (RxJob.create 0 burtsSize 0
      ⟨List.replicate (2 * maxPktBurst) 0, List.length_replicate⟩).view.Due := Nat.zero_le _
  rw [if_pos hdue] at hcompleted
  have hrecent := hfresh.recent
  omega

/-- In every run the counter keeps up and no table gets older than the hint, exactly when the hint is
not 0 and the largest step from below it stays within 16 bits. -/
theorem fresh_iff (burtsSize reloadHint : ℕ) (hburst : 1 ≤ burtsSize) (hburst' : burtsSize ≤ 256)
    (hhint : reloadHint < 2 ^ 16) :
    (∀ s, Reachable burtsSize reloadHint s → s.Fresh reloadHint) ↔
      0 < reloadHint ∧ reloadHint + 2 * burtsSize < 2 ^ 16 := by
  constructor
  · intro hall
    have hroom := (counted_iff burtsSize reloadHint hburst hburst' hhint).mp
      (fun s hs => (hall s hs).counted)
    refine ⟨?_, hroom⟩
    by_contra hzero
    obtain rfl : reloadHint = 0 := by omega
    obtain ⟨s, hs, hlate⟩ := hint_zero_late burtsSize
    exact hlate (hall s hs)
  · rintro ⟨hpos, hroom⟩ s hs
    have hinv := inv_of_reachable burtsSize reloadHint hburst' hroom s hs
    have hrecent := hinv.recent
    exact ⟨(Nat.min_le_right _ _).trans hinv.counted, by omega⟩

theorem fresh_default :
    (∃ s, Reachable 32 1001 s) ∧ ∀ s, Reachable 32 1001 s → s.Fresh 1001 :=
  ⟨⟨_, Reachable.create 0 ⟨List.replicate (2 * maxPktBurst) 0, List.length_replicate⟩⟩,
    (fresh_iff 32 1001 (by decide) (by decide) (by decide)).mpr (by decide)⟩

/-- With bursts of one packet and the largest hint, 64533 busy calls and an empty one. -/
theorem largest_hint_stale : ∃ s, Reachable 1 65535 s ∧ ¬ s.Fresh 65535 := by
  obtain ⟨s, hs, hbehind⟩ := wraps 1 65535 (by decide) (by decide) (by decide) (by decide)
  exact ⟨s, hs, fun hfresh => hbehind hfresh.counted⟩

end Polled

end DpdkTools
