import DpdkTools.Device.SinkProgress
import DpdkTools.Device.SinkUpdates

/-! The results of the calls and the multicast references, and what a whole run leaves behind.

A group is live from the return of its attach to the return of its detach. Its counter exists
during that time only, and is one. -/
namespace DpdkTools
open Runs
set_option autoImplicit false

namespace CasState

def Live (s : CasState) (g : Be32) : Prop :=
  ∃ i c, s.calls i = some c ∧ c.op = .attach ∧ c.isMcast = true ∧ c.finished ∧ c.ep.1 = g ∧
    ∀ k d, s.calls k = some d → d.op = .detach → d.finished → d.ep ≠ c.ep

structure CountInv (s : CasState) : Prop where
  returned : ∀ i c r, s.calls i = some c → c.pc = .done r → r = .success
  adjusted : ∀ i c, s.calls i = some c →
    (c.finished → c.adjusts = if c.isMcast then 1 else 0) ∧ (¬ c.finished → c.adjusts = 0)
  joined : ∀ g, s.Live g → s.shared.mcasts.joinedMcasts g = some 1
  absent : ∀ g, ¬ s.Live g → s.shared.mcasts.joinedMcasts g = none

theorem countInv_initial : initial.CountInv := by
  constructor <;> simp [initial, Live, Shared.initial, Mcasts.empty]

/-! ## Live groups under a step -/

section Live
variable (s : CasState) (sh' : Shared) (i : ℕ) (c c' : Call) (hc : s.calls i = some c)
  (hsame : Call.Same c c') (hnot : ¬ c.finished)

include hc hnot in
theorem finished_other (k : ℕ) (d : Call) (hd : s.calls k = some d) (hfin : d.finished) : k ≠ i := by
  rintro rfl
  obtain rfl := Option.some.inj (hc.symm.trans hd)
  exact hnot hfin

include hc hsame hnot in
/-- Only a call for a multicast endpoint that returns changes which groups are live. -/
theorem live_same (hplain : c'.finished → c.isMcast = false) (g : Be32) :
    Live ⟨sh', Function.update s.calls i (some c'), s.held⟩ g ↔ s.Live g := by
  constructor
  · rintro ⟨k, a, ha, haop, hmcast, hfin, hg, hno⟩
    rcases calls_update s i k c' a ha with ⟨_, rfl⟩ | ⟨_, ha⟩
    · rw [hsame.isMcast_eq, hplain hfin] at hmcast
      exact absurd hmcast (by simp)
    · refine ⟨k, a, ha, haop, hmcast, hfin, hg, ?_⟩
      intro l d hd hdop hdfin
      have hli := finished_other s i c hc hnot l d hd hdfin
      exact hno l d (update_other s i l c' d hli hd) hdop hdfin
  · rintro ⟨k, a, ha, haop, hmcast, hfin, hg, hno⟩
    have hki := finished_other s i c hc hnot k a ha hfin
    refine ⟨k, a, update_other s i k c' a hki ha, haop, hmcast, hfin, hg, ?_⟩
    intro l d hd hdop hdfin hep
    rcases calls_update s i l c' d hd with ⟨_, rfl⟩ | ⟨_, hd⟩
    · have hplain' := hplain hdfin
      rw [← hsame.isMcast_eq, Call.isMcast, hep] at hplain'
      exact absurd (hplain'.symm.trans hmcast) (by simp)
    · exact hno l d hd hdop hdfin hep

include hc hsame hnot in
theorem live_attach (hreg : s.Registered) (hop : c.op = .attach) (hmcast : c.isMcast = true)
    (hfin : c'.finished) (g : Be32) :
    Live ⟨sh', Function.update s.calls i (some c'), s.held⟩ g ↔ s.Live g ∨ g = c.ep.1 := by
  have hdetach : ∀ l d, Function.update s.calls i (some c') l = some d → d.op = .detach →
      s.calls l = some d := by
    intro l d hd hdop
    rcases calls_update s i l c' d hd with ⟨_, rfl⟩ | ⟨_, hd⟩
    · exact absurd (hop.symm.trans (hsame.1.symm.trans hdop)) (by simp)
    · exact hd
  constructor
  · rintro ⟨k, a, ha, haop, hamcast, hafin, hg, hno⟩
    rcases calls_update s i k c' a ha with ⟨_, rfl⟩ | ⟨_, ha⟩
    · right
      rw [← hg, hsame.2.1]
    · left
      refine ⟨k, a, ha, haop, hamcast, hafin, hg, ?_⟩
      intro l d hd hdop hdfin
      have hli := finished_other s i c hc hnot l d hd hdfin
      exact hno l d (update_other s i l c' d hli hd) hdop hdfin
  · rintro (⟨k, a, ha, haop, hamcast, hafin, hg, hno⟩ | rfl)
    · have hki := finished_other s i c hc hnot k a ha hafin
      exact ⟨k, a, update_other s i k c' a hki ha, haop, hamcast, hafin, hg,
        fun l d hd hdop => hno l d (hdetach l d hd hdop) hdop⟩
    · refine ⟨i, c', Function.update_self .., hsame.1.trans hop, hsame.isMcast_eq.trans hmcast, hfin,
        by rw [hsame.2.1], ?_⟩
      intro l d hd hdop _ hep
      -- a detach of this pair would have its attach returned
      obtain ⟨j, a, hj, haop, haep, _, hdone⟩ := hreg.attached l d (hdetach l d hd hdop) hdop
      have hji : j = i := hreg.ports j i a c hj hc ⟨haop, hop, by rw [haep, hep, hsame.2.1]⟩
      exact finished_other s i c hc hnot j a hj ⟨_, hdone⟩ hji

include hc hsame hnot in
theorem live_detach (hreg : s.Registered) (hop : c.op = .detach) (hmcast : c.isMcast = true)
    (hfin : c'.finished) (g : Be32) :
    Live ⟨sh', Function.update s.calls i (some c'), s.held⟩ g ↔ s.Live g ∧ g ≠ c.ep.1 := by
  obtain ⟨j, b, hj, hbop, hbep, _, hbdone⟩ := hreg.attached i c hc hop
  have hbmcast : b.isMcast = true := by
    unfold Call.isMcast at hmcast ⊢
    rw [hbep]
    exact hmcast
  constructor
  · rintro ⟨k, a, ha, haop, hamcast, hafin, hg, hno⟩
    rcases calls_update s i k c' a ha with ⟨_, rfl⟩ | ⟨_, ha⟩
    · exact absurd (hop.symm.trans (hsame.1.symm.trans haop)) (by simp)
    · refine ⟨⟨k, a, ha, haop, hamcast, hafin, hg, ?_⟩, ?_⟩
      · intro l d hd hdop hdfin
        have hli := finished_other s i c hc hnot l d hd hdfin
        exact hno l d (update_other s i l c' d hli hd) hdop hdfin
      · rintro rfl
        -- the attach of this group is the one this call detaches
        have hjk : j = k := hreg.groups j k b a hj ha ⟨hbop, haop, hbmcast, by rw [hbep, hg]⟩
        subst hjk
        obtain rfl := Option.some.inj (hj.symm.trans ha)
        exact hno i c' (Function.update_self ..) (hsame.1.trans hop) hfin (by rw [hsame.2.1, hbep])
  · rintro ⟨⟨k, a, ha, haop, hamcast, hafin, hg, hno⟩, hne⟩
    have hki := finished_other s i c hc hnot k a ha hafin
    refine ⟨k, a, update_other s i k c' a hki ha, haop, hamcast, hafin, hg, ?_⟩
    intro l d hd hdop hdfin hep
    rcases calls_update s i l c' d hd with ⟨_, rfl⟩ | ⟨_, hd⟩
    · exact hne (by rw [← hg, ← hep, hsame.2.1])
    · exact hno l d hd hdop hdfin hep

end Live

/-! ## Counters under a step -/

section Counters
variable (s : CasState) (sh' : Shared) (i : ℕ) (c c' : Call) (hcount : s.CountInv)
  (hc : s.calls i = some c) (hsame : Call.Same c c') (hnot : ¬ c.finished)

include hcount hc hsame hnot in
theorem countInv_plain (hmcasts : sh'.mcasts = s.shared.mcasts) (hadjusts : c'.adjusts = c.adjusts)
    (hplain : ∀ r, c'.pc = .done r → c.isMcast = false ∧ r = .success) :
    CountInv ⟨sh', Function.update s.calls i (some c'), s.held⟩ := by
  have hzero : c.adjusts = 0 := (hcount.adjusted i c hc).2 hnot
  have hlive := live_same s sh' i c c' hc hsame hnot (fun ⟨r, hr⟩ => (hplain r hr).1)
  refine ⟨?_, ?_, ?_, ?_⟩
  · intro k d r hd hr
    rcases calls_update s i k c' d hd with ⟨_, rfl⟩ | ⟨_, hd⟩
    · exact (hplain r hr).2
    · exact hcount.returned k d r hd hr
  · intro k d hd
    rcases calls_update s i k c' d hd with ⟨_, rfl⟩ | ⟨_, hd⟩
    · refine ⟨?_, fun _ => hadjusts.trans hzero⟩
      rintro ⟨r, hr⟩
      rw [hsame.isMcast_eq, (hplain r hr).1, hadjusts, hzero]
      rfl
    · exact hcount.adjusted k d hd
  · intro g hg
    show sh'.mcasts.joinedMcasts g = some 1
    rw [hmcasts]
    exact hcount.joined g ((hlive g).mp hg)
  · intro g hg
    show sh'.mcasts.joinedMcasts g = none
    rw [hmcasts]
    exact hcount.absent g (fun h => hg ((hlive g).mpr h))

end Counters

theorem count_before (s : CasState) (i : ℕ) (c : Call) (hreg : s.Registered) (hcount : s.CountInv)
    (hc : s.calls i = some c) (hnot : ¬ c.finished) (hmcast : c.isMcast = true) :
    s.shared.mcasts.joinedMcasts c.ep.1 = if c.op = .attach then none else some 1 := by
  rcases c.op_cases with hop | hop
  · rw [if_pos hop]
    apply hcount.absent
    rintro ⟨k, a, ha, haop, hamcast, hafin, hg, _⟩
    exact finished_other s i c hc hnot k a ha hafin
      (hreg.groups k i a c ha hc ⟨haop, hop, hamcast, hg⟩)
  · rw [if_neg (by simp [hop])]
    apply hcount.joined
    obtain ⟨j, b, hj, hbop, hbep, _, hbdone⟩ := hreg.attached i c hc hop
    refine ⟨j, b, hj, hbop, ?_, ⟨_, hbdone⟩, by rw [hbep], ?_⟩
    · unfold Call.isMcast at hmcast ⊢
      rw [hbep]
      exact hmcast
    · intro k d hd hdop hdfin hep
      exact finished_other s i c hc hnot k d hd hdfin
        (hreg.detaches k i d c hd hc ⟨hdop, hop, hep.trans hbep⟩)

/-- A join or a leave whose report can be sent succeeds, and changes one counter only. -/
theorem adjust_spec (s : CasState) (i : ℕ) (c : Call) (svc : SvcTx) (hreg : s.Registered)
    (hcount : s.CountInv) (hc : s.calls i = some c) (hnot : ¬ c.finished) (hmcast : c.isMcast = true)
    (hsend : Mcasts.Sendable c.ep.1 svc) :
    (c.adjust s.shared.mcasts svc).2 = none ∧
      (c.adjust s.shared.mcasts svc).1.joinedMcasts =
        Function.update s.shared.mcasts.joinedMcasts c.ep.1 (if c.op = .attach then some 1 else none) := by
  have hbefore := count_before s i c hreg hcount hc hnot hmcast
  unfold Call.adjust
  rcases c.op_cases with hop | hop
  · rw [if_pos hop] at hbefore
    simp only [hop, if_true]
    rw [Mcasts.joinMcast_first _ _ _ hsend hbefore]
    exact ⟨rfl, rfl⟩
  · rw [if_neg (by simp [hop])] at hbefore
    simp only [hop]
    rw [Mcasts.leaveMcast_present _ _ _ hsend 1 hbefore]
    exact ⟨rfl, rfl⟩

theorem countInv_adjust (s : CasState) (sh' : Shared) (i : ℕ) (c c' : Call) (hreg : s.Registered)
    (hcount : s.CountInv) (hc : s.calls i = some c) (hsame : Call.Same c c') (hnot : ¬ c.finished)
    (hmcast : c.isMcast = true) (hdone : c'.pc = .done .success) (hadjusts : c'.adjusts = c.adjusts + 1)
    (hcounts : sh'.mcasts.joinedMcasts = Function.update s.shared.mcasts.joinedMcasts c.ep.1
      (if c.op = .attach then some 1 else none)) :
    CountInv ⟨sh', Function.update s.calls i (some c'), s.held⟩ := by
  have hfin : c'.finished := ⟨_, hdone⟩
  have hzero : c.adjusts = 0 := (hcount.adjusted i c hc).2 hnot
  refine ⟨?_, ?_, ?_, ?_⟩
  · intro k d r hd hr
    rcases calls_update s i k c' d hd with ⟨_, rfl⟩ | ⟨_, hd⟩
    · exact (Pc.done.inj (hdone.symm.trans hr)).symm
    · exact hcount.returned k d r hd hr
  · intro k d hd
    rcases calls_update s i k c' d hd with ⟨_, rfl⟩ | ⟨_, hd⟩
    · refine ⟨fun _ => ?_, fun h => absurd hfin h⟩
      rw [hsame.isMcast_eq, hmcast, hadjusts, hzero]
      rfl
    · exact hcount.adjusted k d hd
  · intro g hg
    show sh'.mcasts.joinedMcasts g = some 1
    rw [hcounts]
    by_cases hgc : g = c.ep.1
    · subst hgc
      rcases c.op_cases with hop | hop
      · simp [hop]
      · exact absurd rfl ((live_detach s sh' i c c' hc hsame hnot hreg hop hmcast hfin _).mp hg).2
    · rw [Function.update_of_ne hgc]
      apply hcount.joined
      rcases c.op_cases with hop | hop
      · exact ((live_attach s sh' i c c' hc hsame hnot hreg hop hmcast hfin g).mp hg).resolve_right hgc
      · exact ((live_detach s sh' i c c' hc hsame hnot hreg hop hmcast hfin g).mp hg).1
  · intro g hg
    show sh'.mcasts.joinedMcasts g = none
    rw [hcounts]
    by_cases hgc : g = c.ep.1
    · subst hgc
      rcases c.op_cases with hop | hop
      · exact absurd ((live_attach s sh' i c c' hc hsame hnot hreg hop hmcast hfin _).mpr (Or.inr rfl)) hg
      · simp [hop]
    · rw [Function.update_of_ne hgc]
      apply hcount.absent
      intro h
      rcases c.op_cases with hop | hop
      · exact hg ((live_attach s sh' i c c' hc hsame hnot hreg hop hmcast hfin g).mpr (Or.inl h))
      · exact hg ((live_detach s sh' i c c' hc hsame hnot hreg hop hmcast hfin g).mpr ⟨h, hgc⟩)

theorem countInv_run (s : CasState) (sh' : Shared) (i : ℕ) (c c' : Call) (svc : SvcTx) (hinv : s.Inv)
    (hreg : s.Registered) (htab : s.TableInv) (hcount : s.CountInv) (hc : s.calls i = some c)
    (hsteady : s.Steady (.run i svc)) (hm : CallMove s.shared c svc sh' c') :
    CountInv ⟨sh', Function.update s.calls i (some c'), s.held⟩ := by
  have hsame := Call.same_of_move _ _ c c' svc hm
  have hnot := Call.not_finished_of_move _ _ c c' svc hm
  have hplain := countInv_plain s sh' i c c' hcount hc hsame hnot
  have hsteady' : c.Steady s.shared svc := hsteady c hc
  cases hm with
  | load hpc => exact hplain rfl rfl (by simp)
  | refuse active hpc hop hch => exact absurd hch (channel_present s i c active hreg htab hc hpc hop)
  | build active hpc hop hch => exact hplain rfl rfl (by simp)
  | erase active hpc hop hfound => exact hplain rfl rfl (by simp)
  | missing active hpc hop hfound =>
    obtain ⟨-, hpos, hmcast, -⟩ := missing_retried s i c active hinv hreg htab hc hpc hop hfound
    refine hplain rfl rfl ?_
    intro r hr
    simp only [Pc.done.injEq, if_neg (Nat.pos_iff_ne_zero.mp hpos)] at hr
    exact ⟨hmcast, hr.symm⟩
  | swap active new hpc hactive => exact hplain rfl rfl (by simp)
  | retry active new hpc hactive => exact hplain rfl rfl (by simp)
  | adjust hpc hmcast =>
    obtain ⟨hok, hcounts⟩ := adjust_spec s i c svc hreg hcount hc hnot hmcast (hsteady'.sendable hpc hmcast)
    refine countInv_adjust s _ i c _ hreg hcount hc hsame hnot hmcast ?_ rfl hcounts
    show Pc.done (.returned (c.adjust s.shared.mcasts svc).2) = .done .success
    rw [hok]
    rfl
  | finish hpc hmcast =>
    refine hplain rfl rfl ?_
    intro r hr
    simp only [Pc.done.injEq] at hr
    exact ⟨hmcast, hr.symm⟩

theorem countInv_enter (s : CasState) (i : ℕ) (op : CallOp) (ep : Ip4Endpoint)
    (ch : Option ChannelPtr) (hcount : s.CountInv) (hi : s.calls i = none) :
    CountInv { s with calls := Function.update s.calls i (some (.enter op ep ch)) } := by
  have hnot : ¬ (Call.enter op ep ch).finished := by
    rintro ⟨r, hr⟩
    exact absurd hr (by simp [Call.enter])
  have hold : ∀ k d, s.calls k = some d →
      Function.update s.calls i (some (.enter op ep ch)) k = some d :=
    fun k d hk => update_entered s i k _ d hi hk
  have hback : ∀ k d, Function.update s.calls i (some (.enter op ep ch)) k = some d → d.finished →
      s.calls k = some d := by
    intro k d hk hfin
    rcases calls_update s i k _ d hk with ⟨_, rfl⟩ | ⟨_, hk⟩
    · exact absurd hfin hnot
    · exact hk
  have hlive : ∀ g, Live { s with calls := Function.update s.calls i (some (.enter op ep ch)) } g ↔
      s.Live g := by
    intro g
    constructor
    · rintro ⟨k, a, ha, haop, hmcast, hfin, hg, hno⟩
      exact ⟨k, a, hback k a ha hfin, haop, hmcast, hfin, hg, fun l d hl => hno l d (hold l d hl)⟩
    · rintro ⟨k, a, ha, haop, hmcast, hfin, hg, hno⟩
      exact ⟨k, a, hold k a ha, haop, hmcast, hfin, hg,
        fun l d hl hdop hdfin => hno l d (hback l d hl hdfin) hdop hdfin⟩
  refine ⟨?_, ?_, fun g hg => hcount.joined g ((hlive g).mp hg),
    fun g hg => hcount.absent g (fun h => hg ((hlive g).mpr h))⟩
  · intro k d r hd hr
    exact hcount.returned k d r (hback k d hd ⟨r, hr⟩) hr
  · intro k d hd
    rcases calls_update s i k _ d hd with ⟨_, rfl⟩ | ⟨_, hd⟩
    · exact ⟨fun h => absurd h hnot, fun _ => rfl⟩
    · exact hcount.adjusted k d hd

/-! ## Whole runs -/

structure Sound (s : CasState) : Prop where
  inv : s.Inv
  registered : s.Registered
  tables : s.TableInv
  counts : s.CountInv

theorem sound_initial : initial.Sound :=
  ⟨inv_initial, registered_initial, tableInv_initial, countInv_initial⟩

theorem step_sound (s : CasState) (e : CasEvent) (s' : CasState) (h : s.Sound)
    (hcond : s.Given e ∧ s.Steady e) (hstep : s.step e = some s') : s'.Sound := by
  obtain ⟨hinv, hreg, htab, hcount⟩ := h
  have hinv' := step_inv s e s' hinv hstep
  cases e with
  | enter i op ep ch =>
    obtain ⟨hi, rfl⟩ := s.step_enter s' i op ep ch hstep
    exact ⟨hinv', registered_enter s i op ep ch hi hreg hcond.1, tableInv_enter s i op ep ch htab hi hcond.1,
      countInv_enter s i op ep ch hcount hi⟩
  | run i svc =>
    obtain ⟨c, sh', c', hc, hm, rfl⟩ := s.step_run s' i svc hstep
    have hsame := Call.same_of_move _ _ c c' svc hm
    have hnot := Call.not_finished_of_move _ _ c c' svc hm
    exact ⟨hinv', registered_run s sh' i c c' hc hsame hreg hnot,
      tableInv_run s sh' i c c' svc hinv hreg htab hc hcond.2 hm,
      countInv_run s sh' i c c' svc hinv hreg htab hcount hc hcond.2 hm⟩
  | reload j =>
    obtain rfl := Option.some.inj hstep
    exact ⟨hinv', ⟨hreg.args, hreg.ports, hreg.groups, hreg.attached, hreg.detaches⟩,
      ⟨fun p hp => ⟨(htab.sane p hp).null, (htab.sane p hp).ports, (htab.sane p hp).known⟩,
        htab.present, htab.unmoved, htab.detaching⟩,
      ⟨hcount.returned, hcount.adjusted, hcount.joined, hcount.absent⟩⟩

def Holds (s : CasState) (c : Call) : Prop :=
  (∃ i, s.calls i = some c) ∧ c.op = .attach ∧
    ∀ k d, s.calls k = some d → d.op = .detach → d.entry ≠ c.entry

/-- What the calls of a run leave behind when all have returned. -/
structure Settled (s : CasState) : Prop where
  returned : ∀ i c, s.calls i = some c → c.pc = .done .success
  entries : ∀ x, x ∈ s.shared.store.table ↔ x = nullSink ∨ ∃ c, s.Holds c ∧ c.entry = x
  once : s.shared.store.table.Nodup
  adjusts : ∀ i c, s.calls i = some c → c.adjusts = if c.isMcast then 1 else 0
  joined : ∀ c, s.Holds c → c.isMcast = true → s.shared.mcasts.joinedMcasts c.ep.1 = some 1
  left : ∀ g, (∀ c, s.Holds c → c.isMcast = true → c.ep.1 ≠ g) → s.shared.mcasts.joinedMcasts g = none

theorem Holds.no_detach {s : CasState} {c : Call} (hreg : s.Registered) (h : s.Holds c) (k : ℕ) (d : Call)
    (hd : s.calls k = some d) (hdop : d.op = .detach) : d.ep ≠ c.ep := by
  obtain ⟨⟨i, hi⟩, hop, hno⟩ := h
  intro hep
  obtain ⟨j, a, hj, haop, haep, haarg, _⟩ := hreg.attached k d hd hdop
  have hji : j = i := hreg.ports j i a c hj hi ⟨haop, hop, by rw [haep, hep]⟩
  subst hji
  obtain rfl := Option.some.inj (hj.symm.trans hi)
  apply hno k d hd hdop
  unfold Call.entry
  rw [hep, haarg]

theorem settled_of_sound (s : CasState) (h : s.Sound)
    (hfin : ∀ i c, s.calls i = some c → c.finished) : s.Settled := by
  obtain ⟨hinv, hreg, htab, hcount⟩ := h
  have hsane := htab.sane _ hinv.sinks_published
  -- the entry of a finished detach is gone
  have hgone : ∀ k d, s.calls k = some d → d.op = .detach → d.entry ∉ s.shared.store.table := by
    intro k d hd hdop
    obtain ⟨-, hok⟩ := htab.detaching k d hd hdop
    obtain ⟨r, hr⟩ := hfin k d hd
    unfold DetachOk at hok
    simpa only [hr] using hok
  have hlive : ∀ c, s.Holds c → c.isMcast = true → s.Live c.ep.1 := by
    intro c hc hmcast
    obtain ⟨i, hi⟩ := hc.1
    exact ⟨i, c, hi, hc.2.1, hmcast, hfin i c hi, rfl,
      fun k d hd hdop _ => hc.no_detach hreg k d hd hdop⟩
  refine ⟨?_, ?_, hsane.ports.of_map _, ?_, ?_, ?_⟩
  · intro i c hc
    obtain ⟨r, hr⟩ := hfin i c hc
    rw [hr, hcount.returned i c r hc hr]
  · intro x
    constructor
    · intro hx
      rcases hsane.known x hx with rfl | ⟨i, c, hi, hop, -, rfl⟩
      · exact Or.inl rfl
      · right
        refine ⟨c, ⟨⟨i, hi⟩, hop, ?_⟩, rfl⟩
        intro k d hd hdop hentry
        exact hgone k d hd hdop (hentry ▸ hx)
    · rintro (rfl | ⟨c, hc, rfl⟩)
      · exact hsane.null
      · obtain ⟨i, hi⟩ := hc.1
        exact htab.present i c hi hc.2.1 (Or.inr (hfin i c hi)) (hc.no_detach hreg)
  · intro i c hc
    exact (hcount.adjusted i c hc).1 (hfin i c hc)
  · intro c hc hmcast
    exact hcount.joined _ (hlive c hc hmcast)
  · intro g hg
    apply hcount.absent
    rintro ⟨i, c, hi, hop, hmcast, -, hgroup, hno⟩
    refine hg c ⟨⟨i, hi⟩, hop, ?_⟩ hmcast hgroup
    intro k d hd hdop hentry
    exact hno k d hd hdop (hfin k d hd) (congrArg Prod.fst hentry)

/-- Runs in which every step is steady: the calls return after a bounded number of steps, all with
success, and when they have returned the table holds the pairs attached and not detached, each once,
with one reference for each of their groups. -/
theorem run_no_lost_update (es : List CasEvent) (tr : List (Transition CasState CasEvent))
    (htr : trace step initial es = some tr) (hgiven : ∀ t ∈ tr, t.pre.Given t.event)
    (hsteady : ∀ t ∈ tr, t.pre.Steady t.event) :
    callSteps es ≤ (callsOf es).card * (3 * (callsOf es).card + 7) ∧
      (∀ i c svc, (final initial tr).calls i = some c → (∀ r, c.pc ≠ .done r) →
        ((final initial tr).step (.run i svc)).isSome) ∧
      (∀ i c r, (final initial tr).calls i = some c → c.pc = .done r → r = .success) ∧
      ((∀ i c, (final initial tr).calls i = some c → c.finished) → (final initial tr).Settled) := by
  have hsound : (final initial tr).Sound :=
    (trace_invariant Sound (fun s e => s.Given e ∧ s.Steady e) step_sound initial es tr htr sound_initial
      (fun t ht => ⟨hgiven t ht, hsteady t ht⟩)).1
  refine ⟨run_callSteps_le es tr htr, ?_, hsound.counts.returned, settled_of_sound _ hsound⟩
  intro i c svc hc hpc
  exact step_run_isSome _ i c svc hc hpc

theorem one_call (s : CasState) (P : Call → Prop) (hfirst : ∀ c ∈ s.calls 0, P c)
    (hnone : ∀ k, s.calls (k + 1) = none) : ∀ k c, s.calls k = some c → P c := by
  intro k c hk
  cases k with
  | zero => exact hfirst c hk
  | succ k =>
    rw [hnone k] at hk
    exact absurd hk (Option.some_ne_none c).symm

theorem two_calls (s : CasState) (P : Call → Prop) (hfirst : ∀ c ∈ s.calls 0, P c)
    (hsecond : ∀ c ∈ s.calls 1, P c) (hnone : ∀ k, s.calls (k + 2) = none) :
    ∀ k c, s.calls k = some c → P c := by
  intro k c hk
  match k with
  | 0 => exact hfirst c hk
  | 1 => exact hsecond c hk
  | k + 2 =>
    rw [hnone k] at hk
    exact absurd hk (Option.some_ne_none c).symm

/-- A detach erases while an attach is about to copy, finds the longer table published, and goes round
again. -/
def detachBesideAttach : List CasEvent :=
  [.enter 0 .attach (1, 1) (some 7), .run 0 ⟨true, true⟩, .run 0 ⟨true, true⟩, .run 0 ⟨true, true⟩,
    .run 0 ⟨true, true⟩, .enter 1 .attach (0x050000e0, 2) (some 8), .enter 2 .detach (1, 1) (some 7),
    .run 1 ⟨true, true⟩, .run 2 ⟨true, true⟩, .run 2 ⟨true, true⟩, .run 1 ⟨true, true⟩,
    .run 1 ⟨true, true⟩, .run 2 ⟨true, true⟩, .run 2 ⟨true, true⟩, .run 1 ⟨true, true⟩,
    .run 2 ⟨true, true⟩]

theorem run_no_lost_update_mcast :
    ∃ tr, trace step initial detachBesideAttach = some tr ∧ (∀ t ∈ tr, t.pre.Given t.event) ∧
      (∀ t ∈ tr, t.pre.Steady t.event) ∧ (final initial tr).Settled := by
  have hrun : ∃ tr, trace step initial detachBesideAttach = some tr ∧
      (∀ t ∈ tr, t.pre.Given t.event) ∧ (∀ t ∈ tr, t.pre.Steady t.event) ∧
      ∀ i c, (final initial tr).calls i = some c → c.finished := by
    refine ⟨_, rfl, ?_, ?_, ?_⟩
    · simp only [List.forall_mem_cons]
      refine ⟨⟨by simp, by simp, by simp [initial]⟩, trivial, trivial, trivial, trivial,
        ⟨by simp, by simp, ?_⟩, ⟨⟨0, _, rfl, rfl, rfl, rfl, rfl⟩, ?_⟩, trivial, trivial, trivial, trivial,
        trivial, trivial, trivial, trivial, trivial, by simp⟩
      · exact one_call _ _ (by decide) (by simp [initial])
      · exact two_calls _ _ (by decide) (by decide) (by simp [initial])
    · simp only [List.forall_mem_cons]
      refine ⟨?_, ?_, ?_, ?_, ?_, ?_, ?_, ?_, ?_, ?_, ?_, ?_, ?_, ?_, ?_, ?_, by simp⟩
      all_goals decide
    · intro i c hc
      rcases i with _ | _ | _ | i
      · obtain rfl := Option.some.inj hc
        exact ⟨_, rfl⟩
      · obtain rfl := Option.some.inj hc
        exact ⟨_, rfl⟩
      · obtain rfl := Option.some.inj hc
        exact ⟨_, rfl⟩
      · exact absurd hc (by simp [initial, final])
  obtain ⟨tr, htr, hgiven, hsteady, hfin⟩ := hrun
  exact ⟨tr, htr, hgiven, hsteady, (run_no_lost_update _ tr htr hgiven hsteady).2.2.2 hfin⟩

/-- Two attaches copy the same table; the second publishes too late, and its channel is gone. -/
def racingAttaches : List CasEvent :=
  [.enter 0 .attach (1, 1) (some 7), .enter 1 .attach (1, 2) (some 8), .run 0 ⟨true, true⟩,
    .run 1 ⟨true, true⟩, .run 0 ⟨true, true⟩, .run 1 ⟨true, true⟩, .run 0 ⟨true, true⟩,
    .run 1 ⟨true, true⟩, .run 1 ⟨true, true⟩, .run 1 ⟨true, true⟩]

/-- A detach erases from a table that an attach has copied and then publishes. -/
def eraseUnderCopy : List CasEvent :=
  [.enter 0 .attach (1, 1) (some 7), .run 0 ⟨true, true⟩, .run 0 ⟨true, true⟩, .run 0 ⟨true, true⟩,
    .run 0 ⟨true, true⟩, .enter 1 .attach (1, 2) (some 8), .enter 2 .detach (1, 1) (some 7),
    .run 1 ⟨true, true⟩, .run 1 ⟨true, true⟩, .run 2 ⟨true, true⟩, .run 2 ⟨true, true⟩,
    .run 2 ⟨true, true⟩, .run 2 ⟨true, true⟩, .run 1 ⟨true, true⟩, .run 1 ⟨true, true⟩]

/-- An attach publishes between the erase of a multicast detach and its compare-exchange. -/
def secondRound : List CasEvent :=
  [.enter 0 .attach (0x050000e0, 1) (some 7), .run 0 ⟨true, true⟩, .run 0 ⟨true, true⟩,
    .run 0 ⟨true, true⟩, .run 0 ⟨true, true⟩, .enter 1 .attach (1, 2) (some 8),
    .enter 2 .detach (0x050000e0, 1) (some 7), .run 2 ⟨true, true⟩, .run 2 ⟨true, true⟩,
    .run 1 ⟨true, true⟩, .run 1 ⟨true, true⟩, .run 1 ⟨true, true⟩, .run 1 ⟨true, true⟩,
    .run 2 ⟨true, true⟩, .run 2 ⟨true, true⟩, .run 2 ⟨true, true⟩]

/-- An attach fails with `address_in_use`; a detached pair is in the table again; a detach returns
success and the reference to its group stays. -/
theorem updates_lost :
    (∃ tr, trace step initial racingAttaches = some tr ∧ (∀ t ∈ tr, t.pre.Given t.event) ∧
      ∃ c, (final initial tr).calls 1 = some c ∧ c.pc = .done (.returned (some .addressInUse))) ∧
    (∃ tr, trace step initial eraseUnderCopy = some tr ∧ (∀ t ∈ tr, t.pre.Given t.event) ∧
      ((1, 1), some 7) ∈ (final initial tr).shared.store.table ∧
      ∃ d, (final initial tr).calls 2 = some d ∧ d.op = .detach ∧ d.entry = ((1, 1), some 7) ∧
        d.pc = .done .success) ∧
    (∃ tr, trace step initial secondRound = some tr ∧ (∀ t ∈ tr, t.pre.Given t.event) ∧
      (final initial tr).shared.mcasts.joinedMcasts 0x050000e0 = some 1 ∧
      ∃ d, (final initial tr).calls 2 = some d ∧ d.op = .detach ∧ d.entry = ((0x050000e0, 1), some 7) ∧
        d.pc = .done .success ∧ d.adjusts = 0) := by
  refine ⟨⟨_, rfl, ?_, _, rfl, rfl⟩, ⟨_, rfl, ?_, by decide, _, rfl, rfl, rfl, rfl⟩,
    ⟨_, rfl, ?_, by decide, _, rfl, rfl, rfl, rfl, rfl⟩⟩
  · simp only [List.forall_mem_cons]
    refine ⟨⟨by simp, by simp, by simp [initial]⟩, ⟨by simp, by simp, ?_⟩, trivial, trivial, trivial,
      trivial, trivial, trivial, trivial, trivial, by simp⟩
    exact one_call _ _ (by decide) (by simp [initial])
  · simp only [List.forall_mem_cons]
    refine ⟨⟨by simp, by simp, by simp [initial]⟩, trivial, trivial, trivial, trivial,
      ⟨by simp, by simp, ?_⟩, ⟨⟨0, _, rfl, rfl, rfl, rfl, rfl⟩, ?_⟩, trivial, trivial, trivial, trivial,
      trivial, trivial, trivial, trivial, by simp⟩
    · exact one_call _ _ (by decide) (by simp [initial])
    · exact two_calls _ _ (by decide) (by decide) (by simp [initial])
  · simp only [List.forall_mem_cons]
    refine ⟨⟨by simp, by simp, by simp [initial]⟩, trivial, trivial, trivial, trivial,
      ⟨by simp, by simp, ?_⟩, ⟨⟨0, _, rfl, rfl, rfl, rfl, rfl⟩, ?_⟩, trivial, trivial, trivial, trivial,
      trivial, trivial, trivial, trivial, trivial, by simp⟩
    · exact one_call _ _ (by decide) (by simp [initial])
    · exact two_calls _ _ (by decide) (by decide) (by simp [initial])

end CasState

end DpdkTools
