import DpdkTools.Device.RxDispatch
import DpdkTools.Device.RxExact
import DpdkTools.Flow.RxQueue

/-! Who owns the mbufs of a burst when a receive path is done with it.

A channel that returns `r` from `enqueue` keeps all but the first `r` mbufs of the slice; these `r`
are the caller's to recycle. `rx_job::process` does so in front of another channel's packet only,
and `flow::rx_queue::run_exclusive` never: the count dropped at the other hand-overs is what
leaks. `ledger_actions` keeps the account of the loop, with the leak as an entry of its own. -/
namespace DpdkTools
set_option autoImplicit false

def freedOf : RxAction → List MbufPtr
  | .free b => [b]
  | .freeBulk bs => bs
  | .enqueue _ _ => []

def keptOf (enqueue : ChannelPtr → List MbufPtr → ℕ) : RxAction → List MbufPtr
  | .enqueue ch bs => bs.drop (enqueue ch bs)
  | _ => []

def freed (acts : List RxAction) : List MbufPtr := acts.flatMap freedOf

/-- The mbufs kept by channels, an mbuf once for each channel that keeps it. -/
def kept (enqueue : ChannelPtr → List MbufPtr → ℕ) (acts : List RxAction) : List MbufPtr :=
  acts.flatMap (keptOf enqueue)

/-- Freed, kept and put on a service ring, taken together and with multiplicity, are the burst. -/
def OneOwner (enqueue : ChannelPtr → List MbufPtr → ℕ) (burst : List MbufPtr)
    (acts : List RxAction) (ringed : List MbufPtr) : Prop :=
  (freed acts ++ kept enqueue acts ++ ringed).Perm burst

/-- For a burst of distinct mbufs: each has one owner, and nothing else is freed or handed over. -/
theorem OneOwner.count {enqueue : ChannelPtr → List MbufPtr → ℕ} {burst : List MbufPtr}
    {acts : List RxAction} {ringed : List MbufPtr} (h : OneOwner enqueue burst acts ringed)
    (hnodup : burst.Nodup) (b : MbufPtr) :
    (freed acts).count b + (kept enqueue acts).count b + ringed.count b = if b ∈ burst then 1 else 0 := by
  have hcount := List.perm_iff_count.mp h b
  rw [List.count_append, List.count_append, hnodup.count] at hcount
  exact hcount

section Ledger
variable (c : RxCall)

def dropped (cur : Option Slice) : Verdict → List Slice
  | .deliver _ => []
  | _ => cur.toList

/-- The slices handed over where the recycle count is dropped. -/
def unrecycled : Option Slice → List (MbufPtr × Verdict) → List Slice
  | cur, [] => cur.toList
  | cur, (b, k) :: vs => dropped cur k ++ unrecycled (nextSlice cur b k) vs

def leaked (sls : List Slice) : List MbufPtr := sls.flatMap fun sl => sl.2.take (c.enqueue sl.1 sl.2)

def Slice.mbufs : Option Slice → List MbufPtr
  | none => []
  | some sl => sl.2

@[simp] theorem Slice.mbufs_none : Slice.mbufs none = [] := rfl

@[simp] theorem Slice.mbufs_some (ch : ChannelPtr) (bs : List MbufPtr) :
    Slice.mbufs (some (ch, bs)) = bs := rfl

theorem freed_append (as bs : List RxAction) : freed (as ++ bs) = freed as ++ freed bs := by
  simp [freed]

theorem kept_append (enqueue : ChannelPtr → List MbufPtr → ℕ) (as bs : List RxAction) :
    kept enqueue (as ++ bs) = kept enqueue as ++ kept enqueue bs := by
  simp [kept]

theorem leaked_append (as bs : List Slice) : leaked c (as ++ bs) = leaked c as ++ leaked c bs := by
  simp [leaked]

theorem ledger_handOver (cur : Option Slice) (x : MbufPtr) :
    (freed (handOver cur)).count x + (kept c.enqueue (handOver cur)).count x +
      (leaked c cur.toList).count x = (Slice.mbufs cur).count x := by
  cases cur with
  | none => rfl
  | some sl =>
    obtain ⟨ch, bs⟩ := sl
    have hsplit : (bs.take (c.enqueue ch bs)).count x + (bs.drop (c.enqueue ch bs)).count x = bs.count x := by
      rw [← List.count_append, List.take_append_drop]
    simp only [handOver, freed, kept, leaked, freedOf, keptOf, Slice.mbufs, Option.toList_some,
      List.flatMap_singleton, List.count_nil]
    omega

theorem ledger_handOverRecycle (cur : Option Slice) (x : MbufPtr) :
    (freed (handOverRecycle c cur)).count x + (kept c.enqueue (handOverRecycle c cur)).count x =
      (Slice.mbufs cur).count x := by
  cases cur with
  | none => rfl
  | some sl =>
    obtain ⟨ch, bs⟩ := sl
    have hsplit : (bs.take (c.enqueue ch bs)).count x + (bs.drop (c.enqueue ch bs)).count x = bs.count x := by
      rw [← List.count_append, List.take_append_drop]
    simp only [handOverRecycle]
    split_ifs with h0
    · simp only [freed, kept, freedOf, keptOf, Slice.mbufs, List.flatMap_cons, List.flatMap_nil,
        List.nil_append, List.append_nil]
      exact hsplit
    · simp only [ne_eq, not_not] at h0
      simp [freed, kept, freedOf, keptOf, Slice.mbufs, h0]

/-- A packet freed in front of the hand-over. -/
theorem ledger_free (cur : Option Slice) (b x : MbufPtr) :
    (freed (.free b :: handOver cur)).count x + (kept c.enqueue (.free b :: handOver cur)).count x +
      (leaked c cur.toList).count x = (Slice.mbufs cur).count x + [b].count x := by
  have hover := ledger_handOver c cur x
  have hfree : freed (.free b :: handOver cur) = [b] ++ freed (handOver cur) := rfl
  have hkeep : kept c.enqueue (.free b :: handOver cur) = kept c.enqueue (handOver cur) := rfl
  rw [hfree, hkeep, List.count_append]
  omega

theorem ledger_step (cur : Option Slice) (b : MbufPtr) (k : Verdict) (x : MbufPtr) :
    (freed (stepActions c cur b k)).count x + (kept c.enqueue (stepActions c cur b k)).count x +
      (leaked c (dropped cur k)).count x + (deferred [(b, k)]).count x +
        (Slice.mbufs (nextSlice cur b k)).count x = (Slice.mbufs cur).count x + [b].count x := by
  have hover := ledger_handOver c cur x
  cases k with
  | deliver ch =>
    have hdef : deferred [(b, Verdict.deliver ch)] = [] := by simp [deferred]
    have hnone : leaked c (dropped cur (.deliver ch)) = [] := rfl
    rw [hdef, hnone, List.count_nil]
    by_cases hcur : ∃ bs, cur = some (ch, bs)
    · obtain ⟨bs, rfl⟩ := hcur
      simp [stepActions, nextSlice, freed, kept]
    · have hother : ∀ bs, cur ≠ some (ch, bs) := fun bs h => hcur ⟨bs, h⟩
      rw [stepActions_other c cur b ch hother, nextSlice_other cur b ch hother, Slice.mbufs_some,
        ledger_handOverRecycle]
      omega
  | other =>
    have hdef : deferred [(b, Verdict.other)] = [b] := by simp [deferred]
    rw [hdef, stepActions, dropped, nextSlice, Slice.mbufs_none, List.count_nil]
    · omega
    · simp
    · simp
  | broken =>
    have hdef : deferred [(b, Verdict.broken)] = [] := by simp [deferred]
    rw [hdef, stepActions, dropped, nextSlice, Slice.mbufs_none, List.count_nil]
    · exact ledger_free c cur b x
    · simp
    · simp
  | shortUdp =>
    have hdef : deferred [(b, Verdict.shortUdp)] = [] := by simp [deferred]
    rw [hdef, stepActions, dropped, nextSlice, Slice.mbufs_none, List.count_nil]
    · exact ledger_free c cur b x
    · simp
    · simp

/-- The account of the loop: everything collected or still to come is freed, kept, leaked or
deferred. -/
theorem ledger_actions (vs : List (MbufPtr × Verdict)) (x : MbufPtr) :
    ∀ cur, (freed (actions c cur vs)).count x + (kept c.enqueue (actions c cur vs)).count x +
      (leaked c (unrecycled cur vs)).count x + (deferred vs).count x =
        (Slice.mbufs cur).count x + (vs.map Prod.fst).count x := by
  induction vs with
  | nil =>
    intro cur
    have h := ledger_handOver c cur x
    simp only [actions, unrecycled, deferred, List.filter_nil, List.map_nil, List.count_nil]
    omega
  | cons v vs ih =>
    intro cur
    obtain ⟨b, k⟩ := v
    have hcons : deferred ((b, k) :: vs) = deferred [(b, k)] ++ deferred vs := deferred_append [(b, k)] vs
    have hmap : ((b, k) :: vs).map Prod.fst = [b] ++ vs.map Prod.fst := rfl
    have hstep := ledger_step c cur b k x
    have hrest := ih (nextSlice cur b k)
    rw [actions, unrecycled, freed_append, kept_append, leaked_append, hcons, hmap]
    simp only [List.count_append]
    omega

end Ledger

/-! ## The receive job -/

theorem verdicts_fst (c : RxCall) (heap : MbufHeap) (burst : List MbufPtr) :
    ∀ (v v' : SinkView) (vs : List (MbufPtr × Verdict)),
      verdicts c heap v burst = some (v', vs) → vs.map Prod.fst = burst := by
  induction burst with
  | nil =>
    intro v v' vs h
    simp only [verdicts, Option.some.injEq, Prod.mk.injEq] at h
    rw [← h.2, List.map_nil]
  | cons b bs ih =>
    intro v v' vs h
    obtain ⟨v₁, k, rest, _, hrest, rfl⟩ := verdicts_cons_some c heap v v' b bs vs h
    rw [List.map_cons, ih v₁ v' rest hrest]

theorem unrecycled_nonempty (vs : List (MbufPtr × Verdict)) :
    ∀ cur : Option Slice, (∀ sl ∈ cur, sl.2 ≠ []) → ∀ sl ∈ unrecycled cur vs, sl.2 ≠ [] := by
  induction vs with
  | nil =>
    intro cur hcur sl hsl
    exact hcur sl (Option.mem_toList.mp hsl)
  | cons v vs ih =>
    intro cur hcur sl hsl
    obtain ⟨b, k⟩ := v
    rw [unrecycled, List.mem_append] at hsl
    rcases hsl with hsl | hsl
    · cases k with
      | deliver ch => exact absurd hsl (by simp [dropped])
      | _ => exact hcur sl (Option.mem_toList.mp hsl)
    · refine ih (nextSlice cur b k) ?_ sl hsl
      intro sl' hsl'
      cases k with
      | deliver ch =>
        by_cases hsame : ∃ bs, cur = some (ch, bs)
        · obtain ⟨bs, rfl⟩ := hsame
          simp only [nextSlice, if_true, Option.mem_def, Option.some.injEq] at hsl'
          simp [← hsl']
        · rw [nextSlice_other cur b ch (fun bs h => hsame ⟨bs, h⟩)] at hsl'
          simp only [Option.mem_def, Option.some.injEq] at hsl'
          simp [← hsl']
      | _ => exact absurd hsl' (by simp [nextSlice])

theorem leaked_nil (c : RxCall) (vs : List (MbufPtr × Verdict)) :
    leaked c (unrecycled none vs) = [] ↔ ∀ sl ∈ unrecycled none vs, c.enqueue sl.1 sl.2 = 0 := by
  rw [leaked, List.flatMap_eq_nil_iff]
  refine forall₂_congr fun sl hsl => ?_
  have hne := unrecycled_nonempty vs none (by simp) sl hsl
  simp [List.take_eq_nil_iff, hne]

theorem ledger_settle (c : RxCall) (heap : MbufHeap) (arp : ArpTable) (burstSize n : ℕ)
    (v : SinkView) (vs : List (MbufPtr × Verdict)) (o : RxOutcome)
    (ho : o = settle c heap arp burstSize n v vs) :
    ((freed o.actions ++ kept c.enqueue o.actions ++ o.packets.ringed) ++
      leaked c (unrecycled none vs)).Perm (vs.map Prod.fst) := by
  rw [List.perm_iff_count]
  intro x
  have hloop := ledger_actions c vs x none
  simp only [List.count_append, Slice.mbufs_none, List.count_nil, Nat.zero_add] at hloop ⊢
  rw [settle] at ho
  by_cases hnil : deferred vs = []
  · rw [if_pos hnil] at ho
    subst ho
    simp only [hnil, List.count_nil] at hloop ⊢
    omega
  · rw [if_neg hnil] at ho
    obtain ⟨hfront, hringed, hused, _⟩ := processRxPackets_spec c.env
      (udpHeap heap ((delivered vs).map Prod.snd)) arp (deferred vs)
    have hsplit := (splitRxPackets_perm c.env (udpHeap heap ((delivered vs).map Prod.snd)) arp
      (deferred vs)).count_eq x
    rw [List.count_append, ← hfront, ← hringed] at hsplit
    subst ho
    simp only
    split_ifs with h0
    · rw [freed_append, kept_append]
      simp only [freed, kept, freedOf, keptOf, List.flatMap_singleton, List.count_append,
        List.count_nil] at hloop ⊢
      omega
    · simp only [ne_eq, not_not] at h0
      rw [h0, List.take_zero, List.count_nil] at hsplit
      omega

def RxOwned (enqueue : ChannelPtr → List MbufPtr → ℕ) (burst : List MbufPtr) (r : Option RxOutcome) : Prop :=
  ∃ o, r = some o ∧ OneOwner enqueue burst o.actions o.packets.ringed

/-- The burst can be walked over (tag loops end, lookups stay inside the table, the deferred packets
fit behind the burst), and no channel gives an mbuf back where the count is dropped. -/
def RecyclesNothing (j : RxJob) (c : RxCall) (heap : MbufHeap) (burst : List MbufPtr) : Prop :=
  ∃ heap' v vs, updateL2sizes heap burst = some heap' ∧
    verdicts c heap' (j.view.tryReloadSinks c.published).1 burst = some (v, vs) ∧
    burst.length + (deferred vs).length ≤ 2 * maxPktBurst ∧
    ∀ sl ∈ unrecycled none vs, c.enqueue sl.1 sl.2 = 0

theorem process_nil (j : RxJob) (c : RxCall) (heap : MbufHeap) (arp : ArpTable) :
    RxOwned c.enqueue [] (j.process c heap arp []) ∧ RecyclesNothing j c heap [] := by
  refine ⟨⟨_, by rw [RxJob.process, if_pos rfl], ?_⟩, ?_⟩
  · exact List.Perm.refl []
  exact ⟨heap, _, [], rfl, rfl, by simp [deferred], by simp [unrecycled]⟩

theorem process_owned_iff (j : RxJob) (c : RxCall) (heap : MbufHeap) (arp : ArpTable)
    (burst : List MbufPtr) (hle : burst.length ≤ j.burstSize)
    (hc : ∀ ch bs, c.enqueue ch bs ≤ bs.length) :
    RxOwned c.enqueue burst (j.process c heap arp burst) ↔ RecyclesNothing j c heap burst := by
  by_cases hne : burst = []
  · subst hne
    obtain ⟨howned, hnothing⟩ := process_nil j c heap arp
    exact iff_of_true howned hnothing
  cases hl2 : updateL2sizes heap burst with
  | none =>
    refine iff_of_false ?_ ?_
    · rintro ⟨o, ho, _⟩
      simp [RxJob.process, hne, hle, hl2] at ho
    · rintro ⟨heap', v, vs, h, _⟩
      simp [hl2] at h
  | some heap' =>
    have hproc := process_spec j c heap heap' arp burst hne hle hl2 hc
    cases hv : verdicts c heap' (j.view.tryReloadSinks c.published).1 burst with
    | none =>
      rw [hv] at hproc
      refine iff_of_false ?_ ?_
      · rintro ⟨o, ho, _⟩
        simp [hproc] at ho
      · rintro ⟨heap'', v, vs, h, h', _⟩
        obtain rfl : heap' = heap'' := by simpa [hl2] using h
        simp [hv] at h'
    | some r =>
      obtain ⟨v, vs⟩ := r
      rw [hv, Option.bind_some] at hproc
      have hledger := ledger_settle c heap' arp j.burstSize burst.length v vs _ rfl
      rw [verdicts_fst c heap' burst _ _ _ hv] at hledger
      constructor
      · rintro ⟨o, ho, howner⟩
        rw [hproc] at ho
        split_ifs at ho with hroom
        obtain rfl := Option.some.inj ho
        refine ⟨heap', v, vs, hl2, hv, hroom, (leaked_nil c vs).mp ?_⟩
        -- the owners already account for the whole burst, so nothing is left for the leak
        have hlen := hledger.length_eq
        rw [List.length_append, howner.length_eq] at hlen
        exact List.length_eq_zero_iff.mp (by omega)
      · rintro ⟨heap'', v', vs', h, h', hroom, hzero⟩
        obtain rfl : heap' = heap'' := by simpa [hl2] using h
        obtain ⟨rfl, rfl⟩ : v = v' ∧ vs = vs' := by simpa [hv] using h'
        rw [if_pos hroom] at hproc
        refine ⟨_, hproc, ?_⟩
        rw [(leaked_nil c vs).mpr hzero, List.append_nil] at hledger
        exact hledger

/-! ## The flow queue -/

def FlowOwned (enqueue : ChannelPtr → List MbufPtr → ℕ) (burst : List MbufPtr) (r : Option FlowOutcome) :
    Prop :=
  ∃ o, r = some o ∧ OneOwner enqueue burst o.actions []

theorem rxBurst_owned_iff (ch : ChannelPtr) (enqueue : ChannelPtr → List MbufPtr → ℕ) (heap : MbufHeap)
    (burst : List MbufPtr) (hc : ∀ ch bs, enqueue ch bs ≤ bs.length) :
    FlowOwned enqueue burst (rxBurst ch heap burst) ↔ TagsEnd heap burst ∧ enqueue ch burst = 0 := by
  by_cases hne : burst = []
  · subst hne
    refine iff_of_true ⟨_, rfl, List.Perm.refl _⟩ ⟨by simp [TagsEnd], ?_⟩
    exact Nat.le_zero.mp (hc ch [])
  have hround : ∀ o, rxBurst ch heap burst = some o ↔
      ∃ heap', updateLens heap burst = some heap' ∧ o = ⟨heap', [.enqueue ch burst]⟩ := by
    intro o
    simp [rxBurst, hne, eq_comm]
  have hkept : ∀ heap', OneOwner enqueue burst (FlowOutcome.mk heap' [.enqueue ch burst]).actions [] ↔
      enqueue ch burst = 0 := by
    intro heap'
    have hdrop : freed [.enqueue ch burst] ++ kept enqueue [.enqueue ch burst] ++ [] =
        burst.drop (enqueue ch burst) := by simp [freed, kept, freedOf, keptOf]
    rw [OneOwner, hdrop]
    constructor
    · intro hperm
      have hlen := hperm.length_eq
      have hpos : 0 < burst.length := List.length_pos_of_ne_nil hne
      rw [List.length_drop] at hlen
      omega
    · intro h0
      rw [h0, List.drop_zero]
  constructor
  · rintro ⟨o, ho, howner⟩
    obtain ⟨heap', hlens, rfl⟩ := (hround o).mp ho
    exact ⟨(updateLens_isSome heap burst).mp ⟨heap', hlens⟩, (hkept heap').mp howner⟩
  · rintro ⟨htags, h0⟩
    obtain ⟨heap', hlens⟩ := (updateLens_isSome heap burst).mpr htags
    exact ⟨_, (hround _).mpr ⟨heap', hlens, rfl⟩, (hkept heap').mpr h0⟩

/-! ## Both paths -/

/-- On each receive path every mbuf of the burst ends with exactly one owner exactly when no
channel gives an mbuf back at a hand-over that drops the count. -/
theorem one_owner_iff (j : RxJob) (c : RxCall) (heap : MbufHeap) (arp : ArpTable)
    (burst : List MbufPtr) (hle : burst.length ≤ j.burstSize)
    (hc : ∀ ch bs, c.enqueue ch bs ≤ bs.length) (ch : ChannelPtr) :
    (RxOwned c.enqueue burst (j.process c heap arp burst) ↔ RecyclesNothing j c heap burst) ∧
      (FlowOwned c.enqueue burst (rxBurst ch heap burst) ↔
        TagsEnd heap burst ∧ c.enqueue ch burst = 0) :=
  ⟨process_owned_iff j c heap arp burst hle hc, rxBurst_owned_iff ch c.enqueue heap burst hc⟩

theorem one_owner_mixed :
    RxOwned (fun _ _ => 0) [0, 1, 2]
        ((freshJob 32).process (sampleCall fun _ _ => 0) mixedHeap (fun _ => none) [0, 1, 2]) ∧
      FlowOwned (fun _ _ => 0) [0, 1, 2] (rxBurst 7 mixedHeap [0, 1, 2]) := by
  have h := one_owner_iff (freshJob 32) (sampleCall fun _ _ => 0) mixedHeap (fun _ => none) [0, 1, 2]
    (by decide) (by simp [sampleCall]) 7
  refine ⟨h.1.mpr ⟨mixedHeap, _, _, mixedHeap_fixed _, rfl, ?_, by simp [sampleCall]⟩, h.2.mpr ⟨?_, rfl⟩⟩
  · decide
  · exact (updateL2sizes_isSome _ _).mp ⟨_, mixedHeap_fixed _⟩

/-- One UDP packet for a channel that gives everything back, as `rx_channel::enqueue` itself does:
nobody frees it, on either path. -/
theorem returned_packet_leaks :
    ¬ RxOwned (fun _ bs => bs.length) [0]
        ((freshJob 32).process (sampleCall fun _ bs => bs.length) mixedHeap (fun _ => none) [0]) ∧
      ¬ FlowOwned (fun _ bs => bs.length) [0] (rxBurst 7 mixedHeap [0]) := by
  have hc : ∀ ch bs, (sampleCall fun _ bs => bs.length).enqueue ch bs ≤ bs.length := by simp [sampleCall]
  constructor
  · refine mt (process_owned_iff (freshJob 32) (sampleCall fun _ bs => bs.length) mixedHeap
      (fun _ => none) [0] (by decide) hc).mp ?_
    rintro ⟨heap', v, vs, hl2, hv, _, hzero⟩
    obtain rfl : mixedHeap = heap' := by simpa [mixedHeap_fixed] using hl2
    have hvs : vs = [(0, .deliver 7)] := by
      have := congrArg (Option.map Prod.snd) hv
      exact (Option.some.inj this).symm
    subst hvs
    exact absurd (hzero (7, [0]) (by simp [unrecycled, dropped, nextSlice])) (by simp [sampleCall])
  · refine mt (rxBurst_owned_iff 7 (fun _ bs => bs.length) mixedHeap [0] (by simp)).mp ?_
    rintro ⟨_, h0⟩
    exact absurd h0 (by simp)

end DpdkTools
