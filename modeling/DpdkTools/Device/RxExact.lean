import DpdkTools.Device.RxDispatch

/-! Which packets of a burst go where, told from the packets and the table alone.

`verdictOf` classifies a packet by a fresh search in the table; `verdicts_fresh` shows that the
cached lookups of a whole burst give the same answers while the table stays as it is. What
`rx_job::process` hands to channels and to `process_rx_packets` then follows from `process_spec`,
up to the one thing the code does not ensure: `burst_size_` is bounded by the size of the whole
array, which leaves the packets copied behind the burst no room of their own. -/
namespace DpdkTools
set_option autoImplicit false

/-! ## A packet and a table -/

def isUdp (m : Mbuf) : Bool := m.ethProto = etherTypeIpv4 && m.nextProtoId = ipprotoUdp

def udpChannel (sinks : Sinks) (m : Mbuf) : Option ChannelPtr :=
  if isUdp m && !m.udpTooShort then channelOf sinks m.udpDstPort else none

def isFreed (m : Mbuf) : Bool := m.ethProto = 0 || (isUdp m && m.udpTooShort)

def forChannels (sinks : Sinks) (heap : MbufHeap) (burst : List MbufPtr) : List (ChannelPtr × MbufPtr) :=
  burst.filterMap fun b => (udpChannel sinks (heap b)).map fun ch => (ch, b)

def remaining (sinks : Sinks) (heap : MbufHeap) (burst : List MbufPtr) : List MbufPtr :=
  burst.filter fun b => !isFreed (heap b) && (udpChannel sinks (heap b)).isNone

def verdictOf (sinks : Sinks) (m : Mbuf) : Verdict :=
  if m.ethProto = 0 then .broken
  else if isUdp m then
    if m.udpTooShort then .shortUdp
    else
      match channelOf sinks m.udpDstPort with
      | none => .other
      | some ch => .deliver ch
  else .other

theorem etherTypeIpv4_ne_zero : etherTypeIpv4 ≠ 0 := by decide

theorem verdictOf_deliver (sinks : Sinks) (m : Mbuf) (ch : ChannelPtr) :
    verdictOf sinks m = .deliver ch ↔ udpChannel sinks m = some ch := by
  have h4 := etherTypeIpv4_ne_zero
  unfold verdictOf udpChannel isUdp
  by_cases h0 : m.ethProto = 0
  · simp [h0, h4.symm]
  · by_cases hu : m.ethProto = etherTypeIpv4 ∧ m.nextProtoId = ipprotoUdp
    · cases hs : m.udpTooShort
      · cases hch : channelOf sinks m.udpDstPort <;> simp [hu, h4]
      · simp [hu, h4]
    · simp [h0, hu]

theorem verdictOf_other (sinks : Sinks) (m : Mbuf) :
    verdictOf sinks m = .other ↔ isFreed m = false ∧ udpChannel sinks m = none := by
  have h4 := etherTypeIpv4_ne_zero
  unfold verdictOf udpChannel isFreed isUdp
  by_cases h0 : m.ethProto = 0
  · simp [h0]
  · by_cases hu : m.ethProto = etherTypeIpv4 ∧ m.nextProtoId = ipprotoUdp
    · cases hs : m.udpTooShort
      · cases hch : channelOf sinks m.udpDstPort <;> simp [hu, h4]
      · simp [hu, h4]
    · simp [h0, hu]

/-! ## The cached lookups of a burst -/

/-- What the lookups of a call rest on: the held table stays the held one, `last_` names an entry
of it, and its first entry has no channel. -/
structure Settled (c : RxCall) (v : SinkView) : Prop where
  quiet : v.Quiet c.published
  names : Names (c.tables v.sinks) v.last
  nullFirst : NullFirst (c.tables v.sinks)
  length_le : (c.tables v.sinks).length ≤ 2 ^ 16

theorem classify_settled (c : RxCall) (v : SinkView) (h : Settled c v) (m : Mbuf) :
    ∃ v', classify c v m = some (v', verdictOf (c.tables v.sinks) m) ∧ v'.sinks = v.sinks ∧
      Settled c v' := by
  obtain ⟨v', hfind, hsinks, hquiet, hnames⟩ :=
    v.findRxChannel_spec c.tables c.published m.udpEndpoint h.quiet h.names h.nullFirst h.length_le
  have hport : m.udpEndpoint.2 = m.udpDstPort := rfl
  rw [hport] at hfind
  have hset : Settled c v' := by
    refine ⟨hquiet, ?_, ?_, ?_⟩
    all_goals rw [hsinks]
    exacts [hnames, h.nullFirst, h.length_le]
  unfold classify verdictOf isUdp
  by_cases h0 : m.ethProto = 0
  · exact ⟨v, by simp [h0], rfl, h⟩
  by_cases h4 : m.ethProto = etherTypeIpv4
  · by_cases hudp : m.nextProtoId = ipprotoUdp
    · by_cases hshort : m.udpTooShort = true
      · exact ⟨v, by simp [h4, hudp, hshort, etherTypeIpv4_ne_zero], rfl, h⟩
      · refine ⟨v', ?_, hsinks, hset⟩
        cases hch : channelOf (c.tables v.sinks) m.udpDstPort with
        | none => simp [h4, hudp, hshort, etherTypeIpv4_ne_zero, hfind, hch]
        | some ch => simp [h4, hudp, hshort, etherTypeIpv4_ne_zero, hfind, hch]
    · exact ⟨v, by simp [h4, hudp, etherTypeIpv4_ne_zero], rfl, h⟩
  · exact ⟨v, by simp [h0, h4], rfl, h⟩

theorem verdicts_fresh (c : RxCall) (heap : MbufHeap) (burst : List MbufPtr) :
    ∀ v : SinkView, Settled c v →
      ∃ v', verdicts c heap v burst =
          some (v', burst.map fun b => (b, verdictOf (c.tables v.sinks) (heap b))) ∧
        v'.sinks = v.sinks ∧ Settled c v' := by
  induction burst with
  | nil =>
    intro v h
    exact ⟨v, rfl, rfl, h⟩
  | cons b bs ih =>
    intro v h
    obtain ⟨v₁, hcl, hs₁, h₁⟩ := classify_settled c v h (heap b)
    obtain ⟨v₂, hv, hs₂, h₂⟩ := ih v₁ h₁
    refine ⟨v₂, ?_, hs₂.trans hs₁, h₂⟩
    simp only [verdicts, hcl, hv, hs₁, Option.map_some, List.map_cons]

theorem delivered_fresh (sinks : Sinks) (heap : MbufHeap) (burst : List MbufPtr) :
    delivered (burst.map fun b => (b, verdictOf sinks (heap b))) = forChannels sinks heap burst := by
  rw [delivered, forChannels, List.filterMap_map]
  apply List.filterMap_congr
  intro b _
  simp only [Function.comp_apply]
  cases hk : verdictOf sinks (heap b) with
  | deliver ch => rw [(verdictOf_deliver sinks (heap b) ch).mp hk, Option.map_some]
  | _ =>
    cases hch : udpChannel sinks (heap b) with
    | none => rfl
    | some ch =>
      rw [← verdictOf_deliver, hk] at hch
      exact absurd hch (by simp)

theorem deferred_fresh (sinks : Sinks) (heap : MbufHeap) (burst : List MbufPtr) :
    deferred (burst.map fun b => (b, verdictOf sinks (heap b))) = remaining sinks heap burst := by
  rw [deferred, remaining, List.filter_map, List.map_map]
  have hfilter : burst.filter ((fun v : MbufPtr × Verdict => decide (v.2 = .other)) ∘
      fun b => (b, verdictOf sinks (heap b))) =
      burst.filter fun b => !isFreed (heap b) && (udpChannel sinks (heap b)).isNone := by
    apply List.filter_congr
    intro b _
    rw [Function.comp_apply, Bool.eq_iff_iff]
    simp [verdictOf_other]
  rw [hfilter]
  exact List.map_id _

/-! ## What the channels are handed -/

def handedOf : RxAction → List (ChannelPtr × MbufPtr)
  | .enqueue ch bs => bs.map fun b => (ch, b)
  | _ => []

def handed (acts : List RxAction) : List (ChannelPtr × MbufPtr) := acts.flatMap handedOf

def Slice.pairs : Option Slice → List (ChannelPtr × MbufPtr)
  | none => []
  | some (ch, bs) => bs.map fun b => (ch, b)

theorem handed_append (as bs : List RxAction) : handed (as ++ bs) = handed as ++ handed bs := by
  simp [handed]

theorem handed_handOver (cur : Option Slice) : handed (handOver cur) = Slice.pairs cur := by
  cases cur with
  | none => rfl
  | some sl => simp [handOver, handed, handedOf, Slice.pairs]

theorem handed_handOverRecycle (c : RxCall) (cur : Option Slice) :
    handed (handOverRecycle c cur) = Slice.pairs cur := by
  cases cur with
  | none => rfl
  | some sl =>
    obtain ⟨ch, bs⟩ := sl
    simp only [handOverRecycle]
    split_ifs
    · simp [handed, handedOf, Slice.pairs]
    · simp [handed, handedOf, Slice.pairs]

theorem handed_step (c : RxCall) (cur : Option Slice) (b : MbufPtr) (k : Verdict) :
    handed (stepActions c cur b k) ++ Slice.pairs (nextSlice cur b k) =
      Slice.pairs cur ++ delivered [(b, k)] := by
  cases k with
  | broken => simpa [stepActions, handed, handedOf, nextSlice, Slice.pairs, delivered] using handed_handOver cur
  | shortUdp => simpa [stepActions, handed, handedOf, nextSlice, Slice.pairs, delivered] using handed_handOver cur
  | other => simpa [stepActions, nextSlice, Slice.pairs, delivered] using handed_handOver cur
  | deliver ch =>
    have hdel : delivered [(b, Verdict.deliver ch)] = [(ch, b)] := by simp [delivered]
    rw [hdel]
    by_cases hcur : ∃ bs, cur = some (ch, bs)
    · obtain ⟨bs, rfl⟩ := hcur
      simp [stepActions, nextSlice, handed, Slice.pairs]
    · have hother : ∀ bs, cur ≠ some (ch, bs) := fun bs h => hcur ⟨bs, h⟩
      rw [stepActions_other c cur b ch hother, nextSlice_other cur b ch hother, handed_handOverRecycle]
      rfl

theorem handed_actions (c : RxCall) (vs : List (MbufPtr × Verdict)) :
    ∀ cur, handed (actions c cur vs) = Slice.pairs cur ++ delivered vs := by
  induction vs with
  | nil =>
    intro cur
    rw [actions, handed_handOver, delivered, List.filterMap_nil, List.append_nil]
  | cons v vs ih =>
    intro cur
    obtain ⟨b, k⟩ := v
    have hcons : delivered ((b, k) :: vs) = delivered [(b, k)] ++ delivered vs :=
      delivered_append [(b, k)] vs
    rw [actions, handed_append, ih, ← List.append_assoc, handed_step, hcons, List.append_assoc]

theorem handed_settle (c : RxCall) (heap : MbufHeap) (arp : ArpTable) (burstSize n : ℕ)
    (v : SinkView) (vs : List (MbufPtr × Verdict)) :
    handed (settle c heap arp burstSize n v vs).actions = delivered vs ∧
      (settle c heap arp burstSize n v vs).given = deferred vs := by
  have hacts : handed (actions c none vs) = delivered vs := handed_actions c vs none
  unfold settle
  by_cases hnil : deferred vs = []
  · simp [hnil, hacts]
  · simp only [hnil, if_false, and_true]
    split_ifs
    · rw [handed_append, hacts]
      simp [handed, handedOf]
    · exact hacts

/-! ## Dispatch exactness -/

/-- The call has a result, so that no slice or write leaves the array, and hands over exactly the
packets that are for a channel and exactly the remaining ones. -/
def DispatchExact (sinks : Sinks) (heap : MbufHeap) (burst : List MbufPtr) (r : Option RxOutcome) : Prop :=
  ∃ o, r = some o ∧ handed o.actions = forChannels sinks heap burst ∧
    o.given = remaining sinks heap burst

/-- `last_` is as the constructor of `rx_job` or a search in this table left it. -/
def LastSetOn (sinks : Sinks) (last : ℕ) : Prop :=
  last = 0 ∨ ∃ port, last = findSink sinks port ∧ last < sinks.length

theorem LastSetOn.names {sinks : Sinks} {last : ℕ} (h : LastSetOn sinks last)
    (hpos : 0 < sinks.length) : Names sinks last := by
  rcases h with rfl | ⟨port, rfl, hlt⟩
  · exact names_zero sinks hpos
  · exact names_findSink sinks port hlt

theorem Settled.reload {c : RxCall} {v : SinkView} (h : Settled c v) :
    Settled c (v.tryReloadSinks c.published).1 ∧ (v.tryReloadSinks c.published).1.sinks = v.sinks := by
  obtain ⟨_, hsinks, hlast, hquiet⟩ := v.tryReloadSinks_of_quiet c.published h.quiet
  refine ⟨⟨hquiet, ?_, ?_, ?_⟩, hsinks⟩
  · rw [hsinks, hlast]
    exact h.names
  · rw [hsinks]
    exact h.nullFirst
  · rw [hsinks]
    exact h.length_le

/-- A call on a settled table, with the verdicts replaced by what the packets and the table say. -/
theorem process_settled (j : RxJob) (c : RxCall) (heap heap' : MbufHeap) (arp : ArpTable)
    (burst : List MbufPtr) (hne : burst ≠ []) (hle : burst.length ≤ j.burstSize)
    (hl2 : updateL2sizes heap burst = some heap') (hc : ∀ ch bs, c.enqueue ch bs ≤ bs.length)
    (hset : Settled c j.view) :
    ∃ v, j.process c heap arp burst =
      if burst.length + (remaining (c.tables j.view.sinks) heap' burst).length ≤ 2 * maxPktBurst then
        some (settle c heap' arp j.burstSize burst.length v
          (burst.map fun b => (b, verdictOf (c.tables j.view.sinks) (heap' b))))
      else none := by
  obtain ⟨hset', hsinks⟩ := hset.reload
  obtain ⟨v, hv, _, _⟩ := verdicts_fresh c heap' burst _ hset'
  rw [hsinks] at hv
  refine ⟨v, ?_⟩
  rw [process_spec j c heap heap' arp burst hne hle hl2 hc, hv]
  simp only [Option.bind_some, deferred_fresh]

/-- Dispatch is exact, and stays inside the array, exactly when burst and remaining packets fit
into it together. -/
theorem process_exact_iff (j : RxJob) (c : RxCall) (heap heap' : MbufHeap) (arp : ArpTable)
    (burst : List MbufPtr) (hle : burst.length ≤ j.burstSize)
    (hl2 : updateL2sizes heap burst = some heap') (hc : ∀ ch bs, c.enqueue ch bs ≤ bs.length)
    (hquiet : j.view.Quiet c.published) (hnull : (c.tables j.view.sinks)[0]? = some nullSink)
    (hlen : (c.tables j.view.sinks).length ≤ 2 ^ 16)
    (hlast : LastSetOn (c.tables j.view.sinks) j.view.last) :
    DispatchExact (c.tables j.view.sinks) heap' burst (j.process c heap arp burst) ↔
      burst.length + (remaining (c.tables j.view.sinks) heap' burst).length ≤ 2 * maxPktBurst := by
  have hfirst : NullFirst (c.tables j.view.sinks) := ⟨nullSink, hnull, rfl⟩
  have hset : Settled c j.view := ⟨hquiet, hlast.names hfirst.pos, hfirst, hlen⟩
  by_cases hne : burst = []
  · subst hne
    refine iff_of_true ⟨_, by rw [RxJob.process, if_pos rfl], rfl, rfl⟩ ?_
    simp [remaining]
  · obtain ⟨v, hproc⟩ := process_settled j c heap heap' arp burst hne hle hl2 hc hset
    rw [hproc]
    split_ifs with hroom
    · refine iff_of_true ⟨_, rfl, ?_, ?_⟩ hroom
      · rw [(handed_settle _ _ _ _ _ _ _).1, delivered_fresh]
      · rw [(handed_settle _ _ _ _ _ _ _).2, deferred_fresh]
    · refine iff_of_false ?_ hroom
      rintro ⟨o, ho, _⟩
      exact absurd ho (by simp)

def freshJob (burstSize : ℕ) : RxJob :=
  RxJob.create 0 burstSize 1001 ⟨List.replicate (2 * maxPktBurst) 0, List.length_replicate⟩

/-- Port 0x1092 has channel 7, the channels recycle what `enqueue` says, and no service is on. -/
def sampleCall (enqueue : ChannelPtr → List MbufPtr → ℕ) : RxCall where
  tables := fun _ => [nullSink, ((0x010101EF, rteBe16 0x1092), some 7)]
  published := 0
  enqueue := enqueue
  env := ⟨⟨false, false, List.replicate 6 0, 0, false⟩, fun _ _ => 0, fun _ => 0, fun _ => true⟩

def mixedHeap : MbufHeap := fun b => if b = 1 then Mbuf.arpPacket else Mbuf.udpPacket 0x10 0x92

theorem mixedHeap_fixed (bs : List MbufPtr) : updateL2sizes mixedHeap bs = some mixedHeap := by
  apply updateL2sizes_fixed
  intro b _
  refine ⟨(mixedHeap b).ethProto, ?_⟩
  unfold mixedHeap
  split_ifs
  · rfl
  · rfl

theorem process_exact_mixed :
    DispatchExact [nullSink, ((0x010101EF, rteBe16 0x1092), some 7)] mixedHeap [0, 1, 2]
      ((freshJob 32).process (sampleCall fun _ _ => 0) mixedHeap (fun _ => none) [0, 1, 2]) := by
  refine (process_exact_iff (freshJob 32) (sampleCall fun _ _ => 0) mixedHeap mixedHeap (fun _ => none)
    [0, 1, 2] (by decide) (mixedHeap_fixed _) (by simp [sampleCall]) (Or.inl rfl) rfl (by decide)
    (Or.inl rfl)).mpr (by decide)

theorem process_arp_burst (burst : List MbufPtr) (hle : burst.length ≤ 2 * maxPktBurst)
    (hover : 2 * maxPktBurst < burst.length + burst.length) :
    (freshJob (2 * maxPktBurst)).process (sampleCall fun _ _ => 0) (fun _ => Mbuf.arpPacket)
      (fun _ => none) burst = none := by
  have hl2 : updateL2sizes (fun _ => Mbuf.arpPacket) burst = some (fun _ => Mbuf.arpPacket) :=
    updateL2sizes_fixed _ _ fun _ _ => ⟨Mbuf.arpPacket.ethProto, rfl⟩
  have hne : burst ≠ [] := by
    rintro rfl
    simp [maxPktBurst] at hover
  have hfirst : NullFirst ((sampleCall fun _ _ => 0).tables 0) := ⟨nullSink, rfl, rfl⟩
  have hset : Settled (sampleCall fun _ _ => 0) (freshJob (2 * maxPktBurst)).view :=
    ⟨Or.inl rfl, names_zero _ hfirst.pos, hfirst, by decide⟩
  have harp : (!isFreed Mbuf.arpPacket && (udpChannel ((sampleCall fun _ _ => 0).tables 0)
      Mbuf.arpPacket).isNone) = true := by decide
  have hremain : remaining ((sampleCall fun _ _ => 0).tables 0) (fun _ => Mbuf.arpPacket) burst = burst :=
    List.filter_eq_self.mpr fun _ _ => harp
  obtain ⟨v, hproc⟩ := process_settled (freshJob (2 * maxPktBurst)) (sampleCall fun _ _ => 0)
    (fun _ => Mbuf.arpPacket) _ (fun _ => none) burst hne hle hl2 (by simp [sampleCall]) hset
  have hsinks : (freshJob (2 * maxPktBurst)).view.sinks = 0 := rfl
  rw [hsinks, hremain, if_neg (Nat.not_le_of_lt hover)] at hproc
  exact hproc

theorem process_overruns :
    updateL2sizes (fun _ => Mbuf.arpPacket) (List.range 257) = some (fun _ => Mbuf.arpPacket) ∧
      (List.range 257).length ≤ (freshJob (2 * maxPktBurst)).burstSize ∧
      ¬ DispatchExact [nullSink, ((0x010101EF, rteBe16 0x1092), some 7)]
        (fun _ => Mbuf.arpPacket) (List.range 257)
        ((freshJob (2 * maxPktBurst)).process (sampleCall fun _ _ => 0) (fun _ => Mbuf.arpPacket)
          (fun _ => none) (List.range 257)) := by
  have hlen : (List.range 257).length = 257 := List.length_range
  refine ⟨updateL2sizes_fixed _ _ fun _ _ => ⟨Mbuf.arpPacket.ethProto, rfl⟩, ?_, ?_⟩
  · rw [hlen]
    decide
  · rw [process_arp_burst (List.range 257) (by rw [hlen]; decide) (by rw [hlen]; decide)]
    rintro ⟨o, ho, _⟩
    exact absurd ho (by simp)

end DpdkTools
