import DpdkTools.Device.AttachModes

/-! Which frames may reach a channel.

A channel reads the headers of what it is handed without further tests: `rx_channel::enqueue` and
`sockperf_channel::enqueue` rely on the three header lengths and on the UDP length field. Before it
hands a frame over, `rx_job::process` tests the ethertype, the protocol and two lengths. That the
header is at least 20 bytes long, that the packet is whole and that the UDP length covers its own
header is only asserted, or not looked at. -/
namespace DpdkTools
set_option autoImplicit false

/-- The frame `m`, handed over as `m'`: an unfragmented IPv4/UDP packet inside the data, with the
header lengths set to those of its headers. -/
structure WellFormed (m m' : Mbuf) (k : ℕ) : Prop where
  frame : UdpFrame m k
  l2 : m'.l2Len = 14 + 4 * k
  l3 : m'.l3Len = (m.data (14 + 4 * k)).toNat % 16 * 4
  l4 : m'.l4Len = sizeofUdpHdr
  header_fits : m'.l2Len + m'.l3Len + sizeofUdpHdr ≤ m.dataLen

/-- The header fields that are not tested, on a frame whose `l2_len` is set. -/
structure HeaderSound (m : Mbuf) : Prop where
  l2 : sizeofEtherHdr ≤ m.l2Len
  version : (m.data m.l2Len).toNat / 16 = 4
  ihl : 5 ≤ (m.data m.l2Len).toNat % 16
  whole : rteBeToCpu16 (loadBe16 m.data (m.l2Len + 6)) &&& 0x3FFF = 0
  dgram_min : sizeofUdpHdr ≤ m.udpDgramLen

/-- A frame that passes the tests of `rx_job::process` is sound in the fields it does not test. -/
def Trustworthy (m : Mbuf) : Prop :=
  ∀ r, m.updateL2size = some r → isUdp r.1 = true → r.1.udpTooShort = false → HeaderSound r.1

theorem udpTooShort_eq_false (m : Mbuf) : m.udpTooShort = false ↔
    m.l2Len + m.ipv4HdrLen + sizeofUdpHdr ≤ m.dataLen ∧
      m.l2Len + m.ipv4HdrLen + m.udpDgramLen ≤ m.dataLen := by
  rw [Mbuf.udpTooShort, Bool.or_eq_false_iff, decide_eq_false_iff_not, decide_eq_false_iff_not,
    Nat.not_lt, Nat.not_lt]

theorem wellFormed_of_sound (m : Mbuf) (r : Mbuf × Be16) (h : m.updateL2size = some r)
    (hudp : isUdp r.1 = true) (hlen : r.1.udpTooShort = false) (hs : HeaderSound r.1) :
    ∃ k, WellFormed m r.1.setUdpLens k := by
  obtain ⟨k, hroom, hr, htags⟩ := m.updateL2size_exit r h hs.l2
  obtain ⟨hhdr, hfits⟩ := (udpTooShort_eq_false r.1).mp hlen
  rw [isUdp, Bool.and_eq_true, decide_eq_true_eq, decide_eq_true_eq] at hudp
  have hmin := hs.dgram_min
  rw [hr] at hudp hhdr hfits hmin hs
  have hether : m.tagProto k = etherTypeIpv4 := by
    rw [← hudp.1, Mbuf.tagProto, Mbuf.ethProto]
    dsimp only
    rw [show 14 + 4 * k - 2 = 12 + 4 * k by omega]
  refine ⟨k, ⟨hroom, htags, hether, hs.version, hs.ihl, hudp.2, hs.whole, hmin, hfits⟩, ?_, ?_, rfl,
    ?_⟩
  · rw [hr]
    rfl
  · rw [hr]
    rfl
  · rw [hr]
    exact hhdr

theorem sound_of_wellFormed (m : Mbuf) (r : Mbuf × Be16) (h : m.updateL2size = some r) (k : ℕ)
    (hw : WellFormed m r.1.setUdpLens k) : HeaderSound r.1 := by
  have hr : r.1 = measured m k := by
    have heq := hw.frame.updateL2size_eq
    rw [h] at heq
    rw [Option.some.inj heq]
  rw [hr]
  exact ⟨Nat.le_add_right 14 _, hw.frame.version, hw.frame.ihl, hw.frame.whole,
    hw.frame.dgram_min⟩

/-! ## Frames handed over -/

theorem classify_deliver (c : RxCall) (v v' : SinkView) (m : Mbuf) (ch : ChannelPtr)
    (h : classify c v m = some (v', .deliver ch)) : isUdp m = true ∧ m.udpTooShort = false := by
  rcases classify_cases c v v' m (.deliver ch) h with ⟨_, hno⟩ | ⟨_, h4, hudp, hshort, _, _⟩
  · exact absurd rfl (hno ch)
  · exact ⟨by simp [isUdp, h4, hudp], hshort⟩

theorem verdicts_mem (c : RxCall) (heap : MbufHeap) (bs : List MbufPtr) :
    ∀ (v v' : SinkView) (vs : List (MbufPtr × Verdict)), verdicts c heap v bs = some (v', vs) →
      ∀ b k, (b, k) ∈ vs → b ∈ bs ∧ ∃ w w', classify c w (heap b) = some (w', k) := by
  induction bs with
  | nil =>
    intro v v' vs h b k hmem
    simp only [verdicts, Option.some.injEq, Prod.mk.injEq] at h
    rw [← h.2] at hmem
    exact absurd hmem List.not_mem_nil
  | cons x xs ih =>
    intro v v' vs h b k hmem
    obtain ⟨v₁, k₁, rest, hcl, hrest, rfl⟩ := verdicts_cons_some c heap v v' x xs vs h
    obtain hhead | htail := List.mem_cons.mp hmem
    · obtain ⟨rfl, rfl⟩ := Prod.mk.inj hhead
      exact ⟨List.mem_cons_self .., v, v₁, hcl⟩
    · obtain ⟨hb, hw⟩ := ih v₁ v' rest hrest b k htail
      exact ⟨List.mem_cons_of_mem _ hb, hw⟩

theorem delivered_mem (vs : List (MbufPtr × Verdict)) (ch : ChannelPtr) (b : MbufPtr)
    (h : (ch, b) ∈ delivered vs) : (b, .deliver ch) ∈ vs := by
  rw [delivered, List.mem_filterMap] at h
  obtain ⟨⟨b', k⟩, hmem, hk⟩ := h
  cases k with
  | deliver ch' =>
    simp only [Option.some.injEq, Prod.mk.injEq] at hk
    obtain ⟨rfl, rfl⟩ := hk
    exact hmem
  | broken => simp at hk
  | shortUdp => simp at hk
  | other => simp at hk

/-- An mbuf handed to a channel has passed the tests, and has its header lengths set. -/
theorem handed_measured (j : RxJob) (c : RxCall) (hc : ∀ ch bs, c.enqueue ch bs ≤ bs.length)
    (heap : MbufHeap) (arp : ArpTable) (burst : List MbufPtr) (o : RxOutcome)
    (ho : j.process c heap arp burst = some o) (ch : ChannelPtr) (b : MbufPtr)
    (h : (ch, b) ∈ handed o.actions) :
    ∃ r, (heap b).updateL2size = some r ∧ isUdp r.1 = true ∧ r.1.udpTooShort = false ∧
      o.heap b = r.1.setUdpLens := by
  rcases j.process_cases c heap arp burst o ho with ⟨_, rfl⟩ | ⟨hne, hle, _, heap', _, hl2, _, _⟩
  · exact absurd h List.not_mem_nil
  · rw [process_spec j c heap heap' arp burst hne hle hl2 hc] at ho
    obtain ⟨⟨v, vs⟩, hv, hset⟩ := Option.bind_eq_some_iff.mp ho
    split_ifs at hset with hroom
    obtain rfl := Option.some.inj hset
    rw [(handed_settle c heap' arp j.burstSize burst.length v vs).1] at h
    obtain ⟨hb, w, w', hcl⟩ := verdicts_mem c heap' burst _ v vs hv b _ (delivered_mem vs ch b h)
    obtain ⟨hudp, hlen⟩ := classify_deliver c w w' (heap' b) ch hcl
    have hends : TagsEnd heap burst := (updateL2sizes_isSome heap burst).mp ⟨heap', hl2⟩
    obtain ⟨r, hr⟩ := Option.ne_none_iff_exists'.mp (hends b hb)
    have hheap : heap' b = r.1 := by
      have hmem := updateL2sizes_mem heap heap' burst hl2 b hb
      rw [hr] at hmem
      exact (Option.some.inj hmem).symm
    rw [hheap] at hudp hlen
    refine ⟨r, hr, hudp, hlen, ?_⟩
    rw [settle_heap, udpHeap, if_pos (List.mem_map.mpr ⟨_, h, rfl⟩), hheap]

/-! ## A call that delivers -/

/-- The job after a packet for the channel at position 1. -/
def cachedJob : RxJob where
  view := ⟨1, 0, 1001, 0⟩
  burstSize := 32
  buffers := (freshJob 32).buffers
  burst_le := Nat.le_of_ble_eq_true rfl

/-- One packet in a call of that job, which does not reload its table. -/
theorem cachedJob_process (c : RxCall) (hc : ∀ ch bs, c.enqueue ch bs ≤ bs.length) (m : Mbuf)
    (r : Mbuf × Be16) (hr : m.updateL2size = some r) (verdict : Verdict)
    (hv : classify c cachedJob.view r.1 = some (cachedJob.view, verdict)) (arp : ArpTable) :
    cachedJob.process c (fun _ => m) arp [0] =
      some (settle c (Function.update (fun _ => m) 0 r.1) arp 32 1 cachedJob.view [(0, verdict)]) := by
  have hl2 : updateL2sizes (fun _ => m) [0] = some (Function.update (fun _ => m) 0 r.1) := by
    simp [updateL2sizes, Mbuf.sweep, hr]
  have hview : (cachedJob.view.tryReloadSinks c.published).1 = cachedJob.view := rfl
  have hverdicts : verdicts c (Function.update (fun _ => m) 0 r.1) cachedJob.view [0] =
      some (cachedJob.view, [(0, verdict)]) := by
    simp only [verdicts, Function.update_self, hv, Option.map_some]
  have hroom : [0].length + (deferred [((0 : MbufPtr), verdict)]).length ≤ 2 * maxPktBurst := by
    have hlen : (deferred [((0 : MbufPtr), verdict)]).length ≤ 1 := by
      rw [deferred, List.length_map]
      exact List.length_filter_le _ _
    change 1 + _ ≤ 512
    omega
  rw [process_spec cachedJob c _ _ arp [0] (by simp) (by decide) hl2 hc, hview, hverdicts,
    Option.bind_some, if_pos hroom]
  rfl

/-- Channel 7 is attached to `port`. -/
def portCall (port : Be16) : RxCall where
  tables := fun _ => [nullSink, ((0, port), some 7)]
  published := 0
  enqueue := fun _ _ => 0
  env := (sampleCall fun _ _ => 0).env

theorem portCall_classify (m : Mbuf) (hudp : isUdp m = true) (hlen : m.udpTooShort = false) :
    classify (portCall m.udpDstPort) cachedJob.view m =
      some (cachedJob.view, .deliver 7) := by
  rw [isUdp, Bool.and_eq_true, decide_eq_true_eq, decide_eq_true_eq] at hudp
  have hfind : cachedJob.view.findRxChannel (portCall m.udpDstPort).tables
      (portCall m.udpDstPort).published m.udpEndpoint = some (cachedJob.view, some 7) := by
    have hport : m.udpEndpoint.2 = m.udpDstPort := rfl
    simp [SinkView.findRxChannel, SinkView.lastChannel, cachedJob, portCall, hport]
  rw [classify, hudp.1, if_neg etherTypeIpv4_ne_zero, if_pos rfl, if_pos hudp.2, hlen,
    if_neg Bool.false_ne_true, hfind]

/-- A frame that passes the tests is handed to the channel of its port. -/
theorem portCall_delivers (m : Mbuf) (r : Mbuf × Be16) (h : m.updateL2size = some r)
    (hudp : isUdp r.1 = true) (hlen : r.1.udpTooShort = false) :
    ∃ o, cachedJob.process (portCall r.1.udpDstPort) (fun _ => m) (fun _ => none) [0] = some o ∧
      (7, 0) ∈ handed o.actions ∧ o.heap 0 = r.1.setUdpLens := by
  refine ⟨_, cachedJob_process (portCall r.1.udpDstPort) (by simp [portCall]) m r h (.deliver 7)
    (portCall_classify r.1 hudp hlen) _, ?_, ?_⟩
  · rw [(handed_settle _ _ _ _ _ _ _).1]
    exact List.mem_cons_self ..
  · rw [settle_heap]
    simp [udpHeap, delivered]

/-- Whatever table, channels and other packets it meets, a frame is handed over only as a well
formed datagram, exactly when passing the tests vouches for the fields that are not tested. -/
theorem delivered_wellFormed_iff (m : Mbuf) :
    (∀ (j : RxJob) (c : RxCall) (heap : MbufHeap) (arp : ArpTable) (burst : List MbufPtr)
      (o : RxOutcome) (ch : ChannelPtr) (b : MbufPtr), (∀ ch bs, c.enqueue ch bs ≤ bs.length) →
      heap b = m → j.process c heap arp burst = some o → (ch, b) ∈ handed o.actions →
      ∃ k, WellFormed m (o.heap b) k) ↔ Trustworthy m := by
  constructor
  · intro hall r hr hudp hlen
    obtain ⟨o, ho, hmem, hheap⟩ := portCall_delivers m r hr hudp hlen
    obtain ⟨k, hw⟩ := hall cachedJob (portCall r.1.udpDstPort) (fun _ => m) (fun _ => none) [0] o 7 0
      (by simp [portCall]) rfl ho hmem
    rw [hheap] at hw
    exact sound_of_wellFormed m r hr k hw
  · intro htrust j c heap arp burst o ch b hc hm ho hmem
    obtain ⟨r, hr, hudp, hlen, hheap⟩ := handed_measured j c hc heap arp burst o ho ch b hmem
    rw [hm] at hr
    rw [hheap]
    exact wellFormed_of_sound m r hr hudp hlen (htrust r hr hudp hlen)

/-- The first fragment of a datagram, with the flag for more fragments set. -/
def firstFragment : Mbuf where
  data := fun i =>
    (List.replicate 12 (0 : UInt8) ++ [8, 0, 0x45, 0, 0, 0, 0, 0, 0x20, 0, 64, 17, 0, 0] ++
      List.replicate 4 0 ++ [239, 1, 1, 1, 0, 0, 0x10, 0x92, 0, 8]).getD i 0
  dataLen := 60

theorem fragment_delivered :
    ∃ o, cachedJob.process (portCall (rteBe16 0x1092)) (fun _ => firstFragment) (fun _ => none) [0]
        = some o ∧ (7, 0) ∈ handed o.actions ∧ ¬ ∃ k, WellFormed firstFragment (o.heap 0) k := by
  refine ⟨_, rfl, by decide, ?_⟩
  intro h
  obtain ⟨k, hw⟩ := h
  have hl2 : 14 = 14 + 4 * k := hw.l2
  obtain rfl : k = 0 := by omega
  exact absurd hw.frame.whole (by decide)

end DpdkTools
