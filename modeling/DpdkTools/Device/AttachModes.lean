import DpdkTools.Device.AttachErrors
import DpdkTools.Device.RxExact

/-! The two ways to attach a channel, compared on the packets they deliver.

Over the sink table a packet is looked up by its destination port alone, and the entry without
channel in front of every table hides port 0. Over a flow queue the NIC compares the destination
address as well, and the queue delivers nothing at all for a channel whose `enqueue_proxy` throws.
The header lengths agree whenever both deliver. -/
namespace DpdkTools
set_option autoImplicit false

/-- A well-formed, unfragmented IPv4/UDP packet behind `k` VLAN tags, whose link header `l2_len`
can hold. -/
structure UdpFrame (m : Mbuf) (k : ℕ) : Prop where
  room : 14 + 4 * k < 128
  tags : ∀ i < k, Mbuf.isTag (m.tagProto i) = true
  ether : m.tagProto k = etherTypeIpv4
  version : (m.data (14 + 4 * k)).toNat / 16 = 4
  ihl : 5 ≤ (m.data (14 + 4 * k)).toNat % 16
  proto : m.data (14 + 4 * k + 9) = ipprotoUdp
  whole : rteBeToCpu16 (loadBe16 m.data (14 + 4 * k + 6)) &&& 0x3FFF = 0
  dgram_min : sizeofUdpHdr ≤ Mbuf.udpDgramLen { m with l2Len := 14 + 4 * k }
  dgram_fits : 14 + 4 * k + (m.data (14 + 4 * k)).toNat % 16 * 4 +
    Mbuf.udpDgramLen { m with l2Len := 14 + 4 * k } ≤ m.dataLen

def measured (m : Mbuf) (k : ℕ) : Mbuf := { m with l2Len := 14 + 4 * k }

namespace UdpFrame
variable {m : Mbuf} {k : ℕ}

theorem updateL2size_eq (h : UdpFrame m k) : m.updateL2size = some (measured m k, etherTypeIpv4) := by
  have hend : Mbuf.isTag (m.tagProto k) = false := by
    rw [h.ether]
    decide
  have hfits := h.dgram_fits
  rw [m.updateL2size_tags k h.room h.tags hend (by omega), h.ether]
  rfl

theorem isUdp_measured (h : UdpFrame m k) : isUdp (measured m k) = true := by
  have hether : (measured m k).ethProto = etherTypeIpv4 := by
    rw [← h.ether, Mbuf.tagProto, Mbuf.ethProto, measured]
    dsimp only
    rw [show 14 + 4 * k - 2 = 12 + 4 * k by omega]
  have hproto : (measured m k).nextProtoId = ipprotoUdp := h.proto
  simp [isUdp, hether, hproto]

theorem udpChannel_measured (h : UdpFrame m k) (sinks : Sinks) :
    udpChannel sinks (measured m k) = channelOf sinks (measured m k).udpDstPort := by
  have hmin := h.dgram_min
  have hfits := h.dgram_fits
  have hshort : (measured m k).udpTooShort = false := by
    rw [Mbuf.udpTooShort, Bool.or_eq_false_iff, decide_eq_false_iff_not, decide_eq_false_iff_not]
    simp only [measured, Mbuf.ipv4HdrLen] at hmin hfits ⊢
    omega
  simp [udpChannel, h.isUdp_measured, hshort]

end UdpFrame

def FlowRule.matchesAt (rule : FlowRule) (m : Mbuf) (k : ℕ) : Bool :=
  (measured m k).nextProtoId == rule.nextProtoId && (measured m k).ipv4DstAddr == rule.dstAddr &&
    (measured m k).udpDstPort == rule.dstPort

theorem FlowRule.matchesAt_udp (queue : ℕ) (ep : Ip4Endpoint) (m : Mbuf) (k : ℕ) (h : UdpFrame m k) :
    (makeUdpFlow queue ep).matchesAt m k = true ↔ (measured m k).udpEndpoint = ep := by
  have hproto : (measured m k).nextProtoId = ipprotoUdp := h.proto
  obtain ⟨ip, port⟩ := ep
  simp [FlowRule.matchesAt, makeUdpFlow, hproto, Mbuf.udpEndpoint]

/-! ## Over the table -/

theorem rss_table (fqueues : List FlowQueue) (env : AttachEnv) (ep : Ip4Endpoint) (ch : ChannelPtr) :
    ((Device.create fqueues).attachRx env ep (some ch) .rss).1.table = [nullSink, (ep, some ch)] := by
  rw [Device.attachRx_table]
  simp [Device.attachPath, Device.create, Device.table]

theorem channelOf_single (ep : Ip4Endpoint) (ch : ChannelPtr) (port : Be16) :
    channelOf [nullSink, (ep, some ch)] port = some ch ↔ port = ep.2 ∧ ep.2 ≠ 0 := by
  by_cases h0 : port = 0
  · subst h0
    have hnone : channelOf [nullSink, (ep, some ch)] 0 = none := rfl
    simp only [hnone, reduceCtorEq, false_iff, not_and, not_not]
    exact fun h => h.symm
  · have hnull : (nullSink.1.2 == port) = false := by simpa [nullSink] using Ne.symm h0
    by_cases hp : ep.2 = port
    · simp [channelOf, findSink, List.findIdx_cons, hnull, hp, h0]
    · have hp' : (ep.2 == port) = false := by simpa using hp
      simp [channelOf, findSink, List.findIdx_cons, hnull, hp', Ne.symm hp]

/-- The mbuf `b` is handed to `ch` by a poll of the receive job, and looks like `m` then. -/
def RssDelivers (r : Option RxOutcome) (ch : ChannelPtr) (b : MbufPtr) (m : Mbuf) : Prop :=
  ∃ o, r = some o ∧ (ch, b) ∈ handed o.actions ∧ o.heap b = m

theorem mem_forChannels (sinks : Sinks) (heap : MbufHeap) (burst : List MbufPtr) (ch : ChannelPtr)
    (b : MbufPtr) :
    (ch, b) ∈ forChannels sinks heap burst ↔ b ∈ burst ∧ udpChannel sinks (heap b) = some ch := by
  simp [forChannels]

theorem settle_heap (c : RxCall) (heap : MbufHeap) (arp : ArpTable) (burstSize n : ℕ) (v : SinkView)
    (vs : List (MbufPtr × Verdict)) :
    (settle c heap arp burstSize n v vs).heap = udpHeap heap ((delivered vs).map Prod.snd) := by
  unfold settle
  dsimp only
  split_ifs <;> rfl

theorem rss_delivers_iff (j : RxJob) (c : RxCall) (ep : Ip4Endpoint) (ch : ChannelPtr)
    (hc : ∀ ch bs, c.enqueue ch bs ≤ bs.length) (hset : Settled c j.view)
    (htable : c.tables j.view.sinks = [nullSink, (ep, some ch)])
    (heap : MbufHeap) (arp : ArpTable) (tags : MbufPtr → ℕ) (burst : List MbufPtr)
    (hwf : ∀ b ∈ burst, UdpFrame (heap b) (tags b)) (hle : burst.length ≤ j.burstSize)
    (hhalf : burst.length ≤ maxPktBurst) (b : MbufPtr) (hb : b ∈ burst) (m : Mbuf) :
    RssDelivers (j.process c heap arp burst) ch b m ↔
      ((measured (heap b) (tags b)).udpDstPort = ep.2 ∧ ep.2 ≠ 0) ∧
        m = (measured (heap b) (tags b)).setUdpLens := by
  have hne : burst ≠ [] := List.ne_nil_of_mem hb
  obtain ⟨heap', hl2, hheap⟩ : ∃ heap', updateL2sizes heap burst = some heap' ∧
      ∀ x ∈ burst, heap' x = measured (heap x) (tags x) := by
    refine ⟨_, (Mbuf.sweep_spec _ updateL2size_idem burst heap).1 ?_, ?_⟩
    · intro x hx
      simp [(hwf x hx).updateL2size_eq]
    · intro x hx
      simp [hx, (hwf x hx).updateL2size_eq]
  obtain ⟨v, hproc⟩ := process_settled j c heap heap' arp burst hne hle hl2 hc hset
  have hroom : burst.length + (remaining (c.tables j.view.sinks) heap' burst).length ≤
      2 * maxPktBurst := by
    have : (remaining (c.tables j.view.sinks) heap' burst).length ≤ burst.length :=
      List.length_filter_le ..
    omega
  rw [if_pos hroom, htable] at hproc
  have hhand := (handed_settle c heap' arp j.burstSize burst.length v
    (burst.map fun b => (b, verdictOf [nullSink, (ep, some ch)] (heap' b)))).1
  rw [delivered_fresh] at hhand
  have hmem : (ch, b) ∈ forChannels [nullSink, (ep, some ch)] heap' burst ↔
      (measured (heap b) (tags b)).udpDstPort = ep.2 ∧ ep.2 ≠ 0 := by
    rw [mem_forChannels, hheap b hb, (hwf b hb).udpChannel_measured, channelOf_single]
    exact and_iff_right hb
  have hlens : (ch, b) ∈ forChannels [nullSink, (ep, some ch)] heap' burst →
      udpHeap heap' ((forChannels [nullSink, (ep, some ch)] heap' burst).map Prod.snd) b =
        (measured (heap b) (tags b)).setUdpLens := by
    intro hfor
    have hsnd : b ∈ (forChannels [nullSink, (ep, some ch)] heap' burst).map Prod.snd :=
      List.mem_map.mpr ⟨_, hfor, rfl⟩
    rw [udpHeap, if_pos hsnd, hheap b hb]
  unfold RssDelivers
  rw [hproc]
  simp only [Option.some.injEq, exists_eq_left', hhand, settle_heap, delivered_fresh, hmem]
  constructor
  · rintro ⟨hport, rfl⟩
    exact ⟨hport, hlens (hmem.mpr hport)⟩
  · rintro ⟨hport, rfl⟩
    exact ⟨hport, hlens (hmem.mpr hport)⟩

/-! ## Over a flow queue -/

def FlowDelivers (r : Option FlowOutcome) (ch : ChannelPtr) (b : MbufPtr) (m : Mbuf) : Prop :=
  ∃ o, r = some o ∧ (ch, b) ∈ handed o.actions ∧ o.heap b = m

theorem FlowQueue.destroyRest_done (env : FlowEnv) (calls : ℕ) (fs rest : List FlowRule)
    (h : FlowQueue.destroyRest env calls fs = (rest, none)) : rest = [] := by
  induction fs generalizing calls with
  | nil => simpa [FlowQueue.destroyRest, eq_comm] using h
  | cons f fs ih =>
    unfold FlowQueue.destroyRest at h
    split_ifs at h
    · exact ih (calls + 1) h
    · simp at h

theorem FlowQueue.reset_success (q q' : FlowQueue) (env : FlowEnv) (ch : Option ChannelPtr)
    (ep : Ip4Endpoint) (h : q.reset env ch ep = (q', none)) :
    q'.flows = [makeUdpFlow q.queueId ep] ∧ q'.channel = ch := by
  unfold FlowQueue.reset at h
  cases hd : FlowQueue.destroyRest env q.flows.length (q.resetFlows env).flows.reverse with
  | mk rest e =>
    cases e with
    | some e => simp [hd] at h
    | none =>
      simp only [hd, FlowQueue.routeTo, FlowQueue.destroyRest_done env _ _ rest hd] at h
      split_ifs at h
      · simp only [Prod.mk.injEq, and_true] at h
        subst h
        exact ⟨rfl, rfl⟩
      · simp at h

def steered (nic : FlowRule → Mbuf → Bool) (q : FlowQueue) (heap : MbufHeap) (burst : List MbufPtr) :
    List MbufPtr :=
  burst.filter fun b => q.flows.any fun rule => nic rule (heap b)

theorem flow_delivers_iff (q q' : FlowQueue) (env : FlowEnv) (ep : Ip4Endpoint) (ch : ChannelPtr)
    (hreset : q.reset env (some ch) ep = (q', none)) (enqueueProxy : ChannelPtr → Bool)
    (nic : FlowRule → Mbuf → Bool)
    (hnic : ∀ rule m k, UdpFrame m k → nic rule m = rule.matchesAt m k)
    (heap : MbufHeap) (tags : MbufPtr → ℕ) (burst : List MbufPtr)
    (hwf : ∀ b ∈ burst, UdpFrame (heap b) (tags b)) (b : MbufPtr) (hb : b ∈ burst) (m : Mbuf) :
    FlowDelivers (q'.runExclusive enqueueProxy heap [steered nic q' heap burst]) ch b m ↔
      ((measured (heap b) (tags b)).udpEndpoint = ep ∧ enqueueProxy ch = true) ∧
        m = (measured (heap b) (tags b)).setUdpLens := by
  obtain ⟨hflows, hch⟩ := q.reset_success q' env (some ch) ep hreset
  have hsteer : ∀ x ∈ burst, x ∈ steered nic q' heap burst ↔
      (measured (heap x) (tags x)).udpEndpoint = ep := by
    intro x hx
    rw [steered, List.mem_filter, hflows]
    simp only [List.any_cons, List.any_nil, Bool.or_false, hnic _ _ _ (hwf x hx),
      FlowRule.matchesAt_udp _ _ _ _ (hwf x hx)]
    exact and_iff_right hx
  have hsub : ∀ x ∈ steered nic q' heap burst, UdpFrame (heap x) (tags x) :=
    fun x hx => hwf x (List.mem_filter.mp hx).1
  have hsweep := (Mbuf.sweep_spec _ updateLens_idem (steered nic q' heap burst) heap).1
    (fun x hx => by simp [(hsub x hx).updateL2size_eq])
  have hrun : q'.runExclusive enqueueProxy heap [steered nic q' heap burst] =
      if enqueueProxy ch then rxBursts ch heap [steered nic q' heap burst] else some ⟨heap, []⟩ := by
    rw [FlowQueue.runExclusive, hch]
  unfold FlowDelivers
  rw [hrun]
  by_cases hproxy : enqueueProxy ch = true
  · simp only [hproxy, if_true, and_true, ← hsteer b hb, rxBursts]
    by_cases hnil : steered nic q' heap burst = []
    · simp [rxBurst, hnil, handed]
    · have hlens : updateLens heap (steered nic q' heap burst) = some _ := hsweep
      have hhand : (ch, b) ∈ handed [.enqueue ch (steered nic q' heap burst)] ↔
          b ∈ steered nic q' heap burst := by simp [handed, handedOf]
      simp only [rxBurst, hnil, if_false, hlens, Option.map_some, Option.bind_some, Option.some.injEq,
        exists_eq_left', List.append_nil, hhand]
      refine and_congr_right ?_
      intro hin
      simp only [hin, if_true, (hwf b hb).updateL2size_eq, Option.map_some, Option.getD_some]
      exact eq_comm
  · simp [hproxy, handed]

/-! ## The comparison -/

section Modes
variable (fqueues : List FlowQueue) (env : AttachEnv) (ep : Ip4Endpoint) (ch : ChannelPtr)

/-- The packet in `b` is delivered by both ways or by neither, with the same header lengths. -/
def SameDelivery (rss : Option RxOutcome) (flow : Option FlowOutcome) (ch : ChannelPtr) (b : MbufPtr) :
    Prop :=
  ((∃ m, RssDelivers rss ch b m) ↔ ∃ m, FlowDelivers flow ch b m) ∧
    ∀ m m', RssDelivers rss ch b m → FlowDelivers flow ch b m' →
      m.l2Len = m'.l2Len ∧ m.l3Len = m'.l3Len ∧ m.l4Len = m'.l4Len

/-- A packet is treated alike exactly when it is for another port, or when the port is not 0 just
if the address is the attached one and the channel has an `enqueue_proxy`. -/
theorem same_delivery_iff (d : Device)
    (hd : d = ((Device.create fqueues).attachRx env ep (some ch) .rss).1)
    (j : RxJob) (c : RxCall) (htables : c.tables = d.store.tables)
    (hpublished : c.published = d.store.sinks) (hheld : j.view.sinks = d.store.sinks)
    (hlast : LastSetOn d.table j.view.last)
    (hc : ∀ ch bs, c.enqueue ch bs ≤ bs.length)
    (q q' : FlowQueue) (hreset : q.reset env.flow (some ch) ep = (q', none))
    (enqueueProxy : ChannelPtr → Bool) (nic : FlowRule → Mbuf → Bool)
    (hnic : ∀ rule m k, UdpFrame m k → nic rule m = rule.matchesAt m k)
    (heap : MbufHeap) (arp : ArpTable) (tags : MbufPtr → ℕ) (burst : List MbufPtr)
    (hwf : ∀ b ∈ burst, UdpFrame (heap b) (tags b)) (hle : burst.length ≤ j.burstSize)
    (hhalf : burst.length ≤ maxPktBurst) (b : MbufPtr) (hb : b ∈ burst) :
    SameDelivery (j.process c heap arp burst)
        (q'.runExclusive enqueueProxy heap [steered nic q' heap burst]) ch b ↔
      ((measured (heap b) (tags b)).udpDstPort = ep.2 →
        (ep.2 ≠ 0 ↔ (measured (heap b) (tags b)).ipv4DstAddr = ep.1 ∧ enqueueProxy ch = true)) := by
  have htable : c.tables j.view.sinks = [nullSink, (ep, some ch)] := by
    have htable := rss_table fqueues env ep ch
    rw [← hd, Device.table, SinkStore.table] at htable
    rw [htables, hheld, htable]
  have hset : Settled c j.view := by
    have hnull : NullFirst (c.tables j.view.sinks) := by
      rw [htable]
      exact ⟨nullSink, rfl, rfl⟩
    have hlen : (c.tables j.view.sinks).length ≤ 2 ^ 16 := by
      rw [htable, List.length_cons, List.length_singleton]
      omega
    refine ⟨Or.inl (hheld.trans hpublished.symm), ?_, hnull, hlen⟩
    have hsame : d.table = c.tables j.view.sinks := by rw [htables, hheld]; rfl
    rw [hsame] at hlast
    exact hlast.names hnull.pos
  have hrss := rss_delivers_iff j c ep ch hc hset htable heap arp tags burst hwf hle hhalf b hb
  have hflow := flow_delivers_iff q q' env.flow ep ch hreset enqueueProxy nic hnic heap tags burst hwf b hb
  have hep : (measured (heap b) (tags b)).udpEndpoint = ep ↔
      (measured (heap b) (tags b)).ipv4DstAddr = ep.1 ∧ (measured (heap b) (tags b)).udpDstPort = ep.2 :=
    Prod.ext_iff
  unfold SameDelivery
  simp only [hrss, hflow, hep, exists_and_left, exists_eq, and_true]
  constructor
  · rintro ⟨hiff, -⟩ hport
    simpa [hport] using hiff
  · intro hcond
    refine ⟨?_, ?_⟩
    · by_cases hport : (measured (heap b) (tags b)).udpDstPort = ep.2
      · simpa [hport] using hcond hport
      · simp [hport]
    · rintro m m' ⟨-, rfl⟩ ⟨-, rfl⟩
      exact ⟨rfl, rfl, rfl⟩

end Modes

/-! ## One packet to 239.1.1.1 -/

def exactNic (rule : FlowRule) (m : Mbuf) : Bool :=
  rule.matchesAt m (((List.range 29).find? fun i => !Mbuf.isTag (m.tagProto i)).getD 0)

theorem exactNic_exact (rule : FlowRule) (m : Mbuf) (k : ℕ) (h : UdpFrame m k) :
    exactNic rule m = rule.matchesAt m k := by
  have hroom := h.room
  have hfind : (List.range 29).find? (fun i => !Mbuf.isTag (m.tagProto i)) = some k := by
    rw [List.find?_range_eq_some]
    refine ⟨?_, List.mem_range.mpr (by omega), ?_⟩
    · rw [h.ether]
      decide
    · intro i hi
      simpa using h.tags i hi
  rw [exactNic, hfind, Option.getD_some]

def onlyDevice (ip : Be32) : Device :=
  ((Device.create []).attachRx Device.readyEnv (ip, rteBe16 0x1092) (some 7) .rss).1

def onlyCall (ip : Be32) : RxCall :=
  { sampleCall (fun _ _ => 0) with tables := (onlyDevice ip).store.tables, published := 1 }

def onlyJob : RxJob := RxJob.create 1 32 1001 (freshJob 32).buffers

def onlyQueue (ip : Be32) : FlowQueue := ⟨3, [makeUdpFlow 3 (ip, rteBe16 0x1092)], some 7⟩

theorem onlyQueue_reset (ip : Be32) :
    FlowQueue.reset ⟨3, [], none⟩ Device.readyEnv.flow (some 7) (ip, rteBe16 0x1092) =
      (onlyQueue ip, none) := rfl

theorem udpPacket_frame : UdpFrame (Mbuf.udpPacket 0x10 0x92) 0 where
  room := by decide
  tags := by simp
  ether := by decide
  version := by decide
  ihl := by decide
  proto := by decide
  whole := by decide
  dgram_min := by decide
  dgram_fits := by decide

theorem same_delivery_own_address :
    SameDelivery
      (onlyJob.process (onlyCall 0x010101EF) (fun _ => Mbuf.udpPacket 0x10 0x92) (fun _ => none) [0])
      ((onlyQueue 0x010101EF).runExclusive (fun _ => true) (fun _ => Mbuf.udpPacket 0x10 0x92)
        [steered exactNic (onlyQueue 0x010101EF) (fun _ => Mbuf.udpPacket 0x10 0x92) [0]]) 7 0 :=
  (same_delivery_iff [] Device.readyEnv (0x010101EF, rteBe16 0x1092) 7 (onlyDevice 0x010101EF) rfl onlyJob
    (onlyCall 0x010101EF) rfl rfl rfl (Or.inl rfl) (by simp [onlyCall, sampleCall]) ⟨3, [], none⟩
    (onlyQueue 0x010101EF) (onlyQueue_reset _) (fun _ => true) exactNic exactNic_exact
    (fun _ => Mbuf.udpPacket 0x10 0x92) (fun _ => none) (fun _ => 0) [0] (fun _ _ => udpPacket_frame)
    (by decide) (by decide) 0 (by simp)).mpr (fun _ => iff_of_true (by decide) ⟨by decide, rfl⟩)

theorem other_address_delivered :
    ¬ SameDelivery
      (onlyJob.process (onlyCall 0x020101EF) (fun _ => Mbuf.udpPacket 0x10 0x92) (fun _ => none) [0])
      ((onlyQueue 0x020101EF).runExclusive (fun _ => true) (fun _ => Mbuf.udpPacket 0x10 0x92)
        [steered exactNic (onlyQueue 0x020101EF) (fun _ => Mbuf.udpPacket 0x10 0x92) [0]]) 7 0 := by
  rintro ⟨hiff, -⟩
  have hset : Settled (onlyCall 0x020101EF) onlyJob.view :=
    ⟨Or.inl rfl, names_zero _ (by decide), ⟨nullSink, rfl, rfl⟩, by decide⟩
  have hrss := rss_delivers_iff onlyJob (onlyCall 0x020101EF) (0x020101EF, rteBe16 0x1092) 7
    (by simp [onlyCall, sampleCall]) hset rfl (fun _ => Mbuf.udpPacket 0x10 0x92) (fun _ => none)
    (fun _ => 0) [0] (fun _ _ => udpPacket_frame) (by decide) (by decide) 0 (by simp)
  have hflow := flow_delivers_iff ⟨3, [], none⟩ (onlyQueue 0x020101EF) Device.readyEnv.flow
    (0x020101EF, rteBe16 0x1092) 7 (onlyQueue_reset _) (fun _ => true) exactNic exactNic_exact
    (fun _ => Mbuf.udpPacket 0x10 0x92) (fun _ => 0) [0] (fun _ _ => udpPacket_frame) 0 (by simp)
  obtain ⟨m, hm⟩ := hiff.mp ⟨_, (hrss _).mpr ⟨⟨by decide, by decide⟩, rfl⟩⟩
  exact absurd ((hflow m).mp hm).1.1 (by decide)

end DpdkTools
