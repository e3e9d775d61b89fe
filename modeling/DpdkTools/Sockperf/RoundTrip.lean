import DpdkTools.Device.RxWellFormed
import DpdkTools.Sockperf.DeviceClock
import DpdkTools.Sockperf.Packets

/-! A packet of the performance test on its way to the peer and back.

The sender writes the lengths of four headers, each computed from the one inside it. On the way
back `update_l2size`, `rx_job::process` and `sockperf_channel::enqueue` each find their own header
again and check it against `data_len`. Both sides agree for every payload that fits. -/
namespace DpdkTools.Sockperf
set_option autoImplicit false

/-! ## The peer -/

/-- The `n` bytes at `x` and the `n` bytes at `y` exchanged. -/
def swapBytes (data : ℕ → UInt8) (x y n : ℕ) : ℕ → UInt8 := fun i =>
  if x ≤ i ∧ i < x + n then data (y + (i - x))
  else if y ≤ i ∧ i < y + n then data (x + (i - y))
  else data i

/-- MAC addresses, IP addresses and ports are exchanged, and a Ping may become a Pong. -/
def peerEcho (pong : Bool) (data : ℕ → UInt8) : ℕ → UInt8 :=
  let swapped := swapBytes (swapBytes (swapBytes data 0 6 6) 26 30 4) 34 36 2
  if pong then setMessageType swapped 42 .pong else swapped

theorem swapped_outside (data : ℕ → UInt8) (i : ℕ) (h : 12 ≤ i ∧ i < 26 ∨ 38 ≤ i) :
    swapBytes (swapBytes (swapBytes data 0 6 6) 26 30 4) 34 36 2 i = data i := by
  rw [swapBytes, if_neg (by omega), if_neg (by omega), swapBytes, if_neg (by omega),
    if_neg (by omega), swapBytes, if_neg (by omega), if_neg (by omega)]

theorem peerEcho_headers (pong : Bool) (data : ℕ → UInt8) (i : ℕ) (h42 : i < 42) :
    peerEcho pong data i = swapBytes (swapBytes (swapBytes data 0 6 6) 26 30 4) 34 36 2 i := by
  unfold peerEcho
  split_ifs
  · exact BigEndian.store_outside _ _ _ _ _ (by omega)
  · rfl

theorem peerEcho_dstPort (pong : Bool) (data : ℕ → UInt8) :
    loadBe16 (peerEcho pong data) 36 = loadBe16 data 34 := by
  have h36 : peerEcho pong data 36 = data 34 := by
    rw [peerEcho_headers pong data 36 (by omega)]
    rfl
  have h37 : peerEcho pong data 37 = data 35 := by
    rw [peerEcho_headers pong data 37 (by omega)]
    rfl
  rw [loadBe16, loadBe16, h36, h37]

/-- The echo of a packet of the test is one again, under the same number. -/
theorem TestPacket.echo {data : ℕ → UInt8} {payloadSize : ℕ} {v : SeqnT}
    (h : TestPacket data payloadSize v .ping) (pong : Bool) :
    TestPacket (peerEcho pong data) payloadSize v (if pong then .pong else .ping) where
  headers := by
    apply h.headers.congr
    intro i hi
    rw [peerEcho_headers pong data i (by omega), swapped_outside data i (by omega)]
  seqn := by
    have hswap := seqn_congr _ data 42 fun i _ _ => swapped_outside data i (by omega)
    unfold peerEcho
    split_ifs
    · rw [seqn_setMessageType, hswap, h.seqn]
    · rw [hswap, h.seqn]
  type := by
    have hswap := messageType_congr _ data 42 fun i _ _ => swapped_outside data i (by omega)
    unfold peerEcho
    split_ifs
    · rw [messageType_setMessageType]
    · rw [hswap, h.type]

theorem TestPacket.congr {data data' : ℕ → UInt8} {payloadSize : ℕ} {v : SeqnT}
    {type : MessageType} (h : TestPacket data payloadSize v type)
    (hsame : ∀ i < 42 + headerSize, i ≠ 40 → i ≠ 41 → data' i = data i) :
    TestPacket data' payloadSize v type where
  headers := by
    apply h.headers.congr
    intro i hi
    exact hsame i (by unfold headerSize; omega) (by omega) (by omega)
  seqn := by
    rw [← h.seqn]
    exact seqn_congr _ _ 42 fun i _ _ => hsame i (by unfold headerSize; omega) (by omega) (by omega)
  type := by
    rw [← h.type]
    exact messageType_congr _ _ 42 fun i _ _ =>
      hsame i (by unfold headerSize; omega) (by omega) (by omega)

/-! ## Back at the device -/

/-- A test packet with all its bytes is what the receive job takes for a datagram. -/
theorem TestPacket.udpFrame {m : Mbuf} {payloadSize : ℕ} {v : SeqnT} {type : MessageType}
    (h : TestPacket m.data payloadSize v type) (hmax : 42 + payloadSize ≤ 65535)
    (hlen : m.dataLen = 42 + payloadSize) : UdpFrame m 0 := by
  have hvhl : (m.data 14).toNat = 0x45 := by rw [h.headers.vhl]; rfl
  have hdgram : Mbuf.udpDgramLen { m with l2Len := 14 + 4 * 0 } = 8 + payloadSize := by
    have hoff : 14 + (m.data 14).toNat % 16 * 4 + 4 = 38 := by rw [hvhl]
    simp only [Mbuf.udpDgramLen, Mbuf.ipv4HdrLen, Nat.mul_zero, Nat.add_zero, hoff]
    rw [h.headers.dgram_len, rteCpuToBe16, rteBeToCpu16_rteBe16, UInt16.toNat_ofNat', sizeofUdpHdr,
      Nat.mod_eq_of_lt (by omega)]
  constructor
  · omega
  · exact fun i hi => absurd hi (Nat.not_lt_zero i)
  · exact h.headers.ether
  · rw [Nat.mul_zero, Nat.add_zero, hvhl]
  · rw [Nat.mul_zero, Nat.add_zero, hvhl]
  · exact h.headers.proto
  · rw [show 14 + 4 * 0 + 6 = 20 by omega, h.headers.whole]
    rfl
  · rw [hdgram, sizeofUdpHdr]
    omega
  · rw [hdgram, Nat.mul_zero, Nat.add_zero, hvhl, hlen]
    omega

theorem TestPacket.ipv4HdrLen_measured {m : Mbuf} {payloadSize : ℕ} {v : SeqnT}
    {type : MessageType} (h : TestPacket m.data payloadSize v type) :
    (measured m 0).ipv4HdrLen = 20 := by
  have hvhl : m.data 14 = rteIpv4VhlDef := h.headers.vhl
  simp only [Mbuf.ipv4HdrLen, measured, Nat.mul_zero, Nat.add_zero, hvhl]
  rfl

/-- What `enqueue` sees of a test packet whose header lengths are set. -/
theorem TestPacket.message {m : Mbuf} {payloadSize : ℕ} {v : SeqnT} {type : MessageType}
    (h : TestPacket m.data payloadSize v type) (hmin : headerSize ≤ payloadSize)
    (hlen : m.dataLen = 42 + payloadSize) (hv : isWarmup v = false)
    (htype : type = .ping ∨ type = .pong) (e : EnqueueCall) (b : MbufPtr)
    (heb : e.heap b = (measured m 0).setUdpLens) :
    isData (e, b) = true ∧ msgHeaderSize (e.heap b) = 42 ∧ (e.heap b).data = m.data ∧
      (e.heap b).dataLen = 42 + payloadSize := by
  have hmsg : msgHeaderSize (e.heap b) = 42 := by
    have hlens : msgHeaderSize (measured m 0).setUdpLens = 14 + (measured m 0).ipv4HdrLen + 8 := rfl
    rw [heb, hlens, h.ipv4HdrLen_measured]
  have hbytes : (e.heap b).data = m.data := by rw [heb]; rfl
  have hsize : (e.heap b).dataLen = 42 + payloadSize := by rw [heb, ← hlen]; rfl
  refine ⟨(isData_iff (e, b)).mpr ⟨?_, ?_, ?_⟩, hmsg, hbytes, hsize⟩
  · rw [hmsg, hsize]
    exact Nat.add_le_add_left hmin 42
  · rw [hmsg, hbytes, h.type]
    exact htype
  · rw [hmsg, hbytes, h.seqn, hv]

/-- A datagram for the port of a channel reaches that channel, whatever else is in the burst. -/
theorem frame_delivered (j : RxJob) (c : RxCall) (hc : ∀ ch bs, c.enqueue ch bs ≤ bs.length)
    (hset : Settled c (j.view.tryReloadSinks c.published).1) (heap : MbufHeap) (arp : ArpTable)
    (burst : List MbufPtr) (hends : TagsEnd heap burst) (hle : burst.length ≤ j.burstSize)
    (hhalf : burst.length ≤ maxPktBurst) (b : MbufPtr) (hb : b ∈ burst) (k : ℕ)
    (hf : UdpFrame (heap b) k) (ch : ChannelPtr)
    (hch : channelOf (c.tables (j.view.tryReloadSinks c.published).1.sinks)
      (measured (heap b) k).udpDstPort = some ch) :
    ∃ o bs, j.process c heap arp burst = some o ∧ RxAction.enqueue ch bs ∈ o.actions ∧ b ∈ bs ∧
      o.heap b = (measured (heap b) k).setUdpLens := by
  obtain ⟨heap', hl2⟩ := (updateL2sizes_isSome heap burst).mpr hends
  have hheap : heap' b = measured (heap b) k := by
    have hmem := updateL2sizes_mem heap heap' burst hl2 b hb
    rw [hf.updateL2size_eq] at hmem
    exact (Option.some.inj hmem).symm
  obtain ⟨v, hv, _, _⟩ := verdicts_fresh c heap' burst _ hset
  have hroom : burst.length + (deferred (burst.map fun b =>
      (b, verdictOf (c.tables (j.view.tryReloadSinks c.published).1.sinks) (heap' b)))).length ≤
        2 * maxPktBurst := by
    rw [deferred_fresh]
    have hrem : (remaining (c.tables (j.view.tryReloadSinks c.published).1.sinks) heap' burst).length ≤
        burst.length := List.length_filter_le ..
    omega
  have hproc := process_spec j c heap heap' arp burst (List.ne_nil_of_mem hb) hle hl2 hc
  rw [hv, Option.bind_some, if_pos hroom] at hproc
  have hfor : (ch, b) ∈ forChannels (c.tables (j.view.tryReloadSinks c.published).1.sinks) heap'
      burst := by
    rw [mem_forChannels, hheap, hf.udpChannel_measured]
    exact ⟨hb, hch⟩
  have hhanded : (ch, b) ∈ handed (settle c heap' arp j.burstSize burst.length v (burst.map fun b =>
      (b, verdictOf (c.tables (j.view.tryReloadSinks c.published).1.sinks) (heap' b)))).actions := by
    rw [(handed_settle c heap' arp j.burstSize burst.length v _).1, delivered_fresh]
    exact hfor
  obtain ⟨act, hact, hin⟩ := List.mem_flatMap.mp hhanded
  cases act with
  | enqueue ch' bs =>
    obtain ⟨b', hb', heq⟩ := List.mem_map.mp hin
    obtain ⟨rfl, rfl⟩ := Prod.mk.inj heq
    refine ⟨_, bs, hproc, hact, hb', ?_⟩
    rw [settle_heap, delivered_fresh, udpHeap, if_pos (List.mem_map.mpr ⟨_, hfor, rfl⟩), hheap]
  | free x => exact absurd hin List.not_mem_nil
  | freeBulk bs => exact absurd hin List.not_mem_nil

/-! ## In the table -/

/-- `enqueue` comes to the mbuf `b` behind `pre`, takes a slot for it and leaves the number and the
size there. -/
def Records (s : Channel) (e : EnqueueCall) (pre : List MbufPtr) (b : MbufPtr) (v : SeqnT)
    (size : ℕ) : Prop :=
  pre ++ [b] <+: e.buffers ∧ ∃ (ix : UInt64) (before : List Effect) (s' : Channel),
    s.receiveAll e (pre ++ [b]) = some (s', before ++ [.slot ix]) ∧
      (s'.stats.memory ix.toNat).seqn = v ∧ (s'.stats.memory ix.toNat).size.toNat = size

theorem slot_self (s : Statistics) (info : PacketInfo) :
    (s.slot info).memory s.slotIx.toNat = info :=
  Function.update_self ..

/-- A message with room for it is recorded unless one of the data messages up to it brings a timestamp
to a device without a frequency. -/
theorem enqueue_records_iff (s : Channel) (e : EnqueueCall) (pre post : List MbufPtr) (b : MbufPtr)
    (hbuf : e.buffers = pre ++ b :: post) (hdata : isData (e, b) = true)
    (hroom : s.stats.nextSlot.toNat + Channel.dataCount (pre.map (e, ·)) < s.packets2send.toNat)
    (hsize : (e.heap b).dataLen < 2 ^ 16) :
    Records s e pre b (seqn (e.heap b).data (msgHeaderSize (e.heap b))) (e.heap b).dataLen ↔
      s.clockHz ≠ 0 ∨ ∀ x ∈ pre ++ [b], isData (e, x) = true → e.timestamp x = none := by
  have hle : s.Within := by rw [Channel.Within]; omega
  have hslotted : s.slotted ((pre ++ [b]).map (e, ·)) = ((pre ++ [b]).map (e, ·)).filter isData := by
    apply List.take_of_length_le
    rw [List.map_append, List.filter_append, List.length_append, ← List.countP_eq_length_filter,
      List.map_singleton, List.filter_cons_of_pos hdata, List.filter_nil, List.length_singleton]
    rw [Channel.dataCount] at hroom
    omega
  have hdefined := s.receiveMessages_isSome hle ((pre ++ [b]).map (e, ·))
  rw [← Channel.receiveAll_eq, hslotted] at hdefined
  have hnone : (∀ x ∈ ((pre ++ [b]).map (e, ·)).filter isData, x.1.timestamp x.2 = none) ↔
      ∀ x ∈ pre ++ [b], isData (e, x) = true → e.timestamp x = none := by
    simp only [List.mem_filter, and_imp, List.forall_mem_map]
  rw [hnone] at hdefined
  rw [← hdefined]
  constructor
  · rintro ⟨-, ix, before, s', hall, -, -⟩
    exact Option.isSome_iff_exists.mpr ⟨_, hall⟩
  · intro h
    obtain ⟨out, hout⟩ := Option.isSome_iff_exists.mp h
    have hall := hout
    rw [Channel.receiveAll_eq, List.map_append] at hall
    obtain ⟨mid, last, hmid, hlast, rfl⟩ := (s.receiveMessages_append _ _ out).mp hall
    obtain ⟨⟨s', effect⟩, rest, hfirst, hrest, rfl⟩ :=
      (mid.1.receiveMessages_cons (e, b) [] last).mp hlast
    obtain rfl := Option.some.inj hrest
    obtain ⟨hp, -, -, -, hn⟩ := s.receiveMessages_counts hle _ mid hmid
    have hreceives := Channel.receive_receives mid.1 (e, b) _ hfirst
    cases hreceives with
    | ignored hd => exact absurd (hdata.symm.trans hd) (by decide)
    | warmup hd => exact absurd (hdata.symm.trans hd) (by decide)
    | stopJobs hd hfull =>
      have hcount : mid.1.stats.nextSlot.toNat = mid.1.packets2send.toNat :=
        congrArg UInt64.toNat hfull
      rw [hn, hp] at hcount
      omega
    | slot info hd hopen hinfo =>
      obtain ⟨hseqn, -, hlen⟩ := Channel.packetInfo_fields e mid.1.clockHz b info hinfo
      refine ⟨⟨post, ?_⟩, mid.1.stats.slotIx, mid.2, _, hout, ?_, ?_⟩
      · rw [hbuf, List.append_assoc, List.singleton_append]
      · change ((mid.1.stats.slot info).memory _).seqn = _
        rw [slot_self, hseqn]
      · change ((mid.1.stats.slot info).memory _).size.toNat = _
        rw [slot_self, hlen, UInt16.toNat_ofNat', Nat.mod_eq_of_lt hsize]

/-! ## There and back -/

/-- A packet of the test reaches the channel of its source port, however large it is and wherever it
was sent. The channel records it, under its number and with its size, exactly when the clock has a
frequency or no data message up to it has a timestamp. The checksum the peer has computed and the
bytes behind the packet may be anything. -/
theorem round_trip_iff (device : TxDevice) (cksums : Checksums) (payloadSize : ℕ)
    (dest : Be32 × EtherAddr) (dstPort : Be16) (timeToLive : UInt8)
    (hmin : headerSize ≤ payloadSize) (hmax : 42 + payloadSize ≤ 65535)
    (pool pool' : MbufHeap) (buffers : List MbufPtr) (n olFlags : ℕ)
    (hconf : configureSockperfPacketPool device cksums payloadSize dest dstPort timeToLive pool
      (some buffers) = .ok (pool', n, olFlags))
    (buffer : MbufPtr) (hbuffer : buffer ∈ buffers) (v : SeqnT) (hv : isWarmup v = false)
    (pong : Bool) (heap : MbufHeap) (b : MbufPtr)
    (hlen : (heap b).dataLen = 42 + payloadSize)
    (hdata : ∀ i < 42 + payloadSize, i ≠ 40 → i ≠ 41 → (heap b).data i =
      peerEcho pong (preparePacket cksums v .ping (pool' buffer) olFlags payloadSize).data i)
    (j : RxJob) (c : RxCall) (hc : ∀ ch bs, c.enqueue ch bs ≤ bs.length)
    (hset : Settled c (j.view.tryReloadSinks c.published).1) (arp : ArpTable)
    (burst : List MbufPtr) (hb : b ∈ burst)
    (hothers : ∀ x ∈ burst, x ≠ b → (heap x).updateL2size ≠ none)
    (hle : burst.length ≤ j.burstSize) (hhalf : burst.length ≤ maxPktBurst) (ch : ChannelPtr)
    (hch : channelOf (c.tables (j.view.tryReloadSinks c.published).1.sinks)
      (rteBe16 device.srcPort) = some ch) :
    ∃ o bs, j.process c heap arp burst = some o ∧ RxAction.enqueue ch bs ∈ o.actions ∧ b ∈ bs ∧
      ∀ (s : Channel) (e : EnqueueCall) (pre post : List MbufPtr), e.heap b = o.heap b →
        e.buffers = pre ++ b :: post →
        s.stats.nextSlot.toNat + Channel.dataCount (pre.map (e, ·)) < s.packets2send.toNat →
        (Records s e pre b v (42 + payloadSize) ↔
          s.clockHz ≠ 0 ∨ ∀ x ∈ pre ++ [b], isData (e, x) = true → e.timestamp x = none) := by
  have hsent := prepared_packet device cksums payloadSize dest dstPort timeToLive pool pool' buffers
    n olFlags hconf (by omega) buffer hbuffer v .ping
  have hecho := hsent.1.echo pong
  have hback : TestPacket (heap b).data payloadSize v (if pong then .pong else .ping) := by
    apply hecho.congr
    intro i hi
    exact hdata i (by omega)
  have hframe : UdpFrame (heap b) 0 := hback.udpFrame hmax hlen
  have hport : (measured (heap b) 0).udpDstPort = rteBe16 device.srcPort := by
    rw [Mbuf.udpDstPort, hback.ipv4HdrLen_measured, ← hsent.2, ← peerEcho_dstPort pong]
    exact loadBe16_congr _ _ 36 (hdata 36 (by omega) (by omega) (by omega))
      (hdata 37 (by omega) (by omega) (by omega))
  have hends : TagsEnd heap burst := by
    intro x hx
    by_cases hxb : x = b
    · rw [hxb, hframe.updateL2size_eq]
      exact Option.some_ne_none _
    · exact hothers x hx hxb
  obtain ⟨o, bs, hproc, hact, hin, hheap⟩ := frame_delivered j c hc hset heap arp burst hends hle
    hhalf b hb 0 hframe ch (by rw [hport]; exact hch)
  refine ⟨o, bs, hproc, hact, hin, ?_⟩
  intro s e pre post heb hbuf hroom
  rw [hheap] at heb
  obtain ⟨hdata, hmsg, hbytes, hsize⟩ := hback.message hmin hlen hv (by cases pong <;> simp) e b heb
  have hrecord := enqueue_records_iff s e pre post b hbuf hdata hroom (by omega)
  rw [hmsg, hbytes, hback.seqn, hsize] at hrecord
  exact hrecord

/-! One packet of 14 bytes of payload to 10.0.0.2 and back as a Pong, with the channel at port
49152. -/

def testDevice : TxDevice := ⟨Vector.replicate 6 1, 0x0100000A, 49152, false, false⟩

def zeroCksums : Checksums := ⟨fun _ _ => 0, fun _ _ _ => 0, fun _ _ _ => 0, fun _ _ _ => 0⟩

def testPool : MbufHeap := fun _ =>
  { zeroBuffer with
    data := copyData (packetImage testDevice zeroCksums 14 (0x0200000A, Vector.replicate 6 2)
      (rteBe16 11111) 64).data 56 fun _ => 0 }

def returned : Mbuf :=
  { data := peerEcho true (preparePacket zeroCksums 7 .ping (testPool 0) 0 14).data, dataLen := 56 }

theorem round_trip_iff_seven :
    ∃ o bs, cachedJob.process (portCall (rteBe16 49152)) (fun _ => returned) (fun _ => none) [0] =
        some o ∧ RxAction.enqueue 7 bs ∈ o.actions ∧ 0 ∈ bs ∧
      Records (.create 1 1 1000 true fun _ => ⟨0, 0, 0, 0⟩)
        { enqueued := 100, timestamp := fun _ => some 5, heap := o.heap, buffers := [0] } [] 0 7 56 := by
  obtain ⟨o, bs, hproc, hact, hin, hrecords⟩ :=
    round_trip_iff testDevice zeroCksums 14 (0x0200000A, Vector.replicate 6 2) (rteBe16 11111) 64
      (by decide) (by decide) (fun _ => zeroBuffer)
      (fun b => if b ∈ [0] then testPool b else zeroBuffer) [0] 1 0 rfl 0 (by decide) 7 (by decide) true
      (fun _ => returned) 0 rfl (fun _ _ _ _ => rfl) cachedJob (portCall (rteBe16 49152))
      (by simp [portCall])
      ⟨Or.inl rfl, ⟨_, rfl, rfl⟩, ⟨_, rfl, rfl⟩, by decide⟩ (fun _ => none) [0] (by decide)
      (by simp) (by decide) (by decide) 7 rfl
  refine ⟨o, bs, hproc, hact, hin, (hrecords _ _ [] [] rfl rfl ?_).mpr (.inl (by decide))⟩
  exact Nat.zero_lt_one

/-- The same packet with a timestamp of the NIC. -/
def stampedReturn : Mbuf := { returned with olFlags := 2 ^ 23 }

theorem stampedReturn_testPacket : TestPacket stampedReturn.data 14 7 .pong :=
  ((prepared_packet testDevice zeroCksums 14 (0x0200000A, Vector.replicate 6 2) (rteBe16 11111) 64
    (fun _ => zeroBuffer) (fun b => if b ∈ [0] then testPool b else zeroBuffer) [0] 1 0 rfl (by decide) 0
    (by decide) 7 .ping).1).echo true

/-- On a device without a frequency it is delivered, and not recorded. -/
theorem round_trip_clockless : ∃ config d o bs,
    Config.deviceConfiguration Config.cksumFlags clocklessOption Config.igcPort = .ok config ∧
      Config.makeDevice Config.igcHost stampingEth config = .ok d ∧ d.clockHz = 0 ∧
      cachedJob.process (portCall (rteBe16 49152)) (fun _ => stampedReturn) (fun _ => none) [0] =
        some o ∧ RxAction.enqueue 7 bs ∈ o.actions ∧ 0 ∈ bs ∧
      ¬ Records (.create 1 1 d.clockHz true fun _ => ⟨0, 0, 0, 0⟩)
        (RxBurst.call d ⟨100, o.heap, fun _ => 5, [0]⟩) [] 0 7 56 := by
  obtain ⟨config, d, hconfig, hd, hz, hstamp⟩ := clockless_device
  have hframe : UdpFrame stampedReturn 0 := stampedReturn_testPacket.udpFrame (by decide) rfl
  obtain ⟨o, bs, hproc, hact, hin, hheap⟩ := frame_delivered cachedJob (portCall (rteBe16 49152))
    (by simp [portCall]) ⟨Or.inl rfl, ⟨_, rfl, rfl⟩, ⟨_, rfl, rfl⟩, by decide⟩
    (fun _ => stampedReturn) (fun _ => none) [0]
    (fun _ _ => hframe.updateL2size_eq ▸ Option.some_ne_none _) (by decide) (by decide) 0 (by decide)
    0 hframe 7 rfl
  refine ⟨config, d, o, bs, hconfig, hd, hz, hproc, hact, hin, ?_⟩
  obtain ⟨hdata, hmsg, hbytes, hsize⟩ := stampedReturn_testPacket.message (by decide) rfl (by decide)
    (.inr rfl) (RxBurst.call d ⟨100, o.heap, fun _ => 5, [0]⟩) 0 hheap
  have hrecords := enqueue_records_iff (.create 1 1 d.clockHz true fun _ => ⟨0, 0, 0, 0⟩)
    (RxBurst.call d ⟨100, o.heap, fun _ => 5, [0]⟩) [] [] 0 rfl hdata Nat.zero_lt_one (by omega)
  rw [hmsg, hbytes, stampedReturn_testPacket.seqn, hsize] at hrecords
  rw [hrecords]
  rintro (hne | hnone)
  · exact hne hz
  · have hts := hnone 0 (List.mem_singleton_self 0) hdata
    have hflags : (o.heap 0).olFlags = 2 ^ 23 := by rw [hheap]; rfl
    exact absurd ((hstamp (o.heap 0) 5 hflags).symm.trans hts) (Option.some_ne_none _)

end DpdkTools.Sockperf
