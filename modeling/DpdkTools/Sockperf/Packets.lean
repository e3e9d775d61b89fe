import DpdkTools.Device.RxPackets
import DpdkTools.Net.MakeUdp
import DpdkTools.Sockperf.Header

/-! The packets of the performance test (`sockperf_cli/utils.cpp`).

`configure_sockperf_packet_pool` builds one packet and copies it into every mbuf of the pool; for
each packet sent, `prepare_packet` then only writes the number, the type and the checksum. The
four checksum functions are parameters. -/
namespace DpdkTools.Sockperf
set_option autoImplicit false

/-- An `rte_ether_addr`. -/
abbrev EtherAddr := Vector UInt8 6

/-- The checksum functions of the packet library. A header is named by its offset in the data. -/
structure Checksums where
  rteIpv4Cksum : (ℕ → UInt8) → ℕ → Be16
  rteIpv4PhdrCksum : (ℕ → UInt8) → ℕ → ℕ → Be16
  rteIpv4UdptcpCksum : (ℕ → UInt8) → ℕ → ℕ → Be16
  rteIpv4UdptcpCksumMbuf : Mbuf → ℕ → ℕ → Be16

/-- What the pool is configured with from the device: `srcPort` is what `next_src_port` returned,
the flags say which checksums the NIC computes. -/
structure TxDevice where
  macAddr : EtherAddr
  ip4Addr : Be32
  srcPort : UInt16
  ipv4CksumOffload : Bool
  udpCksumOffload : Bool

/-- `RTE_MBUF_F_TX_UDP_CKSUM`. -/
def txUdpCksumFlag : ℕ := 3 * 2 ^ 52

def TxDevice.olFlags (device : TxDevice) : ℕ :=
  (if device.ipv4CksumOffload then txIpv4CksumFlags else 0) |||
    (if device.udpCksumOffload then txUdpCksumFlag else 0)

/-- A zeroed `fake_buffer`. -/
def zeroBuffer : Mbuf := { data := fun _ => 0, dataLen := 0 }

section Configure
variable (device : TxDevice) (cksums : Checksums) (payloadSize : ℕ) (dest : Be32 × EtherAddr)
  (dstPort : Be16) (timeToLive : UInt8)

/-- The addresses and ports, written into what `make_udp` has built. -/
def addressed : Mbuf :=
  let buffer := makeUdp zeroBuffer payloadSize
  let ip4hdr := buffer.l2Len
  let udphdr := buffer.l2Len + buffer.l3Len
  let data := storeBytes buffer.data 6 device.macAddr.toList
  let data := storeBytes data 0 dest.2.toList
  let data := storeBe32 data (ip4hdr + 12) device.ip4Addr
  let data := storeBe32 data (ip4hdr + 16) dest.1
  let data := storeBytes data (ip4hdr + 8) [timeToLive]
  let data := storeBe16 data (udphdr + 2) dstPort
  { buffer with data := storeBe16 data udphdr (rteBe16 device.srcPort) }

/-- `fake_buffer`, as it is copied into the pool. -/
def packetImage : Mbuf :=
  let buffer := addressed device payloadSize dest dstPort timeToLive
  let ip4hdr := buffer.l2Len
  let udphdr := buffer.l2Len + buffer.l3Len
  let payload := buffer.l2Len + buffer.l3Len + buffer.l4Len
  let data :=
    if device.ipv4CksumOffload then buffer.data
    else storeBe16 buffer.data (ip4hdr + 10) (cksums.rteIpv4Cksum buffer.data ip4hdr)
  let cksum :=
    if device.udpCksumOffload then cksums.rteIpv4PhdrCksum data ip4hdr device.olFlags
    else cksums.rteIpv4UdptcpCksumMbuf { buffer with data := data } ip4hdr udphdr
  let data := storeBe16 data (udphdr + 6) cksum
  let data := setMessageType (setSeqn data payload 0) payload .ping
  { buffer with data := setMessageSize data payload (UInt32.ofNat payloadSize) }

/-- `memcpy` of the first `n` bytes. -/
def copyData (src : ℕ → UInt8) (n : ℕ) (dst : ℕ → UInt8) : ℕ → UInt8 :=
  fun i => if i < n then src i else dst i

/-- `configure_sockperf_packet_pool`: the mbufs of the pool as they go back to it, their number and
the offload flags. `buffers` is what `rte_pktmbuf_alloc_bulk` answers. -/
def configureSockperfPacketPool (heap : MbufHeap) (buffers : Option (List MbufPtr)) :
    Except String (MbufHeap × ℕ × ℕ) :=
  let image := packetImage device cksums payloadSize dest dstPort timeToLive
  let packetSize := (image.l2Len + image.l3Len + image.l4Len + payloadSize) % 2 ^ 64
  match buffers with
  | none => .error "rte_pktmbuf_alloc_bulk failed"
  | some bs => .ok (fun b =>
      if b ∈ bs then { heap b with data := copyData image.data packetSize (heap b).data }
      else heap b, bs.length, device.olFlags)

end Configure

def preparePacketHeaders (buffer : Mbuf) (olFlags payloadSize : ℕ) : Mbuf :=
  { buffer with
    l2Len := sizeofEtherHdr
    l3Len := sizeofIpv4Hdr
    l4Len := sizeofUdpHdr
    dataLen := (sizeofEtherHdr + sizeofIpv4Hdr + sizeofUdpHdr + payloadSize) % 2 ^ 16
    olFlags := olFlags }

def preparePacket (cksums : Checksums) (seqn : SeqnT) (type : MessageType) (buffer : Mbuf)
    (olFlags payloadSize : ℕ) : Mbuf :=
  let buffer := preparePacketHeaders buffer olFlags payloadSize
  let ip4hdr := buffer.l2Len
  let udphdr := buffer.l2Len + buffer.l3Len
  let payload := buffer.l2Len + buffer.l3Len + buffer.l4Len
  let data := setMessageType (setSeqn buffer.data payload seqn) payload type
  let data := storeBe16 data (udphdr + 6) 0
  let cksum :=
    if buffer.olFlags &&& txUdpCksumFlag = txUdpCksumFlag then
      cksums.rteIpv4PhdrCksum data ip4hdr olFlags
    else cksums.rteIpv4UdptcpCksum data ip4hdr udphdr
  { buffer with data := storeBe16 data (udphdr + 6) cksum }

/-! ## What the layers have written -/

theorem addressed_outside (device : TxDevice) (payloadSize : ℕ) (dest : Be32 × EtherAddr)
    (dstPort : Be16) (timeToLive : UInt8) (i : ℕ) (h : 12 ≤ i ∧ i < 22 ∨ i = 23 ∨ 38 ≤ i) :
    (addressed device payloadSize dest dstPort timeToLive).data i =
      (makeUdp zeroBuffer payloadSize).data i := by
  have hl2 : (makeUdp zeroBuffer payloadSize).l2Len = 14 := rfl
  have hl3 : (makeUdp zeroBuffer payloadSize).l3Len = 20 := rfl
  simp only [addressed, storeBe16, storeBe32, hl2, hl3]
  iterate 7 rw [storeBytes_outside _ _ _ _ (by simp; omega)]

theorem addressed_srcPort (device : TxDevice) (payloadSize : ℕ) (dest : Be32 × EtherAddr)
    (dstPort : Be16) (timeToLive : UInt8) :
    loadBe16 (addressed device payloadSize dest dstPort timeToLive).data 34 =
      rteBe16 device.srcPort :=
  loadBe16_storeBe16 _ 34 _

/-- Behind the addresses only the two checksums and the message are written. -/
theorem packetImage_outside (device : TxDevice) (cksums : Checksums) (payloadSize : ℕ)
    (dest : Be32 × EtherAddr) (dstPort : Be16) (timeToLive : UInt8) (i : ℕ) (h42 : i < 42)
    (h : i < 24 ∨ 26 ≤ i ∧ i < 40) :
    (packetImage device cksums payloadSize dest dstPort timeToLive).data i =
      (addressed device payloadSize dest dstPort timeToLive).data i := by
  have hl2 : (addressed device payloadSize dest dstPort timeToLive).l2Len = 14 := rfl
  have hl3 : (addressed device payloadSize dest dstPort timeToLive).l3Len = 20 := rfl
  have hl4 : (addressed device payloadSize dest dstPort timeToLive).l4Len = 8 := rfl
  simp only [packetImage, setMessageSize, setMessageType, setSeqn, hl2, hl3, hl4]
  rw [BigEndian.store_outside _ _ _ _ _ (by omega), BigEndian.store_outside _ _ _ _ _ (by omega),
    BigEndian.store_outside _ _ _ _ _ (by omega), storeBe16,
    storeBytes_outside _ _ _ _ (by simp; omega)]
  split_ifs
  · rfl
  · exact storeBytes_outside _ _ _ _ (by simp; omega)

/-- A packet that was prepared in an mbuf of the pool. -/
theorem preparePacket_outside (cksums : Checksums) (seqn : SeqnT) (type : MessageType) (buffer : Mbuf)
    (olFlags payloadSize i : ℕ) (h : i < 40) :
    (preparePacket cksums seqn type buffer olFlags payloadSize).data i = buffer.data i := by
  have hl2 : (preparePacketHeaders buffer olFlags payloadSize).l2Len = 14 := rfl
  have hl3 : (preparePacketHeaders buffer olFlags payloadSize).l3Len = 20 := rfl
  have hl4 : (preparePacketHeaders buffer olFlags payloadSize).l4Len = 8 := rfl
  simp only [preparePacket, setMessageType, setSeqn, storeBe16, hl2, hl3, hl4]
  rw [storeBytes_outside _ _ _ _ (by simp; omega), storeBytes_outside _ _ _ _ (by simp; omega),
    BigEndian.store_outside _ _ _ _ _ (by omega), BigEndian.store_outside _ _ _ _ _ (by omega)]
  rfl

theorem preparePacket_message (cksums : Checksums) (seqn : SeqnT) (type : MessageType) (buffer : Mbuf)
    (olFlags payloadSize i : ℕ) (h : 42 ≤ i) :
    (preparePacket cksums seqn type buffer olFlags payloadSize).data i =
      setMessageType (setSeqn buffer.data 42 seqn) 42 type i := by
  have hl2 : (preparePacketHeaders buffer olFlags payloadSize).l2Len = 14 := rfl
  have hl3 : (preparePacketHeaders buffer olFlags payloadSize).l3Len = 20 := rfl
  have hl4 : (preparePacketHeaders buffer olFlags payloadSize).l4Len = 8 := rfl
  simp only [preparePacket, storeBe16, hl2, hl3, hl4]
  rw [storeBytes_outside _ _ _ _ (by simp; omega), storeBytes_outside _ _ _ _ (by simp; omega)]
  rfl

/-! ## Packets on the wire -/

/-- A packet of the test, up to its addresses, its checksums and the bytes behind the header. -/
structure TestPacket (data : ℕ → UInt8) (payloadSize : ℕ) (seqn : SeqnT) (type : MessageType) :
    Prop where
  headers : UdpHeaders data payloadSize
  seqn : Sockperf.seqn data 42 = seqn
  type : messageType data 42 = type

theorem seqn_congr (data data' : ℕ → UInt8) (off : ℕ)
    (h : ∀ i, off ≤ i → i < off + 8 → data i = data' i) : seqn data off = seqn data' off := by
  rw [seqn, seqn, BigEndian.load_congr data data' off 8 h]

theorem messageType_congr (data data' : ℕ → UInt8) (off : ℕ)
    (h : ∀ i, off + 8 ≤ i → i < off + 10 → data i = data' i) :
    messageType data off = messageType data' off := by
  rw [messageType, messageType, BigEndian.load_congr data data' (off + 8) 2 h]

/-- Whatever mbuf of the pool it is prepared in, a packet is one of the test. -/
theorem prepared_packet (device : TxDevice) (cksums : Checksums) (payloadSize : ℕ)
    (dest : Be32 × EtherAddr) (dstPort : Be16) (timeToLive : UInt8) (heap heap' : MbufHeap)
    (bs : List MbufPtr) (n olFlags : ℕ)
    (hconf : configureSockperfPacketPool device cksums payloadSize dest dstPort timeToLive heap
      (some bs) = .ok (heap', n, olFlags)) (hmax : 42 + payloadSize < 2 ^ 64)
    (buffer : MbufPtr) (hb : buffer ∈ bs) (v : SeqnT) (type : MessageType) :
    TestPacket (preparePacket cksums v type (heap' buffer) olFlags payloadSize).data payloadSize v
        type ∧
      loadBe16 (preparePacket cksums v type (heap' buffer) olFlags payloadSize).data 34 =
        rteBe16 device.srcPort := by
  have hheap : ∀ i < 42, (heap' buffer).data i =
      (packetImage device cksums payloadSize dest dstPort timeToLive).data i := by
    intro i hi
    have hsize : i < (14 + 20 + 8 + payloadSize) % 2 ^ 64 := by omega
    obtain ⟨rfl, _⟩ := Prod.mk.inj (Except.ok.inj hconf)
    simp only [hb, if_true, copyData]
    exact if_pos hsize
  have himage : ∀ i < 40, i < 24 ∨ 26 ≤ i →
      (preparePacket cksums v type (heap' buffer) olFlags payloadSize).data i =
        (addressed device payloadSize dest dstPort timeToLive).data i := by
    intro i hi hck
    rw [preparePacket_outside _ _ _ _ _ _ i hi, hheap i (by omega),
      packetImage_outside _ _ _ _ _ _ i (by omega) (by omega)]
  refine ⟨⟨?_, ?_, ?_⟩, ?_⟩
  · apply (makeUdp_headers zeroBuffer payloadSize).congr
    intro i hi
    rw [himage i (by omega) (by omega), addressed_outside _ _ _ _ _ i (by omega)]
  · rw [seqn_congr _ _ 42 fun i hlo _ => preparePacket_message _ _ _ _ _ _ i hlo,
      seqn_setMessageType, seqn_setSeqn]
  · rw [messageType_congr _ _ 42 fun i hlo _ => preparePacket_message _ _ _ _ _ _ i (by omega),
      messageType_setMessageType]
  · rw [loadBe16_congr _ _ 34 (himage 34 (by omega) (by omega)) (himage 35 (by omega) (by omega)),
      addressed_srcPort]

end DpdkTools.Sockperf
