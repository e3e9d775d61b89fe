import DpdkTools.Device.UdpLengths
import DpdkTools.Sockperf.RoundTrip

/-! A datagram on its way from `updtx_channel::send` to the channel that is attached at the other end.

The NIC of the sender puts the segments of the chain behind each other and may fill in the two
checksums. What arrives is one mbuf, padded perhaps. The receive job finds the datagram in it again. -/
namespace DpdkTools
open Chain Sockperf
set_option autoImplicit false

/-! ## On the wire -/

def wireBytes (heap : SegmentHeap) (chain : List MbufPtr) : List UInt8 :=
  chain.flatMap fun p => (heap p).bytes

/-- A byte of the checksum of the IPv4 header or of the datagram. -/
def CksumByte (i : ℕ) : Prop := 24 ≤ i ∧ i < 26 ∨ 40 ≤ i ∧ i < 42

/-- The mbuf holds the bytes, but for the checksums, and perhaps more behind them. -/
structure Arrives (bytes : List UInt8) (m : Mbuf) : Prop where
  long : bytes.length ≤ m.dataLen
  same : ∀ i < bytes.length, ¬ CksumByte i → m.data i = bytes.getD i 0

theorem loadBytes_eq_slice (data : ℕ → UInt8) (bytes : List UInt8) (off len : ℕ)
    (hlen : off + len ≤ bytes.length) (h : ∀ i < len, data (off + i) = bytes.getD (off + i) 0) :
    loadBytes data off len = (bytes.drop off).take len := by
  apply List.ext_getElem
  · simp only [loadBytes, List.length_map, List.length_range, List.length_take, List.length_drop]
    omega
  · intro i hi _
    have hi' : i < len := by simpa [loadBytes] using hi
    simp only [loadBytes, List.getElem_map, List.getElem_range, List.getElem_take, List.getElem_drop]
    rw [h i hi', List.getD_eq_getElem _ _ (by omega)]

theorem Arrives.slice {bytes : List UInt8} {m : Mbuf} (h : Arrives bytes m) (off len : ℕ)
    (hlen : off + len ≤ bytes.length) (hck : ∀ i < len, ¬ CksumByte (off + i)) :
    loadBytes m.data off len = (bytes.drop off).take len :=
  loadBytes_eq_slice m.data bytes off len hlen fun i hi => h.same (off + i) (by omega) (hck i hi)

namespace UpdtxChannel
theorem loadBe32_of_bytes (data : ℕ → UInt8) (off : ℕ) (x : Be32)
    (h : loadBytes data off 4 = be32Bytes x) : loadBe32 data off = x := by
  rw [← loadBe32_storeBe32 data off x]
  apply loadBe32_congr
  intro i hi
  have hbyte := byte_of_loadBytes h i hi
  have hstored := byte_of_loadBytes (loadBytes_storeBytes data off (be32Bytes x)) i hi
  exact hbyte.trans hstored.symm

variable (c : UpdtxChannel) (payload : ℕ → UInt8) (payloadSize : ℕ) (dst : UdpDestination)

/-- What a receiver reads from the datagram. -/
structure Reads (m : Mbuf) : Prop where
  headers : UdpHeaders m.data payloadSize
  srcAddr : loadBe32 m.data 26 = c.device.ip4Addr
  dstAddr : loadBe32 m.data 30 = dst.ip4Addr
  srcPort : loadBe16 m.data 34 = rteBe16 c.device.srcPort
  dstPort : loadBe16 m.data 36 = dst.port
  payload_eq : loadBytes m.data 42 payloadSize = loadBytes payload 0 payloadSize

/-- The part of the headers behind the addresses of the Ethernet header. -/
def ipFrontBytes : List UInt8 :=
  be16Bytes etherTypeIpv4 ++ [rteIpv4VhlDef, 0] ++
    be16Bytes (rteCpuToBe16 (sizeofIpv4Hdr + dgramLen payloadSize)) ++ be16Bytes (rteBe16 c.packetId) ++
    be16Bytes 0 ++ [ipdefttl, ipprotoUdp]

theorem frontBytes_eq : c.frontBytes payloadSize dst =
    (dst.etherAddr.toList ++ c.device.macAddr.toList) ++ c.ipFrontBytes payloadSize := by
  simp only [frontBytes, ipFrontBytes, List.append_assoc]

theorem datagram_slices (ipCksum udpCksum : Be16) (bytes : List UInt8)
    (h : bytes = c.headerBytes payloadSize dst ipCksum udpCksum ++ loadBytes payload 0 payloadSize) :
    (bytes.drop 12).take 12 = c.ipFrontBytes payloadSize ∧
      (bytes.drop 26).take 14 = c.middleBytes payloadSize dst ∧
      (bytes.drop 42).take payloadSize = loadBytes payload 0 payloadSize ∧
      bytes.length = 42 + payloadSize := by
  have hmacs : (dst.etherAddr.toList ++ c.device.macAddr.toList).length = 12 := by simp
  have hfront : (c.frontBytes payloadSize dst ++ be16Bytes ipCksum).length = 26 := by
    simp [frontBytes, be16Bytes]
  have hheader : (c.headerBytes payloadSize dst ipCksum udpCksum).length = 42 :=
    c.headerBytes_length payloadSize dst ipCksum udpCksum
  have hpayload : (loadBytes payload 0 payloadSize).length = payloadSize := by simp [loadBytes]
  refine ⟨?_, ?_, ?_, ?_⟩
  · have hsplit : bytes = (dst.etherAddr.toList ++ c.device.macAddr.toList) ++
        (c.ipFrontBytes payloadSize ++ (be16Bytes ipCksum ++ c.middleBytes payloadSize dst ++
          be16Bytes udpCksum ++ loadBytes payload 0 payloadSize)) := by
      rw [h, headerBytes, frontBytes_eq]
      simp only [List.append_assoc]
    rw [hsplit, List.drop_left' hmacs]
    exact List.take_left' rfl
  · have hsplit : bytes = (c.frontBytes payloadSize dst ++ be16Bytes ipCksum) ++
        (c.middleBytes payloadSize dst ++ (be16Bytes udpCksum ++ loadBytes payload 0 payloadSize)) := by
      rw [h, headerBytes]
      simp only [List.append_assoc]
    rw [hsplit, List.drop_left' hfront]
    exact List.take_left' rfl
  · rw [h, List.drop_left' hheader, List.take_of_length_le hpayload.le]
  · rw [h, List.length_append, hheader, hpayload]

/-- Whoever gets the bytes of the datagram reads what was sent. -/
theorem reads_of_arrives (ipCksum udpCksum : Be16) (bytes : List UInt8)
    (h : bytes = c.headerBytes payloadSize dst ipCksum udpCksum ++ loadBytes payload 0 payloadSize)
    (hmax : 42 + payloadSize ≤ 65535) (m : Mbuf) (hm : Arrives bytes m) :
    c.Reads payload payloadSize dst m := by
  obtain ⟨hfront, hmiddle, hpayload, hlen⟩ := c.datagram_slices payload payloadSize dst ipCksum udpCksum bytes h
  have hfront' : loadBytes m.data 12 12 = c.ipFrontBytes payloadSize := by
    rw [← hfront]
    exact hm.slice 12 12 (by omega) (by unfold CksumByte; omega)
  have hmiddle' : loadBytes m.data 26 14 = c.middleBytes payloadSize dst := by
    rw [← hmiddle]
    exact hm.slice 26 14 (by omega) (by unfold CksumByte; omega)
  have hword : ∀ (off len k : ℕ) (bs : List UInt8), loadBytes m.data off len = bs → k + 2 ≤ len →
      loadBytes m.data (off + k) 2 = [bs.getD k 0, bs.getD (k + 1) 0] := by
    intro off len k bs hbs hk
    have h0 := byte_of_loadBytes hbs k (by omega)
    have h1 := byte_of_loadBytes hbs (k + 1) (by omega)
    rw [← h0, ← h1]
    rfl
  have hquad : ∀ (off len k : ℕ) (bs : List UInt8), loadBytes m.data off len = bs → k + 4 ≤ len →
      loadBytes m.data (off + k) 4 =
        [bs.getD k 0, bs.getD (k + 1) 0, bs.getD (k + 2) 0, bs.getD (k + 3) 0] := by
    intro off len k bs hbs hk
    have h0 := byte_of_loadBytes hbs k (by omega)
    have h1 := byte_of_loadBytes hbs (k + 1) (by omega)
    have h2 := byte_of_loadBytes hbs (k + 2) (by omega)
    have h3 := byte_of_loadBytes hbs (k + 3) (by omega)
    rw [← h0, ← h1, ← h2, ← h3]
    rfl
  have hdgram : dgramLen payloadSize = sizeofUdpHdr + payloadSize := by
    rw [dgramLen, Nat.mod_eq_of_lt (by unfold sizeofUdpHdr; omega)]
  refine ⟨⟨?_, ?_, ?_, ?_, ?_⟩, ?_, ?_, ?_, ?_, ?_⟩
  · exact loadBe16_of_bytes m.data 12 _ (hword 12 12 0 _ hfront' (by omega))
  · exact byte_of_loadBytes hfront' 2 (by omega)
  · exact loadBe16_of_bytes m.data 20 0 (hword 12 12 8 _ hfront' (by omega))
  · exact byte_of_loadBytes hfront' 11 (by omega)
  · rw [← hdgram]
    exact loadBe16_of_bytes m.data 38 _ (hword 26 14 12 _ hmiddle' (by omega))
  · exact loadBe32_of_bytes m.data 26 _ (hquad 26 14 0 _ hmiddle' (by omega))
  · exact loadBe32_of_bytes m.data 30 _ (hquad 26 14 4 _ hmiddle' (by omega))
  · exact loadBe16_of_bytes m.data 34 _ (hword 26 14 8 _ hmiddle' (by omega))
  · exact loadBe16_of_bytes m.data 36 _ (hword 26 14 10 _ hmiddle' (by omega))
  · rw [← hpayload]
    exact hm.slice 42 payloadSize (by omega) (by unfold CksumByte; omega)

/-! ## From one end to the other -/

/-- What `send` puts on the ring is the datagram, whatever the pools hold, if one mbuf of the receiver
can hold it. -/
theorem send_datagram (cksums : ChainChecksums) (allocs : Allocations) (room : Bool)
    (heap : SegmentHeap) (hmax : 42 + payloadSize ≤ 65535) (head : MbufPtr)
    (haccepted : (c.send payload payloadSize cksums dst allocs room heap).accepted = some head) :
    ∃ body, c.IsDatagram payload payloadSize dst
      (c.send payload payloadSize cksums dst allocs room heap).heap head body := by
  by_cases hsup : c.Supplied payloadSize allocs
  · obtain ⟨filled, head', body, hlinked, hnodup, -, hlaid, hsend⟩ :=
      c.send_supplied payload payloadSize cksums dst allocs room heap hsup
    have hrounds := c.send_rounds payload payloadSize cksums dst allocs room heap
    rw [hsend] at haccepted hrounds ⊢
    cases room with
    | false => exact absurd haccepted (by simp [enqueOrFree])
    | true =>
      obtain rfl : head' = head := by simpa [enqueOrFree] using haccepted
      have hheaders : headersSize = 42 := rfl
      have hmany : body.length + 1 < 2 ^ 16 := by
        by_contra hlong
        have hrest : (body.length - 1) * c.packetBufSize.toNat < payloadSize :=
          hrounds (by simp only [enqueOrFree, if_true, List.length_cons]; omega)
        -- buffers of no bytes have room for no payload
        have hbuf : 1 ≤ c.packetBufSize.toNat := by
          by_contra hzero
          have hbuf0 : c.packetBufSize.toNat = 0 := by omega
          unfold Supplied at hsup
          rw [hbuf0, if_pos (by omega)] at hsup
          omega
        have hle : (body.length - 1) * 1 ≤ (body.length - 1) * c.packetBufSize.toNat :=
          Nat.mul_le_mul_left _ hbuf
        omega
      exact ⟨body, c.finishHead_datagram payload payloadSize dst filled head' cksums body hlinked
        hnodup (hlaid (by omega)) hmany (by omega)⟩
  · have hnone := (c.send_unsupplied payload payloadSize cksums dst allocs room heap hsup).2.2.1
    rw [hnone] at haccepted
    exact absurd haccepted (by simp)

end UpdtxChannel

/-- The headers of a whole datagram are what the receive job takes for one. -/
theorem UdpHeaders.udpFrame {m : Mbuf} {payloadSize : ℕ} (h : UdpHeaders m.data payloadSize)
    (hmax : 42 + payloadSize ≤ 65535) (hlen : 42 + payloadSize ≤ m.dataLen) : UdpFrame m 0 := by
  have hvhl : (m.data 14).toNat = 0x45 := by rw [h.vhl]; rfl
  have hdgram : Mbuf.udpDgramLen { m with l2Len := 14 + 4 * 0 } = 8 + payloadSize := by
    have hoff : 14 + (m.data 14).toNat % 16 * 4 + 4 = 38 := by rw [hvhl]
    simp only [Mbuf.udpDgramLen, Mbuf.ipv4HdrLen, Nat.mul_zero, Nat.add_zero, hoff]
    rw [h.dgram_len, rteCpuToBe16, rteBeToCpu16_rteBe16, UInt16.toNat_ofNat', sizeofUdpHdr,
      Nat.mod_eq_of_lt (by omega)]
  constructor
  · omega
  · exact fun i hi => absurd hi (Nat.not_lt_zero i)
  · exact h.ether
  · rw [Nat.mul_zero, Nat.add_zero, hvhl]
  · rw [Nat.mul_zero, Nat.add_zero, hvhl]
  · exact h.proto
  · rw [show 14 + 4 * 0 + 6 = 20 by omega, h.whole]
    rfl
  · rw [hdgram, sizeofUdpHdr]
    omega
  · rw [hdgram, Nat.mul_zero, Nat.add_zero, hvhl]
    omega

theorem UdpHeaders.ipv4HdrLen_measured {m : Mbuf} {payloadSize : ℕ}
    (h : UdpHeaders m.data payloadSize) : (measured m 0).ipv4HdrLen = 20 := by
  have hvhl : m.data 14 = rteIpv4VhlDef := h.vhl
  simp only [Mbuf.ipv4HdrLen, measured, Nat.mul_zero, Nat.add_zero, hvhl]
  rfl

namespace UpdtxChannel
variable (c : UpdtxChannel) (payload : ℕ → UInt8) (payloadSize : ℕ) (dst : UdpDestination)

/-- The mbuf that holds what is on the wire, padded to 60 bytes. -/
def receivedMbuf (bytes : List UInt8) : Mbuf := { data := fun i => bytes.getD i 0, dataLen := 60 }

end UpdtxChannel

end DpdkTools
