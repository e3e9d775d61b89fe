import DpdkTools.Lib.Chain
import DpdkTools.Sockperf.Packets

/-! Datagrams sent through `updtx_channel` (`dpdkx/udptx_channel.cpp`).

A datagram that fits an mbuf of the packet pool takes one; any other one is a chain: an mbuf of the
header pool for the headers, then as many of the packet pool as the payload fills. An mbuf here has
the fields of a segment too, and the chain is what `next` leads through. -/
namespace DpdkTools
open Chain Sockperf
set_option autoImplicit false

/-! ## Segments -/

structure Segment extends Mbuf where
  nbSegs : ℕ
  pktLen : ℕ
  next : Option MbufPtr

abbrev SegmentHeap := MbufPtr → Segment

namespace Segment

/-- `rte_pktmbuf_reset`: the data room keeps what was in it. -/
def reset (m : Segment) : Segment where
  data := m.data
  dataLen := 0
  nbSegs := 1
  pktLen := 0
  next := none

/-- What `data_len` says the data is. -/
def bytes (m : Segment) : List UInt8 := loadBytes m.data 0 m.dataLen

end Segment

namespace SegmentHeap

def next (heap : SegmentHeap) (p : MbufPtr) : Option MbufPtr := (heap p).next

def modify (heap : SegmentHeap) (p : MbufPtr) (f : Segment → Segment) : SegmentHeap :=
  Function.update heap p (f (heap p))

end SegmentHeap

/-- `rte_pktmbuf_free`: every mbuf from `head` on; `n` is at least the length of the chain. -/
def rtePktmbufFree (heap : SegmentHeap) (n : ℕ) (head : MbufPtr) : List MbufPtr :=
  walk heap.next n (some head)

/-- What the two pools answer during a call: the mbuf from the header pool, and the mbufs of the
packet pool in their order. Behind the last of them the packet pool is exhausted. -/
structure Allocations where
  header : Option MbufPtr
  packet : List MbufPtr
  distinct : packet.Nodup
  apart : ∀ p ∈ header, p ∉ packet

/-! ## The channel -/

structure UpdtxChannel where
  device : TxDevice
  packetBufSize : UInt16
  packetId : UInt16

/-- The checksum functions; `rte_ipv4_udptcp_cksum_mbuf` follows the chain. -/
structure ChainChecksums where
  rteIpv4Cksum : (ℕ → UInt8) → ℕ → Be16
  rteIpv4PhdrCksum : (ℕ → UInt8) → ℕ → ℕ → Be16
  rteIpv4UdptcpCksumMbuf : SegmentHeap → MbufPtr → ℕ → ℕ → Be16

/-- `RTE_MBUF_F_TX_IPV4`. -/
def txIpv4Flag : ℕ := 2 ^ 55

def headersSize : ℕ := sizeofEtherHdr + sizeofIpv4Hdr + sizeofUdpHdr

/-- `memcpy` of `len` bytes from `src + from` to offset `off`. -/
def copyPayload (data : ℕ → UInt8) (off : ℕ) (src : ℕ → UInt8) (start len : ℕ) : ℕ → UInt8 :=
  storeBytes data off (loadBytes src start len)

/-- The destination of a datagram. -/
structure UdpDestination where
  etherAddr : EtherAddr
  ip4Addr : Be32
  port : Be16

/-- The loop of `send` between two rounds. -/
structure Filling where
  heap : SegmentHeap
  last : MbufPtr
  left : ℕ

/-- How the loop ends, with the mbufs it has taken from the packet pool. -/
structure Filled where
  ok : Bool
  heap : SegmentHeap
  taken : List MbufPtr

/-- What `send` returns and leaves behind: the mbufs it allocated, the head it put on the ring,
and the mbufs it freed. -/
structure SendOutcome where
  result : Bool
  heap : SegmentHeap
  allocated : List MbufPtr
  accepted : Option MbufPtr
  freed : List MbufPtr

namespace UpdtxChannel

section Send
variable (c : UpdtxChannel) (payload : ℕ → UInt8) (payloadSize : ℕ)

/-- One round of the loop, with the mbuf `p` that the packet pool gives. -/
def fillSegment (head : MbufPtr) (s : Filling) (p : MbufPtr) : Filling :=
  let heap := s.heap.modify p Segment.reset
  let heap := heap.modify s.last fun m => { m with next := some p }
  let heap := heap.modify head fun m => { m with nbSegs := (m.nbSegs + 1) % 2 ^ 16 }
  let dataLen := if c.packetBufSize.toNat < s.left then c.packetBufSize.toNat else s.left
  let heap := heap.modify p fun m =>
    { m with
      dataLen := dataLen % 2 ^ 16
      data := copyPayload m.data 0 payload (payloadSize - s.left) (dataLen % 2 ^ 16) }
  ⟨heap, p, s.left - (heap p).dataLen⟩

/-- `do ... while (left != 0)`. -/
def fillLoop (head : MbufPtr) : List MbufPtr → Filling → Filled
  | [], s => ⟨false, s.heap.modify s.last fun m => { m with next := none }, []⟩
  | p :: ps, s =>
    let s' := c.fillSegment payload payloadSize head s p
    if s'.left ≠ 0 then
      let rest := fillLoop head ps s'
      { rest with taken := p :: rest.taken }
    else ⟨true, s'.heap, [p]⟩

/-- The mbuf of the header pool as the loop finds it. -/
def headerSegment (heap : SegmentHeap) (head : MbufPtr) : Filling where
  heap := heap.modify head fun m => { m.reset with dataLen := headersSize, nbSegs := 1 }
  last := head
  left := payloadSize

/-- A datagram in one mbuf. -/
def singleSegment (heap : SegmentHeap) (head : MbufPtr) : SegmentHeap :=
  heap.modify head fun m =>
    { m.reset with
      nbSegs := 1
      data := copyPayload m.data headersSize payload 0 payloadSize
      dataLen := (headersSize + payloadSize) % 2 ^ 16 }

/-- The headers, before the checksums. -/
def writeHeaders (dst : UdpDestination) (data : ℕ → UInt8) : ℕ → UInt8 :=
  let dgramLen := (sizeofUdpHdr + payloadSize) % 2 ^ 16
  let data := storeBytes data 6 c.device.macAddr.toList
  let data := storeBytes data 0 dst.etherAddr.toList
  let data := storeBe16 data 12 etherTypeIpv4
  let ip4hdr := sizeofEtherHdr
  let data := storeBytes data ip4hdr [rteIpv4VhlDef, 0]
  let data := storeBe16 data (ip4hdr + 2) (rteCpuToBe16 (sizeofIpv4Hdr + dgramLen))
  let data := storeBe16 data (ip4hdr + 4) (rteBe16 c.packetId)
  let data := storeBe16 data (ip4hdr + 6) 0
  let data := storeBytes data (ip4hdr + 8) [ipdefttl, ipprotoUdp]
  let data := storeBe16 data (ip4hdr + 10) 0
  let data := storeBe32 data (ip4hdr + 12) c.device.ip4Addr
  let data := storeBe32 data (ip4hdr + 16) dst.ip4Addr
  let udphdr := sizeofEtherHdr + sizeofIpv4Hdr
  let data := storeBe16 data (udphdr + 2) dst.port
  let data := storeBe16 data udphdr (rteBe16 c.device.srcPort)
  let data := storeBe16 data (udphdr + 4) (rteCpuToBe16 dgramLen)
  storeBe16 data (udphdr + 6) 0

/-- The headers, lengths, checksums and flags, written into the head of a filled chain. -/
def finishHead (cksums : ChainChecksums) (dst : UdpDestination) (heap : SegmentHeap)
    (head : MbufPtr) : SegmentHeap :=
  let heap := heap.modify head fun m =>
    { m with
      data := c.writeHeaders payloadSize dst m.data
      l2Len := sizeofEtherHdr
      l3Len := sizeofIpv4Hdr
      l4Len := sizeofUdpHdr
      pktLen := (sizeofEtherHdr + sizeofIpv4Hdr + sizeofUdpHdr + payloadSize) % 2 ^ 32
      olFlags := 0 }
  let ip4hdr := sizeofEtherHdr
  let udphdr := sizeofEtherHdr + sizeofIpv4Hdr
  let olFlags := if c.device.ipv4CksumOffload then txIpv4CksumFlags else 0
  let heap := heap.modify head fun m =>
    if c.device.ipv4CksumOffload then m
    else { m with data := storeBe16 m.data (ip4hdr + 10) (cksums.rteIpv4Cksum m.data ip4hdr) }
  let olFlags :=
    if c.device.udpCksumOffload then olFlags ||| (txIpv4Flag ||| txUdpCksumFlag) else olFlags
  let cksum :=
    if c.device.udpCksumOffload then cksums.rteIpv4PhdrCksum (heap head).data ip4hdr olFlags
    else cksums.rteIpv4UdptcpCksumMbuf heap head ip4hdr udphdr
  heap.modify head fun m => { m with data := storeBe16 m.data (udphdr + 6) cksum, olFlags := olFlags }

/-- The last lines of `send`: the ring takes the datagram, or all of it is freed. -/
def enqueOrFree (room : Bool) (heap : SegmentHeap) (allocated : List MbufPtr) (head : MbufPtr) :
    SendOutcome :=
  if room then ⟨true, heap, allocated, some head, []⟩
  else ⟨false, heap, allocated, none, rtePktmbufFree heap allocated.length head⟩

/-- `updtx_channel::send`; `room` says whether the ring takes the datagram. -/
def send (cksums : ChainChecksums) (dst : UdpDestination) (allocs : Allocations) (room : Bool)
    (heap : SegmentHeap) : SendOutcome :=
  let totalSize := (headersSize + payloadSize) % 2 ^ 64
  if c.packetBufSize.toNat < totalSize then
    match allocs.header with
    | none => ⟨false, heap, [], none, []⟩
    | some head =>
      let filled := c.fillLoop payload payloadSize head allocs.packet
        (headerSegment payloadSize heap head)
      let allocated := head :: filled.taken
      if filled.ok then
        enqueOrFree room (c.finishHead payloadSize cksums dst filled.heap head) allocated head
      else
        ⟨false, filled.heap, allocated, none,
          rtePktmbufFree filled.heap allocated.length head⟩
  else
    match allocs.packet with
    | [] => ⟨false, heap, [], none, []⟩
    | head :: _ =>
      let heap := singleSegment payload payloadSize heap head
      enqueOrFree room (c.finishHead payloadSize cksums dst heap head) [head] head

end Send

end UpdtxChannel

end DpdkTools
