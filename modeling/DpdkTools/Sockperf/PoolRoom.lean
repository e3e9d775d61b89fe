import DpdkTools.Sockperf.Packets

/-! The room of the mbufs that `run` creates for the test (`sockperf_cli/sockperf.cpp`), against the
packet that `configure_sockperf_packet_pool` copies into each of them.

The pool is asked for the headroom and the payload; the packet is the payload behind 42 bytes of
headers. Both sums are taken in 64 bits and wrap around for the 42 largest payloads. What the packet
library makes of a data room size is a parameter. -/
namespace DpdkTools.Sockperf
set_option autoImplicit false

/-- Where the data of an mbuf lies in its buffer, as `rte_pktmbuf_alloc` leaves it. -/
structure MbufRoom where
  bufLen : ℕ
  dataOff : ℕ
  deriving Repr, DecidableEq

/-- What can be copied to `rte_pktmbuf_mtod`. -/
def MbufRoom.dataRoom (m : MbufRoom) : ℕ := m.bufLen - m.dataOff

/-- `rte_pktmbuf_pool_create` and the mbufs of the pool it creates. -/
structure PktmbufPools where
  headroom : UInt16
  Pool : Type
  poolCreate : (n : ℕ) → (dataRoomSize : UInt16) → Option Pool
  mbufs : Pool → List MbufRoom

/-- The data room is the whole buffer, and the data starts behind the headroom. -/
structure PktmbufPools.Documented (dpdk : PktmbufPools) : Prop where
  bufLen : ∀ n size pool, dpdk.poolCreate n size = some pool →
    ∀ m ∈ dpdk.mbufs pool, m.bufLen = size.toNat
  dataOff : ∀ n size pool, dpdk.poolCreate n size = some pool →
    ∀ m ∈ dpdk.mbufs pool, m.dataOff = min dpdk.headroom.toNat m.bufLen

section Run
variable (dpdk : PktmbufPools) (option : UInt64)

/-- `payload_size` of `run`: the option, or the size of the header if that is more. -/
def runPayloadSize : UInt64 :=
  if option < UInt64.ofNat headerSize then UInt64.ofNat headerSize else option

/-- `make_scoped_mempool`, which takes the data room size as a `uint16_t`. -/
def makeScopedMempool (n : ℕ) (dataRoomSize : UInt64) : Option dpdk.Pool :=
  dpdk.poolCreate n dataRoomSize.toUInt16

/-- The pool of packets; `n` is its number of mbufs. -/
def runPool (n : ℕ) : Option dpdk.Pool :=
  makeScopedMempool dpdk n (dpdk.headroom.toUInt64 + runPayloadSize option)

end Run

/-- `packet_size`. -/
def packetSize (payloadSize : UInt64) : UInt64 :=
  UInt64.ofNat (sizeofEtherHdr + sizeofIpv4Hdr + sizeofUdpHdr) + payloadSize

theorem packetSize_toNat (payloadSize : UInt64) :
    (packetSize payloadSize).toNat = (42 + payloadSize.toNat) % 2 ^ 64 := by
  rw [packetSize, UInt64.toNat_add]
  rfl

/-- The bytes of the image that end up in each mbuf. -/
theorem configured_bytes (device : TxDevice) (cksums : Checksums) (payloadSize : UInt64)
    (dest : Be32 × EtherAddr) (dstPort : Be16) (timeToLive : UInt8) (heap heap' : MbufHeap)
    (bs : List MbufPtr) (n olFlags : ℕ)
    (hconf : configureSockperfPacketPool device cksums payloadSize.toNat dest dstPort timeToLive heap
      (some bs) = .ok (heap', n, olFlags))
    (b : MbufPtr) (hb : b ∈ bs) (i : ℕ) :
    (heap' b).data i = if i < (packetSize payloadSize).toNat then
      (packetImage device cksums payloadSize.toNat dest dstPort timeToLive).data i
      else (heap b).data i := by
  obtain ⟨rfl, _⟩ := Prod.mk.inj (Except.ok.inj hconf)
  rw [packetSize_toNat]
  simp only [hb, if_true, copyData]
  rfl

theorem runPayloadSize_toNat (option : UInt64) :
    (runPayloadSize option).toNat = max 14 option.toNat := by
  have hheader : (UInt64.ofNat headerSize).toNat = 14 := rfl
  rw [runPayloadSize]
  split_ifs with h
  · rw [UInt64.lt_iff_toNat_lt] at h
    omega
  · rw [UInt64.not_lt, UInt64.le_iff_toNat_le] at h
    omega

/-- What lies behind the headroom in an mbuf of the pool. -/
theorem runPool_dataRoom (dpdk : PktmbufPools) (hdpdk : dpdk.Documented) (option : UInt64) (n : ℕ)
    (pool : dpdk.Pool) (hpool : runPool dpdk option n = some pool) (m : MbufRoom)
    (hm : m ∈ dpdk.mbufs pool) :
    m.dataRoom = (dpdk.headroom.toNat + (runPayloadSize option).toNat) % 2 ^ 16 -
      dpdk.headroom.toNat := by
  have hlen := hdpdk.bufLen n _ pool hpool m hm
  have hoff := hdpdk.dataOff n _ pool hpool m hm
  rw [UInt64.toNat_toUInt16, UInt64.toNat_add, UInt16.toNat_toUInt64] at hlen
  rw [MbufRoom.dataRoom, hoff, hlen]
  omega

/-- An mbuf of the pool has room for its packet only where the size of the packet wraps around: to
0, or to a size in front of a data room that does not wrap with it. -/
theorem room_for_packet_iff (dpdk : PktmbufPools) (hdpdk : dpdk.Documented) (option : UInt64) (n : ℕ)
    (pool : dpdk.Pool) (hpool : runPool dpdk option n = some pool) (m : MbufRoom)
    (hm : m ∈ dpdk.mbufs pool) :
    (packetSize (runPayloadSize option)).toNat ≤ m.dataRoom ↔
      option.toNat = 2 ^ 64 - 42 ∨
        2 ^ 64 - 42 ≤ option.toNat ∧ dpdk.headroom.toNat + option.toNat < 2 ^ 64 := by
  have hroom := runPool_dataRoom dpdk hdpdk option n pool hpool m hm
  have hheadroom := dpdk.headroom.toNat_lt
  have hoption := option.toNat_lt
  rw [runPayloadSize_toNat] at hroom
  rw [packetSize_toNat, runPayloadSize_toNat]
  omega

/-- Pools of the default configuration, with a headroom of 128 bytes. -/
def plainPools : PktmbufPools where
  headroom := 128
  Pool := List MbufRoom
  poolCreate n size := some (List.replicate n ⟨size.toNat, min 128 size.toNat⟩)
  mbufs pool := pool

theorem plainPools_documented : plainPools.Documented where
  bufLen n size pool hpool m hm := by
    obtain rfl : List.replicate n _ = pool := Option.some.inj hpool
    rw [List.eq_of_mem_replicate hm]
  dataOff n size pool hpool m hm := by
    obtain rfl : List.replicate n _ = pool := Option.some.inj hpool
    rw [List.eq_of_mem_replicate hm]
    rfl

/-- The default payload is the header; its packet of 56 bytes gets 14. -/
theorem default_payload_room : runPool plainPools 14 1 = some [⟨142, 128⟩] ∧
    packetSize (runPayloadSize 14) = 56 ∧ (⟨142, 128⟩ : MbufRoom).dataRoom = 14 ∧
    ¬ (packetSize (runPayloadSize 14)).toNat ≤ (⟨142, 128⟩ : MbufRoom).dataRoom := by
  exact ⟨rfl, by decide, by decide, by decide⟩

/-- A packet that wraps around to nothing, in an mbuf that is all headroom. -/
theorem room_for_wrapped : runPool plainPools 18446744073709551574 1 = some [⟨86, 86⟩] ∧
    (packetSize (runPayloadSize 18446744073709551574)).toNat ≤
      (⟨86, 86⟩ : MbufRoom).dataRoom := by
  have hpool : runPool plainPools 18446744073709551574 1 = some [⟨86, 86⟩] := rfl
  exact ⟨hpool, (room_for_packet_iff plainPools plainPools_documented 18446744073709551574 1 _ hpool _
    (List.mem_singleton_self _)).mpr (.inl rfl)⟩

end DpdkTools.Sockperf
