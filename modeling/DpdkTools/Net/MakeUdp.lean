import DpdkTools.Net.Mbuf

/-! Empty packets, built from the outside in (`dpdkx/mbuf.cpp`).

Each function is given the size of what follows its own header and passes the size with the header
on to the layer below. The buffer is a single segment, so that `data_len` and `pkt_len` are one
number. -/
namespace DpdkTools
set_option autoImplicit false

def sizeofIpv4Hdr : ℕ := 20

/-- `RTE_IPV4_VHL_DEF`: version 4, a header of five words. -/
def rteIpv4VhlDef : UInt8 := 0x45

def ipdefttl : UInt8 := 64

def rteCpuToBe16 (x : ℕ) : Be16 := rteBe16 (UInt16.ofNat x)

def makeEther (buffer : Mbuf) (etherType : Be16) (payloadSize : ℕ) : Mbuf :=
  { buffer with
    data := storeBe16 buffer.data 12 etherType
    l2Len := sizeofEtherHdr
    dataLen := (sizeofEtherHdr + payloadSize) % 2 ^ 16
    olFlags := 0 }

def makeIpv4 (buffer : Mbuf) (nextProtoId : UInt8) (payloadSize : ℕ) : Mbuf :=
  let buffer := makeEther buffer etherTypeIpv4 (sizeofIpv4Hdr + payloadSize)
  let ip4hdr := buffer.l2Len
  let data := storeBytes buffer.data ip4hdr [rteIpv4VhlDef, 0]
  let data := storeBe16 data (ip4hdr + 2) (rteCpuToBe16 (sizeofIpv4Hdr + payloadSize))
  -- packet id and fragment offset
  let data := storeBe16 (storeBe16 data (ip4hdr + 4) 0) (ip4hdr + 6) 0
  let data := storeBytes data (ip4hdr + 8) [ipdefttl, nextProtoId]
  { buffer with
    data := storeBe16 data (ip4hdr + 10) 0
    l3Len := sizeofIpv4Hdr }

def makeUdp (buffer : Mbuf) (payloadSize : ℕ) : Mbuf :=
  let buffer := makeIpv4 buffer ipprotoUdp (sizeofUdpHdr + payloadSize)
  let udphdr := buffer.l2Len + buffer.l3Len
  let data := storeBe16 buffer.data (udphdr + 4) (rteCpuToBe16 (sizeofUdpHdr + payloadSize))
  { buffer with
    data := storeBe16 data (udphdr + 6) 0
    l4Len := sizeofUdpHdr }

/-- The header fields that do not depend on the two ends: an unfragmented UDP packet behind a
plain Ethernet header, with `payloadSize` bytes in its datagram. -/
structure UdpHeaders (data : ℕ → UInt8) (payloadSize : ℕ) : Prop where
  ether : loadBe16 data 12 = etherTypeIpv4
  vhl : data 14 = rteIpv4VhlDef
  whole : loadBe16 data 20 = 0
  proto : data 23 = ipprotoUdp
  dgram_len : loadBe16 data 38 = rteCpuToBe16 (sizeofUdpHdr + payloadSize)

theorem makeUdp_headers (buffer : Mbuf) (payloadSize : ℕ) :
    UdpHeaders (makeUdp buffer payloadSize).data payloadSize where
  ether := by
    rw [← loadBe16_storeBe16 buffer.data 12 etherTypeIpv4]
    apply loadBe16_congr <;>
      simp [makeUdp, makeIpv4, makeEther, storeBe16, storeBytes, sizeofEtherHdr, sizeofIpv4Hdr]
  vhl := by
    simp [makeUdp, makeIpv4, makeEther, storeBe16, storeBytes, sizeofEtherHdr, sizeofIpv4Hdr]
  whole := by
    rw [← loadBe16_storeBe16 buffer.data 20 0]
    apply loadBe16_congr <;>
      simp [makeUdp, makeIpv4, makeEther, storeBe16, storeBytes, sizeofEtherHdr, sizeofIpv4Hdr]
  proto := by
    simp [makeUdp, makeIpv4, makeEther, storeBe16, storeBytes, sizeofEtherHdr, sizeofIpv4Hdr]
  dgram_len := by
    rw [← loadBe16_storeBe16 buffer.data 38 (rteCpuToBe16 (sizeofUdpHdr + payloadSize))]
    apply loadBe16_congr <;>
      simp [makeUdp, makeIpv4, makeEther, storeBe16, storeBytes, sizeofEtherHdr, sizeofIpv4Hdr]

/-- Addresses, ports, time to live and checksums may be anything. -/
theorem UdpHeaders.congr {data data' : ℕ → UInt8} {payloadSize : ℕ} (h : UdpHeaders data payloadSize)
    (hsame : ∀ i, 12 ≤ i ∧ i < 22 ∨ i = 23 ∨ 38 ≤ i ∧ i < 40 → data' i = data i) :
    UdpHeaders data' payloadSize where
  ether := by
    rw [loadBe16_congr data' data 12 (hsame 12 (by omega)) (hsame 13 (by omega)), h.ether]
  vhl := by rw [hsame 14 (by omega), h.vhl]
  whole := by
    rw [loadBe16_congr data' data 20 (hsame 20 (by omega)) (hsame 21 (by omega)), h.whole]
  proto := by rw [hsame 23 (by omega), h.proto]
  dgram_len := by
    rw [loadBe16_congr data' data 38 (hsame 38 (by omega)) (hsame 39 (by omega)), h.dgram_len]

end DpdkTools
