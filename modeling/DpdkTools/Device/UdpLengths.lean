import DpdkTools.Device.UdpSegments

/-! The length fields of a datagram sent through `updtx_channel::send`.

Both are computed in 16 bits from a `payload_size` that nothing bounds, so the fields of a larger
datagram start again from zero. -/
namespace DpdkTools
open Chain Sockperf
set_option autoImplicit false

/-! ## Reading the fields back -/

/-- `total_length` of the IPv4 header, in host order. -/
def ipv4TotalLength (data : ℕ → UInt8) : ℕ := (rteBeToCpu16 (loadBe16 data 16)).toNat

/-- `dgram_len` of the UDP header, in host order. -/
def udpDgramLength (data : ℕ → UInt8) : ℕ := (rteBeToCpu16 (loadBe16 data 38)).toNat

namespace UpdtxChannel

theorem loadBe16_of_bytes (data : ℕ → UInt8) (off : ℕ) (x : Be16)
    (h : loadBytes data off 2 = be16Bytes x) : loadBe16 data off = x := by
  have h0 : data off = UInt8.ofNat x.toNat := byte_of_loadBytes h 0 (by decide)
  have h1 : data (off + 1) = UInt8.ofNat (x.toNat / 2 ^ 8) := byte_of_loadBytes h 1 (by decide)
  have hx : x.toNat < 2 ^ 16 := x.toNat_lt
  rw [loadBe16, h0, h1, UInt8.toNat_ofNat', UInt8.toNat_ofNat', ← UInt16.toNat_inj,
    UInt16.toNat_ofNat']
  omega

theorem rteCpuToBe16_toNat (n : ℕ) : (rteBeToCpu16 (rteCpuToBe16 n)).toNat = n % 2 ^ 16 := by
  rw [rteCpuToBe16, rteBeToCpu16_rteBe16, UInt16.toNat_ofNat']

section Fields
variable (c : UpdtxChannel) (payloadSize : ℕ) (cksums : ChainChecksums) (dst : UdpDestination)
  (heap : SegmentHeap) (head : MbufPtr)

/-- Behind `writeHeaders` only the two checksums change. -/
theorem finishHead_field (off : ℕ) (h : off + 2 ≤ 24 ∨ 26 ≤ off ∧ off + 2 ≤ 40) :
    loadBytes (c.finishHead payloadSize cksums dst heap head head).data off 2 =
      loadBytes (c.writeHeaders payloadSize dst (heap head).data) off 2 := by
  simp only [finishHead, SegmentHeap.modify_self, sizeofEtherHdr, sizeofIpv4Hdr, Nat.reduceAdd,
    storeBe16]
  rw [loadBytes_storeOther _ _ _ _ _ (by omega)]
  cases c.device.ipv4CksumOffload with
  | true => rfl
  | false => exact loadBytes_storeOther _ _ _ _ _ (by simp only [List.length_cons, List.length_nil]; omega)

theorem finishHead_totalLength :
    ipv4TotalLength (c.finishHead payloadSize cksums dst heap head head).data =
      (28 + payloadSize) % 2 ^ 16 := by
  have hbytes : loadBytes (c.writeHeaders payloadSize dst (heap head).data) 16 2 =
      be16Bytes (rteCpuToBe16 (sizeofIpv4Hdr + dgramLen payloadSize)) := by
    simp only [writeHeaders, storeBe16, storeBe32, sizeofEtherHdr, sizeofIpv4Hdr, Nat.reduceAdd]
    simp (disch := simp) only [loadBytes_storeOther, loadBytes_storeSame]
    rfl
  rw [← c.finishHead_field payloadSize cksums dst heap head 16 (by omega)] at hbytes
  rw [ipv4TotalLength, loadBe16_of_bytes _ _ _ hbytes, rteCpuToBe16_toNat, dgramLen, sizeofIpv4Hdr,
    sizeofUdpHdr]
  omega

theorem finishHead_dgramLength :
    udpDgramLength (c.finishHead payloadSize cksums dst heap head head).data =
      (8 + payloadSize) % 2 ^ 16 := by
  have hbytes : loadBytes (c.writeHeaders payloadSize dst (heap head).data) 38 2 =
      be16Bytes (rteCpuToBe16 (dgramLen payloadSize)) := by
    simp only [writeHeaders, storeBe16, storeBe32, sizeofEtherHdr, sizeofIpv4Hdr, Nat.reduceAdd]
    simp (disch := simp) only [loadBytes_storeOther, loadBytes_storeSame]
    rfl
  rw [← c.finishHead_field payloadSize cksums dst heap head 38 (by omega)] at hbytes
  rw [udpDgramLength, loadBe16_of_bytes _ _ _ hbytes, rteCpuToBe16_toNat, dgramLen, sizeofUdpHdr]
  omega

end Fields

/-! ## What is asked of a call -/

/-- A datagram that was sent has the right lengths, and one whose length has no representation is
refused. -/
structure LengthsRight (payloadSize : ℕ) (r : SendOutcome) : Prop where
  denote : r.result = true → ∃ head, r.accepted = some head ∧
    ipv4TotalLength (r.heap head).data = 28 + payloadSize ∧
    udpDgramLength (r.heap head).data = 8 + payloadSize ∧ (r.heap head).pktLen = 42 + payloadSize
  refused : 2 ^ 16 ≤ 28 + payloadSize → r.result = false

theorem lengthsRight_refused (payloadSize : ℕ) (r : SendOutcome) (h : r.result = false) :
    LengthsRight payloadSize r where
  denote := by
    intro htrue
    exact absurd (h.symm.trans htrue) (by decide)
  refused := fun _ => h

section Send
variable (c : UpdtxChannel) (payload : ℕ → UInt8) (payloadSize : ℕ) (cksums : ChainChecksums)
  (dst : UdpDestination) (allocs : Allocations) (room : Bool) (heap : SegmentHeap)

theorem lengthsRight_iff :
    LengthsRight payloadSize (c.send payload payloadSize cksums dst allocs room heap) ↔
      payloadSize ≤ 65507 ∨ ¬ (c.Supplied payloadSize allocs ∧ room = true) := by
  by_cases hsup : c.Supplied payloadSize allocs
  · obtain ⟨filled, head, body, -, -, -, -, hsend⟩ :=
      c.send_supplied payload payloadSize cksums dst allocs room heap hsup
    rw [hsend]
    cases room with
    | false =>
      refine iff_of_true (lengthsRight_refused payloadSize _ rfl) (Or.inr ?_)
      rintro ⟨-, h⟩
      exact absurd h (by decide)
    | true =>
      simp only [hsup, and_self, not_true_eq_false, or_false]
      constructor
      · intro h
        by_contra hlarge
        have hfalse := h.refused (by omega)
        exact absurd hfalse (by simp [enqueOrFree])
      · intro hsmall
        have htotal := c.finishHead_totalLength payloadSize cksums dst filled head
        have hdgram := c.finishHead_dgramLength payloadSize cksums dst filled head
        have hpkt := (c.finishHead_head payloadSize cksums dst filled head).2.2.2
        rw [Nat.mod_eq_of_lt (by omega)] at htotal hdgram
        rw [Nat.mod_eq_of_lt (by simp only [headersSize, sizeofEtherHdr, sizeofIpv4Hdr, sizeofUdpHdr]; omega)]
          at hpkt
        exact ⟨fun _ => ⟨head, rfl, htotal, hdgram, hpkt⟩, fun h => absurd h (by omega)⟩
  · have hfalse := (c.send_unsupplied payload payloadSize cksums dst allocs room heap hsup).2.1
    exact iff_of_true (lengthsRight_refused payloadSize _ hfalse) (Or.inr fun h => hsup h.1)

end Send

/-- One byte more than the largest datagram is sent, and its total length reads 0. -/
theorem lengths_wrap : ∃ head,
    ((smallChannel 65407).send (fun _ => 0) 65508 noCksums someDestination twoMbufs true
      blankHeap).accepted = some head ∧
    ipv4TotalLength (((smallChannel 65407).send (fun _ => 0) 65508 noCksums someDestination twoMbufs
      true blankHeap).heap head).data = 0 ∧
    ¬ LengthsRight 65508 ((smallChannel 65407).send (fun _ => 0) 65508 noCksums someDestination
      twoMbufs true blankHeap) := by
  obtain ⟨filled, head, body, -, -, -, -, hsend⟩ := (smallChannel 65407).send_supplied (fun _ => 0)
    65508 noCksums someDestination twoMbufs true blankHeap (by decide)
  rw [hsend]
  refine ⟨head, rfl, (smallChannel 65407).finishHead_totalLength 65508 noCksums someDestination filled
    head, ?_⟩
  intro h
  have hfalse := h.refused (by decide)
  exact absurd hfalse (by simp [enqueOrFree])

end UpdtxChannel
end DpdkTools
