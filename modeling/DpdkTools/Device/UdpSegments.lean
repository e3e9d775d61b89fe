import Mathlib.Data.List.Nodup
import DpdkTools.Device.UdpTx

/-! What `updtx_channel::send` puts on the ring: the headers and the payload, cut into segments. -/
namespace DpdkTools
open Chain Sockperf
set_option autoImplicit false

/-! ## Single updates of the heap -/

theorem SegmentHeap.modify_self (heap : SegmentHeap) (p : MbufPtr) (f : Segment → Segment) :
    heap.modify p f p = f (heap p) := Function.update_self ..

theorem SegmentHeap.modify_other (heap : SegmentHeap) (p q : MbufPtr) (f : Segment → Segment)
    (h : q ≠ p) : heap.modify p f q = heap q := Function.update_of_ne h ..

theorem Segment.bytes_length (m : Segment) : m.bytes.length = m.dataLen := by
  simp [Segment.bytes, loadBytes]

theorem Chain.Linked.last_none {next : MbufPtr → Option MbufPtr} {ps : List MbufPtr} {last : MbufPtr}
    (h : Linked next ps) (hlast : ps.getLast? = some last) : next last = none := by
  induction h with
  | single p h =>
    obtain rfl : p = last := by simpa using hlast
    exact h
  | cons p q ps h ht ih => exact ih (by simpa [List.getLast?_cons_cons] using hlast)

namespace UpdtxChannel

section Loop
variable (c : UpdtxChannel) (payload : ℕ → UInt8) (payloadSize : ℕ) (head : MbufPtr)

/-- How much a round copies. -/
def chunk (left : ℕ) : ℕ := min c.packetBufSize.toNat left

section Round
variable (s : Filling) (p : MbufPtr)

theorem chunk_lt (left : ℕ) : c.chunk left < 2 ^ 16 :=
  lt_of_le_of_lt (min_le_left ..) c.packetBufSize.toNat_lt

theorem chunk_eq (left : ℕ) :
    (if c.packetBufSize.toNat < left then c.packetBufSize.toNat else left) = c.chunk left := by
  unfold chunk
  split <;> omega

theorem fillSegment_self (hlast : p ≠ s.last) (hhead : p ≠ head) :
    ((c.fillSegment payload payloadSize head s p).heap p).dataLen = c.chunk s.left ∧
      ((c.fillSegment payload payloadSize head s p).heap p).bytes =
        loadBytes payload (payloadSize - s.left) (c.chunk s.left) ∧
      ((c.fillSegment payload payloadSize head s p).heap p).next = none := by
  have hlen : (loadBytes payload (payloadSize - s.left) (c.chunk s.left)).length = c.chunk s.left := by
    simp [loadBytes]
  have hbytes := loadBytes_storeBytes (s.heap p).data 0
    (loadBytes payload (payloadSize - s.left) (c.chunk s.left))
  rw [hlen] at hbytes
  simp only [fillSegment, chunk_eq, Nat.mod_eq_of_lt (c.chunk_lt s.left), SegmentHeap.modify_self,
    SegmentHeap.modify_other _ _ _ _ hlast, SegmentHeap.modify_other _ _ _ _ hhead, Segment.bytes,
    Segment.reset, copyPayload, hbytes, and_self]

theorem fillSegment_other (q : MbufPtr) (hp : q ≠ p) :
    ((c.fillSegment payload payloadSize head s p).heap q).toMbuf = (s.heap q).toMbuf ∧
      ((c.fillSegment payload payloadSize head s p).heap q).next =
        if q = s.last then some p else (s.heap q).next := by
  simp only [fillSegment, SegmentHeap.modify_other _ _ _ _ hp]
  by_cases hhead : q = head <;> by_cases hlast : q = s.last
  all_goals subst_vars
  all_goals simp [SegmentHeap.modify, Function.update_apply, *]

theorem fillSegment_nbSegs (hhead : p ≠ head) :
    ((c.fillSegment payload payloadSize head s p).heap head).nbSegs =
      ((s.heap head).nbSegs + 1) % 2 ^ 16 := by
  simp only [fillSegment, SegmentHeap.modify_other _ _ _ _ hhead.symm, SegmentHeap.modify_self]
  by_cases hlast : head = s.last
  · rw [← hlast, SegmentHeap.modify_self, SegmentHeap.modify_other _ _ _ _ hhead.symm]
  · rw [SegmentHeap.modify_other _ _ _ _ hlast, SegmentHeap.modify_other _ _ _ _ hhead.symm]

theorem fillSegment_left (hlast : p ≠ s.last) (hhead : p ≠ head) :
    (c.fillSegment payload payloadSize head s p).left = s.left - c.chunk s.left := by
  have hlen := (c.fillSegment_self payload payloadSize head s p hlast hhead).1
  exact congrArg (s.left - ·) hlen

end Round

/-! ## The loop -/

/-- Between two rounds, with the segments filled so far: a chain that ends at `last` and carries the
payload up to what is left. -/
structure Filling.Chained (body : List MbufPtr) (s : Filling) : Prop where
  linked : Linked s.heap.next (head :: body)
  last : (head :: body).getLast? = some s.last
  nodup : (head :: body).Nodup
  nbSegs : (s.heap head).nbSegs = (body.length + 1) % 2 ^ 16
  headLen : (s.heap head).dataLen = headersSize
  left_le : s.left ≤ payloadSize
  bytes : (body.flatMap fun p => (s.heap p).bytes) = loadBytes payload 0 (payloadSize - s.left)
  small : ∀ p ∈ body, (s.heap p).dataLen ≤ c.packetBufSize.toNat

theorem headerSegment_chained (heap : SegmentHeap) :
    Filling.Chained c payload payloadSize head [] (headerSegment payloadSize heap head) where
  linked := .single head (by simp [headerSegment, SegmentHeap.next, SegmentHeap.modify_self, Segment.reset])
  last := rfl
  nodup := List.nodup_singleton head
  nbSegs := by simp [headerSegment, SegmentHeap.modify_self]
  headLen := by simp [headerSegment, SegmentHeap.modify_self]
  left_le := le_refl _
  bytes := by simp [headerSegment, loadBytes]
  small := by simp

/-- The next mbuf of the pool is none of those in the chain. -/
theorem Filling.Chained.fresh {c : UpdtxChannel} {payload : ℕ → UInt8} {payloadSize : ℕ}
    {head p : MbufPtr} {body packets : List MbufPtr} {s : Filling}
    (h : Filling.Chained c payload payloadSize head body s)
    (hfresh : (head :: body ++ p :: packets).Nodup) :
    p ∉ head :: body ∧ p ≠ head ∧ p ≠ s.last ∧ (head :: (body ++ [p]) ++ packets).Nodup := by
  have hp : p ∉ head :: body := fun hmem =>
    (List.nodup_append.mp hfresh).2.2 p hmem p (List.mem_cons_self ..) rfl
  refine ⟨hp, ?_, ?_, by simpa using hfresh⟩
  · rintro rfl
    exact hp (List.mem_cons_self ..)
  · rintro rfl
    exact hp (List.mem_of_getLast? h.last)

theorem loadBytes_append (data : ℕ → UInt8) (off m n : ℕ) :
    loadBytes data off (m + n) = loadBytes data off m ++ loadBytes data (off + m) n := by
  rw [loadBytes, List.range_add, List.map_append, List.map_map]
  simp [loadBytes, Function.comp_def, Nat.add_assoc]

theorem fillSegment_chained (body : List MbufPtr) (s : Filling) (p : MbufPtr)
    (h : Filling.Chained c payload payloadSize head body s) (hp : p ∉ head :: body) :
    Filling.Chained c payload payloadSize head (body ++ [p])
      (c.fillSegment payload payloadSize head s p) := by
  have hlast : p ≠ s.last := by
    rintro rfl
    exact hp (List.mem_of_getLast? h.last)
  have hhead : p ≠ head := by
    rintro rfl
    exact hp (List.mem_cons_self ..)
  have hbody : ∀ q ∈ head :: body, q ≠ p := by
    rintro q hq rfl
    exact hp hq
  obtain ⟨hselfLen, hselfBytes, hselfNext⟩ := c.fillSegment_self payload payloadSize head s p hlast hhead
  have hother := fun q hq => c.fillSegment_other payload payloadSize head s p q (hbody q hq)
  have hleft := c.fillSegment_left payload payloadSize head s p hlast hhead
  have hnb := c.fillSegment_nbSegs payload payloadSize head s p hhead
  have hchunk : c.chunk s.left ≤ s.left := min_le_right ..
  have hle := h.left_le
  have hmem : ∀ q ∈ body, q ∈ head :: body := fun q hq => List.mem_cons_of_mem head hq
  have hlen : ∀ q ∈ head :: body, ((c.fillSegment payload payloadSize head s p).heap q).dataLen =
      (s.heap q).dataLen := fun q hq => congrArg Mbuf.dataLen (hother q hq).1
  have hbytes : ∀ q ∈ head :: body, ((c.fillSegment payload payloadSize head s p).heap q).bytes =
      (s.heap q).bytes := by
    intro q hq
    rw [Segment.bytes, Segment.bytes, (hother q hq).1]
  obtain ⟨front, hfront⟩ := List.getLast?_eq_some_iff.mp h.last
  refine ⟨?_, ?_, ?_, ?_, ?_, ?_, ?_, ?_⟩
  · -- the last segment of the chain is the only one whose `next` changes
    rw [← List.cons_append, hfront, List.append_assoc, List.singleton_append]
    have hnodup := h.nodup
    have hlinked := h.linked
    rw [hfront] at hnodup hlinked
    apply hlinked.snoc
    · intro q hq
      have hne : q ≠ s.last := by
        rintro rfl
        exact (List.nodup_append.mp hnodup).2.2 _ hq _ (List.mem_singleton_self _) rfl
      have hq' : q ∈ head :: body := by
        rw [hfront]
        exact List.mem_append_left _ hq
      exact ((hother q hq').2).trans (if_neg hne)
    · have hq' : s.last ∈ head :: body := List.mem_of_getLast? h.last
      exact ((hother s.last hq').2).trans (if_pos rfl)
    · exact hselfNext
  · rw [← List.cons_append]
    exact List.getLast?_concat
  · rw [← List.cons_append]
    exact List.nodup_append.mpr ⟨h.nodup, List.nodup_singleton p,
      fun q hq r hr => by rw [List.mem_singleton.mp hr]; exact hbody q hq⟩
  · rw [hnb, h.nbSegs, List.length_append, List.length_singleton]
    omega
  · exact (hlen head (List.mem_cons_self ..)).trans h.headLen
  · rw [hleft]
    omega
  · have hsame : (body.flatMap fun q => ((c.fillSegment payload payloadSize head s p).heap q).bytes) =
        body.flatMap fun q => (s.heap q).bytes :=
      List.flatMap_congr fun q hq => hbytes q (hmem q hq)
    have hsum : payloadSize - (s.left - c.chunk s.left) = payloadSize - s.left + c.chunk s.left := by
      omega
    rw [List.flatMap_append, List.flatMap_singleton, hsame, h.bytes, hselfBytes, hleft, hsum,
      loadBytes_append, Nat.zero_add]
  · intro q hq
    rcases List.mem_append.mp hq with hq | hq
    · rw [hlen q (hmem q hq)]
      exact h.small q hq
    · rw [List.mem_singleton.mp hq, hselfLen]
      exact min_le_left ..

/-- The whole loop: what it leaves is chained, and nothing is left when it ends by itself. -/
theorem fillLoop_chained (packets body : List MbufPtr) (s : Filling)
    (h : Filling.Chained c payload payloadSize head body s)
    (hfresh : (head :: body ++ packets).Nodup) :
    ∃ s', s'.heap = (c.fillLoop payload payloadSize head packets s).heap ∧
      Filling.Chained c payload payloadSize head
        (body ++ (c.fillLoop payload payloadSize head packets s).taken) s' ∧
      ((c.fillLoop payload payloadSize head packets s).ok = true → s'.left = 0) := by
  induction packets generalizing body s with
  | nil =>
    refine ⟨s, ?_, ?_, ?_⟩
    · -- a fresh mbuf has no `next` already
      have hnone : (s.heap s.last).next = none := h.linked.last_none h.last
      rw [fillLoop, SegmentHeap.modify, ← hnone]
      exact (Function.update_eq_self s.last s.heap).symm
    · rw [fillLoop, List.append_nil]
      exact h
    · intro hok
      exact absurd hok (by simp [fillLoop])
  | cons p packets ih =>
    obtain ⟨hp, -, -, hfresh'⟩ := h.fresh hfresh
    have hstep := c.fillSegment_chained payload payloadSize head body s p h hp
    rw [fillLoop]
    by_cases hleft : (c.fillSegment payload payloadSize head s p).left = 0
    · simp only [hleft, ne_eq, not_true_eq_false, if_false]
      exact ⟨_, rfl, hstep, fun _ => hleft⟩
    · simp only [hleft, ne_eq, not_false_eq_true, if_true]
      obtain ⟨s', hheap, hchained, hok⟩ := ih (body ++ [p]) _ hstep hfresh'
      refine ⟨s', hheap, ?_, hok⟩
      simpa using hchained

theorem fillLoop_taken_prefix (packets : List MbufPtr) (s : Filling) :
    (c.fillLoop payload payloadSize head packets s).taken <+: packets := by
  induction packets generalizing s with
  | nil => exact List.prefix_refl []
  | cons p packets ih =>
    rw [fillLoop]
    split
    · exact List.prefix_cons_inj p |>.mpr (ih _)
    · exact ⟨packets, rfl⟩

/-- The loop ends by itself as soon as the mbufs it was given have room for the payload. -/
theorem fillLoop_ok_iff (packets body : List MbufPtr) (s : Filling)
    (h : Filling.Chained c payload payloadSize head body s)
    (hfresh : (head :: body ++ packets).Nodup) :
    (c.fillLoop payload payloadSize head packets s).ok = true ↔
      packets ≠ [] ∧ s.left ≤ packets.length * c.packetBufSize.toNat := by
  induction packets generalizing body s with
  | nil => simp [fillLoop]
  | cons p packets ih =>
    obtain ⟨hp, hhead, hlast, hfresh'⟩ := h.fresh hfresh
    have hstep := c.fillSegment_chained payload payloadSize head body s p h hp
    have hleft := c.fillSegment_left payload payloadSize head s p hlast hhead
    have hrest := ih (body ++ [p]) _ hstep hfresh'
    have hmul : (p :: packets).length * c.packetBufSize.toNat =
        packets.length * c.packetBufSize.toNat + c.packetBufSize.toNat := by
      rw [List.length_cons, Nat.succ_mul]
    rw [fillLoop, hmul]
    unfold chunk at hleft
    by_cases hzero : (c.fillSegment payload payloadSize head s p).left = 0
    · have hle : s.left ≤ c.packetBufSize.toNat := by omega
      simp only [hzero, ne_eq, not_true_eq_false, if_false, reduceCtorEq, not_false_eq_true, true_and]
      exact iff_of_true trivial (by omega)
    · simp only [hzero, ne_eq, not_false_eq_true, if_true, reduceCtorEq, true_and]
      rw [hrest]
      constructor
      · rintro ⟨-, hle⟩
        omega
      · intro hle
        refine ⟨?_, by omega⟩
        rintro rfl
        simp only [List.length_nil, Nat.zero_mul] at hle
        omega

/-- Every round but the last copies a full buffer, whatever the pool still holds. -/
theorem fillLoop_rounds (packets body : List MbufPtr) (s : Filling)
    (h : Filling.Chained c payload payloadSize head body s)
    (hfresh : (head :: body ++ packets).Nodup)
    (hmany : 1 < (c.fillLoop payload payloadSize head packets s).taken.length) :
    ((c.fillLoop payload payloadSize head packets s).taken.length - 1) * c.packetBufSize.toNat <
      s.left := by
  induction packets generalizing body s with
  | nil => exact absurd hmany (by simp [fillLoop])
  | cons p packets ih =>
    obtain ⟨hp, hhead, hlast, hfresh'⟩ := h.fresh hfresh
    have hstep := c.fillSegment_chained payload payloadSize head body s p h hp
    have hleft := c.fillSegment_left payload payloadSize head s p hlast hhead
    have hrest := ih (body ++ [p]) _ hstep hfresh'
    rw [fillLoop] at hmany ⊢
    unfold chunk at hleft
    by_cases hzero : (c.fillSegment payload payloadSize head s p).left = 0
    · simp only [hzero, ne_eq, not_true_eq_false, if_false, List.length_singleton, lt_irrefl] at hmany
    · simp only [hzero, ne_eq, not_false_eq_true, if_true, List.length_cons, Nat.add_sub_cancel] at hmany ⊢
      generalize (c.fillLoop payload payloadSize head packets
        (c.fillSegment payload payloadSize head s p)).taken.length = n at hmany hrest ⊢
      rcases Nat.lt_or_ge 1 n with hn | hn
      · have hsplit : n * c.packetBufSize.toNat =
            (n - 1) * c.packetBufSize.toNat + c.packetBufSize.toNat := by
          rw [← Nat.succ_mul]
          congr 1
          omega
        have := hrest hn
        omega
      · obtain rfl : n = 1 := by omega
        omega

end Loop

/-! ## The headers -/

def be16Bytes (x : Be16) : List UInt8 := [UInt8.ofNat x.toNat, UInt8.ofNat (x.toNat / 2 ^ 8)]

def be32Bytes (x : Be32) : List UInt8 :=
  [UInt8.ofNat x.toNat, UInt8.ofNat (x.toNat / 2 ^ 8), UInt8.ofNat (x.toNat / 2 ^ 16),
    UInt8.ofNat (x.toNat / 2 ^ 24)]

section Headers
variable (c : UpdtxChannel) (payloadSize : ℕ) (dst : UdpDestination)

def dgramLen : ℕ := (sizeofUdpHdr + payloadSize) % 2 ^ 16

/-- The headers up to the checksum of the IPv4 header, and from there to the other checksum. -/
def frontBytes : List UInt8 :=
  dst.etherAddr.toList ++ c.device.macAddr.toList ++ be16Bytes etherTypeIpv4 ++
    [rteIpv4VhlDef, 0] ++ be16Bytes (rteCpuToBe16 (sizeofIpv4Hdr + dgramLen payloadSize)) ++
    be16Bytes (rteBe16 c.packetId) ++ be16Bytes 0 ++ [ipdefttl, ipprotoUdp]

def middleBytes : List UInt8 :=
  be32Bytes c.device.ip4Addr ++ be32Bytes dst.ip4Addr ++ be16Bytes (rteBe16 c.device.srcPort) ++
    be16Bytes dst.port ++ be16Bytes (rteCpuToBe16 (dgramLen payloadSize))

/-- The 42 bytes in front of the payload. -/
def headerBytes (ipCksum udpCksum : Be16) : List UInt8 :=
  c.frontBytes payloadSize dst ++ be16Bytes ipCksum ++ c.middleBytes payloadSize dst ++
    be16Bytes udpCksum

theorem loadBytes_storeOther (data : ℕ → UInt8) (pos off len : ℕ) (bs : List UInt8)
    (h : off + len ≤ pos ∨ pos + bs.length ≤ off) :
    loadBytes (storeBytes data pos bs) off len = loadBytes data off len := by
  apply loadBytes_congr
  intro i hi
  exact storeBytes_outside data pos (off + i) bs (by omega)

theorem loadBytes_storeSame (data : ℕ → UInt8) (pos len : ℕ) (bs : List UInt8)
    (h : len = bs.length) : loadBytes (storeBytes data pos bs) pos len = bs := by
  rw [h, loadBytes_storeBytes]

theorem writeHeaders_front (data : ℕ → UInt8) :
    loadBytes (c.writeHeaders payloadSize dst data) 0 24 = c.frontBytes payloadSize dst := by
  show loadBytes (c.writeHeaders payloadSize dst data) 0 (6 + 6 + 2 + 2 + 2 + 2 + 2 + 2) = _
  simp only [loadBytes_append]
  simp only [writeHeaders, storeBe16, storeBe32, sizeofEtherHdr, sizeofIpv4Hdr, Nat.reduceAdd]
  simp (disch := simp) only [loadBytes_storeOther, loadBytes_storeSame]
  rfl

theorem writeHeaders_middle (data : ℕ → UInt8) :
    loadBytes (c.writeHeaders payloadSize dst data) 26 14 = c.middleBytes payloadSize dst := by
  show loadBytes (c.writeHeaders payloadSize dst data) 26 (4 + 4 + 2 + 2 + 2) = _
  simp only [loadBytes_append]
  simp only [writeHeaders, storeBe16, storeBe32, sizeofEtherHdr, sizeofIpv4Hdr, Nat.reduceAdd]
  simp (disch := simp) only [loadBytes_storeOther, loadBytes_storeSame]
  rfl

theorem writeHeaders_ipCksum (data : ℕ → UInt8) :
    loadBytes (c.writeHeaders payloadSize dst data) 24 2 = be16Bytes 0 := by
  simp only [writeHeaders, storeBe16, storeBe32, sizeofEtherHdr, sizeofIpv4Hdr, Nat.reduceAdd]
  simp (disch := simp) only [loadBytes_storeOther, loadBytes_storeSame]
  rfl

theorem writeHeaders_outside (data : ℕ → UInt8) (i : ℕ) (h : 42 ≤ i) :
    c.writeHeaders payloadSize dst data i = data i := by
  simp only [writeHeaders, storeBe16, storeBe32, sizeofEtherHdr, sizeofIpv4Hdr, Nat.reduceAdd]
  simp (disch := simp; omega) only [storeBytes_outside]

/-- With the checksums filled in, the header bytes are complete. -/
theorem headers_complete (data : ℕ → UInt8) (ipCksum udpCksum : Be16)
    (hfront : loadBytes data 0 24 = c.frontBytes payloadSize dst)
    (hcksum : loadBytes data 24 2 = be16Bytes ipCksum)
    (hmiddle : loadBytes data 26 14 = c.middleBytes payloadSize dst) :
    loadBytes (storeBe16 data 40 udpCksum) 0 42 = c.headerBytes payloadSize dst ipCksum udpCksum := by
  show loadBytes (storeBe16 data 40 udpCksum) 0 (24 + 2 + 14 + 2) = _
  simp only [loadBytes_append]
  simp only [storeBe16, Nat.reduceAdd]
  simp (disch := simp) only [loadBytes_storeOther, loadBytes_storeSame]
  rw [hfront, hcksum, hmiddle]
  rfl

end Headers

section Head
variable (c : UpdtxChannel) (payloadSize : ℕ) (cksums : ChainChecksums) (dst : UdpDestination)
  (heap : SegmentHeap) (head : MbufPtr)

theorem finishHead_other (q : MbufPtr) (h : q ≠ head) :
    c.finishHead payloadSize cksums dst heap head q = heap q := by
  simp only [finishHead, SegmentHeap.modify_other _ _ _ _ h]

/-- What is kept of the head, and what is written into it. -/
theorem finishHead_head :
    (c.finishHead payloadSize cksums dst heap head head).next = (heap head).next ∧
      (c.finishHead payloadSize cksums dst heap head head).nbSegs = (heap head).nbSegs ∧
      (c.finishHead payloadSize cksums dst heap head head).dataLen = (heap head).dataLen ∧
      (c.finishHead payloadSize cksums dst heap head head).pktLen =
        (headersSize + payloadSize) % 2 ^ 32 := by
  simp only [finishHead, SegmentHeap.modify_self]
  cases c.device.ipv4CksumOffload
  · exact ⟨rfl, rfl, rfl, rfl⟩
  · exact ⟨rfl, rfl, rfl, rfl⟩

theorem finishHead_headers : ∃ ipCksum udpCksum,
    loadBytes (c.finishHead payloadSize cksums dst heap head head).data 0 42 =
      c.headerBytes payloadSize dst ipCksum udpCksum := by
  simp only [finishHead, SegmentHeap.modify_self, sizeofEtherHdr, sizeofIpv4Hdr, Nat.reduceAdd]
  have hfront := c.writeHeaders_front payloadSize dst (heap head).data
  have hmiddle := c.writeHeaders_middle payloadSize dst (heap head).data
  cases c.device.ipv4CksumOffload with
  | true =>
    exact ⟨0, _, c.headers_complete payloadSize dst _ 0 _ hfront
      (c.writeHeaders_ipCksum payloadSize dst (heap head).data) hmiddle⟩
  | false =>
    refine ⟨cksums.rteIpv4Cksum (c.writeHeaders payloadSize dst (heap head).data) 14, _,
      c.headers_complete payloadSize dst _ _ _ ?_ ?_ ?_⟩
    · simp (disch := simp) only [Bool.false_eq_true, ite_false, storeBe16, loadBytes_storeOther]
      exact hfront
    · simp (disch := simp) only [Bool.false_eq_true, ite_false, storeBe16, loadBytes_storeSame]
      rfl
    · simp (disch := simp) only [Bool.false_eq_true, ite_false, storeBe16, loadBytes_storeOther]
      exact hmiddle

theorem finishHead_payload (i : ℕ) (h : 42 ≤ i) :
    (c.finishHead payloadSize cksums dst heap head head).data i = (heap head).data i := by
  have hw := c.writeHeaders_outside payloadSize dst (heap head).data i h
  simp only [finishHead, SegmentHeap.modify_self, sizeofEtherHdr, sizeofIpv4Hdr, Nat.reduceAdd]
  cases c.device.ipv4CksumOffload with
  | true =>
    rw [storeBe16_outside _ _ _ _ (by omega)]
    exact hw
  | false =>
    simp only [Bool.false_eq_true, ite_false]
    rw [storeBe16_outside _ _ _ _ (by omega), storeBe16_outside _ _ _ _ (by omega), hw]

theorem finishHead_next :
    (c.finishHead payloadSize cksums dst heap head).next = heap.next := by
  funext q
  by_cases h : q = head
  · subst h
    exact (c.finishHead_head payloadSize cksums dst heap q).1
  · rw [SegmentHeap.next, c.finishHead_other payloadSize cksums dst heap head q h]
    rfl

end Head
/-! ## The whole call -/

section Call
variable (c : UpdtxChannel) (payload : ℕ → UInt8) (payloadSize : ℕ)

/-- The pools give what the datagram takes. -/
def Supplied (allocs : Allocations) : Prop :=
  if c.packetBufSize.toNat < (headersSize + payloadSize) % 2 ^ 64 then
    allocs.header ≠ none ∧ allocs.packet ≠ [] ∧
      payloadSize ≤ allocs.packet.length * c.packetBufSize.toNat
  else allocs.packet ≠ []

instance (allocs : Allocations) : Decidable (c.Supplied payloadSize allocs) :=
  inferInstanceAs (Decidable (ite _ _ _))

/-- The payload lies in the segments, behind the room for the headers. -/
structure Laid (heap : SegmentHeap) (head : MbufPtr) (body : List MbufPtr) : Prop where
  nbSegs : (heap head).nbSegs = (body.length + 1) % 2 ^ 16
  long : headersSize ≤ (heap head).dataLen
  bytes : loadBytes (heap head).data headersSize ((heap head).dataLen - headersSize) ++
    (body.flatMap fun p => (heap p).bytes) = loadBytes payload 0 payloadSize
  small : ∀ p ∈ body, (heap p).dataLen ≤ c.packetBufSize.toNat
  headSmall : (heap head).dataLen = headersSize ∨ (heap head).dataLen ≤ c.packetBufSize.toNat

theorem laid_of_chained (head : MbufPtr) (body : List MbufPtr) (s : Filling)
    (h : Filling.Chained c payload payloadSize head body s) (hleft : s.left = 0) :
    c.Laid payload payloadSize s.heap head body where
  nbSegs := h.nbSegs
  long := h.headLen.ge
  bytes := by
    rw [h.headLen, Nat.sub_self, h.bytes, hleft]
    rfl
  small := h.small
  headSmall := Or.inl h.headLen

theorem singleSegment_laid (heap : SegmentHeap) (head : MbufPtr)
    (hfits : headersSize + payloadSize ≤ c.packetBufSize.toNat) :
    c.Laid payload payloadSize (singleSegment payload payloadSize heap head) head [] := by
  have hbuf := c.packetBufSize.toNat_lt
  have hmod : (headersSize + payloadSize) % 2 ^ 16 = headersSize + payloadSize :=
    Nat.mod_eq_of_lt (by omega)
  have hlen : (singleSegment payload payloadSize heap head head).dataLen =
      headersSize + payloadSize := by
    rw [singleSegment, SegmentHeap.modify_self]
    exact hmod
  refine ⟨by simp [singleSegment, SegmentHeap.modify_self], by omega, ?_, by simp, by omega⟩
  rw [hlen, Nat.add_sub_cancel_left, List.flatMap_nil, List.append_nil, singleSegment,
    SegmentHeap.modify_self]
  exact loadBytes_storeSame _ _ _ _ (by simp [loadBytes])

variable (cksums : ChainChecksums) (dst : UdpDestination) (allocs : Allocations) (room : Bool)
  (heap : SegmentHeap)

theorem header_fresh (head : MbufPtr) (h : allocs.header = some head) :
    (head :: ([] : List MbufPtr) ++ allocs.packet).Nodup :=
  List.nodup_cons.mpr ⟨allocs.apart head h, allocs.distinct⟩

/-- Where the pools fall short, what was allocated is a chain, and all of it is freed. -/
theorem send_unsupplied (h : ¬ c.Supplied payloadSize allocs) :
    (c.send payload payloadSize cksums dst allocs room heap).allocated.Nodup ∧
    (c.send payload payloadSize cksums dst allocs room heap).result = false ∧
      (c.send payload payloadSize cksums dst allocs room heap).accepted = none ∧
      (c.send payload payloadSize cksums dst allocs room heap).freed =
        (c.send payload payloadSize cksums dst allocs room heap).allocated := by
  unfold Supplied at h
  unfold send
  by_cases hsize : c.packetBufSize.toNat < (headersSize + payloadSize) % 2 ^ 64
  · simp only [hsize, if_true] at h ⊢
    cases hheader : allocs.header with
    | none => simp only [List.nodup_nil, and_self]
    | some head =>
      have hstart := c.headerSegment_chained payload payloadSize head heap
      have hfresh := header_fresh allocs head hheader
      have hok := c.fillLoop_ok_iff payload payloadSize head allocs.packet [] _ hstart hfresh
      have hnot : (c.fillLoop payload payloadSize head allocs.packet
          (headerSegment payloadSize heap head)).ok = false := by
        rw [Bool.eq_false_iff, ne_eq, hok]
        intro hand
        exact h ⟨by simp [hheader], hand.1, hand.2⟩
      obtain ⟨s', hheap, hchained, -⟩ :=
        c.fillLoop_chained payload payloadSize head allocs.packet [] _ hstart hfresh
      simp only [hnot, Bool.false_eq_true, if_false]
      refine ⟨hchained.nodup, trivial, trivial, ?_⟩
      rw [rtePktmbufFree, ← hheap]
      exact hchained.linked.walk_eq
  · simp only [hsize, if_false] at h ⊢
    have hnil : allocs.packet = [] := not_not.mp h
    simp only [hnil, List.nodup_nil, and_self]

/-- Where they do not, the call ends with a chain that holds the payload. -/
theorem send_supplied (h : c.Supplied payloadSize allocs) : ∃ filled head body,
    Linked (SegmentHeap.next filled) (head :: body) ∧ (head :: body).Nodup ∧
      body.length ≤ allocs.packet.length ∧
      (payloadSize + headersSize < 2 ^ 64 → c.Laid payload payloadSize filled head body) ∧
      c.send payload payloadSize cksums dst allocs room heap =
        enqueOrFree room (c.finishHead payloadSize cksums dst filled head) (head :: body) head := by
  unfold Supplied at h
  unfold send
  by_cases hsize : c.packetBufSize.toNat < (headersSize + payloadSize) % 2 ^ 64
  · simp only [hsize, if_true] at h ⊢
    obtain ⟨hheader, hpacket, hroom⟩ := h
    obtain ⟨head, hhead⟩ := Option.ne_none_iff_exists'.mp hheader
    have hstart := c.headerSegment_chained payload payloadSize head heap
    have hfresh := header_fresh allocs head hhead
    have hok := (c.fillLoop_ok_iff payload payloadSize head allocs.packet [] _ hstart hfresh).mpr
      ⟨hpacket, hroom⟩
    obtain ⟨s', hheap, hchained, hleft⟩ :=
      c.fillLoop_chained payload payloadSize head allocs.packet [] _ hstart hfresh
    have hprefix := (c.fillLoop_taken_prefix payload payloadSize head allocs.packet
      (headerSegment payloadSize heap head)).length_le
    simp only [hhead, hok, if_true]
    rw [← hheap]
    exact ⟨s'.heap, head, _, hchained.linked, hchained.nodup, hprefix,
      fun _ => c.laid_of_chained payload payloadSize head _ s' hchained (hleft hok), rfl⟩
  · simp only [hsize, if_false] at h ⊢
    obtain ⟨head, rest, hpacket⟩ := List.exists_cons_of_ne_nil h
    simp only [hpacket]
    refine ⟨singleSegment payload payloadSize heap head, head, [], ?_, List.nodup_singleton head,
      Nat.zero_le _, ?_, rfl⟩
    · apply Linked.single
      simp [SegmentHeap.next, singleSegment, SegmentHeap.modify_self, Segment.reset]
    · intro hwrap
      rw [Nat.mod_eq_of_lt (by omega)] at hsize
      exact c.singleSegment_laid payload payloadSize heap head (by omega)

/-- The number of segments depends on the payload only: all but the first and the last of those
behind the header carry a full buffer. -/
theorem send_rounds (hmany : 2 < (c.send payload payloadSize cksums dst allocs room heap).allocated.length) :
    ((c.send payload payloadSize cksums dst allocs room heap).allocated.length - 2) *
      c.packetBufSize.toNat < payloadSize := by
  have hfew : ∀ (filled : SegmentHeap) (l : List MbufPtr) (head : MbufPtr),
      (enqueOrFree room filled l head).allocated = l := by
    intro filled l head
    unfold enqueOrFree
    split <;> rfl
  unfold send at hmany ⊢
  by_cases hsize : c.packetBufSize.toNat < (headersSize + payloadSize) % 2 ^ 64
  · simp only [hsize, if_true] at hmany ⊢
    cases hheader : allocs.header with
    | none =>
      rw [hheader] at hmany
      exact absurd hmany (by simp)
    | some head =>
      have hstart := c.headerSegment_chained payload payloadSize head heap
      have hrounds := c.fillLoop_rounds payload payloadSize head allocs.packet [] _ hstart
        (header_fresh allocs head hheader)
      rw [hheader] at hmany
      simp only at hmany ⊢
      split at hmany
      all_goals
        rename_i hok
        simp only [hok, if_true, hfew, List.length_cons] at hmany ⊢
        exact hrounds (by omega)
  · simp only [hsize, if_false] at hmany
    cases hpacket : allocs.packet with
    | nil =>
      rw [hpacket] at hmany
      exact absurd hmany (by simp)
    | cons head rest =>
      rw [hpacket] at hmany
      simp only [hfew] at hmany
      exact absurd hmany (by simp)

end Call

/-! ## Datagrams -/

section Datagram
variable (c : UpdtxChannel) (payload : ℕ → UInt8) (payloadSize : ℕ) (dst : UdpDestination)
  (heap : SegmentHeap) (head : MbufPtr)

/-- The chain from `head` on is the datagram, cut into segments. -/
structure IsDatagram (body : List MbufPtr) : Prop where
  linked : Linked heap.next (head :: body)
  bytes : ∃ ipCksum udpCksum, ((head :: body).flatMap fun p => (heap p).bytes) =
    c.headerBytes payloadSize dst ipCksum udpCksum ++ loadBytes payload 0 payloadSize
  small : ∀ p ∈ body, (heap p).dataLen ≤ c.packetBufSize.toNat
  headSmall : (heap head).dataLen = headersSize ∨ (heap head).dataLen ≤ c.packetBufSize.toNat
  nbSegs : (heap head).nbSegs = (head :: body).length
  pktLen : (heap head).pktLen = ((head :: body).map fun p => (heap p).dataLen).sum

theorem bytes_split (m : Segment) (h : headersSize ≤ m.dataLen) :
    m.bytes = loadBytes m.data 0 headersSize ++
      loadBytes m.data headersSize (m.dataLen - headersSize) := by
  rw [Segment.bytes, show m.dataLen = headersSize + (m.dataLen - headersSize) by omega,
    loadBytes_append, Nat.zero_add, Nat.add_sub_cancel_left]

theorem headerBytes_length (ipCksum udpCksum : Be16) :
    (c.headerBytes payloadSize dst ipCksum udpCksum).length = headersSize := by
  simp [headerBytes, frontBytes, middleBytes, be16Bytes, be32Bytes, headersSize, sizeofEtherHdr,
    sizeofIpv4Hdr, sizeofUdpHdr]

theorem sum_dataLen (ps : List MbufPtr) :
    (ps.map fun p => (heap p).dataLen).sum = (ps.flatMap fun p => (heap p).bytes).length := by
  rw [List.length_flatMap]
  congr 1
  exact List.map_congr_left fun p _ => (heap p).bytes_length.symm

/-- Once the headers are written, what was laid out is the datagram. -/
theorem finishHead_datagram (cksums : ChainChecksums) (body : List MbufPtr)
    (hlinked : Linked heap.next (head :: body)) (hnodup : (head :: body).Nodup)
    (hlaid : c.Laid payload payloadSize heap head body) (hmany : body.length + 1 < 2 ^ 16)
    (hlong : headersSize + payloadSize < 2 ^ 32) :
    c.IsDatagram payload payloadSize dst (c.finishHead payloadSize cksums dst heap head) head body := by
  obtain ⟨hnext, hnb, hlen, hpkt⟩ := c.finishHead_head payloadSize cksums dst heap head
  obtain ⟨ipCksum, udpCksum, hheaders⟩ := c.finishHead_headers payloadSize cksums dst heap head
  have hother : ∀ p ∈ body, c.finishHead payloadSize cksums dst heap head p = heap p := by
    rintro p hp
    apply c.finishHead_other
    rintro rfl
    exact (List.nodup_cons.mp hnodup).1 hp
  have hpayload := loadBytes_congr (c.finishHead payloadSize cksums dst heap head head).data
    (heap head).data headersSize ((heap head).dataLen - headersSize) (fun i _ =>
      c.finishHead_payload payloadSize cksums dst heap head (headersSize + i)
        (by simp only [headersSize, sizeofEtherHdr, sizeofIpv4Hdr, sizeofUdpHdr]; omega))
  have hbytes : ((head :: body).flatMap fun p =>
      (c.finishHead payloadSize cksums dst heap head p).bytes) =
        c.headerBytes payloadSize dst ipCksum udpCksum ++ loadBytes payload 0 payloadSize := by
    have hbody : (body.flatMap fun p => (c.finishHead payloadSize cksums dst heap head p).bytes) =
        body.flatMap fun p => (heap p).bytes :=
      List.flatMap_congr fun p hp => congrArg Segment.bytes (hother p hp)
    rw [List.flatMap_cons, bytes_split _ (by rw [hlen]; exact hlaid.long), hbody, hlen, hpayload,
      List.append_assoc, hlaid.bytes]
    congr 1
  refine ⟨?_, ⟨ipCksum, udpCksum, hbytes⟩, ?_, ?_, ?_, ?_⟩
  · rw [c.finishHead_next]
    exact hlinked
  · intro p hp
    rw [hother p hp]
    exact hlaid.small p hp
  · rw [hlen]
    exact hlaid.headSmall
  · rw [hnb, hlaid.nbSegs, Nat.mod_eq_of_lt hmany, List.length_cons]
  · rw [sum_dataLen, hbytes, hpkt, Nat.mod_eq_of_lt hlong, List.length_append, headerBytes_length]
    simp [loadBytes]

end Datagram

/-- What goes on the ring is the datagram in segments, and the loop that cuts it takes a number of
mbufs that the payload bounds. -/
theorem send_segments (c : UpdtxChannel) (hbuf : 1 ≤ c.packetBufSize.toNat) (payload : ℕ → UInt8)
    (payloadSize : ℕ) (hsize : payloadSize < 2 ^ 63) (cksums : ChainChecksums) (dst : UdpDestination)
    (allocs : Allocations) (hpool : allocs.packet.length ≤ 65534) (room : Bool) (heap : SegmentHeap) :
    (∀ head, (c.send payload payloadSize cksums dst allocs room heap).accepted = some head →
      ∃ body, c.IsDatagram payload payloadSize dst
        (c.send payload payloadSize cksums dst allocs room heap).heap head body) ∧
    (c.send payload payloadSize cksums dst allocs room heap).allocated.length ≤
      payloadSize / c.packetBufSize.toNat + 2 := by
  constructor
  · intro head haccepted
    by_cases hsup : c.Supplied payloadSize allocs
    · obtain ⟨filled, head', body, hlinked, hnodup, hbody, hlaid, hsend⟩ :=
        c.send_supplied payload payloadSize cksums dst allocs room heap hsup
      rw [hsend] at haccepted ⊢
      cases room with
      | false => exact absurd haccepted (by simp [enqueOrFree])
      | true =>
        obtain rfl : head' = head := by simpa [enqueOrFree] using haccepted
        have hheaders : headersSize = 42 := rfl
        have hlong : headersSize + payloadSize < 2 ^ 32 := by
          have hbuf16 := c.packetBufSize.toNat_lt
          unfold Supplied at hsup
          split at hsup
          · -- 65534 buffers of at most 65535 bytes
            have hprod : allocs.packet.length * c.packetBufSize.toNat ≤ 65534 * 65535 :=
              Nat.mul_le_mul hpool (by omega)
            omega
          · omega
        exact ⟨body, c.finishHead_datagram payload payloadSize dst filled head' cksums body hlinked
          hnodup (hlaid (by omega)) (by omega) hlong⟩
    · have hnone := (c.send_unsupplied payload payloadSize cksums dst allocs room heap hsup).2.2.1
      rw [hnone] at haccepted
      exact absurd haccepted (by simp)
  · rcases Nat.lt_or_ge 2 (c.send payload payloadSize cksums dst allocs room heap).allocated.length
      with hmany | hfew
    · have hrounds := c.send_rounds payload payloadSize cksums dst allocs room heap hmany
      have hdiv : (c.send payload payloadSize cksums dst allocs room heap).allocated.length - 2 ≤
          payloadSize / c.packetBufSize.toNat := (Nat.le_div_iff_mul_le hbuf).mpr hrounds.le
      omega
    · exact le_trans hfew (Nat.le_add_left 2 _)

/-! ## A channel with small buffers -/

def smallChannel (packetBufSize : UInt16) : UpdtxChannel where
  device := ⟨Vector.replicate 6 2, 0x0100000A, 40000, true, true⟩
  packetBufSize := packetBufSize
  packetId := 0

def noCksums : ChainChecksums := ⟨fun _ _ => 0, fun _ _ _ => 0, fun _ _ _ _ => 0⟩

def someDestination : UdpDestination := ⟨Vector.replicate 6 4, 0x0200000A, rteBe16 11111⟩

theorem two_distinct : [1, 2].Nodup ∧ ∀ p ∈ some 0, p ∉ [1, 2] := by decide

def twoMbufs : Allocations := ⟨some 0, [1, 2], two_distinct.1, two_distinct.2⟩

def blankHeap : SegmentHeap := fun _ => ⟨zeroBuffer, 1, 0, none⟩

theorem send_segments_two : ∃ body,
    ((smallChannel 4).send (fun i => UInt8.ofNat i) 6 noCksums someDestination twoMbufs true
      blankHeap).accepted = some 0 ∧
    (smallChannel 4).IsDatagram (fun i => UInt8.ofNat i) 6 someDestination
      ((smallChannel 4).send (fun i => UInt8.ofNat i) 6 noCksums someDestination twoMbufs true
        blankHeap).heap 0 body := by
  have haccepted : ((smallChannel 4).send (fun i => UInt8.ofNat i) 6 noCksums someDestination
    twoMbufs true blankHeap).accepted = some 0 := rfl
  obtain ⟨hdatagram, -⟩ := send_segments (smallChannel 4) (by decide) (fun i => UInt8.ofNat i) 6
    (by decide) noCksums someDestination twoMbufs (by decide) true blankHeap
  obtain ⟨body, hbody⟩ := hdatagram 0 haccepted
  exact ⟨body, haccepted, hbody⟩

end UpdtxChannel
end DpdkTools
