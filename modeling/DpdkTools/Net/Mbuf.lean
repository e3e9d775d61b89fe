import DpdkTools.Net.ByteOrder
import Mathlib.Logic.Function.Iterate
import Mathlib.Data.List.Basic

/-! Message buffers, the header fields the receive path reads from them, and the link-layer
parser `update_l2size` (`dpdkx/detail/utils.hpp`).

An mbuf is its data room from `rte_pktmbuf_mtod` on, with the metadata the code uses. Reads are
not bounded by `data_len`: bytes behind it are what an earlier packet left. `l2_len` is a 7-bit
field, so every assignment to it is taken modulo 128, and the tag loop of `update_l2size` may run
for ever; the model then answers `none` (`updateL2size_none`). Assertions are compiled out. -/
namespace DpdkTools
set_option autoImplicit false

structure Mbuf where
  data : ℕ → UInt8
  dataLen : ℕ
  l2Len : ℕ := 0
  l3Len : ℕ := 0
  l4Len : ℕ := 0
  olFlags : ℕ := 0

abbrev MbufPtr := ℕ

abbrev MbufHeap := MbufPtr → Mbuf

/-! ## Protocol numbers and header sizes -/

def etherTypeIpv4 : Be16 := rteBe16 0x0800
def etherTypeArp : Be16 := rteBe16 0x0806
def etherTypeVlan : Be16 := rteBe16 0x8100
def etherTypeQinq : Be16 := rteBe16 0x88A8

def ipprotoIcmp : UInt8 := 1
def ipprotoUdp : UInt8 := 17

def sizeofEtherHdr : ℕ := 14
def sizeofVlanHdr : ℕ := 4
def sizeofUdpHdr : ℕ := 8
def sizeofIcmpHdr : ℕ := 8
def sizeofArpHdr : ℕ := 28

namespace Mbuf

/-! ## Header fields -/

def ethProto (m : Mbuf) : Be16 := loadBe16 m.data (m.l2Len - 2)

def ipv4HdrLen (m : Mbuf) : ℕ := (m.data m.l2Len).toNat % 16 * 4

def nextProtoId (m : Mbuf) : UInt8 := m.data (m.l2Len + 9)

def ipv4SrcAddr (m : Mbuf) : Be32 := loadBe32 m.data (m.l2Len + 12)

def ipv4DstAddr (m : Mbuf) : Be32 := loadBe32 m.data (m.l2Len + 16)

def udpDstPort (m : Mbuf) : Be16 := loadBe16 m.data (m.l2Len + m.ipv4HdrLen + 2)

def udpDgramLen (m : Mbuf) : ℕ := (rteBeToCpu16 (loadBe16 m.data (m.l2Len + m.ipv4HdrLen + 4))).toNat

def udpEndpoint (m : Mbuf) : Ip4Endpoint := (m.ipv4DstAddr, m.udpDstPort)

/-- The length test of `rx_job::process` on a UDP packet. -/
def udpTooShort (m : Mbuf) : Bool :=
  m.dataLen < m.l2Len + m.ipv4HdrLen + sizeofUdpHdr ||
    m.dataLen < m.l2Len + m.ipv4HdrLen + m.udpDgramLen

/-! ## The tag loop -/

def isTag (proto : Be16) : Bool := proto == etherTypeVlan || proto == etherTypeQinq

/-- One round of the loop that does not leave it: the tag at `l2_len` is skipped. -/
def skipTag (s : Mbuf × Be16) : Mbuf × Be16 :=
  ({ s.1 with l2Len := (s.1.l2Len + sizeofVlanHdr) % 128 }, loadBe16 s.1.data (s.1.l2Len + 2))

def tagLoop : ℕ → Mbuf × Be16 → Option (Mbuf × Be16)
  | 0, _ => none
  | fuel + 1, s =>
    if isTag s.2 then
      if (skipTag s).1.dataLen < (skipTag s).1.l2Len then some ((skipTag s).1, 0)
      else tagLoop fuel (skipTag s)
    else some s

def tagStart (m : Mbuf) : Mbuf × Be16 :=
  ({ m with l2Len := sizeofEtherHdr }, loadBe16 m.data 12)

/-- `update_l2size`: the mbuf with `l2_len` set and the returned ethertype. After 32 rounds the
loop is back in the state it was entered in, so that 33 rounds decide. -/
def updateL2size (m : Mbuf) : Option (Mbuf × Be16) :=
  if m.dataLen < sizeofEtherHdr then some ((tagStart m).1, 0)
  else tagLoop 33 (tagStart m)

theorem tagLoop_none_add (k fuel : ℕ) (s : Mbuf × Be16) (h : tagLoop k s = none) :
    tagLoop (k + fuel) s = tagLoop fuel (skipTag^[k] s) := by
  induction k generalizing s with
  | zero => rw [Nat.zero_add, Function.iterate_zero, id]
  | succ k ih =>
    rw [show k + 1 + fuel = (k + fuel) + 1 by omega, Function.iterate_succ_apply, tagLoop]
    rw [tagLoop] at h
    split_ifs at h ⊢ with ht hl
    exact ih (skipTag s) h

theorem tagLoop_none_mono (k fuel : ℕ) (s : Mbuf × Be16) (h : tagLoop (k + fuel) s = none) :
    tagLoop k s = none := by
  induction k generalizing s with
  | zero => rfl
  | succ k ih =>
    rw [show k + 1 + fuel = (k + fuel) + 1 by omega] at h
    unfold tagLoop at h ⊢
    split_ifs at h ⊢ with ht hl
    exact ih (skipTag s) h

theorem skipTag_iterate (m : Mbuf) (k : ℕ) :
    skipTag^[k + 1] (tagStart m) =
      ({ m with l2Len := (14 + 4 * (k + 1)) % 128 }, loadBe16 m.data ((14 + 4 * k) % 128 + 2)) := by
  induction k with
  | zero => rfl
  | succ k ih =>
    rw [Function.iterate_succ_apply', ih]
    simp only [skipTag, sizeofVlanHdr, Prod.mk.injEq, Mbuf.mk.injEq, true_and, and_true]
    omega

theorem skipTag_cycle (m : Mbuf) : skipTag^[32] (tagStart m) = tagStart m :=
  skipTag_iterate m 31

/-- `none` is not a matter of fuel: the loop of the source then never ends. -/
theorem updateL2size_none (m : Mbuf) (h : updateL2size m = none) (fuel : ℕ) :
    tagLoop fuel (tagStart m) = none := by
  unfold updateL2size at h
  split_ifs at h with hlen
  have h32 : tagLoop 32 (tagStart m) = none := tagLoop_none_mono 32 1 _ h
  have hblocks : ∀ k, tagLoop (32 * k) (tagStart m) = none := by
    intro k
    induction k with
    | zero => rfl
    | succ k ih =>
      rw [show 32 * (k + 1) = 32 + 32 * k by omega, tagLoop_none_add 32 _ _ h32, skipTag_cycle]
      exact ih
  apply tagLoop_none_mono fuel (32 * fuel - fuel)
  rw [show fuel + (32 * fuel - fuel) = 32 * fuel by omega]
  exact hblocks fuel

/-! ## A packet with `k` tags -/

def tagProto (m : Mbuf) (i : ℕ) : Be16 := loadBe16 m.data (12 + 4 * i)

/-- While `l2_len` does not overflow, the parser stands behind the tags it has skipped. -/
theorem skipTag_state (m : Mbuf) (i : ℕ) (h : 14 + 4 * i < 128) :
    skipTag^[i] (tagStart m) = ({ m with l2Len := 14 + 4 * i }, tagProto m i) := by
  cases i with
  | zero => rfl
  | succ i =>
    have hoff : (14 + 4 * i) % 128 + 2 = 12 + 4 * (i + 1) := by omega
    rw [skipTag_iterate, Nat.mod_eq_of_lt h, hoff, tagProto]

theorem tagLoop_skip (k fuel : ℕ) :
    ∀ s : Mbuf × Be16, (∀ i < k, isTag (skipTag^[i] s).2 = true ∧
      (skipTag^[i + 1] s).1.l2Len ≤ (skipTag^[i + 1] s).1.dataLen) →
      tagLoop (k + fuel) s = tagLoop fuel (skipTag^[k] s) := by
  induction k with
  | zero =>
    intro s _
    rw [Nat.zero_add, Function.iterate_zero, id]
  | succ k ih =>
    intro s h
    have h0 : isTag s.2 = true ∧ (skipTag s).1.l2Len ≤ (skipTag s).1.dataLen := h 0 (Nat.succ_pos k)
    have htail : ∀ i < k, isTag (skipTag^[i] (skipTag s)).2 = true ∧
        (skipTag^[i + 1] (skipTag s)).1.l2Len ≤ (skipTag^[i + 1] (skipTag s)).1.dataLen := by
      intro i hi
      simpa [Function.iterate_succ_apply] using h (i + 1) (by omega)
    rw [show k + 1 + fuel = (k + fuel) + 1 by omega, tagLoop, if_pos h0.1,
      if_neg (Nat.not_lt_of_le h0.2), ih (skipTag s) htail, Function.iterate_succ_apply]

theorem tagStart_skips (m : Mbuf) (k fuel : ℕ) (hroom : 14 + 4 * k < 128)
    (htags : ∀ i < k, isTag (m.tagProto i) = true) (hlen : 14 + 4 * k ≤ m.dataLen) :
    tagLoop (k + fuel) (tagStart m) =
      tagLoop fuel ({ m with l2Len := 14 + 4 * k }, m.tagProto k) := by
  rw [← skipTag_state m k hroom]
  apply tagLoop_skip
  intro i hi
  rw [skipTag_state m i (by omega), skipTag_state m (i + 1) (by omega)]
  refine ⟨htags i hi, ?_⟩
  change 14 + 4 * (i + 1) ≤ m.dataLen
  omega

theorem updateL2size_tags (m : Mbuf) (k : ℕ) (hroom : 14 + 4 * k < 128)
    (htags : ∀ i < k, isTag (m.tagProto i) = true) (hend : isTag (m.tagProto k) = false)
    (hlen : 14 + 4 * k ≤ m.dataLen) :
    m.updateL2size = some ({ m with l2Len := 14 + 4 * k }, m.tagProto k) := by
  have hskips := tagStart_skips m k (33 - k) hroom htags hlen
  rw [updateL2size, if_neg (by unfold sizeofEtherHdr; omega), show 33 = k + (33 - k) by omega, hskips,
    show 33 - k = (32 - k) + 1 by omega, tagLoop]
  simp [hend]

/-! ## Where the parser stops -/

theorem tagLoop_exit (fuel : ℕ) (s r : Mbuf × Be16) (h : tagLoop fuel s = some r) :
    ∃ i ≤ fuel, r.1 = (skipTag^[i] s).1 ∧ ∀ i' < i, isTag (skipTag^[i'] s).2 = true := by
  induction fuel generalizing s with
  | zero => exact absurd h (by simp [tagLoop])
  | succ fuel ih =>
    unfold tagLoop at h
    split_ifs at h with ht hl
    · obtain rfl := Option.some.inj h
      refine ⟨1, by omega, rfl, ?_⟩
      intro i' hi'
      obtain rfl : i' = 0 := by omega
      exact ht
    · obtain ⟨i, hi, hr, htags⟩ := ih (skipTag s) h
      refine ⟨i + 1, by omega, hr, ?_⟩
      intro i' hi'
      cases i' with
      | zero => exact ht
      | succ i' => exact htags i' (by omega)
    · obtain rfl := Option.some.inj h
      exact ⟨0, Nat.zero_le _, rfl, fun i' hi' => absurd hi' (Nat.not_lt_zero i')⟩

/-- Unless `l2_len` has passed 127, it is the length of the Ethernet header and of the tags. -/
theorem updateL2size_exit (m : Mbuf) (r : Mbuf × Be16) (h : updateL2size m = some r)
    (hl2 : sizeofEtherHdr ≤ r.1.l2Len) :
    ∃ k, 14 + 4 * k < 128 ∧ r.1 = { m with l2Len := 14 + 4 * k } ∧
      ∀ i < k, isTag (m.tagProto i) = true := by
  unfold updateL2size at h
  split_ifs at h with hlen
  · obtain rfl := Option.some.inj h
    exact ⟨0, by omega, rfl, fun i hi => absurd hi (Nat.not_lt_zero i)⟩
  · obtain ⟨i, hi, hr, htags⟩ := tagLoop_exit 33 _ r h
    have htag : ∀ i' < i, 14 + 4 * i' < 128 → isTag (m.tagProto i') = true := by
      intro i' hlt hroom
      have ht := htags i' hlt
      rw [skipTag_state m i' hroom] at ht
      exact ht
    cases i with
    | zero => exact ⟨0, by omega, hr, fun i hi => absurd hi (Nat.not_lt_zero i)⟩
    | succ i =>
      -- after 32 tags the loop is where it started, so that the count is taken modulo 32
      rw [skipTag_iterate] at hr
      rw [hr] at hl2
      have hl2' : 14 ≤ (14 + 4 * (i + 1)) % 128 := hl2
      refine ⟨(i + 1) % 32, by omega, ?_, fun i' hi' => htag i' (by omega) (by omega)⟩
      rw [hr, show (14 + 4 * (i + 1)) % 128 = 14 + 4 * ((i + 1) % 32) by omega]

/-! ## What the parser leaves alone -/

theorem tagLoop_frame (fuel : ℕ) (s r : Mbuf × Be16) (h : tagLoop fuel s = some r) :
    ∃ l, r.1 = { s.1 with l2Len := l } := by
  induction fuel generalizing s with
  | zero => exact absurd h (by simp [tagLoop])
  | succ fuel ih =>
    unfold tagLoop at h
    split_ifs at h with ht hl
    · obtain rfl := Option.some.inj h
      exact ⟨_, rfl⟩
    · obtain ⟨l, hl⟩ := ih (skipTag s) h
      exact ⟨l, by rw [hl]; rfl⟩
    · obtain rfl := Option.some.inj h
      exact ⟨s.1.l2Len, rfl⟩

theorem updateL2size_frame (m : Mbuf) (r : Mbuf × Be16) (h : updateL2size m = some r) :
    ∃ l, r.1 = { m with l2Len := l } := by
  unfold updateL2size at h
  split_ifs at h with hlen
  · obtain rfl := Option.some.inj h
    exact ⟨sizeofEtherHdr, rfl⟩
  · obtain ⟨l, hl⟩ := tagLoop_frame 33 _ r h
    exact ⟨l, by rw [hl]; rfl⟩

theorem tagLoop_lens (l3 l4 fuel : ℕ) (s : Mbuf × Be16) :
    tagLoop fuel ({ s.1 with l3Len := l3, l4Len := l4 }, s.2) =
      (tagLoop fuel s).map fun r => ({ r.1 with l3Len := l3, l4Len := l4 }, r.2) := by
  induction fuel generalizing s with
  | zero => rfl
  | succ fuel ih =>
    have hskip : skipTag ({ s.1 with l3Len := l3, l4Len := l4 }, s.2) =
        ({ (skipTag s).1 with l3Len := l3, l4Len := l4 }, (skipTag s).2) := rfl
    unfold tagLoop
    rw [hskip, ih]
    split_ifs
    · rfl
    · rfl
    · rfl

theorem updateL2size_lens (l3 l4 : ℕ) (m : Mbuf) :
    updateL2size { m with l3Len := l3, l4Len := l4 } =
      (updateL2size m).map fun r => ({ r.1 with l3Len := l3, l4Len := l4 }, r.2) := by
  unfold updateL2size
  dsimp only
  split_ifs
  · rfl
  · exact tagLoop_lens l3 l4 33 (tagStart m)

/-- It starts afresh: the length it finds in `l2_len` has no influence. -/
theorem updateL2size_again (m : Mbuf) (r : Mbuf × Be16) (h : updateL2size m = some r) :
    updateL2size r.1 = some r := by
  obtain ⟨l, hl⟩ := updateL2size_frame m r h
  rw [hl]
  exact h

def setUdpLens (m : Mbuf) : Mbuf := { m with l3Len := m.ipv4HdrLen, l4Len := sizeofUdpHdr }

/-! ## The loops over a burst -/

def sweep (f : Mbuf → Option Mbuf) : MbufHeap → List MbufPtr → Option MbufHeap
  | heap, [] => some heap
  | heap, b :: bs =>
    match f (heap b) with
    | none => none
    | some m => sweep f (Function.update heap b m) bs

/-- A sweep by an idempotent `f` applies it to each mbuf of the burst, or has no result if `f` has
none for one of them. -/
theorem sweep_spec (f : Mbuf → Option Mbuf) (hidem : ∀ m m', f m = some m' → f m' = some m')
    (bs : List MbufPtr) :
    ∀ heap : MbufHeap,
      ((∀ b ∈ bs, f (heap b) ≠ none) →
        sweep f heap bs = some fun b => if b ∈ bs then (f (heap b)).getD (heap b) else heap b) ∧
      ((∃ b ∈ bs, f (heap b) = none) → sweep f heap bs = none) := by
  induction bs with
  | nil =>
    intro heap
    simp [sweep]
  | cons b bs ih =>
    intro heap
    cases hb : f (heap b) with
    | none => simp [sweep, hb]
    | some m =>
      -- the tail sees the mbuf `b` rewritten, on which `f` answers as before
      have hsame : ∀ x, f (Function.update heap b m x) = f (heap x) := by
        intro x
        by_cases hx : x = b
        · subst hx
          rw [Function.update_self, hidem _ _ hb, hb]
        · rw [Function.update_of_ne hx]
      obtain ⟨hsome, hnone⟩ := ih (Function.update heap b m)
      simp only [hsame] at hsome hnone
      have hstep : sweep f heap (b :: bs) = sweep f (Function.update heap b m) bs := by
        rw [sweep, hb]
      rw [hstep]
      constructor
      · intro hall
        rw [hsome fun x hx => hall x (List.mem_cons_of_mem _ hx), Option.some.injEq]
        funext x
        by_cases hx : x = b
        · subst hx
          simp [hb]
        · simp [hx]
      · rintro ⟨x, hx, hfx⟩
        rcases List.mem_cons.mp hx with rfl | hx
        · simp [hb] at hfx
        · exact hnone ⟨x, hx, hfx⟩

end Mbuf

def updateL2sizes : MbufHeap → List MbufPtr → Option MbufHeap :=
  Mbuf.sweep fun m => m.updateL2size.map Prod.fst

/-- The loop of `flow::rx_queue::run_exclusive` over a burst: all three header lengths are set. -/
def updateLens : MbufHeap → List MbufPtr → Option MbufHeap :=
  Mbuf.sweep fun m => m.updateL2size.map fun r => r.1.setUdpLens

def TagsEnd (heap : MbufHeap) (burst : List MbufPtr) : Prop :=
  ∀ b ∈ burst, (heap b).updateL2size ≠ none

theorem updateL2size_idem (m m' : Mbuf) (h : m.updateL2size.map Prod.fst = some m') :
    m'.updateL2size.map Prod.fst = some m' := by
  obtain ⟨r, hr, rfl⟩ := Option.map_eq_some_iff.mp h
  rw [Mbuf.updateL2size_again m r hr, Option.map_some]

theorem updateLens_idem (m m' : Mbuf) (h : m.updateL2size.map (fun r => r.1.setUdpLens) = some m') :
    m'.updateL2size.map (fun r => r.1.setUdpLens) = some m' := by
  obtain ⟨r, hr, rfl⟩ := Option.map_eq_some_iff.mp h
  rw [Mbuf.setUdpLens, Mbuf.updateL2size_lens, Mbuf.updateL2size_again m r hr]
  rfl

theorem sweep_isSome (g : Mbuf × Be16 → Mbuf)
    (hidem : ∀ m m' : Mbuf, m.updateL2size.map g = some m' → m'.updateL2size.map g = some m')
    (heap : MbufHeap) (bs : List MbufPtr) :
    (∃ heap', Mbuf.sweep (fun m => m.updateL2size.map g) heap bs = some heap') ↔ TagsEnd heap bs := by
  obtain ⟨hsome, hnone⟩ := Mbuf.sweep_spec _ hidem bs heap
  constructor
  · rintro ⟨heap', h⟩ b hb hend
    rw [hnone ⟨b, hb, by rw [hend]; rfl⟩] at h
    exact absurd h (by simp)
  · intro hend
    refine ⟨_, hsome ?_⟩
    intro b hb
    rw [ne_eq, Option.map_eq_none_iff]
    exact hend b hb

theorem updateL2sizes_isSome (heap : MbufHeap) (bs : List MbufPtr) :
    (∃ heap', updateL2sizes heap bs = some heap') ↔ TagsEnd heap bs :=
  sweep_isSome _ updateL2size_idem heap bs

theorem updateLens_isSome (heap : MbufHeap) (bs : List MbufPtr) :
    (∃ heap', updateLens heap bs = some heap') ↔ TagsEnd heap bs :=
  sweep_isSome _ updateLens_idem heap bs

/-- The loop leaves in each mbuf what `update_l2size` makes of it. -/
theorem updateL2sizes_mem (heap heap' : MbufHeap) (bs : List MbufPtr)
    (h : updateL2sizes heap bs = some heap') (b : MbufPtr) (hb : b ∈ bs) :
    (heap b).updateL2size.map Prod.fst = some (heap' b) := by
  have hends : TagsEnd heap bs := (updateL2sizes_isSome heap bs).mp ⟨heap', h⟩
  have hsweep := (Mbuf.sweep_spec _ updateL2size_idem bs heap).1 (fun x hx => by
    rw [ne_eq, Option.map_eq_none_iff]
    exact hends x hx)
  rw [updateL2sizes, hsweep] at h
  obtain ⟨r, hr⟩ := Option.ne_none_iff_exists'.mp (hends b hb)
  rw [← Option.some.inj h]
  simp [hb, hr]

theorem updateL2sizes_fixed (heap : MbufHeap) (bs : List MbufPtr)
    (h : ∀ b ∈ bs, ∃ proto, (heap b).updateL2size = some (heap b, proto)) :
    updateL2sizes heap bs = some heap := by
  have hfix : ∀ b ∈ bs, (heap b).updateL2size.map Prod.fst = some (heap b) := by
    intro b hb
    obtain ⟨proto, hproto⟩ := h b hb
    rw [hproto, Option.map_some]
  have hsome := (Mbuf.sweep_spec _ updateL2size_idem bs heap).1 (fun b hb => by simp [hfix b hb])
  rw [updateL2sizes, hsome, Option.some.injEq]
  funext b
  by_cases hb : b ∈ bs
  · simp [hb, hfix b hb]
  · simp [hb]

namespace Mbuf

/-! ## Two packets -/

/-- An untagged IPv4/UDP packet without payload to 239.1.1.1, the port given by its two bytes. -/
def udpPacket (hi lo : UInt8) : Mbuf where
  data := fun i =>
    (List.replicate 12 (0 : UInt8) ++ [8, 0, 0x45] ++ List.replicate 8 0 ++ [17] ++ List.replicate 6 0 ++
      [239, 1, 1, 1, 0, 0, hi, lo, 0, 8]).getD i 0
  dataLen := 60
  l2Len := 14

def arpPacket : Mbuf where
  data := fun i => (List.replicate 12 (0 : UInt8) ++ [8, 6]).getD i 0
  dataLen := 60
  l2Len := 14

end Mbuf

end DpdkTools
