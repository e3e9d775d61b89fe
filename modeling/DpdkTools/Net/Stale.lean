import DpdkTools.Net.Mbuf

/-! Bytes that an earlier packet left behind `data_len`.

Two packets have the same data when they agree below `data_len`. What is loaded from inside the
data is the same then, and stores keep the agreement. The tag loop stays inside the data as long as
`l2_len` does not pass 127: a frame of 126 to 129 bytes that is all tags makes it read on. -/
namespace DpdkTools
set_option autoImplicit false

def SameBelow (n : ℕ) (data data' : ℕ → UInt8) : Prop := ∀ i < n, data i = data' i

namespace SameBelow
variable {n : ℕ} {data data' : ℕ → UInt8}

theorem update (data : ℕ → UInt8) (i : ℕ) (hi : n ≤ i) (x : UInt8) :
    SameBelow n data (Function.update data i x) := by
  intro j hj
  rw [Function.update_of_ne (by omega)]

theorem loadBe16_eq (h : SameBelow n data data') (off : ℕ) (hoff : off + 2 ≤ n) :
    loadBe16 data off = loadBe16 data' off :=
  loadBe16_congr data data' off (h off (by omega)) (h (off + 1) (by omega))

theorem loadBe32_eq (h : SameBelow n data data') (off : ℕ) (hoff : off + 4 ≤ n) :
    loadBe32 data off = loadBe32 data' off := by
  rw [loadBe32, loadBe32, h off (by omega), h (off + 1) (by omega), h (off + 2) (by omega),
    h (off + 3) (by omega)]

theorem loadBytes_eq (h : SameBelow n data data') (off len : ℕ) (hoff : off + len ≤ n) :
    loadBytes data off len = loadBytes data' off len := by
  apply List.map_congr_left
  intro i hi
  have hlt : i < len := List.mem_range.mp hi
  exact h (off + i) (by omega)

theorem storeBytes (h : SameBelow n data data') (off : ℕ) (bs : List UInt8) :
    SameBelow n (storeBytes data off bs) (storeBytes data' off bs) := by
  intro i hi
  simp only [DpdkTools.storeBytes, h i hi]

theorem storeBe16 (h : SameBelow n data data') (off : ℕ) (x : Be16) :
    SameBelow n (storeBe16 data off x) (storeBe16 data' off x) :=
  h.storeBytes off _

theorem storeBe32 (h : SameBelow n data data') (off : ℕ) (x : Be32) :
    SameBelow n (storeBe32 data off x) (storeBe32 data' off x) :=
  h.storeBytes off _

theorem etherAddrCopy (h : SameBelow n data data') (src dst : ℕ) (hsrc : src + 6 ≤ n) :
    SameBelow n (etherAddrCopy data src dst) (etherAddrCopy data' src dst) := by
  rw [DpdkTools.etherAddrCopy, DpdkTools.etherAddrCopy, h.loadBytes_eq src 6 hsrc]
  exact h.storeBytes dst _

end SameBelow

def Mbuf.withData (m : Mbuf) (data' : ℕ → UInt8) : Mbuf := { m with data := data' }

/-- The mbufs differ in bytes behind `data_len` only. -/
def SameData (m m' : Mbuf) : Prop :=
  ∃ data', SameBelow m.dataLen m.data data' ∧ m' = m.withData data'

/-! ## The tag loop -/

namespace Mbuf

/-- `l2_len` is 126, a tag begins there, and the data ends inside of it. -/
def EndsInTag (m : Mbuf) : Prop :=
  126 ≤ m.dataLen ∧ m.dataLen < 130 ∧ ∀ i ≤ 28, isTag (m.tagProto i) = true

/-- The state of the loop while it stays inside the data. -/
structure TagState (s : Mbuf × Be16) : Prop where
  aligned : s.1.l2Len % 4 = 2
  small : s.1.l2Len < 128
  inside : s.1.l2Len ≤ s.1.dataLen
  header : 14 ≤ s.1.l2Len ∨ 130 ≤ s.1.dataLen
  ends : 130 ≤ s.1.dataLen ∨ s.1.dataLen < 126 ∨
    ∃ n, s.1.l2Len + 4 * n ≤ 126 ∧ isTag (skipTag^[n] s).2 = false

theorem TagState.start (m : Mbuf) (hlen : sizeofEtherHdr ≤ m.dataLen) (h : ¬ m.EndsInTag) :
    TagState (tagStart m) where
  aligned := (by decide : 14 % 4 = 2)
  small := (by decide : 14 < 128)
  inside := hlen
  header := Or.inl (Nat.le_refl 14)
  ends := by
    by_cases hlong : 130 ≤ m.dataLen
    · exact Or.inl hlong
    by_cases hshort : m.dataLen < 126
    · exact Or.inr (Or.inl hshort)
    refine Or.inr (Or.inr ?_)
    by_contra hnone
    apply h
    refine ⟨by omega, by omega, ?_⟩
    intro i hi
    by_contra htag
    apply hnone
    refine ⟨i, ?_, ?_⟩
    · change 14 + 4 * i ≤ 126
      omega
    · rw [skipTag_state m i (by omega)]
      exact Bool.eq_false_iff.mpr htag

/-- A tag that the loop skips lies inside the data. -/
theorem TagState.skip {s : Mbuf × Be16} (h : TagState s) (ht : isTag s.2 = true)
    (hl : (skipTag s).1.l2Len ≤ (skipTag s).1.dataLen) :
    TagState (skipTag s) ∧ s.1.l2Len + 4 ≤ s.1.dataLen := by
  have hl2 : (skipTag s).1.l2Len = (s.1.l2Len + 4) % 128 := rfl
  have hdata : (skipTag s).1.dataLen = s.1.dataLen := rfl
  have haligned := h.aligned
  have hsmall := h.small
  have hinside := h.inside
  have hends := h.ends
  rw [hl2, hdata] at hl
  -- only at 126 can `l2_len` overflow, and then there are 130 bytes
  have hwrap : s.1.l2Len = 126 → 130 ≤ s.1.dataLen := by
    intro h126
    obtain hlong | hshort | ⟨n, hn, hend⟩ := hends
    · exact hlong
    · omega
    · obtain rfl : n = 0 := by omega
      exact absurd ht (by simpa using hend)
  refine ⟨⟨?_, ?_, ?_, ?_, ?_⟩, ?_⟩
  · rw [hl2]
    omega
  · rw [hl2]
    omega
  · rw [hl2, hdata]
    exact hl
  · rw [hl2, hdata]
    have hheader := h.header
    by_cases h126 : s.1.l2Len = 126
    · exact Or.inr (hwrap h126)
    · omega
  · rw [hdata]
    obtain hlong | hshort | ⟨n, hn, hend⟩ := hends
    · exact Or.inl hlong
    · exact Or.inr (Or.inl hshort)
    · refine Or.inr (Or.inr ?_)
      cases n with
      | zero => exact absurd ht (by simpa using hend)
      | succ n =>
        refine ⟨n, ?_, ?_⟩
        · rw [hl2]
          omega
        · rw [← Function.iterate_succ_apply]
          exact hend
  · by_cases h126 : s.1.l2Len = 126
    · have := hwrap h126
      omega
    · omega

theorem tagLoop_same (data' : ℕ → UInt8) (fuel : ℕ) :
    ∀ s : Mbuf × Be16, TagState s → SameBelow s.1.dataLen s.1.data data' →
      tagLoop fuel (s.1.withData data', s.2) =
        (tagLoop fuel s).map fun r => (r.1.withData data', r.2) := by
  induction fuel with
  | zero =>
    intro s _ _
    rfl
  | succ fuel ih =>
    intro s hs hsame
    by_cases ht : isTag s.2 = true
    · by_cases hl : (skipTag s).1.dataLen < (skipTag s).1.l2Len
      · rw [tagLoop, tagLoop, if_pos ht, if_pos ht, if_pos hl]
        exact if_pos hl
      · obtain ⟨hs', hfits⟩ := hs.skip ht (Nat.le_of_not_lt hl)
        have hproto : loadBe16 data' (s.1.l2Len + 2) = loadBe16 s.1.data (s.1.l2Len + 2) :=
          (hsame.loadBe16_eq _ (by omega)).symm
        have hskip : skipTag (s.1.withData data', s.2) =
            ((skipTag s).1.withData data', (skipTag s).2) :=
          Prod.ext rfl hproto
        rw [tagLoop, tagLoop, if_pos ht, if_pos ht, if_neg hl, hskip, ← ih (skipTag s) hs' hsame]
        exact if_neg hl
    · rw [tagLoop, tagLoop, if_neg ht, if_neg ht]
      rfl

/-- The parser does not depend on what lies behind the data. -/
theorem updateL2size_same (m : Mbuf) (data' : ℕ → UInt8) (hsame : SameBelow m.dataLen m.data data')
    (h : ¬ m.EndsInTag) :
    updateL2size (m.withData data') =
      (updateL2size m).map fun r => (r.1.withData data', r.2) := by
  by_cases hlen : m.dataLen < sizeofEtherHdr
  · have hlen' : (m.withData data').dataLen < sizeofEtherHdr := hlen
    rw [updateL2size, updateL2size, if_pos hlen, if_pos hlen']
    rfl
  · have hlen' : ¬ (m.withData data').dataLen < sizeofEtherHdr := hlen
    have hmin : 14 ≤ m.dataLen := Nat.le_of_not_lt hlen
    have hstart : tagStart (m.withData data') = ((tagStart m).1.withData data', (tagStart m).2) :=
      Prod.ext rfl (hsame.loadBe16_eq 12 (by omega)).symm
    rw [updateL2size, updateL2size, if_neg hlen, if_neg hlen', hstart]
    exact tagLoop_same data' 33 (tagStart m) (.start m hmin h) hsame

theorem updateL2size_withData (m : Mbuf) (r : Mbuf × Be16) (hr : m.updateL2size = some r)
    (h : ¬ m.EndsInTag) (data' : ℕ → UInt8) (hsame : SameBelow m.dataLen m.data data') :
    updateL2size (m.withData data') = some (r.1.withData data', r.2) ∧
      SameBelow r.1.dataLen r.1.data data' := by
  constructor
  · rw [updateL2size_same m data' hsame h, hr, Option.map_some]
  · obtain ⟨l, hl⟩ := updateL2size_frame m r hr
    rw [hl]
    exact hsame

theorem tagLoop_header (fuel : ℕ) :
    ∀ s r : Mbuf × Be16, TagState s → tagLoop fuel s = some r →
      2 ≤ r.1.l2Len ∧ (14 ≤ r.1.l2Len ∨ 130 ≤ r.1.dataLen) := by
  induction fuel with
  | zero =>
    intro s r _ h
    exact absurd h (by simp [tagLoop])
  | succ fuel ih =>
    intro s r hs h
    unfold tagLoop at h
    split_ifs at h with ht hl
    · -- the frame ends inside the tag, so that nothing has overflown
      obtain rfl := Option.some.inj h
      have hl' : s.1.dataLen < (s.1.l2Len + 4) % 128 := hl
      have hinside := hs.inside
      have hheader := hs.header
      have haligned := hs.aligned
      change 2 ≤ (s.1.l2Len + 4) % 128 ∧ (14 ≤ (s.1.l2Len + 4) % 128 ∨ 130 ≤ s.1.dataLen)
      omega
    · exact ih (skipTag s) r (hs.skip ht (Nat.le_of_not_lt hl)).1 h
    · obtain rfl := Option.some.inj h
      have haligned := hs.aligned
      exact ⟨by omega, hs.header⟩

/-- Where the link header ends: behind the Ethernet header, unless `l2_len` has overflown. -/
theorem updateL2size_header (m : Mbuf) (r : Mbuf × Be16) (hr : m.updateL2size = some r)
    (h : ¬ m.EndsInTag) : 2 ≤ r.1.l2Len ∧ (14 ≤ r.1.l2Len ∨ 130 ≤ r.1.dataLen) := by
  unfold updateL2size at hr
  split_ifs at hr with hlen
  · obtain rfl := Option.some.inj hr
    exact ⟨(by decide : 2 ≤ 14), Or.inl (Nat.le_refl 14)⟩
  · exact tagLoop_header 33 (tagStart m) r (.start m (Nat.le_of_not_lt hlen) h) hr

end Mbuf

end DpdkTools
