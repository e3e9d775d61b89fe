import DpdkTools.Net.Mbuf
import Mathlib.Order.Nat
import Mathlib.Data.Nat.Find

/-! What `update_l2size` makes of a stack of VLAN and QinQ tags.

With 28 tags `l2_len` is 126. One more and it starts again at 2, so that the test against `data_len`
is passed and the types that follow are read from offset 128 and then from among the MAC addresses.
Behind those stands the first tag again, and the loop does not end. -/
namespace DpdkTools
set_option autoImplicit false

namespace Mbuf

def TagsRunPast (m : Mbuf) : Prop :=
  ∃ k, (∀ i < k, isTag (m.tagProto i) = true) ∧ m.dataLen < 14 + 4 * k

/-- What is asked of the result `r`: a type other than 0 is the one behind the `k` tags, which end
inside the data, and `l2_len` says where. -/
structure ParsedTags (m : Mbuf) (r : Mbuf × Be16) : Prop where
  found : r.2 ≠ 0 → ∃ k, (∀ i < k, isTag (m.tagProto i) = true) ∧ isTag (m.tagProto k) = false ∧
    r.1.l2Len = 14 + 4 * k ∧ r.1.l2Len ≤ m.dataLen ∧ r.2 = m.tagProto k ∧ r.1.ethProto = r.2
  past : m.TagsRunPast → r.2 = 0

/-- The loop ends, and its result is right. -/
def TagsParsed (m : Mbuf) : Prop := ∃ r, m.updateL2size = some r ∧ m.ParsedTags r

/-! ## Stacks that `l2_len` can hold -/

theorem parsedTags_tags (m : Mbuf) (k : ℕ) (htags : ∀ i < k, isTag (m.tagProto i) = true)
    (hend : isTag (m.tagProto k) = false) (hlen : 14 + 4 * k ≤ m.dataLen) :
    m.ParsedTags ({ m with l2Len := 14 + 4 * k }, m.tagProto k) where
  found := by
    intro _
    refine ⟨k, htags, hend, rfl, hlen, rfl, ?_⟩
    change loadBe16 m.data (14 + 4 * k - 2) = loadBe16 m.data (12 + 4 * k)
    rw [show 14 + 4 * k - 2 = 12 + 4 * k by omega]
  past := by
    rintro ⟨k', htags', hlen'⟩
    have hlt : k < k' := by omega
    exact absurd (hend.symm.trans (htags' k hlt)) Bool.false_ne_true

/-- The data ends inside tag `k`. -/
theorem updateL2size_past (m : Mbuf) (k : ℕ) (hroom : 14 + 4 * (k + 1) < 128)
    (htags : ∀ i ≤ k, isTag (m.tagProto i) = true) (hlen : 14 + 4 * k ≤ m.dataLen)
    (hpast : m.dataLen < 14 + 4 * (k + 1)) :
    m.updateL2size = some ({ m with l2Len := 14 + 4 * (k + 1) }, 0) := by
  have hskips := tagStart_skips m k (33 - k) (by omega) (fun i hi => htags i (by omega)) hlen
  have hnext : (skipTag ({ m with l2Len := 14 + 4 * k }, m.tagProto k)).1 =
      { m with l2Len := 14 + 4 * (k + 1) } := by
    have hl2 : (14 + 4 * k + 4) % 128 = 14 + 4 * (k + 1) := by omega
    exact congrArg (fun l => { m with l2Len := l }) hl2
  rw [updateL2size, if_neg (by unfold sizeofEtherHdr; omega), show 33 = k + (33 - k) by omega, hskips,
    show 33 - k = (32 - k) + 1 by omega, tagLoop, if_pos (htags k (Nat.le_refl k)), hnext,
    if_pos hpast]

/-- The first place where the loop leaves: a type that is no tag, or the end of the data. -/
theorem tags_stop (m : Mbuf) (hlen : sizeofEtherHdr ≤ m.dataLen)
    (h : m.dataLen < 126 ∨ ∃ k ≤ 28, isTag (m.tagProto k) = false) :
    ∃ k, (∀ i < k, isTag (m.tagProto i) = true) ∧ 14 + 4 * k ≤ m.dataLen ∧
      (k ≤ 28 ∧ isTag (m.tagProto k) = false ∨
        k ≤ 27 ∧ isTag (m.tagProto k) = true ∧ m.dataLen < 14 + 4 * (k + 1)) := by
  have hstop : ∃ k, isTag (m.tagProto k) = false ∨ m.dataLen < 14 + 4 * (k + 1) := by
    obtain hshort | ⟨k, _, hend⟩ := h
    · exact ⟨28, Or.inr (by omega)⟩
    · exact ⟨k, Or.inl hend⟩
  have hbefore : ∀ i < Nat.find hstop, isTag (m.tagProto i) = true ∧ 14 + 4 * (i + 1) ≤ m.dataLen := by
    intro i hi
    have hnot := Nat.find_min hstop hi
    rw [not_or, Bool.not_eq_false, Nat.not_lt] at hnot
    exact hnot
  have hinside : 14 + 4 * Nat.find hstop ≤ m.dataLen := by
    by_cases hzero : Nat.find hstop = 0
    · rw [hzero]
      exact hlen
    · have hprev := (hbefore (Nat.find hstop - 1) (by omega)).2
      omega
  refine ⟨Nat.find hstop, fun i hi => (hbefore i hi).1, hinside, ?_⟩
  cases hproto : isTag (m.tagProto (Nat.find hstop)) with
  | false =>
    refine Or.inl ⟨?_, rfl⟩
    obtain hshort | ⟨k, hk, hend⟩ := h
    · omega
    · exact (Nat.find_min' hstop (Or.inl hend)).trans hk
  | true =>
    have hpast := (Nat.find_spec hstop).resolve_left (by rw [hproto]; simp)
    refine Or.inr ⟨?_, rfl, hpast⟩
    obtain hshort | ⟨k, hk, hend⟩ := h
    · omega
    · have hle : Nat.find hstop ≤ k := Nat.find_min' hstop (Or.inl hend)
      have hne : Nat.find hstop ≠ k := by
        intro heq
        rw [heq, hend] at hproto
        exact absurd hproto Bool.false_ne_true
      omega

theorem tagsParsed_of_few (m : Mbuf)
    (h : m.dataLen < 126 ∨ ∃ k ≤ 28, isTag (m.tagProto k) = false) : m.TagsParsed := by
  by_cases hlen : m.dataLen < sizeofEtherHdr
  · refine ⟨((tagStart m).1, 0), if_pos hlen, ?_, fun _ => rfl⟩
    intro hne
    exact absurd rfl hne
  · obtain ⟨k, htags, hinside, ⟨hk, hend⟩ | ⟨hk, hproto, hpast⟩⟩ := tags_stop m (Nat.le_of_not_lt hlen) h
    · exact ⟨_, updateL2size_tags m k (by omega) htags hend hinside,
        parsedTags_tags m k htags hend hinside⟩
    · have hall : ∀ i ≤ k, isTag (m.tagProto i) = true := by
        intro i hi
        obtain hlt | rfl := Nat.lt_or_eq_of_le hi
        · exact htags i hlt
        · exact hproto
      refine ⟨_, updateL2size_past m k (by omega) hall hinside hpast, ?_, fun _ => rfl⟩
      intro hne
      exact absurd rfl hne

/-! ## Stacks that it cannot hold -/

/-- The types that are looked at behind 29 tags, when `l2_len` is 2, 6 and 10. -/
def wrappedProtos (m : Mbuf) : List Be16 :=
  [loadBe16 m.data 128, loadBe16 m.data 4, loadBe16 m.data 8]

theorem updateL2size_wrapped (m : Mbuf) (hlen : 126 ≤ m.dataLen)
    (htags : ∀ i ≤ 28, isTag (m.tagProto i) = true) :
    m.updateL2size = tagLoop 4 ({ m with l2Len := 2 }, loadBe16 m.data 128) := by
  have hstate : ∀ i ≤ 28, skipTag^[i] (tagStart m) =
      ({ m with l2Len := 14 + 4 * i }, m.tagProto i) :=
    fun i hi => skipTag_state m i (by omega)
  have hskips : tagLoop (29 + 4) (tagStart m) = tagLoop 4 (skipTag^[29] (tagStart m)) := by
    apply tagLoop_skip
    intro i hi
    refine ⟨by rw [hstate i (by omega)]; exact htags i (by omega), ?_⟩
    rw [skipTag_iterate]
    change (14 + 4 * (i + 1)) % 128 ≤ m.dataLen
    omega
  rw [updateL2size, if_neg (by unfold sizeofEtherHdr; omega), hskips, skipTag_iterate]

/-- The three types decide, and behind them the loop is where it was before. -/
theorem tagLoop_wrapped (m : Mbuf) (hlen : 126 ≤ m.dataLen) (hfirst : isTag (m.tagProto 0) = true) :
    (tagLoop 4 ({ m with l2Len := 2 }, loadBe16 m.data 128)).map Prod.snd =
        m.wrappedProtos.find? (!isTag ·) ∧
      ∀ r, tagLoop 4 ({ m with l2Len := 2 }, loadBe16 m.data 128) = some r → r.1.l2Len < 14 := by
  have h6 : skipTag ({ m with l2Len := 2 }, loadBe16 m.data 128) =
      ({ m with l2Len := 6 }, loadBe16 m.data 4) := rfl
  have h10 : skipTag ({ m with l2Len := 6 }, loadBe16 m.data 4) =
      ({ m with l2Len := 10 }, loadBe16 m.data 8) := rfl
  have h14 : skipTag ({ m with l2Len := 10 }, loadBe16 m.data 8) =
      ({ m with l2Len := 14 }, m.tagProto 0) := rfl
  have h18 : skipTag ({ m with l2Len := 14 }, m.tagProto 0) =
      ({ m with l2Len := 18 }, m.tagProto 1) := rfl
  have hfits : ∀ l ≤ 18, ¬ m.dataLen < l := fun l hl => by omega
  simp only [tagLoop, h6, h10, h14, h18, hfits 6 (by omega), hfits 10 (by omega),
    hfits 14 (by omega), hfits 18 (by omega), if_false, hfirst, if_true]
  cases h128 : isTag (loadBe16 m.data 128) with
  | false => simp [wrappedProtos, h128]
  | true =>
    cases h4 : isTag (loadBe16 m.data 4) with
    | false => simp [wrappedProtos, h128, h4]
    | true =>
      cases h8 : isTag (loadBe16 m.data 8) with
      | false => simp [wrappedProtos, h128, h4, h8]
      | true => simp [wrappedProtos, h128, h4, h8]

/-- A result is right then only by being 0. -/
theorem tagsParsed_of_many (m : Mbuf) (hlen : 126 ≤ m.dataLen)
    (htags : ∀ i ≤ 28, isTag (m.tagProto i) = true) :
    m.TagsParsed ↔ m.wrappedProtos.find? (!isTag ·) = some 0 := by
  have heq := updateL2size_wrapped m hlen htags
  obtain ⟨hproto, hl2⟩ := tagLoop_wrapped m hlen (htags 0 (Nat.zero_le _))
  rw [← heq] at hproto hl2
  rw [← hproto, Option.map_eq_some_iff]
  constructor
  · rintro ⟨r, hr, hparsed⟩
    refine ⟨r, hr, ?_⟩
    by_contra hne
    obtain ⟨k, _, _, hk, _⟩ := hparsed.found hne
    have hlt := hl2 r hr
    omega
  · rintro ⟨r, hr, hzero⟩
    exact ⟨r, hr, fun hne => absurd hzero hne, fun _ => hzero⟩

/-- The parser does what it is for unless there are 29 tags; of the longer stacks it treats those
right whose next type, as it reads them, is 0. -/
theorem tagsParsed_iff (m : Mbuf) :
    m.TagsParsed ↔ m.dataLen < 126 ∨ (∃ k ≤ 28, isTag (m.tagProto k) = false) ∨
      m.wrappedProtos.find? (!isTag ·) = some 0 := by
  rw [← or_assoc]
  by_cases hfew : m.dataLen < 126 ∨ ∃ k ≤ 28, isTag (m.tagProto k) = false
  · exact iff_of_true (tagsParsed_of_few m hfew) (Or.inl hfew)
  · rw [or_iff_right hfew]
    rw [not_or, Nat.not_lt, not_exists] at hfew
    refine tagsParsed_of_many m hfew.1 ?_
    intro i hi
    by_contra hnot
    exact hfew.2 i ⟨hi, Bool.eq_false_iff.mpr hnot⟩

/-- Nothing but tags, also where the MAC addresses are. -/
def onlyTags : Mbuf where
  data := fun i => if i % 2 = 0 then 0x81 else 0
  dataLen := 134

theorem onlyTags_endless : (∀ fuel, tagLoop fuel (tagStart onlyTags) = none) ∧ ¬ onlyTags.TagsParsed := by
  have hnone : onlyTags.updateL2size = none := by decide
  refine ⟨updateL2size_none onlyTags hnone, ?_⟩
  rintro ⟨r, hr, _⟩
  exact absurd (hnone.symm.trans hr) (by simp)

end Mbuf

end DpdkTools
