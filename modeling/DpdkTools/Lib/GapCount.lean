import Mathlib.Data.Finset.Card
import Mathlib.Data.Finset.Dedup
import Mathlib.Data.Finset.Max
import Mathlib.Data.List.GetD
import Mathlib.Data.List.Induction
import Mathlib.Order.Interval.Finset.Nat

/-! Counting gaps in a stream of numbers that arrive in any order.

`absent` is the set of numbers inside the range of a list that are not in it, `late` the number of
entries that come after a greater one. `tally` counts both in one pass and remembers only the
greatest number so far: a jump upwards adds a gap, and whatever does not go up is taken for a number
that fills one. -/
namespace DpdkTools.GapCount
set_option autoImplicit false

/-! ## What is counted -/

def absent (ns : List ℕ) : Finset ℕ :=
  (Finset.range (ns.foldr max 0)).filter fun x => x ∉ ns ∧ ∃ a ∈ ns, a < x

def late (ns : List ℕ) : ℕ :=
  (List.range ns.length).countP fun i => (ns.take i).any (ns.getD i 0 < ·)

theorem lt_foldr_max (ns : List ℕ) (x : ℕ) : x < ns.foldr max 0 ↔ ∃ b ∈ ns, x < b := by
  induction ns with
  | nil => simp
  | cons n ns ih => simp [ih]

theorem mem_absent (ns : List ℕ) (x : ℕ) :
    x ∈ absent ns ↔ x ∉ ns ∧ (∃ a ∈ ns, a < x) ∧ ∃ b ∈ ns, x < b := by
  rw [absent, Finset.mem_filter, Finset.mem_range, lt_foldr_max]
  constructor
  · rintro ⟨hb, hx, ha⟩
    exact ⟨hx, ha, hb⟩
  · rintro ⟨hx, ha, hb⟩
    exact ⟨hb, hx, ha⟩

/-- The absent numbers and the present ones fill the range. -/
theorem absent_card (ns : List ℕ) (lo hi : ℕ) (hlo : lo ∈ ns) (hmin : ∀ x ∈ ns, lo ≤ x)
    (hhi : hi ∈ ns) (hmax : ∀ x ∈ ns, x ≤ hi) :
    (absent ns).card + ns.toFinset.card + lo = hi + 1 := by
  have hunion : absent ns ∪ ns.toFinset = Finset.Icc lo hi := by
    ext x
    rw [Finset.mem_union, mem_absent, List.mem_toFinset, Finset.mem_Icc]
    constructor
    · rintro (⟨_, ⟨a, ha, hax⟩, b, hb, hxb⟩ | hx)
      · have hla := hmin a ha
        have hbh := hmax b hb
        omega
      · exact ⟨hmin x hx, hmax x hx⟩
    · rintro ⟨hl, hh⟩
      by_cases hx : x ∈ ns
      · exact Or.inr hx
      · have hne : lo ≠ x := fun he => hx (he ▸ hlo)
        have hne' : x ≠ hi := fun he => hx (he ▸ hhi)
        exact Or.inl ⟨hx, ⟨lo, hlo, by omega⟩, hi, hhi, by omega⟩
  have hdisjoint : Disjoint (absent ns) ns.toFinset := by
    rw [Finset.disjoint_left]
    intro x hx hin
    exact ((mem_absent ns x).mp hx).1 (List.mem_toFinset.mp hin)
  have hle := hmin hi hhi
  have hcard := Finset.card_union_of_disjoint hdisjoint
  rw [hunion, Nat.card_Icc] at hcard
  omega

theorem toFinset_card_eq_length (ns : List ℕ) : ns.toFinset.card = ns.length ↔ ns.Nodup := by
  constructor
  · intro h
    rw [List.card_toFinset] at h
    have hself := (List.dedup_sublist ns).eq_of_length h
    rw [← hself]
    exact List.nodup_dedup ns
  · exact List.toFinset_card_of_nodup

theorem late_snoc (ns : List ℕ) (x : ℕ) :
    late (ns ++ [x]) = late ns + if ∃ a ∈ ns, x < a then 1 else 0 := by
  rw [late, late, List.length_append, List.length_singleton, List.range_succ, List.countP_append,
    List.countP_singleton]
  congr 1
  · apply List.countP_congr
    intro i hi
    have hlt : i < ns.length := List.mem_range.mp hi
    rw [List.take_append_of_le_length (by omega), List.getD_append _ _ _ _ hlt]
  · rw [List.take_append_of_le_length (Nat.le_refl _), List.take_length]
    simp

theorem late_of_increasing (ns : List ℕ) (h : ns.Pairwise (· < ·)) : late ns = 0 := by
  induction ns using List.reverseRecOn with
  | nil => rfl
  | append_singleton ns x ih =>
    obtain ⟨hold, _, hlt⟩ := List.pairwise_append.mp h
    have hnone : ¬ ∃ a ∈ ns, x < a := by
      rintro ⟨a, ha, hxa⟩
      have hax := hlt a ha x (List.mem_singleton.mpr rfl)
      omega
    rw [late_snoc, ih hold, if_neg hnone]

/-! ## Counting in one pass -/

/-- The greatest number so far, the two counts, and whether no gap was filled that was not there. -/
structure Tally where
  top : ℕ
  missing : ℕ
  late : ℕ
  sound : Bool

namespace Tally

def step (t : Tally) (x : ℕ) : Tally :=
  if t.top < x then { t with top := x, missing := t.missing + (x - (t.top + 1)) }
  else { t with missing := t.missing - 1, late := t.late + 1, sound := t.sound && t.missing != 0 }

theorem step_up (t : Tally) (x : ℕ) (h : t.top < x) :
    t.step x = ⟨x, t.missing + (x - (t.top + 1)), t.late, t.sound⟩ := by
  rw [step, if_pos h]

theorem step_fill (t : Tally) (x : ℕ) (h : ¬ t.top < x) :
    t.step x = ⟨t.top, t.missing - 1, t.late + 1, t.sound && t.missing != 0⟩ := by
  rw [step, if_neg h]

end Tally

/-- The counts over a list with first number `n`. -/
def tally (n : ℕ) (ns : List ℕ) : Tally := ns.foldl Tally.step ⟨n, 0, 0, true⟩

theorem tally_snoc (n : ℕ) (ns : List ℕ) (x : ℕ) : tally n (ns ++ [x]) = (tally n ns).step x := by
  rw [tally, List.foldl_append]
  rfl

theorem tally_top (n : ℕ) (ns : List ℕ) :
    (tally n ns).top ∈ n :: ns ∧ ∀ x ∈ n :: ns, x ≤ (tally n ns).top := by
  induction ns using List.reverseRecOn with
  | nil => exact ⟨List.mem_singleton.mpr rfl, fun x hx => (List.mem_singleton.mp hx).le⟩
  | append_singleton ns x ih =>
    obtain ⟨hmem, hmax⟩ := ih
    rw [tally_snoc, ← List.cons_append]
    by_cases hup : (tally n ns).top < x
    · rw [Tally.step_up _ x hup]
      refine ⟨List.mem_append_right _ (List.mem_singleton.mpr rfl), ?_⟩
      intro y hy
      obtain hy | hy := List.mem_append.mp hy
      · exact Nat.le_of_lt (Nat.lt_of_le_of_lt (hmax y hy) hup)
      · exact (List.mem_singleton.mp hy).le
    · rw [Tally.step_fill _ x hup]
      refine ⟨List.mem_append_left _ hmem, ?_⟩
      intro y hy
      obtain hy | hy := List.mem_append.mp hy
      · exact hmax y hy
      · rw [List.mem_singleton.mp hy]
        exact Nat.not_lt.mp hup

/-- Every number is taken to lie between the first one and the greatest. -/
theorem tally_balance (n : ℕ) (ns : List ℕ) (h : (tally n ns).sound = true) :
    (tally n ns).missing + ns.length + n = (tally n ns).top := by
  induction ns using List.reverseRecOn with
  | nil => exact Nat.zero_add n
  | append_singleton ns x ih =>
    rw [tally_snoc] at h ⊢
    rw [List.length_append, List.length_singleton]
    by_cases hup : (tally n ns).top < x
    · rw [Tally.step_up _ x hup] at h ⊢
      have hbefore := ih h
      dsimp only
      omega
    · rw [Tally.step_fill _ x hup] at h ⊢
      rw [Bool.and_eq_true, bne_iff_ne] at h
      have hbefore := ih h.1
      have hgap := h.2
      dsimp only
      omega

theorem tally_late_le (n : ℕ) (ns : List ℕ) : (tally n ns).late ≤ ns.length := by
  induction ns using List.reverseRecOn with
  | nil => exact Nat.le_refl 0
  | append_singleton ns x ih =>
    rw [tally_snoc, List.length_append, List.length_singleton]
    by_cases hup : (tally n ns).top < x
    · rw [Tally.step_up _ x hup]
      exact Nat.le_succ_of_le ih
    · rw [Tally.step_fill _ x hup]
      exact Nat.succ_le_succ ih

/-! ## When the counts are right -/

/-- A number below the greatest that did not come yet leaves a gap. -/
theorem tally_gap (n : ℕ) (ns : List ℕ) (x : ℕ) (hfirst : ∀ y ∈ ns, n < y) (hnodup : ns.Nodup)
    (hx : x ∉ ns) (hn : n < x) (hlt : x < (tally n ns).top) (hsound : (tally n ns).sound = true) :
    (tally n ns).missing ≠ 0 := by
  obtain ⟨_, hmax⟩ := tally_top n ns
  -- the numbers so far and `x` are different numbers from `n` to the greatest
  have hsub : (x :: n :: ns).toFinset ⊆ Finset.Icc n (tally n ns).top := by
    intro y hy
    rw [List.mem_toFinset] at hy
    rw [Finset.mem_Icc]
    obtain rfl | hy := List.mem_cons.mp hy
    · omega
    · refine ⟨?_, hmax y hy⟩
      obtain rfl | hy := List.mem_cons.mp hy
      · exact Nat.le_refl _
      · exact Nat.le_of_lt (hfirst y hy)
  have hdistinct : (x :: n :: ns).Nodup := by
    refine List.nodup_cons.mpr ⟨?_, List.nodup_cons.mpr ⟨?_, hnodup⟩⟩
    · intro hin
      obtain rfl | hin := List.mem_cons.mp hin
      · omega
      · exact hx hin
    · intro hin
      exact Nat.lt_irrefl n (hfirst n hin)
  have hcard := Finset.card_le_card hsub
  rw [List.toFinset_card_of_nodup hdistinct, Nat.card_Icc, List.length_cons, List.length_cons] at hcard
  have hbalance := tally_balance n ns hsound
  omega

/-- With the least number first and no number twice, every number below the greatest fills a gap. -/
theorem tally_sound (n : ℕ) (ns : List ℕ) (hfirst : ∀ x ∈ ns, n < x) (hnodup : ns.Nodup) :
    (tally n ns).sound = true ∧ (tally n ns).late = late (n :: ns) := by
  induction ns using List.reverseRecOn with
  | nil => exact ⟨rfl, rfl⟩
  | append_singleton ns x ih =>
    obtain ⟨hold, _, hfresh⟩ := List.nodup_append.mp hnodup
    have hx : x ∉ ns := fun hx => hfresh x hx x (List.mem_singleton.mpr rfl) rfl
    have hn : n < x := hfirst x (List.mem_append_right _ (List.mem_singleton.mpr rfl))
    have hfirst' : ∀ y ∈ ns, n < y := fun y hy => hfirst y (List.mem_append_left _ hy)
    obtain ⟨hsound, hlate⟩ := ih hfirst' hold
    obtain ⟨hmem, hmax⟩ := tally_top n ns
    rw [tally_snoc, ← List.cons_append, late_snoc]
    by_cases hup : (tally n ns).top < x
    · have hnone : ¬ ∃ a ∈ n :: ns, x < a := by
        rintro ⟨a, ha, hxa⟩
        have hle := hmax a ha
        omega
      rw [Tally.step_up _ x hup, if_neg hnone]
      exact ⟨hsound, hlate⟩
    · have hne : (tally n ns).top ≠ x := by
        intro he
        obtain hfst | hrest := List.mem_cons.mp hmem
        · omega
        · exact hx (he ▸ hrest)
      have hsome : ∃ a ∈ n :: ns, x < a := ⟨_, hmem, by omega⟩
      have hgap := tally_gap n ns x hfirst' hold hx hn (by omega) hsound
      rw [Tally.step_fill _ x hup, if_pos hsome]
      refine ⟨?_, ?_⟩
      · rw [Bool.and_eq_true, bne_iff_ne]
        exact ⟨hsound, hgap⟩
      · exact congrArg (· + 1) hlate

/-- The first number is the least one and comes once. -/
theorem first_least_iff (n : ℕ) (ns : List ℕ) :
    ((∀ x ∈ ns, n < x) ∧ ns.Nodup) ↔ (n :: ns).Nodup ∧ ∀ x ∈ n :: ns, n ≤ x := by
  constructor
  · rintro ⟨hfirst, hnodup⟩
    refine ⟨List.nodup_cons.mpr ⟨fun hin => Nat.lt_irrefl n (hfirst n hin), hnodup⟩, ?_⟩
    intro x hx
    obtain rfl | hx := List.mem_cons.mp hx
    · exact Nat.le_refl _
    · exact Nat.le_of_lt (hfirst x hx)
  · rintro ⟨hnodup, hleast⟩
    obtain ⟨hn, hrest⟩ := List.nodup_cons.mp hnodup
    refine ⟨?_, hrest⟩
    intro x hx
    refine Nat.lt_of_le_of_ne (hleast x (List.mem_cons_of_mem _ hx)) ?_
    rintro rfl
    exact hn hx

/-- The counts are right exactly if the first number is the least one and no number comes twice. -/
theorem tally_exact_iff (n : ℕ) (ns : List ℕ) :
    ((tally n ns).sound = true ∧ (tally n ns).missing = (absent (n :: ns)).card ∧
      (tally n ns).late = late (n :: ns)) ↔ (∀ x ∈ ns, n < x) ∧ ns.Nodup := by
  obtain ⟨hmem, hmax⟩ := tally_top n ns
  constructor
  · rintro ⟨hsound, hmissing, _⟩
    obtain ⟨lo, hlo, hmin⟩ := Finset.exists_min_image (n :: ns).toFinset id
      ⟨n, List.mem_toFinset.mpr (List.mem_cons_self ..)⟩
    simp only [List.mem_toFinset, id_eq] at hlo hmin
    have hbalance := tally_balance n ns hsound
    have hcard := absent_card (n :: ns) lo _ hlo hmin hmem hmax
    have hle := List.toFinset_card_le (n :: ns)
    have hlo' := hmin n (List.mem_cons_self ..)
    rw [List.length_cons] at hle
    have hnodup : (n :: ns).Nodup := by
      rw [← toFinset_card_eq_length, List.length_cons]
      omega
    have hleast : lo = n := by omega
    exact (first_least_iff n ns).mpr ⟨hnodup, hleast ▸ hmin⟩
  · rintro ⟨hfirst, hnodup⟩
    obtain ⟨hsound, hlate⟩ := tally_sound n ns hfirst hnodup
    have hbalance := tally_balance n ns hsound
    obtain ⟨hdistinct, hmin⟩ := (first_least_iff n ns).mp ⟨hfirst, hnodup⟩
    have hcard := absent_card (n :: ns) n _ (List.mem_cons_self ..) hmin hmem hmax
    rw [List.toFinset_card_of_nodup hdistinct, List.length_cons] at hcard
    exact ⟨hsound, by omega, hlate⟩

end DpdkTools.GapCount
