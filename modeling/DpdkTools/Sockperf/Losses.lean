import DpdkTools.Lib.GapCount
import DpdkTools.Sockperf.Process

/-! Lost and reordered packets, as `statistics::process` counts them for each queue.

The counts of a queue are those of `tally` over the numbers recorded for it. They are what they are
meant to be only if the lowest number of the queue came first and none came twice: an earlier number,
and a copy of the highest one, are taken for packets that had been missing. -/
namespace DpdkTools.Sockperf
open GapCount
set_option autoImplicit false

namespace Statistics

/-- The numbers recorded for a queue, in the order they came in. -/
def numbersOf (s : Statistics) (n q : ℕ) : List ℕ :=
  (List.range n).filterMap fun i => if s.queueOf i = q then some (s.seqnOf i).toNat else none

theorem numbersOf_succ (s : Statistics) (n q : ℕ) :
    s.numbersOf (n + 1) q =
      s.numbersOf n q ++ if s.queueOf n = q then [(s.seqnOf n).toNat] else [] := by
  rw [numbersOf, List.range_succ, List.filterMap_append, numbersOf]
  congr 1
  split_ifs with h
  · simp [h]
  · simp [h]

theorem numbersOf_length (s : Statistics) (n q : ℕ) : (s.numbersOf n q).length ≤ n := by
  have hle := List.length_filterMap_le
    (fun i => if s.queueOf i = q then some (s.seqnOf i).toNat else none) (List.range n)
  rw [List.length_range] at hle
  exact hle

theorem exists_of_numbersOf (s : Statistics) (n q : ℕ) (h : s.numbersOf n q ≠ []) :
    ∃ i < n, s.queueOf i = q := by
  obtain ⟨x, hx⟩ := List.exists_mem_of_ne_nil _ h
  obtain ⟨i, hi, hsome⟩ := List.mem_filterMap.mp hx
  refine ⟨i, List.mem_range.mp hi, ?_⟩
  by_contra hq
  rw [if_neg hq] at hsome
  exact absurd hsome (by simp)

theorem seqnOf_lt (s : Statistics) (i : ℕ) : (s.seqnOf i).toNat < 2 ^ 28 := by
  rw [seqnOf, splitSeqn_snd_toNat]
  exact Nat.mod_lt _ (by decide)

/-- The counts of a queue and the tally of its numbers. -/
structure Tracks (s : Statistics) (r : PerQueue) (t : Tally) : Prop where
  prev : r.prev ≠ notSet
  top : (s.seqnOf r.prev).toNat = t.top
  late : r.outOfSequence.toNat = t.late
  sound : r.asserted = t.sound
  missing : t.sound = true → r.missing.toNat = t.missing

theorem tracks_first (s : Statistics) (i : ℕ) (hi : i < notSet) :
    s.Tracks (s.bump i {}) (tally (s.seqnOf i).toNat []) := by
  have hbump : s.bump i {} = { prev := i } := if_pos rfl
  rw [hbump]
  exact ⟨Nat.ne_of_lt hi, rfl, rfl, rfl, fun _ => rfl⟩

section Record
variable (s : Statistics) (i : ℕ) (hi : i < notSet) (r : PerQueue) (n : ℕ) (ns : List ℕ)
  (hn : ∀ x ∈ n :: ns, x < 2 ^ 28) (h : s.Tracks r (tally n ns))
include hn h

theorem expected_toNat : (s.seqnOf r.prev + 1).toNat = (tally n ns).top + 1 := by
  have htop := hn _ (tally_top n ns).1
  have hone : (1 : UInt64).toNat = 1 := rfl
  rw [UInt64.toNat_add, h.top, hone]
  omega

include hi in
/-- A record above the highest one. -/
theorem tracks_up (hup : (tally n ns).top < (s.seqnOf i).toNat) :
    s.Tracks (s.bump i r) ((tally n ns).step (s.seqnOf i).toNat) := by
  have hexpected := expected_toNat s r n ns hn h
  rw [bump, if_neg h.prev, PerQueue.count, Tally.step_up _ _ hup]
  by_cases hnext : s.seqnOf r.prev + 1 = s.seqnOf i
  · have hgap : (s.seqnOf i).toNat - ((tally n ns).top + 1) = 0 := by
      rw [← hnext, hexpected]
      omega
    rw [if_neg (not_not.mpr hnext), hgap]
    exact ⟨Nat.ne_of_lt hi, rfl, h.late, h.sound, h.missing⟩
  · have hlt : s.seqnOf r.prev + 1 < s.seqnOf i := by
      have hne : (s.seqnOf r.prev + 1).toNat ≠ (s.seqnOf i).toNat :=
        fun he => hnext (UInt64.toNat_inj.mp he)
      rw [UInt64.lt_iff_toNat_lt]
      omega
    rw [if_pos hnext, if_pos hlt]
    refine ⟨Nat.ne_of_lt hi, rfl, h.late, h.sound, ?_⟩
    intro hsound
    -- all that is missing lies below the new number, so the counter does not wrap around
    have hbalance := tally_balance n ns hsound
    have hseqn := s.seqnOf_lt i
    have hle := UInt64.le_iff_toNat_le.mpr (Nat.le_of_lt (UInt64.lt_iff_toNat_lt.mp hlt))
    change (r.missing + (s.seqnOf i - (s.seqnOf r.prev + 1))).toNat = _
    rw [UInt64.toNat_add, UInt64.toNat_sub_of_le _ _ hle, hexpected, h.missing hsound,
      Nat.mod_eq_of_lt (by omega)]

include hi in
/-- A record that does not go above the highest one. -/
theorem tracks_fill (hlen : ns.length < i) (hup : ¬ (tally n ns).top < (s.seqnOf i).toNat) :
    s.Tracks (s.bump i r) ((tally n ns).step (s.seqnOf i).toNat) := by
  have hset : notSet = 2 ^ 64 - 1 := rfl
  have hone : (1 : UInt64).toNat = 1 := rfl
  have hexpected := expected_toNat s r n ns hn h
  have hlt : s.seqnOf i < s.seqnOf r.prev + 1 := by
    rw [UInt64.lt_iff_toNat_lt]
    omega
  have hne : s.seqnOf r.prev + 1 ≠ s.seqnOf i := (UInt64.ne_of_lt hlt).symm
  have hzero : (tally n ns).sound = true → (r.missing ≠ 0 ↔ (tally n ns).missing ≠ 0) := by
    intro hsound
    rw [← h.missing hsound, ne_eq, ← UInt64.toNat_inj]
    rfl
  rw [bump, if_neg h.prev, PerQueue.count, Tally.step_fill _ _ hup, if_pos hne,
    if_neg (UInt64.lt_asymm hlt)]
  refine ⟨h.prev, h.top, ?_, ?_, ?_⟩
  · have hlate := tally_late_le n ns
    change (r.outOfSequence + 1).toNat = _
    rw [UInt64.toNat_add, h.late, hone, Nat.mod_eq_of_lt (by omega)]
  · change (r.asserted && r.missing != 0) = ((tally n ns).sound && (tally n ns).missing != 0)
    rw [h.sound]
    cases hsound : (tally n ns).sound with
    | false => rfl
    | true =>
      rw [Bool.true_and, Bool.true_and, Bool.eq_iff_iff, bne_iff_ne, bne_iff_ne]
      exact hzero hsound
  · intro hboth
    change ((tally n ns).sound && (tally n ns).missing != 0) = true at hboth
    rw [Bool.and_eq_true, bne_iff_ne] at hboth
    have hmissing := h.missing hboth.1
    have hgap := hboth.2
    change (r.missing - 1).toNat = (tally n ns).missing - 1
    rw [UInt64.toNat_sub_of_le _ _ (UInt64.le_iff_toNat_le.mpr (by omega)), hmissing, hone]

include hi in
theorem tracks_bump (hlen : ns.length < i) :
    s.Tracks (s.bump i r) (tally n (ns ++ [(s.seqnOf i).toNat])) := by
  rw [tally_snoc]
  by_cases hup : (tally n ns).top < (s.seqnOf i).toNat
  · exact tracks_up s i hi r n ns hn h hup
  · exact tracks_fill s i hi r n ns hn h hlen hup

end Record

/-! ## Over the loop -/

/-- A queue without records has its initial counts, every other one those of its numbers. -/
def Counts (s : Statistics) (r : PerQueue) : List ℕ → Prop
  | [] => r = {}
  | n :: ns => s.Tracks r (tally n ns)

theorem evaluated_counts (s : Statistics) (timestamps : SendTables) (n q : ℕ) (hn : n ≤ notSet)
    (hq : q < s.txqN.toNat) :
    s.Counts ((s.evaluated timestamps n).stats.getD q {}) (s.numbersOf n q) := by
  induction n with
  | zero =>
    change (List.replicate s.txqN.toNat ({} : PerQueue)).getD q {} = {}
    rw [List.getD_eq_getElem?_getD, List.getElem?_replicate, if_pos hq]
    rfl
  | succ n ih =>
    have hcounts := ih (Nat.le_of_succ_le hn)
    have hlength := (s.remembers_evaluated timestamps n (Nat.le_of_succ_le hn)).length
    rw [evaluated_succ, evaluate_stats, numbersOf_succ]
    by_cases hqueue : s.queueOf n = q
    · rw [getD_modify _ _ _ _ (by omega), if_pos hqueue, if_pos hqueue]
      have hlen := s.numbersOf_length n q
      have hsmall : ∀ x ∈ s.numbersOf n q, x < 2 ^ 28 := by
        intro x hx
        obtain ⟨i, _, hi⟩ := List.mem_filterMap.mp hx
        split_ifs at hi
        rw [← Option.some.inj hi]
        exact s.seqnOf_lt i
      cases hnumbers : s.numbersOf n q with
      | nil =>
        rw [hnumbers] at hcounts
        rw [show (s.evaluated timestamps n).stats.getD q {} = {} from hcounts]
        exact s.tracks_first n hn
      | cons m ms =>
        rw [hnumbers] at hcounts hlen hsmall
        exact tracks_bump s n hn _ m ms hsmall hcounts hlen
    · rw [if_neg hqueue, List.append_nil]
      by_cases hin : s.queueOf n < (s.evaluated timestamps n).stats.length
      · rw [getD_modify _ _ _ _ hin, if_neg hqueue]
        exact hcounts
      · rw [List.modify_eq_self (by omega)]
        exact hcounts

/-! ## What the counts are meant to be -/

/-- The counts of a queue after `process`: the numbers between its lowest and its highest one that
were not recorded, the records below an earlier one, and no decrement at 0. -/
structure Accounted (s : Statistics) (timestamps : SendTables) (q : ℕ) : Prop where
  missing : ((s.process timestamps).stats.getD q {}).missing.toNat =
    (absent (s.numbersOf s.collectedPackets q)).card
  out_of_sequence : ((s.process timestamps).stats.getD q {}).outOfSequence.toNat =
    late (s.numbersOf s.collectedPackets q)
  asserted : ((s.process timestamps).stats.getD q {}).asserted = true

theorem process_eq_evaluated (s : Statistics) (timestamps : SendTables) (h : 2 < s.collectedPackets) :
    (s.process timestamps).stats = (s.evaluated timestamps s.collectedPackets).stats ∧
      (s.process timestamps).rtts = (s.evaluated timestamps s.collectedPackets).rtts := by
  rw [process.eq_def, if_neg (by omega)]
  exact ⟨rfl, rfl⟩

theorem process_reports (s : Statistics) (timestamps : SendTables) (h : 2 < s.collectedPackets) :
    (s.process timestamps).reports =
      (s.evaluated timestamps s.collectedPackets).stats.map s.report := by
  rw [process.eq_def, if_neg (by omega)]
  rfl

/-- Without the loop there is nothing to account for; after it, the counts are right exactly if the
first number of the queue is its lowest and none is recorded twice. -/
theorem accounted_iff (s : Statistics) (timestamps : SendTables) (q : ℕ) (hq : q < s.txqN.toNat) :
    (s.collectedPackets ≤ 2 ∨ s.Accounted timestamps q) ↔
      s.collectedPackets ≤ 2 ∨ (s.numbersOf s.collectedPackets q).Nodup ∧
        ∀ x ∈ s.numbersOf s.collectedPackets q, (s.numbersOf s.collectedPackets q).headD 0 ≤ x := by
  by_cases hfew : s.collectedPackets ≤ 2
  · exact iff_of_true (Or.inl hfew) (Or.inl hfew)
  rw [or_iff_right hfew, or_iff_right hfew]
  have hcounts := s.evaluated_counts timestamps s.collectedPackets q (s.collectedPackets_le).2 hq
  have hloop := (s.process_eq_evaluated timestamps (Nat.lt_of_not_le hfew)).1
  have hsplit : s.Accounted timestamps q ↔
      ((s.evaluated timestamps s.collectedPackets).stats.getD q {}).missing.toNat =
        (absent (s.numbersOf s.collectedPackets q)).card ∧
      ((s.evaluated timestamps s.collectedPackets).stats.getD q {}).outOfSequence.toNat =
        late (s.numbersOf s.collectedPackets q) ∧
      ((s.evaluated timestamps s.collectedPackets).stats.getD q {}).asserted = true := by
    rw [← hloop]
    exact ⟨fun h => ⟨h.missing, h.out_of_sequence, h.asserted⟩, fun h => ⟨h.1, h.2.1, h.2.2⟩⟩
  rw [hsplit]
  cases hnumbers : s.numbersOf s.collectedPackets q with
  | nil =>
    rw [hnumbers] at hcounts
    rw [show (s.evaluated timestamps s.collectedPackets).stats.getD q {} = {} from hcounts]
    exact iff_of_true ⟨rfl, rfl, rfl⟩ ⟨List.nodup_nil, fun x hx => absurd hx List.not_mem_nil⟩
  | cons n ns =>
    rw [hnumbers] at hcounts
    have htracks : s.Tracks _ (tally n ns) := hcounts
    rw [htracks.late, htracks.sound]
    have hexact := tally_exact_iff n ns
    constructor
    · rintro ⟨hmissing, hlate, hsound⟩
      rw [htracks.missing hsound] at hmissing
      exact (first_least_iff n ns).mp (hexact.mp ⟨hsound, hmissing, hlate⟩)
    · intro hleast
      obtain ⟨hsound, hmissing, hlate⟩ := hexact.mpr ((first_least_iff n ns).mpr hleast)
      exact ⟨by rw [htracks.missing hsound, hmissing], hlate, hsound⟩

/-- Records of one queue with the numbers of a list. -/
def recordsOf (numbers : List SeqnT) : Statistics :=
  ⟨1, UInt64.ofNat numbers.length, UInt64.ofNat numbers.length, fun i => ⟨numbers.getD i 0, 0, 0, 0⟩⟩

theorem recordsOf_accounted :
    (recordsOf [2, 5, 3]).collectedPackets ≤ 2 ∨ (recordsOf [2, 5, 3]).Accounted [[(1, 50)]] 0 :=
  (accounted_iff (recordsOf [2, 5, 3]) [[(1, 50)]] 0 (by decide)).mpr (Or.inr (by decide))

/-- The first two packets change places: the one that comes late is subtracted from nothing. -/
theorem late_first_underflows :
    ((recordsOf [3, 2, 4]).process [[(1, 50)]]).stats.map (·.missing) = [0xffffffffffffffff] ∧
      ¬ ((recordsOf [3, 2, 4]).collectedPackets ≤ 2 ∨
        (recordsOf [3, 2, 4]).Accounted [[(1, 50)]] 0) := by
  refine ⟨by decide, ?_⟩
  rintro (hfew | h)
  · exact absurd hfew (by decide)
  · exact absurd h.asserted (by decide)

end Statistics

end DpdkTools.Sockperf
