import DpdkTools.Sockperf.Channel
import DpdkTools.Sockperf.Timestamps

/-! The evaluation of the recorded packets: `statistics::process` (`sockperf_cli/stats.cpp`).

The numbers of the records come from the network. The loop looks the send time of each up in the
table of its queue, keeps a count of missing and of out-of-sequence packets for every queue, and
remembers by its index the record with the highest number. What is written to the log is left out;
the samples of the two histograms are kept as lists.

Reads of the containers are noted in a log of their own. An index outside of a container reads
nothing in C++; in the loop some value stands for it here, and the log tells. A queue without a
record has no report: what would be reported is read at `data()[not_set]`. Assertions are compiled
out, and the one about `missing` is noted too. -/
namespace DpdkTools.Sockperf
set_option autoImplicit false

/-! ## State -/

/-- `not_set`, the greatest `size_type`. -/
def notSet : ℕ := 2 ^ 64 - 1

/-- `per_queue`, and whether `assert(stats[queue].missing != 0)` held whenever it was reached. -/
structure PerQueue where
  outOfSequence : UInt64 := 0
  missing : UInt64 := 0
  prev : ℕ := notSet
  asserted : Bool := true

instance : Inhabited PerQueue := ⟨{}⟩

/-- The indexed reads of `process`. `found queue ts` is the read at `std::prev(ts)`, `before i` the
one at `data()[i - 1]`. -/
inductive Access where
  | timestamps (queue : ℕ)
  | stats (queue : ℕ)
  | data (i : ℕ)
  | before (i : ℕ)
  | found (queue ts : ℕ)
  deriving Repr, DecidableEq

/-- What is reported of a queue: the number of its last packet and its counts. -/
structure QueueReport where
  expected : SeqnT
  missing : UInt64
  outOfSequence : UInt64
  deriving Repr, DecidableEq

structure Evaluation where
  stats : List PerQueue
  first : ℤ
  last : ℕ
  rtts : List UInt64
  p2ps : List UInt64
  reports : List (Option QueueReport)
  log : List Access

abbrev SendTables := List (List (SeqnT × UInt64))

def Evaluation.reads (e : Evaluation) (log : List Access) : Evaluation := { e with log := e.log ++ log }

/-! ## The loop -/

/-- What a record does to the counts of its queue. -/
def PerQueue.count (q : PerQueue) (i : ℕ) (seqn expected : SeqnT) : PerQueue :=
  if expected ≠ seqn then
    if expected < seqn then { q with missing := q.missing + (seqn - expected), prev := i }
    else
      { q with
        outOfSequence := q.outOfSequence + 1
        missing := q.missing - 1
        asserted := q.asserted && q.missing != 0 }
  else { q with prev := i }

namespace Statistics

def queueOf (s : Statistics) (i : ℕ) : ℕ := (splitSeqn (s.memory i).seqn).1.toNat

def seqnOf (s : Statistics) (i : ℕ) : SeqnT := (splitSeqn (s.memory i).seqn).2

def collectedPackets (s : Statistics) : ℕ := min s.requestedSlots.toNat s.size.toNat

/-- One round of the loop. `first` is an `int`. -/
def evaluate (s : Statistics) (timestamps : SendTables) (e : Evaluation) (i : ℕ) : Evaluation :=
  let info := s.memory i
  let queue := s.queueOf i
  let seqn := s.seqnOf i
  let e := e.reads [.data i]
  if e.stats.length < queue then e
  else
    let table := timestamps.getD queue []
    let ts := upperBound table (seqn - 1)
    let sent := ((table[ts - 1]?).map Prod.snd).getD 0
    let e := { e with
      rtts := e.rtts ++ [info.enqueuedRx - sent]
      first := if (s.memory e.first.toNat).received > info.received then Int.bmod i (2 ^ 32) else e.first
      last := if (s.memory e.last).received < info.received then i else e.last }
    let e := e.reads [.timestamps queue, .found queue ts, .stats queue]
    let q := e.stats.getD queue {}
    if q.prev = notSet then { e with stats := e.stats.set queue { q with prev := i } }
    else
      let expected := s.seqnOf q.prev + 1
      let e := { e with
        stats := e.stats.set queue (q.count i seqn expected)
        p2ps := e.p2ps ++ [info.received - (s.memory (i - 1)).received] }
      e.reads [.data q.prev, .before i]

def start (s : Statistics) : Evaluation where
  stats := List.replicate s.txqN.toNat {}
  first := 0
  last := s.collectedPackets - 1
  rtts := []
  p2ps := []
  reports := []
  log := []

/-- The loop over the first `n` records. -/
def evaluated (s : Statistics) (timestamps : SendTables) (n : ℕ) : Evaluation :=
  (List.range n).foldl (s.evaluate timestamps) s.start

/-- `none` where the queue has no record, so that its `prev` is not set. -/
def report (s : Statistics) (q : PerQueue) : Option QueueReport :=
  if q.prev = notSet then none
  else some ⟨s.seqnOf q.prev, q.missing, q.outOfSequence⟩

/-- `process`: with two records or less there is no loop. At the end the counts of every queue are
reported along with the number of its last packet. -/
def process (s : Statistics) (timestamps : SendTables) : Evaluation :=
  if s.collectedPackets ≤ 2 then s.start
  else
    let e := s.evaluated timestamps s.collectedPackets
    let e := { e with reports := e.stats.map s.report }
    let e := e.reads ((List.range e.stats.length).flatMap fun queue =>
      [.stats queue, .data (e.stats.getD queue {}).prev])
    e.reads [.data 0]

/-! ## One round -/

/-- The counts of the queue of record `i` after it. -/
def bump (s : Statistics) (i : ℕ) (q : PerQueue) : PerQueue :=
  if q.prev = notSet then { q with prev := i }
  else q.count i (s.seqnOf i) (s.seqnOf q.prev + 1)

/-- The reads of one round, with the counts `q` of its queue. -/
def readsOf (s : Statistics) (timestamps : SendTables) (i : ℕ) (q : PerQueue) : List Access :=
  [.timestamps (s.queueOf i),
    .found (s.queueOf i) (upperBound (timestamps.getD (s.queueOf i) []) (s.seqnOf i - 1)),
    .stats (s.queueOf i)] ++ if q.prev = notSet then [] else [.data q.prev, .before i]

section Rounds
variable (s : Statistics) (timestamps : SendTables) (e : Evaluation) (i : ℕ)

theorem evaluate_stats :
    (s.evaluate timestamps e i).stats = e.stats.modify (s.queueOf i) (s.bump i) := by
  unfold evaluate
  dsimp only [Evaluation.reads]
  by_cases hfar : e.stats.length < s.queueOf i
  · rw [if_pos hfar, List.modify_eq_self (by omega)]
  · rw [if_neg hfar]
    have hset : e.stats.modify (s.queueOf i) (s.bump i) =
        e.stats.set (s.queueOf i) (s.bump i (e.stats.getD (s.queueOf i) {})) := by
      rw [List.modify_eq_set, List.getD_eq_getElem?_getD]
      rfl
    rw [hset, bump]
    by_cases hprev : (e.stats.getD (s.queueOf i) {}).prev = notSet
    · rw [if_pos hprev, if_pos hprev]
    · rw [if_neg hprev, if_neg hprev]

theorem evaluate_log :
    (s.evaluate timestamps e i).log = e.log ++ .data i ::
      if e.stats.length < s.queueOf i then []
      else s.readsOf timestamps i (e.stats.getD (s.queueOf i) {}) := by
  unfold evaluate readsOf
  dsimp only [Evaluation.reads]
  by_cases hfar : e.stats.length < s.queueOf i
  · rw [if_pos hfar, if_pos hfar]
  · rw [if_neg hfar, if_neg hfar]
    by_cases hprev : (e.stats.getD (s.queueOf i) {}).prev = notSet
    · rw [if_pos hprev, if_pos hprev]
      simp
    · rw [if_neg hprev, if_neg hprev]
      simp

end Rounds

theorem evaluated_succ (s : Statistics) (timestamps : SendTables) (n : ℕ) :
    s.evaluated timestamps (n + 1) = s.evaluate timestamps (s.evaluated timestamps n) n := by
  rw [evaluated, List.range_succ, List.foldl_append]
  rfl

/-! ## The records remembered -/

theorem bump_prev (s : Statistics) (i : ℕ) (q : PerQueue) :
    (s.bump i q).prev = i ∨ (s.bump i q).prev = q.prev ∧ q.prev ≠ notSet := by
  unfold bump
  by_cases hprev : q.prev = notSet
  · rw [if_pos hprev]
    exact Or.inl rfl
  · rw [if_neg hprev]
    unfold PerQueue.count
    split_ifs
    · exact Or.inl rfl
    · exact Or.inr ⟨rfl, hprev⟩
    · exact Or.inl rfl

theorem getD_modify (l : List PerQueue) (k q : ℕ) (f : PerQueue → PerQueue) (hk : k < l.length) :
    (l.modify k f).getD q {} = if k = q then f (l.getD q {}) else l.getD q {} := by
  rw [List.getD_eq_getElem?_getD, List.getD_eq_getElem?_getD, List.getElem?_modify]
  by_cases hq : k = q
  · subst hq
    simp [List.getElem?_eq_getElem hk]
  · simp [hq]

/-- After `n` rounds a queue remembers one of its records, if it has any. -/
structure Remembers (s : Statistics) (e : Evaluation) (n : ℕ) : Prop where
  length : e.stats.length = s.txqN.toNat
  prev_lt : ∀ q, (e.stats.getD q {}).prev ≠ notSet → (e.stats.getD q {}).prev < n
  seen : ∀ q < s.txqN.toNat, (e.stats.getD q {}).prev ≠ notSet ↔ ∃ i < n, s.queueOf i = q

theorem remembers_start (s : Statistics) : s.Remembers s.start 0 := by
  have hprev : ∀ q, (s.start.stats.getD q {}).prev = notSet := by
    intro q
    rw [start, List.getD_eq_getElem?_getD, List.getElem?_replicate]
    split_ifs
    · rfl
    · rfl
  refine ⟨List.length_replicate, ?_, ?_⟩
  · intro q h
    exact absurd (hprev q) h
  · intro q _
    refine iff_of_false (fun h => h (hprev q)) ?_
    rintro ⟨i, hi, _⟩
    exact absurd hi (Nat.not_lt_zero i)

theorem remembers_evaluate (s : Statistics) (timestamps : SendTables) (e : Evaluation) (n : ℕ)
    (hn : n < notSet) (h : s.Remembers e n) : s.Remembers (s.evaluate timestamps e n) (n + 1) := by
  have hlast : ∀ q, (∃ i < n + 1, s.queueOf i = q) ↔ (∃ i < n, s.queueOf i = q) ∨ s.queueOf n = q := by
    intro q
    constructor
    · rintro ⟨i, hi, hq⟩
      obtain hlt | rfl := Nat.lt_succ_iff_lt_or_eq.mp hi
      · exact Or.inl ⟨i, hlt, hq⟩
      · exact Or.inr hq
    · rintro (⟨i, hi, hq⟩ | hq)
      · exact ⟨i, Nat.lt_succ_of_lt hi, hq⟩
      · exact ⟨n, Nat.lt_succ_self n, hq⟩
  by_cases hqueue : s.queueOf n < e.stats.length
  · have hget := fun q => getD_modify e.stats (s.queueOf n) q (s.bump n) hqueue
    refine ⟨?_, ?_, ?_⟩
    · rw [evaluate_stats, List.length_modify]
      exact h.length
    · intro q hset
      rw [evaluate_stats, hget] at hset ⊢
      split_ifs at hset ⊢ with hq
      · obtain hnew | ⟨hold, hne⟩ := s.bump_prev n (e.stats.getD q {})
        · omega
        · have hlt := h.prev_lt q hne
          omega
      · exact Nat.lt_succ_of_lt (h.prev_lt q hset)
    · intro q hq
      rw [evaluate_stats, hget, hlast]
      by_cases he : s.queueOf n = q
      · rw [if_pos he]
        refine iff_of_true ?_ (Or.inr he)
        obtain hnew | ⟨hold, hne⟩ := s.bump_prev n (e.stats.getD q {})
        · omega
        · omega
      · rw [if_neg he, h.seen q hq, or_iff_left he]
  · have hsame : (s.evaluate timestamps e n).stats = e.stats := by
      rw [evaluate_stats, List.modify_eq_self (by omega)]
    refine ⟨?_, ?_, ?_⟩
    · rw [hsame]
      exact h.length
    · intro q hset
      rw [hsame] at hset ⊢
      exact Nat.lt_succ_of_lt (h.prev_lt q hset)
    · intro q hq
      have he : s.queueOf n ≠ q := by
        have hlen := h.length
        omega
      rw [hsame, hlast, or_iff_left he]
      exact h.seen q hq

theorem remembers_evaluated (s : Statistics) (timestamps : SendTables) (n : ℕ) (hn : n ≤ notSet) :
    s.Remembers (s.evaluated timestamps n) n := by
  induction n with
  | zero => exact s.remembers_start
  | succ n ih =>
    rw [evaluated_succ]
    exact s.remembers_evaluate timestamps _ n hn (ih (by omega))

theorem collectedPackets_le (s : Statistics) :
    s.collectedPackets ≤ s.size.toNat ∧ s.collectedPackets ≤ notSet := by
  have hsize : s.size.toNat < 2 ^ 64 := s.size.toNat_lt
  have hmin := Nat.min_le_right s.requestedSlots.toNat s.size.toNat
  refine ⟨hmin, Nat.le_trans hmin ?_⟩
  unfold notSet
  omega

/-! ## Reads inside the containers -/

/-- The read stays inside its container; `std::prev` of the upper bound needs an entry before it. -/
def Inside (s : Statistics) (timestamps : SendTables) : Access → Prop
  | .timestamps queue => queue < timestamps.length
  | .stats queue => queue < s.txqN.toNat
  | .data i => i < s.size.toNat
  | .before i => 1 ≤ i ∧ i - 1 < s.size.toNat
  | .found queue ts => 1 ≤ ts ∧ ts ≤ (timestamps.getD queue []).length

/-- Record `i` is from no queue behind the last one by exactly one, and not from before the first
entry of the table of its queue. -/
structure Attributable (s : Statistics) (timestamps : SendTables) (i : ℕ) : Prop where
  queue : s.queueOf i ≠ s.txqN.toNat
  sent : s.queueOf i < s.txqN.toNat → ∃ entry,
    (timestamps.getD (s.queueOf i) []).head? = some entry ∧ entry.1 ≤ s.seqnOf i - 1

end Statistics

theorem upperBound_inside (table : List (SeqnT × UInt64)) (value : SeqnT) (h : table ≠ []) :
    (1 ≤ upperBound table value ∧ upperBound table value ≤ table.length) ↔
      ∃ entry, table.head? = some entry ∧ entry.1 ≤ value := by
  cases table with
  | nil => exact absurd rfl h
  | cons entry table =>
    have hle : upperBound (entry :: table) value ≤ (entry :: table).length := List.findIdx_le_length
    rw [and_iff_left hle, upperBound, List.findIdx_cons]
    simp only [List.head?_cons, Option.some.injEq]
    constructor
    · intro hpos
      refine ⟨entry, rfl, ?_⟩
      by_contra hlt
      rw [decide_eq_true (UInt64.not_le.mp hlt)] at hpos
      exact absurd hpos (Nat.not_succ_le_zero 0)
    · rintro ⟨entry', rfl, hle⟩
      rw [decide_eq_false (UInt64.not_lt.mpr hle)]
      exact Nat.succ_le_succ (Nat.zero_le _)

namespace Statistics

section Bounds
variable (s : Statistics) (timestamps : SendTables)

/-- What a round reads is inside exactly if its record can be attributed. -/
theorem evaluate_inside (hlen : timestamps.length = s.txqN.toNat) (hne : ∀ t ∈ timestamps, t ≠ [])
    (e : Evaluation) (i : ℕ) (hi : i < s.collectedPackets) (hr : s.Remembers e i) :
    (∀ a ∈ (s.evaluate timestamps e i).log, s.Inside timestamps a) ↔
      (∀ a ∈ e.log, s.Inside timestamps a) ∧ s.Attributable timestamps i := by
  have hsize := (s.collectedPackets_le).1
  rw [evaluate_log, List.forall_mem_append, List.forall_mem_cons]
  have hdata : s.Inside timestamps (.data i) := Nat.lt_of_lt_of_le hi hsize
  rw [and_iff_right hdata]
  refine and_congr_right fun _ => ?_
  obtain hlt | heq | hgt := Nat.lt_trichotomy (s.queueOf i) s.txqN.toNat
  · rw [if_neg (by rw [hr.length]; omega), readsOf]
    have htable : timestamps.getD (s.queueOf i) [] ≠ [] := by
      rw [List.getD_eq_getElem _ _ (by omega)]
      exact hne _ (List.getElem_mem _)
    have hrest : ∀ a ∈ (if (e.stats.getD (s.queueOf i) {}).prev = notSet then []
        else [Access.data (e.stats.getD (s.queueOf i) {}).prev, .before i]), s.Inside timestamps a := by
      by_cases hprev : (e.stats.getD (s.queueOf i) {}).prev = notSet
      · rw [if_pos hprev]
        simp
      · rw [if_neg hprev]
        have hbefore := hr.prev_lt _ hprev
        simp only [List.forall_mem_cons, Inside]
        exact ⟨by omega, ⟨by omega, by omega⟩, by simp⟩
    simp only [List.forall_mem_append, List.forall_mem_cons]
    rw [and_iff_left hrest]
    constructor
    · rintro ⟨_, hfound, _⟩
      exact ⟨by omega, fun _ => (upperBound_inside _ _ htable).mp hfound⟩
    · intro hatt
      exact ⟨by rw [Inside]; omega, (upperBound_inside _ _ htable).mpr (hatt.sent hlt), hlt, by simp⟩
  · -- the guard lets the queue right behind the last one pass
    rw [if_neg (by rw [hr.length]; omega), readsOf]
    refine iff_of_false ?_ (fun hatt => hatt.queue heq)
    intro hall
    have hfirst : s.queueOf i < timestamps.length := hall _ (List.mem_append_left _ (List.mem_cons_self ..))
    omega
  · rw [if_pos (by rw [hr.length]; omega)]
    exact iff_of_true (by simp) ⟨by omega, fun hlt => by omega⟩

theorem evaluated_inside (hlen : timestamps.length = s.txqN.toNat) (hne : ∀ t ∈ timestamps, t ≠ [])
    (n : ℕ) (hn : n ≤ s.collectedPackets) :
    (∀ a ∈ (s.evaluated timestamps n).log, s.Inside timestamps a) ↔
      ∀ i < n, s.Attributable timestamps i := by
  have hset := (s.collectedPackets_le).2
  induction n with
  | zero =>
    refine iff_of_true (fun a ha => absurd ha List.not_mem_nil) ?_
    intro i hi
    exact absurd hi (Nat.not_lt_zero i)
  | succ n ih =>
    have hr := s.remembers_evaluated timestamps n (by omega)
    have hbefore := ih (Nat.le_of_succ_le hn)
    rw [evaluated_succ, evaluate_inside s timestamps hlen hne _ n hn hr]
    constructor
    · rintro ⟨hin, hlast⟩ i hi
      obtain hlt | rfl := Nat.lt_succ_iff_lt_or_eq.mp hi
      · exact hbefore.mp hin i hlt
      · exact hlast
    · intro h
      exact ⟨hbefore.mpr fun i hi => h i (Nat.lt_succ_of_lt hi), h n (Nat.lt_succ_self n)⟩

/-- The reads of the reports are inside exactly if every queue has a record. -/
theorem reported_inside (e : Evaluation) (hr : s.Remembers e s.collectedPackets) :
    (∀ a ∈ (List.range e.stats.length).flatMap fun queue =>
        [.stats queue, .data (e.stats.getD queue {}).prev], s.Inside timestamps a) ↔
      ∀ q < s.txqN.toNat, ∃ i < s.collectedPackets, s.queueOf i = q := by
  obtain ⟨hsize, -⟩ := s.collectedPackets_le
  simp only [hr.length, List.mem_flatMap, List.mem_range]
  constructor
  · intro hall q hq
    rw [← hr.seen q hq]
    intro hprev
    have hread : s.Inside timestamps (.data notSet) := hall _ ⟨q, hq, by rw [hprev]; simp⟩
    have hlt : s.size.toNat < 2 ^ 64 := s.size.toNat_lt
    have hread' : 2 ^ 64 - 1 < s.size.toNat := hread
    omega
  · rintro hall a ⟨q, hq, ha⟩
    have hprev := hr.prev_lt q ((hr.seen q hq).mpr (hall q hq))
    obtain rfl | ha := List.mem_cons.mp ha
    · exact hq
    · obtain rfl := List.mem_singleton.mp ha
      exact Nat.lt_of_lt_of_le hprev hsize

/-- Behind the loop only the reports can read outside. -/
theorem process_log_inside (hmany : 2 < s.collectedPackets) :
    (∀ a ∈ (s.process timestamps).log, s.Inside timestamps a) ↔
      (∀ a ∈ (s.evaluated timestamps s.collectedPackets).log, s.Inside timestamps a) ∧
        ∀ q < s.txqN.toNat, ∃ i < s.collectedPackets, s.queueOf i = q := by
  obtain ⟨hsize, hset⟩ := s.collectedPackets_le
  have hfirst : s.Inside timestamps (.data 0) := by
    rw [Inside]
    omega
  rw [process.eq_def, if_neg (Nat.not_le_of_lt hmany)]
  dsimp only [Evaluation.reads]
  rw [List.forall_mem_append, List.forall_mem_append, List.forall_mem_singleton,
    and_iff_left hfirst,
    reported_inside s timestamps _ (s.remembers_evaluated timestamps s.collectedPackets hset)]

/-- All reads are inside their containers exactly if there are two records or less, or every record
can be attributed and every queue has one. -/
theorem process_inside_iff (hlen : timestamps.length = s.txqN.toNat)
    (hne : ∀ t ∈ timestamps, t ≠ []) :
    (∀ a ∈ (s.process timestamps).log, s.Inside timestamps a) ↔
      s.collectedPackets ≤ 2 ∨ (∀ i < s.collectedPackets, s.Attributable timestamps i) ∧
        ∀ q < s.txqN.toNat, ∃ i < s.collectedPackets, s.queueOf i = q := by
  by_cases hfew : s.collectedPackets ≤ 2
  · rw [process.eq_def, if_pos hfew]
    exact iff_of_true (fun a ha => absurd ha List.not_mem_nil) (Or.inl hfew)
  · rw [or_iff_right hfew, process_log_inside s timestamps (Nat.lt_of_not_le hfew),
      evaluated_inside s timestamps hlen hne _ (Nat.le_refl _)]

end Bounds

/-- Three records of one number, with one queue. -/
def sameRecords (seqn : SeqnT) : Statistics := ⟨1, 3, 3, fun _ => ⟨seqn, 0, 0, 0⟩⟩

theorem sameRecords_inside :
    .timestamps 0 ∈ ((sameRecords 2).process [[(1, 50)]]).log ∧
      ∀ a ∈ ((sameRecords 2).process [[(1, 50)]]).log, (sameRecords 2).Inside [[(1, 50)]] a := by
  have hqueue : ∀ i, (sameRecords 2).queueOf i = 0 := by
    intro i
    change (splitSeqn 2).1.toNat = 0
    decide
  have hseqn : ∀ i, (sameRecords 2).seqnOf i = 2 := by
    intro i
    change (splitSeqn 2).2 = 2
    decide
  refine ⟨by decide, (process_inside_iff (sameRecords 2) [[(1, 50)]] rfl (by simp)).mpr
    (Or.inr ⟨?_, ?_⟩)⟩
  · intro i _
    refine ⟨?_, ?_⟩
    · rw [hqueue]
      decide
    · intro _
      rw [hqueue, hseqn]
      exact ⟨(1, 50), rfl, by decide⟩
  · intro q hq
    obtain rfl : q = 0 := Nat.lt_one_iff.mp hq
    exact ⟨0, by decide, hqueue 0⟩

/-- A record with queue byte 1 passes the guard, although there is only queue 0. -/
theorem foreignQueue_outside :
    .timestamps 1 ∈ ((sameRecords 0x0100000000000002).process [[(1, 50)]]).log ∧
      ¬ (sameRecords 0x0100000000000002).Inside [[(1, 50)]] (.timestamps 1) := by
  refine ⟨?_, (by decide : ¬ 1 < 1)⟩
  decide

end Statistics

end DpdkTools.Sockperf
