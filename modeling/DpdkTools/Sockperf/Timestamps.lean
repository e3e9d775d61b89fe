import DpdkTools.Sockperf.TxJob

/-! Send times: what `statistics::process` (`sockperf_cli/stats.cpp`) finds for a packet in the
table that `tx_job::process` has filled.

An entry of the table is a key and the reading of `ns_timer` before a send. The key of a burst is
one less than the number of its first packet, so the entry of packet `s` is the last one with a
key of at most `s - 1`. -/
namespace DpdkTools.Sockperf
open Runs
set_option autoImplicit false

/-- `std::ranges::upper_bound` by key: the first entry with a greater one. -/
def upperBound (timestamps : List (SeqnT × UInt64)) (value : SeqnT) : ℕ :=
  timestamps.findIdx fun entry => value < entry.1

/-- The send time of packet `seqn`, from `std::prev` of the upper bound; `none` is the entry in
front of the table. -/
def sentAt (timestamps : List (SeqnT × UInt64)) (seqn : SeqnT) : Option UInt64 :=
  match upperBound timestamps (seqn - 1) with
  | 0 => none
  | ix + 1 => (timestamps[ix]?).map Prod.snd

/-! ## Tables with a key for every burst -/

def KeysEvery (burst : ℕ) (timestamps : List (SeqnT × UInt64)) : Prop :=
  ∀ (k : ℕ) (entry : SeqnT × UInt64), timestamps[k]? = some entry →
    entry.1.toNat = k * burst + 1

theorem upperBound_eq (burst k : ℕ) (timestamps : List (SeqnT × UInt64)) (value : SeqnT)
    (hkeys : KeysEvery burst timestamps) (hk : k < timestamps.length)
    (hlo : k * burst + 1 ≤ value.toNat) (hhi : value.toNat < (k + 1) * burst + 1) :
    upperBound timestamps value = k + 1 := by
  have hbelow : ∀ j, (hj : j < timestamps.length) → j ≤ k →
      decide (value < timestamps[j].1) = false := by
    intro j hj hjk
    have hkey := hkeys j timestamps[j] (List.getElem?_eq_getElem hj)
    have hmul : j * burst ≤ k * burst := Nat.mul_le_mul_right burst hjk
    rw [decide_eq_false_iff_not, UInt64.lt_iff_toNat_lt]
    omega
  by_cases hnext : k + 1 < timestamps.length
  · rw [upperBound, List.findIdx_eq hnext]
    have hkey := hkeys (k + 1) timestamps[k + 1] (List.getElem?_eq_getElem hnext)
    refine ⟨decide_eq_true (UInt64.lt_iff_toNat_lt.mpr (by omega)), ?_⟩
    intro j hj
    exact hbelow j (by omega) (by omega)
  · have hlast : timestamps.length = k + 1 := by omega
    rw [upperBound, ← hlast, List.findIdx_eq_length]
    intro entry hentry
    obtain ⟨j, hj, rfl⟩ := List.getElem_of_mem hentry
    exact hbelow j hj (by omega)

/-- Packet `s` of burst `k` finds entry `k`. -/
theorem sentAt_eq (burst k : ℕ) (timestamps : List (SeqnT × UInt64)) (seqn : SeqnT) (t : UInt64)
    (hkeys : KeysEvery burst timestamps) (hlo : k * burst + 2 ≤ seqn.toNat)
    (hhi : seqn.toNat < (k + 1) * burst + 2)
    (hentry : (timestamps[k]?).map Prod.snd = some t) : sentAt timestamps seqn = some t := by
  have hk : k < timestamps.length := by
    by_contra hlen
    rw [List.getElem?_eq_none (by omega)] at hentry
    exact absurd hentry (by simp)
  have hone : (1 : UInt64).toNat = 1 := rfl
  have hprev : (seqn - 1).toNat = seqn.toNat - 1 :=
    UInt64.toNat_sub_of_le seqn 1 (UInt64.le_iff_toNat_le.mpr (by omega))
  rw [sentAt, upperBound_eq burst k timestamps (seqn - 1) hkeys hk (by omega) (by omega)]
  exact hentry

/-! ## Runs of whole sends -/

namespace TxRun
variable {α : Type}

/-- The NIC takes the whole burst or nothing. -/
def Whole (job : TxJob) : TxAnswer α → Prop
  | .burst _ n => n = 0 ∨ n = job.burst
  | _ => True

/-- The table of a run of whole sends: one key for every burst, the value of a burst that was
accepted is final, and only the entry of the burst on offer is still written. -/
structure Attributed {burst : ℕ} (s : TxRun α burst) : Prop where
  in_order : s.InOrder
  whole : (∀ ix, s.phase ≠ .sending ix) → s.offset = 0
  rounds : s.seqn.toNat = s.timestamps.length * burst + 1
  current : ∀ ix, s.phase = .sending ix → s.timestamps.length = ix + 1
  keys : KeysEvery burst s.timestamps
  stamped : ∀ p ∈ s.accepted, ∃ k, k * burst + 2 ≤ p.1.seqn.toNat ∧
    p.1.seqn.toNat < (k + 1) * burst + 2 ∧ (s.timestamps[k]?).map Prod.snd = some p.2 ∧
    ∀ ix, s.phase = .sending ix → k < ix

theorem attributed_initial {burst : ℕ} (buffers : Slots (Packet α) burst) :
    (initial buffers).Attributed where
  in_order := List.perm_nil.mp (balanced_initial buffers)
  whole := fun _ => rfl
  rounds := by simp [initial]
  current := fun _ h => TxPhase.noConfusion h
  keys := fun k entry h => absurd h (by simp [initial])
  stamped := fun p h => absurd h (List.not_mem_nil)

theorem stamp_getElem? (timestamps : List (SeqnT × UInt64)) (ix k : ℕ) (now : UInt64) :
    (stamp timestamps ix now)[k]? =
      if ix = k then (timestamps[k]?).map (fun entry => (entry.1, now)) else timestamps[k]? := by
  rw [stamp, List.getElem?_modify]
  split_ifs with h
  · rfl
  · exact id_map' (timestamps[k]?)

theorem keysEvery_stamp (burst : ℕ) (timestamps : List (SeqnT × UInt64)) (ix : ℕ) (now : UInt64)
    (h : KeysEvery burst timestamps) : KeysEvery burst (stamp timestamps ix now) := by
  intro k entry hentry
  rw [stamp_getElem?] at hentry
  split_ifs at hentry with hk
  · obtain ⟨old, hold, rfl⟩ := Option.map_eq_some_iff.mp hentry
    exact h k old hold
  · exact h k entry hentry

theorem keysEvery_slot (burst : ℕ) (memory : ℕ → UInt64) (timestamps : List (SeqnT × UInt64))
    (key : SeqnT) (h : KeysEvery burst timestamps)
    (hkey : key.toNat = timestamps.length * burst + 1) :
    KeysEvery burst (slot memory timestamps key) := by
  intro k entry hentry
  rw [slot] at hentry
  by_cases hk : k < timestamps.length
  · rw [List.getElem?_append_left hk] at hentry
    exact h k entry hentry
  · rw [List.getElem?_append_right (by omega)] at hentry
    have hlast : k - timestamps.length = 0 := by
      by_contra hne
      rw [List.getElem?_eq_none (by rw [List.length_singleton]; omega)] at hentry
      exact absurd hentry (by simp)
    rw [hlast] at hentry
    obtain rfl := Option.some.inj hentry
    rw [hkey, show k = timestamps.length by omega]

/-- The packets on offer carry the numbers after those of the accepted ones. -/
theorem held_numbers {burst requested : ℕ} (s : TxRun α burst) (ho : s.InOrder)
    (hc : s.Counted requested) : s.held.map (·.seqn.toNat) =
      List.range' (2 + s.acceptedPackets.length) s.held.length := by
  have hnum := hc.numbers
  rw [← ho, List.map_append, List.length_append, ← List.range'_append_1] at hnum
  exact (List.append_inj hnum (by rw [List.length_map, List.length_range'])).2

theorem held_bounds {burst requested ix : ℕ} (s : TxRun α burst) (ha : s.Attributed)
    (hc : s.Counted requested) (hp : s.phase = .sending ix) (p : Packet α)
    (h : p ∈ s.buffers.cells) :
    ix * burst + 2 ≤ p.seqn.toNat ∧ p.seqn.toNat < (ix + 1) * burst + 2 := by
  have hheld := held_of_sending hp
  have hlen : s.held.length = burst := by rw [hheld, s.buffers.length_cells]
  have htotal : s.acceptedPackets.length + burst = s.prepared.length := by
    rw [← ha.in_order, List.length_append, hlen]
  have hcount := hc.counter
  have hrounds := ha.rounds
  have hsplit : (ix + 1) * burst = ix * burst + burst := Nat.succ_mul ix burst
  rw [ha.current ix hp] at hrounds
  have hmem : p.seqn.toNat ∈ s.held.map (·.seqn.toNat) := by
    rw [hheld]
    exact List.mem_map_of_mem h
  rw [held_numbers s ha.in_order hc, hlen, List.mem_range'_1] at hmem
  omega

/-- The values of the other entries outlast a stamp. -/
theorem stamped_stamp (timestamps : List (SeqnT × UInt64)) (ix k : ℕ) (now t : UInt64)
    (hk : k < ix) (h : (timestamps[k]?).map Prod.snd = some t) :
    ((stamp timestamps ix now)[k]?).map Prod.snd = some t := by
  rw [stamp_getElem?, if_neg (by omega)]
  exact h

theorem stamped_slot (memory : ℕ → UInt64) (timestamps : List (SeqnT × UInt64)) (key : SeqnT)
    (k : ℕ) (t : UInt64) (h : (timestamps[k]?).map Prod.snd = some t) :
    k < timestamps.length ∧ ((slot memory timestamps key)[k]?).map Prod.snd = some t := by
  have hk : k < timestamps.length := by
    by_contra hlen
    rw [List.getElem?_eq_none (by omega)] at h
    exact absurd h (by simp)
  rw [slot, List.getElem?_append_left hk]
  exact ⟨hk, h⟩

section Run
variable (portBurst : UInt16) (packets2send : UInt64) (memory : ℕ → UInt64)

theorem attributed_alloc
    (hfit : packets2send.toNat + 6 * (TxJob.create portBurst packets2send).burst < 2 ^ 64)
    (s : TxRun α (TxJob.create portBurst packets2send).burst) (mbufs : List α)
    (h : s.offset + mbufs.length = (TxJob.create portBurst packets2send).burst)
    (hp : s.phase = .head) (hg : s.seqn < (TxJob.create portBurst packets2send).packets2send + 1)
    (ha : s.Attributed) :
    (fill (TxJob.create portBurst packets2send) memory s mbufs (Nat.le_of_eq h)).Attributed := by
  have hbound := TxJob.create_bound portBurst packets2send hfit
  have hlt := UInt64.lt_iff_toNat_lt.mp hg
  have hzero : s.offset = 0 := ha.whole (by rw [hp]; exact fun _ => TxPhase.noConfusion)
  have hnext : (s.seqn + UInt64.ofNat mbufs.length).toNat = s.seqn.toNat + mbufs.length :=
    seqn_add s.seqn mbufs.length (by omega)
  have hrounds := ha.rounds
  have hkey : (s.seqn + UInt64.ofNat mbufs.length -
      (TxJob.create portBurst packets2send).burstSize.toUInt64).toNat =
      s.timestamps.length * (TxJob.create portBurst packets2send).burst + 1 := by
    have hburst : (TxJob.create portBurst packets2send).burstSize.toUInt64.toNat =
        (TxJob.create portBurst packets2send).burst := UInt16.toNat_toUInt64 _
    rw [UInt64.toNat_sub_of_le _ _ (UInt64.le_iff_toNat_le.mpr (by omega)), hnext, hburst]
    omega
  refine ⟨inOrder_moves memory (.alloc mbufs h hp hg) trivial ha.in_order, ?_, ?_, ?_, ?_, ?_⟩
  · intro hnot
    exact absurd rfl (hnot s.timestamps.length)
  · change (s.seqn + UInt64.ofNat mbufs.length).toNat = (slot memory s.timestamps _).length * _ + 1
    rw [hnext, slot, List.length_append, List.length_singleton, Nat.succ_mul, hrounds]
    omega
  · intro ix hix
    obtain rfl := TxPhase.sending.inj hix
    exact List.length_append
  · exact keysEvery_slot _ memory s.timestamps _ ha.keys hkey
  · intro p hpa
    obtain ⟨k, hlo, hhi, hval, _⟩ := ha.stamped p hpa
    obtain ⟨hk, hval'⟩ := stamped_slot memory s.timestamps _ k p.2 hval
    refine ⟨k, hlo, hhi, hval', ?_⟩
    intro ix hix
    obtain rfl := TxPhase.sending.inj hix
    exact hk

theorem attributed_taken {requested ix : ℕ} (job : TxJob) (s : TxRun α job.burst) (now : UInt64)
    (hp : s.phase = .sending ix) (hc : s.Counted requested) (ha : s.Attributed) :
    (sent job memory { s with timestamps := stamp s.timestamps ix now } now job.burst).Attributed := by
  have hnone : ¬ job.burst - job.burst ≠ 0 := by omega
  have htable : (sent job memory { s with timestamps := stamp s.timestamps ix now } now
      job.burst).timestamps = stamp s.timestamps ix now := by
    change ite _ _ _ = _
    rw [if_neg hnone]
  have hix : ix < s.timestamps.length := by rw [ha.current ix hp]; exact Nat.lt_succ_self ix
  refine ⟨?_, ?_, ?_, fun _ h => TxPhase.noConfusion h, ?_, ?_⟩
  · exact inOrder_moves memory (.taken ix now job.burst hp job.one_le_burst (Nat.le_refl _))
      (Or.inl rfl) ha.in_order
  · intro _
    exact Nat.sub_self _
  · rw [htable, stamp, List.length_modify]
    exact ha.rounds
  · rw [htable]
    exact keysEvery_stamp _ s.timestamps ix now ha.keys
  · intro p hpa
    rw [htable]
    obtain hold | hnew := List.mem_append.mp hpa
    · obtain ⟨k, hlo, hhi, hval, hk⟩ := ha.stamped p hold
      exact ⟨k, hlo, hhi, stamped_stamp s.timestamps ix k now p.2 (hk ix hp) hval,
        fun _ h => TxPhase.noConfusion h⟩
    · obtain ⟨q, hq, rfl⟩ := List.mem_map.mp hnew
      obtain ⟨hlo, hhi⟩ := held_bounds s ha hc hp q (List.mem_of_mem_take hq)
      refine ⟨ix, hlo, hhi, ?_, fun _ h => TxPhase.noConfusion h⟩
      rw [stamp_getElem?, if_pos rfl, List.getElem?_eq_getElem hix]
      rfl

theorem attributed_moves
    (hfit : packets2send.toNat + 6 * (TxJob.create portBurst packets2send).burst < 2 ^ 64)
    {s s' : TxRun α (TxJob.create portBurst packets2send).burst} {answer : TxAnswer α}
    (hm : Moves (TxJob.create portBurst packets2send) memory s answer s')
    (hw : Whole (TxJob.create portBurst packets2send) answer)
    (hc : s.Counted packets2send.toNat) (ha : s.Attributed) : s'.Attributed := by
  cases hm with
  | allocFails hp hg => exact ha
  | alloc mbufs h hp hg => exact attributed_alloc portBurst packets2send memory hfit s mbufs h hp hg ha
  | refused ix now hp =>
    refine ⟨ha.in_order, ha.whole, ?_, ?_, keysEvery_stamp _ s.timestamps ix now ha.keys, ?_⟩
    · rw [stamp, List.length_modify]
      exact ha.rounds
    · intro i hi
      rw [stamp, List.length_modify]
      exact ha.current i hi
    · intro p hpa
      obtain ⟨k, hlo, hhi, hval, hk⟩ := ha.stamped p hpa
      exact ⟨k, hlo, hhi, stamped_stamp s.timestamps ix k now p.2 (hk ix hp) hval, hk⟩
  | taken ix now n hp hpos hle =>
    obtain rfl | rfl := hw
    · exact absurd hpos (Nat.lt_irrefl 0)
    · exact attributed_taken memory _ s now hp hc ha
  | leave hp hg =>
    have hnot : ∀ ix, s.phase ≠ .sending ix := by rw [hp]; exact fun _ => TxPhase.noConfusion
    refine ⟨inOrder_moves memory (.leave hp hg) trivial ha.in_order, fun _ => ha.whole hnot,
      ha.rounds, fun _ h => TxPhase.noConfusion h, ha.keys, ?_⟩
    intro p hpa
    obtain ⟨k, hlo, hhi, hval, _⟩ := ha.stamped p hpa
    exact ⟨k, hlo, hhi, hval, fun _ h => TxPhase.noConfusion h⟩

/-- Where the NIC always takes a whole burst or nothing, every accepted packet finds the reading
taken right before the call that accepted it, however often the burst was refused before. -/
theorem run_attributes (buffers : Slots (Packet α) (TxJob.create portBurst packets2send).burst)
    (answers : List (TxAnswer α))
    (tr : List (Transition (TxRun α (TxJob.create portBurst packets2send).burst) (TxAnswer α)))
    (htr : trace (step (TxJob.create portBurst packets2send) memory) (initial buffers) answers
      = some tr)
    (hfit : packets2send.toNat + 6 * (TxJob.create portBurst packets2send).burst < 2 ^ 64)
    (hwhole : ∀ answer ∈ answers, Whole (TxJob.create portBurst packets2send) answer) :
    ∀ t ∈ tr, ∀ p ∈ t.post.accepted, sentAt t.post.timestamps p.1.seqn = some p.2 := by
  have hrun := run_inv portBurst packets2send memory Attributed
    (Whole (TxJob.create portBurst packets2send))
    (fun s answer s' hm hw hinv =>
      attributed_moves portBurst packets2send memory hfit hm hw hinv.2 hinv.1)
    buffers (attributed_initial buffers) answers tr htr hfit hwhole
  intro t ht p hp
  obtain ⟨k, hlo, hhi, hval, _⟩ := (hrun t ht).1.stamped p hp
  exact sentAt_eq _ k t.post.timestamps p.1.seqn p.2 (hrun t ht).1.keys hlo hhi hval

theorem run_attributes_two :
    ∃ tr, trace (step (TxJob.create 2 10) noMemory) (initial (emptyBurst 2))
        [.alloc [1, 2], .burst 50 0, .burst 60 2, .alloc [3, 4], .burst 70 2] = some tr ∧
      ∀ t ∈ tr, ∀ p ∈ t.post.accepted, sentAt t.post.timestamps p.1.seqn = some p.2 := by
  refine ⟨_, rfl, ?_⟩
  refine run_attributes 2 10 noMemory (emptyBurst 2)
    [.alloc [1, 2], .burst 50 0, .burst 60 2, .alloc [3, 4], .burst 70 2] _ rfl (by decide) ?_
  simp only [List.forall_mem_cons]
  exact ⟨trivial, Or.inl rfl, Or.inr rfl, trivial, Or.inr rfl, by simp⟩

/-- A send of one packet out of two takes a second entry with the key of the first, which is
never written: packet 2 finds what the memory held. -/
theorem partial_send_unstamped :
    ∃ tr, trace (step (TxJob.create 2 10) noMemory) (initial (emptyBurst 2))
        [.alloc [1, 2], .burst 50 1] = some tr ∧
      ∃ t ∈ tr, t.post.timestamps = [(1, 50), (1, 0)] ∧ t.post.accepted = [(⟨1, 2⟩, 50)] ∧
        ¬ ∀ p ∈ t.post.accepted, sentAt t.post.timestamps p.1.seqn = some p.2 := by
  refine ⟨_, rfl, _, List.mem_cons_of_mem _ (List.mem_cons_self ..), rfl, rfl, ?_⟩
  intro h
  exact absurd (h (⟨1, 2⟩, 50) (List.mem_cons_self ..)) (by decide)

end Run

end TxRun

end DpdkTools.Sockperf
