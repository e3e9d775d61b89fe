import DpdkTools.Sockperf.Timestamps

/-! The table of send times over a whole run of `tx_job::process` (`sockperf_cli/utils.cpp`): how
many entries it takes, in what order their keys are, and which of them get a value.

`tx_timestamps::slot` (`sockperf_cli/stats.cpp`) asserts that there is room and that the keys
increase. It is called once for every burst filled, and once more after a send that leaves packets
behind. -/
namespace DpdkTools.Sockperf
open Runs
set_option autoImplicit false

/-- `capacity()` of the table of a job. -/
def capacity (portBurst : UInt16) (packets2send : UInt64) : UInt64 :=
  let burstSize := (TxJob.create portBurst packets2send).burstSize.toUInt64
  packets2send + burstSize + extraPackets burstSize

namespace TxRun
variable {α : Type} (portBurst : UInt16) (packets2send : UInt64) (memory : ℕ → UInt64)

/-- A value is assigned to entry `k`. -/
def Writes {burst : ℕ} (t : Transition (TxRun α burst) (TxAnswer α)) (k : ℕ) : Prop :=
  t.pre.phase = .sending k ∧ ∃ now n, t.event = .burst now n

def Increasing (timestamps : List (SeqnT × UInt64)) : Prop :=
  (timestamps.map Prod.fst).Pairwise (· < ·)

/-- What the table is relied on for, in every state of a run. -/
structure TableSound
    (tr : List (Transition (TxRun α (TxJob.create portBurst packets2send).burst) (TxAnswer α))) :
    Prop where
  room : ∀ t ∈ tr, t.post.timestamps.length ≤ (capacity portBurst packets2send).toNat
  increasing : ∀ t ∈ tr, Increasing t.post.timestamps
  written : ∀ t ∈ tr, t.post.phase = .returned → ∀ k < t.post.timestamps.length, ∃ u ∈ tr, Writes u k

theorem capacity_toNat
    (hfit : packets2send.toNat + 6 * (TxJob.create portBurst packets2send).burst < 2 ^ 64) :
    (capacity portBurst packets2send).toNat =
      packets2send.toNat + 6 * (TxJob.create portBurst packets2send).burst := by
  have hfive : (5 : UInt64).toNat = 5 := rfl
  have hburst : (TxJob.create portBurst packets2send).burstSize.toNat =
      (TxJob.create portBurst packets2send).burst := rfl
  rw [capacity, extraPackets, UInt64.toNat_add, UInt64.toNat_add, UInt64.toNat_mul,
    UInt16.toNat_toUInt64, hburst, hfive]
  omega

/-! ## Room and order -/

/-- The last burst starts before the bound of the loop. -/
def Within (s : TxRun α (TxJob.create portBurst packets2send).burst) : Prop :=
  s.seqn.toNat ≤ packets2send.toNat + 6 * (TxJob.create portBurst packets2send).burst

theorem within_moves
    (hfit : packets2send.toNat + 6 * (TxJob.create portBurst packets2send).burst < 2 ^ 64)
    {s s' : TxRun α (TxJob.create portBurst packets2send).burst} {answer : TxAnswer α}
    (hm : Moves (TxJob.create portBurst packets2send) memory s answer s')
    (hs : Within portBurst packets2send s) : Within portBurst packets2send s' := by
  cases hm with
  | allocFails hp hg => exact hs
  | alloc mbufs h hp hg =>
    have hbound := TxJob.create_bound portBurst packets2send hfit
    have hlt := UInt64.lt_iff_toNat_lt.mp hg
    have hnext := seqn_add s.seqn mbufs.length (by omega)
    change (s.seqn + UInt64.ofNat mbufs.length).toNat ≤ _
    omega
  | refused ix now hp => exact hs
  | taken ix now n hp hpos hle => exact hs
  | leave hp hg => exact hs

theorem increasing_of_keys (burst : ℕ) (hb : 1 ≤ burst) (timestamps : List (SeqnT × UInt64))
    (h : KeysEvery burst timestamps) : Increasing timestamps := by
  rw [Increasing, List.pairwise_map, List.pairwise_iff_getElem]
  intro i j hi hj hij
  have hki := h i timestamps[i] (List.getElem?_eq_getElem hi)
  have hkj := h j timestamps[j] (List.getElem?_eq_getElem hj)
  have hmul : (i + 1) * burst ≤ j * burst := Nat.mul_le_mul_right burst hij
  rw [Nat.succ_mul] at hmul
  rw [UInt64.lt_iff_toNat_lt]
  omega

theorem room_of_attributed
    (hfit : packets2send.toNat + 6 * (TxJob.create portBurst packets2send).burst < 2 ^ 64)
    (s : TxRun α (TxJob.create portBurst packets2send).burst) (ha : s.Attributed)
    (hs : Within portBurst packets2send s) :
    s.timestamps.length ≤ (capacity portBurst packets2send).toNat := by
  have hrounds := ha.rounds
  have hmul : s.timestamps.length * 1 ≤
      s.timestamps.length * (TxJob.create portBurst packets2send).burst :=
    Nat.mul_le_mul_left _ (TxJob.create portBurst packets2send).one_le_burst
  rw [Within] at hs
  rw [capacity_toNat portBurst packets2send hfit]
  omega

/-- After a send that leaves packets behind the last two entries have one key. -/
theorem partial_not_increasing (job : TxJob) (s : TxRun α job.burst) (ix : ℕ) (now : UInt64) (n : ℕ)
    (hp : s.phase = .sending ix) (ha : s.Attributed) (hn : n < job.burst) :
    ¬ Increasing
      (sent job memory { s with timestamps := stamp s.timestamps ix now } now n).timestamps := by
  have hlen := ha.current ix hp
  have hrounds := ha.rounds
  have hburst : job.burstSize.toUInt64.toNat = job.burst := UInt16.toNat_toUInt64 _
  have hkey : (s.seqn - job.burstSize.toUInt64).toNat = ix * job.burst + 1 := by
    rw [hlen, Nat.succ_mul] at hrounds
    rw [UInt64.toNat_sub_of_le _ _ (UInt64.le_iff_toNat_le.mpr (by omega)), hburst]
    omega
  have htable : (sent job memory { s with timestamps := stamp s.timestamps ix now } now n).timestamps =
      slot memory (stamp s.timestamps ix now) (s.seqn - job.burstSize.toUInt64) := by
    change ite _ _ _ = _
    rw [if_pos (by omega)]
  have hstamped : (stamp s.timestamps ix now).length = ix + 1 := by
    rw [stamp, List.length_modify, hlen]
  have hlast := keysEvery_stamp job.burst s.timestamps ix now ha.keys ix
    (stamp s.timestamps ix now)[ix] (List.getElem?_eq_getElem (by omega))
  rw [htable, slot, Increasing, List.map_append, List.pairwise_append]
  intro h
  have hlt := h.2.2 (stamp s.timestamps ix now)[ix].1 (List.mem_map_of_mem (List.getElem_mem _))
    (s.seqn - job.burstSize.toUInt64) (List.mem_singleton.mpr rfl)
  rw [UInt64.lt_iff_toNat_lt, hkey, hlast] at hlt
  exact Nat.lt_irrefl _ hlt

/-! ## Values -/

/-- An entry that is no longer, or not yet, the one on offer. -/
def Passed {burst : ℕ} (s : TxRun α burst) (k : ℕ) : Prop :=
  k < s.timestamps.length ∧ s.phase ≠ .sending k

theorem passed_moves (job : TxJob) {s s' : TxRun α job.burst} {answer : TxAnswer α}
    (hm : Moves job memory s answer s') (hw : Whole job answer) (k : ℕ) (h : s'.Passed k) :
    s.Passed k ∨ Writes ⟨s, answer, s'⟩ k := by
  cases hm with
  | allocFails hp hg => exact Or.inl h
  | alloc mbufs hlen hp hg =>
    have hk : k < s.timestamps.length + 1 := by
      have hlt := h.1
      change k < (slot memory s.timestamps _).length at hlt
      rw [slot, List.length_append, List.length_singleton] at hlt
      exact hlt
    have hne : k ≠ s.timestamps.length := by
      rintro rfl
      exact h.2 rfl
    refine Or.inl ⟨by omega, ?_⟩
    rw [hp]
    exact TxPhase.noConfusion
  | refused ix now hp =>
    have hlt := h.1
    change k < (stamp s.timestamps ix now).length at hlt
    rw [stamp, List.length_modify] at hlt
    exact Or.inl ⟨hlt, h.2⟩
  | taken ix now n hp hpos hle =>
    obtain rfl | rfl := hw
    · exact absurd hpos (Nat.lt_irrefl 0)
    · by_cases hk : ix = k
      · subst hk
        exact Or.inr ⟨hp, now, job.burst, rfl⟩
      · have hlt := h.1
        change k < (ite _ _ _ : List (SeqnT × UInt64)).length at hlt
        rw [if_neg (by omega)] at hlt
        change k < (stamp s.timestamps ix now).length at hlt
        rw [stamp, List.length_modify] at hlt
        refine Or.inl ⟨hlt, ?_⟩
        rw [hp]
        exact fun he => hk (TxPhase.sending.inj he)
  | leave hp hg =>
    refine Or.inl ⟨h.1, ?_⟩
    rw [hp]
    exact TxPhase.noConfusion

/-! ## The run -/

/-- What holds between the answers of a NIC that takes a whole burst or nothing. -/
structure WholeInv (s : TxRun α (TxJob.create portBurst packets2send).burst) : Prop where
  attributed : s.Attributed
  counted : s.Counted packets2send.toNat
  within : Within portBurst packets2send s

theorem wholeInv_initial (buffers : Slots (Packet α) (TxJob.create portBurst packets2send).burst) :
    WholeInv portBurst packets2send (initial buffers) where
  attributed := attributed_initial buffers
  counted := counted_initial _ (TxJob.create portBurst packets2send).one_le_burst buffers
  within := by
    have hpos := (TxJob.create portBurst packets2send).one_le_burst
    change 1 ≤ packets2send.toNat + 6 * (TxJob.create portBurst packets2send).burst
    omega

theorem wholeInv_step
    (hfit : packets2send.toNat + 6 * (TxJob.create portBurst packets2send).burst < 2 ^ 64)
    (s : TxRun α (TxJob.create portBurst packets2send).burst) (answer : TxAnswer α)
    (s' : TxRun α (TxJob.create portBurst packets2send).burst)
    (hi : WholeInv portBurst packets2send s)
    (hw : Whole (TxJob.create portBurst packets2send) answer)
    (h : step (TxJob.create portBurst packets2send) memory s answer = some s') :
    WholeInv portBurst packets2send s' := by
  have hm := step_moves h
  exact ⟨attributed_moves portBurst packets2send memory hfit hm hw hi.counted hi.attributed,
    counted_moves portBurst packets2send memory hfit hm hi.counted,
    within_moves portBurst packets2send memory hfit hm hi.within⟩

/-- The three conditions on the table hold throughout a run exactly if the NIC always takes a whole
burst or nothing. -/
theorem run_table_iff (buffers : Slots (Packet α) (TxJob.create portBurst packets2send).burst)
    (answers : List (TxAnswer α))
    (tr : List (Transition (TxRun α (TxJob.create portBurst packets2send).burst) (TxAnswer α)))
    (htr : trace (step (TxJob.create portBurst packets2send) memory) (initial buffers) answers
      = some tr)
    (hfit : packets2send.toNat + 6 * (TxJob.create portBurst packets2send).burst < 2 ^ 64) :
    TableSound portBurst packets2send tr ↔
      ∀ t ∈ tr, Whole (TxJob.create portBurst packets2send) t.event := by
  have hinit := wholeInv_initial portBurst packets2send buffers
  have hstep := wholeInv_step (α := α) portBurst packets2send memory hfit
  constructor
  · intro hsound
    refine trace_condition (WholeInv portBurst packets2send)
      (fun _ answer => Whole (TxJob.create portBurst packets2send) answer) (fun _ _ => True)
      (fun s => Increasing s.timestamps) (fun s answer s' hi _ hw h => hstep s answer s' hi hw h) ?_
      (initial buffers) answers tr htr hinit (fun _ _ => trivial) hsound.increasing
    intro s answer s' hi _ h hgood
    cases step_moves h with
    | allocFails hp hg => trivial
    | alloc mbufs hlen hp hg => trivial
    | refused ix now hp => exact Or.inl rfl
    | taken ix now n hp hpos hle =>
      by_contra hnot
      have hlt : n < (TxJob.create portBurst packets2send).burst :=
        Nat.lt_of_le_of_ne hle fun he => hnot (Or.inr he)
      exact partial_not_increasing memory _ s ix now n hp hi.attributed hlt hgood
    | leave hp hg => trivial
  · intro hwhole
    have hall := (trace_invariant (WholeInv portBurst packets2send)
      (fun _ answer => Whole (TxJob.create portBurst packets2send) answer) hstep (initial buffers)
      answers tr htr hinit hwhole).2
    refine ⟨?_, ?_, ?_⟩
    · intro t ht
      have hpost := (hall t ht).2
      exact room_of_attributed portBurst packets2send hfit t.post hpost.attributed hpost.within
    · intro t ht
      exact increasing_of_keys _ (TxJob.create portBurst packets2send).one_le_burst t.post.timestamps
        (hall t ht).2.attributed.keys
    · intro t ht hret k hk
      have hrecord := trace_record (fun _ answer => Whole (TxJob.create portBurst packets2send) answer)
        Passed Writes
        (fun s answer s' hw h k hk => passed_moves memory _ (step_moves h) hw k hk)
        (initial buffers) answers tr htr hwhole t ht k
      obtain hstart | hdone := hrecord ⟨hk, by rw [hret]; exact TxPhase.noConfusion⟩
      · exact absurd hstart.1 (Nat.not_lt_zero k)
      · exact hdone

theorem run_table_two :
    ∃ tr, trace (step (TxJob.create 2 0) noMemory) (initial (emptyBurst 2))
        [.alloc [1, 2], .burst 50 0, .burst 60 2, .alloc [3, 4], .burst 70 2] = some tr ∧
      TableSound 2 0 tr := by
  refine ⟨_, rfl, (run_table_iff 2 0 noMemory (emptyBurst 2)
    [.alloc [1, 2], .burst 50 0, .burst 60 2, .alloc [3, 4], .burst 70 2] _ rfl (by decide)).mpr ?_⟩
  simp only [List.forall_mem_cons]
  exact ⟨trivial, Or.inl rfl, Or.inr rfl, trivial, Or.inr rfl, by simp⟩

/-- One packet of two is taken: the second entry has the key of the first. -/
theorem partial_send_repeats_key :
    ∃ tr, trace (step (TxJob.create 2 10) noMemory) (initial (emptyBurst 2))
        [.alloc [1, 2], .burst 50 1] = some tr ∧
      (∃ t ∈ tr, t.post.timestamps.map Prod.fst = [1, 1]) ∧ ¬ TableSound 2 10 tr := by
  refine ⟨_, rfl, ⟨_, List.mem_cons_of_mem _ (List.mem_cons_self ..), rfl⟩, ?_⟩
  intro h
  have hkeys : List.Pairwise (· < ·) [(1 : SeqnT), 1] :=
    h.increasing _ (List.mem_cons_of_mem _ (List.mem_cons_self ..))
  exact absurd hkeys (by decide)

end TxRun

end DpdkTools.Sockperf
