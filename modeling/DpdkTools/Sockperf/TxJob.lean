import DpdkTools.Lib.Runs
import DpdkTools.Lib.Slots
import DpdkTools.Sockperf.Seqn

/-! The sending job of the throughput test, `tx_job` (`sockperf_cli/utils.cpp`), with the table of
send times it fills (`tx_timestamps`, `sockperf_cli/stats.cpp`).

`process` keeps one burst of mbufs. Each round tops the burst up from the pool, numbers the new
packets, and offers the burst to the NIC until it takes at least one packet; the packets it does
not take are moved to the front. The pool and the NIC are the environment: a run is the list of
their answers.

A cell of `buffers_` is an mbuf with the number of the packet prepared in it. The pool never hands
out an mbuf that the job still holds, so that preparing a packet leaves the others alone. Sequence
numbers and packet counts are 64-bit numbers and wrap around. -/
namespace DpdkTools.Sockperf
open Runs
set_option autoImplicit false

structure Packet (α : Type) where
  mbuf : α
  seqn : SeqnT
  deriving Repr, DecidableEq

/-! ## The job -/

/-- The members of `tx_job` that stay as the constructor sets them. -/
structure TxJob where
  burstSize : UInt16
  packets2send : UInt64
  burst_pos : 0 < burstSize

def extraPackets (burstSize : UInt64) : UInt64 := burstSize * 5

namespace TxJob

/-- The constructor; `portBurst` is the burst size the port reports, 0 for none. -/
def create (portBurst : UInt16) (packets2send : UInt64) : TxJob where
  burstSize := if portBurst = 0 then 32 else portBurst
  packets2send :=
    packets2send + extraPackets (if portBurst = 0 then 32 else portBurst).toUInt64
  burst_pos := by
    split_ifs with h
    · decide
    · exact UInt16.pos_iff_ne_zero.mpr h

def burst (j : TxJob) : ℕ := j.burstSize.toNat

theorem one_le_burst (j : TxJob) : 1 ≤ j.burst := UInt16.lt_iff_toNat_lt.mp j.burst_pos

/-- `packets2send_ + 1`, the bound of the outer loop, where it does not wrap around. -/
theorem create_bound (portBurst : UInt16) (packets2send : UInt64)
    (h : packets2send.toNat + 6 * (create portBurst packets2send).burst < 2 ^ 64) :
    ((create portBurst packets2send).packets2send + 1).toNat =
      packets2send.toNat + 5 * (create portBurst packets2send).burst + 1 := by
  have hpos := (create portBurst packets2send).one_le_burst
  have hfive : (5 : UInt64).toNat = 5 := rfl
  have hone : (1 : UInt64).toNat = 1 := rfl
  have hsum : (create portBurst packets2send).packets2send =
      packets2send + (create portBurst packets2send).burstSize.toUInt64 * 5 := rfl
  have hburst : (create portBurst packets2send).burstSize.toNat =
      (create portBurst packets2send).burst := rfl
  rw [hsum, UInt64.toNat_add, UInt64.toNat_add, UInt64.toNat_mul, UInt16.toNat_toUInt64, hburst,
    hfive, hone]
  omega

end TxJob

/-! ## Its run -/

inductive TxPhase where
  /-- at the condition of the outer loop -/
  | head
  /-- in the inner loop, with `timestamp_slot` at entry `slot` -/
  | sending (slot : ℕ)
  | returned
  deriving Repr, DecidableEq

/-- The local state of `process`. `timestamps` is the part of the table in use. The last two
fields are records kept for the statements: every packet prepared, and every packet the NIC
accepted with the reading of `ns_timer` right before the call that accepted it. -/
structure TxRun (α : Type) (burst : ℕ) where
  seqn : SeqnT
  offset : ℕ
  buffers : Slots (Packet α) burst
  timestamps : List (SeqnT × UInt64)
  phase : TxPhase
  prepared : List (Packet α)
  accepted : List (Packet α × UInt64)
  offset_le : offset ≤ burst

inductive TxAnswer (α : Type) where
  /-- `rte_pktmbuf_alloc_bulk` fails -/
  | allocFails
  | alloc (mbufs : List α)
  /-- `ns_timer` reads `now`, then `rte_eth_tx_burst` takes `sent` packets -/
  | burst (now : UInt64) (sent : ℕ)
  /-- the condition of the loop is false -/
  | leave

/-- The packets `prepare_packet` makes of new mbufs, `++seqn` for each. -/
def prepare {α : Type} (seqn : SeqnT) : List α → List (Packet α)
  | [] => []
  | mbuf :: mbufs => ⟨mbuf, seqn + 1⟩ :: prepare (seqn + 1) mbufs

theorem prepare_length {α : Type} (seqn : SeqnT) (mbufs : List α) :
    (prepare seqn mbufs).length = mbufs.length := by
  induction mbufs generalizing seqn with
  | nil => rfl
  | cons mbuf mbufs ih => rw [prepare, List.length_cons, ih, List.length_cons]

namespace TxRun
variable {α : Type}

/-- The start of `process`; the cells of `buffers_` hold no packet yet. -/
def initial {burst : ℕ} (buffers : Slots (Packet α) burst) : TxRun α burst where
  seqn := 1
  offset := 0
  buffers := buffers
  timestamps := []
  phase := .head
  prepared := []
  accepted := []
  offset_le := Nat.zero_le _

/-- `tx_timestamps::slot`: the key is written, the value is what `rte_malloc` left there. -/
def slot (memory : ℕ → UInt64) (timestamps : List (SeqnT × UInt64)) (key : SeqnT) :
    List (SeqnT × UInt64) := timestamps ++ [(key, memory timestamps.length)]

/-- `*timestamp_slot = now`. -/
def stamp (timestamps : List (SeqnT × UInt64)) (slot : ℕ) (now : UInt64) :
    List (SeqnT × UInt64) := timestamps.modify slot fun entry => (entry.1, now)

section Step
variable (job : TxJob) (memory : ℕ → UInt64)

/-- The pool hands out mbufs for the free part of the burst, and the inner loop is entered. -/
def fill (s : TxRun α job.burst) (mbufs : List α) (h : s.offset + mbufs.length ≤ job.burst) :
    TxRun α job.burst :=
  { s with
    seqn := s.seqn + UInt64.ofNat mbufs.length
    buffers := s.buffers.store s.offset (prepare s.seqn mbufs) (by rw [prepare_length]; exact h)
    timestamps := slot memory s.timestamps
      (s.seqn + UInt64.ofNat mbufs.length - job.burstSize.toUInt64)
    phase := .sending s.timestamps.length
    prepared := s.prepared ++ prepare s.seqn mbufs }

/-- What follows a call of `rte_eth_tx_burst` that took `sent` packets, not 0. The loop that
moves the other packets to the front is that of `std::copy_backward`. -/
def sent (s : TxRun α job.burst) (now : UInt64) (n : ℕ) : TxRun α job.burst :=
  { s with
    offset := job.burst - n
    buffers :=
      if job.burst - n ≠ 0 then s.buffers.copyBackward (job.burst - n) job.burst n else s.buffers
    timestamps :=
      if job.burst - n ≠ 0 then slot memory s.timestamps (s.seqn - job.burstSize.toUInt64)
      else s.timestamps
    phase := .head
    accepted := s.accepted ++ (s.buffers.cells.take n).map (·, now)
    offset_le := Nat.sub_le _ _ }

def step (s : TxRun α job.burst) : TxAnswer α → Option (TxRun α job.burst)
  | .allocFails =>
    if s.phase = .head ∧ s.seqn < job.packets2send + 1 then some s else none
  | .alloc mbufs =>
    if s.phase = .head ∧ s.seqn < job.packets2send + 1 then
      if h : s.offset + mbufs.length = job.burst then some (fill job memory s mbufs (Nat.le_of_eq h))
      else none
    else none
  | .burst now n =>
    match s.phase with
    | .sending ix =>
      if n ≤ job.burst then
        if n ≠ 0 then some (sent job memory { s with timestamps := stamp s.timestamps ix now } now n)
        else some { s with timestamps := stamp s.timestamps ix now }
      else none
    | _ => none
  | .leave =>
    if s.phase = .head ∧ ¬ s.seqn < job.packets2send + 1 then some { s with phase := .returned }
    else none

end Step

/-- The packets prepared and not accepted: all of the burst while it is offered, its front
part otherwise. -/
def held {burst : ℕ} (s : TxRun α burst) : List (Packet α) :=
  match s.phase with
  | .sending _ => s.buffers.cells
  | _ => s.buffers.front s.offset

def acceptedPackets {burst : ℕ} (s : TxRun α burst) : List (Packet α) := s.accepted.map Prod.fst

/-! ## What a step can do -/

inductive Moves (job : TxJob) (memory : ℕ → UInt64) (s : TxRun α job.burst) :
    TxAnswer α → TxRun α job.burst → Prop
  | allocFails : s.phase = .head → s.seqn < job.packets2send + 1 →
      Moves job memory s .allocFails s
  | alloc (mbufs : List α) (h : s.offset + mbufs.length = job.burst) : s.phase = .head →
      s.seqn < job.packets2send + 1 →
      Moves job memory s (.alloc mbufs) (fill job memory s mbufs (Nat.le_of_eq h))
  | refused (ix : ℕ) (now : UInt64) : s.phase = .sending ix →
      Moves job memory s (.burst now 0) { s with timestamps := stamp s.timestamps ix now }
  | taken (ix : ℕ) (now : UInt64) (n : ℕ) : s.phase = .sending ix → 0 < n → n ≤ job.burst →
      Moves job memory s (.burst now n)
        (sent job memory { s with timestamps := stamp s.timestamps ix now } now n)
  | leave : s.phase = .head → ¬ s.seqn < job.packets2send + 1 →
      Moves job memory s .leave { s with phase := .returned }

theorem step_moves {job : TxJob} {memory : ℕ → UInt64} {s s' : TxRun α job.burst}
    {answer : TxAnswer α} (h : step job memory s answer = some s') :
    Moves job memory s answer s' := by
  cases answer with
  | allocFails =>
    simp only [step] at h
    split_ifs at h with hg
    obtain rfl := Option.some.inj h
    exact .allocFails hg.1 hg.2
  | alloc mbufs =>
    simp only [step] at h
    split_ifs at h with hg hlen
    obtain rfl := Option.some.inj h
    exact .alloc mbufs hlen hg.1 hg.2
  | burst now n =>
    cases hp : s.phase with
    | head => simp only [step, hp] at h; exact absurd h (by simp)
    | returned => simp only [step, hp] at h; exact absurd h (by simp)
    | sending ix =>
      simp only [step, hp] at h
      split_ifs at h with hle hne
      · obtain rfl := Option.some.inj h
        rw [← hp]
        exact .taken ix now n hp (Nat.pos_of_ne_zero hne) hle
      · obtain rfl := Option.some.inj h
        obtain rfl : n = 0 := by omega
        rw [← hp]
        exact .refused ix now hp
  | leave =>
    simp only [step] at h
    split_ifs at h with hg
    obtain rfl := Option.some.inj h
    exact .leave hg.1 hg.2

/-! ## The packets held -/

theorem held_of_sending {burst : ℕ} {s : TxRun α burst} {ix : ℕ} (h : s.phase = .sending ix) :
    s.held = s.buffers.cells := by
  rw [held, h]

theorem held_of_head {burst : ℕ} {s : TxRun α burst} (h : s.phase = .head) :
    s.held = s.buffers.front s.offset := by
  rw [held, h]

theorem held_fill (job : TxJob) (memory : ℕ → UInt64) (s : TxRun α job.burst) (mbufs : List α)
    (hp : s.phase = .head) (h : s.offset + mbufs.length = job.burst) :
    (fill job memory s mbufs (Nat.le_of_eq h)).held = s.held ++ prepare s.seqn mbufs := by
  have hlen : s.offset + (prepare s.seqn mbufs).length ≤ job.burst := by
    rw [prepare_length]
    omega
  have hstore := s.buffers.front_store s.offset (prepare s.seqn mbufs) hlen
  rw [prepare_length, h, Slots.front, List.take_of_length_le
    (Nat.le_of_eq (s.buffers.store s.offset _ hlen).length_cells)] at hstore
  rw [held_of_head hp, ← hstore]
  rfl

/-- After a send the packets not taken are held in the order they had, turned by the number
of packets taken. -/
theorem held_sent (job : TxJob) (memory : ℕ → UInt64) (s : TxRun α job.burst) (now : UInt64) (n : ℕ)
    (h : n ≤ job.burst) :
    (sent job memory s now n).held.rotate n = s.buffers.cells.drop n := by
  have hlen := s.buffers.length_cells
  by_cases hall : job.burst - n = 0
  · have hempty : (sent job memory s now n).held = [] := by
      change (sent job memory s now n).buffers.front (job.burst - n) = []
      rw [hall, Slots.front, List.take_zero]
    rw [hempty, List.rotate_nil, List.drop_eq_nil_of_le (by omega)]
  · have hpart : (sent job memory s now n).held =
        (s.buffers.copyBackward (job.burst - n) job.burst n).front (job.burst - n) := by
      change (ite _ _ _ : Slots (Packet α) job.burst).front (job.burst - n) = _
      rw [if_pos hall]
    rw [hpart]
    exact s.buffers.rotate_front_copyBackward n (by omega)

theorem acceptedPackets_sent (job : TxJob) (memory : ℕ → UInt64) (s : TxRun α job.burst)
    (now : UInt64) (n : ℕ) : (sent job memory s now n).acceptedPackets =
      s.acceptedPackets ++ s.buffers.cells.take n := by
  change (s.accepted ++ (s.buffers.cells.take n).map (·, now)).map Prod.fst = _
  rw [List.map_append, List.map_map]
  exact congrArg (s.acceptedPackets ++ ·) (List.map_id _)

/-! ## Conservation -/

/-- The prepared packets are the accepted ones and the held ones. -/
def Balanced {burst : ℕ} (s : TxRun α burst) : Prop :=
  (s.acceptedPackets ++ s.held).Perm s.prepared

theorem balanced_moves {job : TxJob} {memory : ℕ → UInt64} {s s' : TxRun α job.burst}
    {answer : TxAnswer α} (hm : Moves job memory s answer s') (hb : s.Balanced) : s'.Balanced := by
  cases hm with
  | allocFails hp hg => exact hb
  | alloc mbufs h hp hg =>
    change (s.acceptedPackets ++ (fill job memory s mbufs (Nat.le_of_eq h)).held).Perm
      (s.prepared ++ prepare s.seqn mbufs)
    rw [held_fill job memory s mbufs hp h, ← List.append_assoc]
    exact List.Perm.append_right _ hb
  | refused ix now hp => exact hb
  | taken ix now n hp hpos hle =>
    change (List.Perm (_ ++ _) s.prepared)
    have hb' : (s.acceptedPackets ++ s.buffers.cells).Perm s.prepared := by
      rw [← held_of_sending hp]
      exact hb
    have hrest := held_sent job memory { s with timestamps := stamp s.timestamps ix now } now n hle
    have hheld : List.Perm _ (s.buffers.cells.drop n) :=
      (List.rotate_perm _ n).symm.trans (List.Perm.of_eq hrest)
    rw [acceptedPackets_sent, List.append_assoc]
    refine List.Perm.trans (List.Perm.append_left _ ?_) hb'
    refine List.Perm.trans (List.Perm.append_left _ hheld) ?_
    rw [List.take_append_drop]
  | leave hp hg =>
    change (s.acceptedPackets ++ s.buffers.front s.offset).Perm s.prepared
    rw [← held_of_head hp]
    exact hb

/-! ## Numbering -/

theorem prepare_numbers (seqn : SeqnT) (mbufs : List α) (h : seqn.toNat + mbufs.length < 2 ^ 64) :
    (prepare seqn mbufs).map (·.seqn.toNat) = List.range' (seqn.toNat + 1) mbufs.length := by
  induction mbufs generalizing seqn with
  | nil => rfl
  | cons mbuf mbufs ih =>
    rw [List.length_cons] at h
    have hone : (1 : UInt64).toNat = 1 := rfl
    have hnext : (seqn + 1).toNat = seqn.toNat + 1 := by
      rw [UInt64.toNat_add, hone]
      omega
    rw [prepare, List.map_cons, ih (seqn + 1) (by rw [hnext]; omega), hnext, List.length_cons,
      List.range'_succ]

/-- The counter after `len` more packets. -/
theorem seqn_add (seqn : SeqnT) (len : ℕ) (h : seqn.toNat + len < 2 ^ 64) :
    (seqn + UInt64.ofNat len).toNat = seqn.toNat + len := by
  rw [UInt64.toNat_add, UInt64.toNat_ofNat', Nat.mod_eq_of_lt (by omega : len < 2 ^ 64),
    Nat.mod_eq_of_lt h]

/-- The counter and the numbers given out so far, and how far the run has come. -/
structure Counted {burst : ℕ} (requested : ℕ) (s : TxRun α burst) : Prop where
  numbers : s.prepared.map (·.seqn.toNat) = List.range' 2 s.prepared.length
  counter : s.seqn.toNat = s.prepared.length + 1
  offset_lt : (∀ ix, s.phase ≠ .sending ix) → s.offset < burst
  enough : s.phase = .returned → requested + 5 * burst ≤ s.prepared.length

section Run
variable (portBurst : UInt16) (packets2send : UInt64) (memory : ℕ → UInt64)

theorem counted_moves
    (hfit : packets2send.toNat + 6 * (TxJob.create portBurst packets2send).burst < 2 ^ 64)
    {s s' : TxRun α (TxJob.create portBurst packets2send).burst} {answer : TxAnswer α}
    (hm : Moves (TxJob.create portBurst packets2send) memory s answer s')
    (hc : s.Counted packets2send.toNat) : s'.Counted packets2send.toNat := by
  have hbound := TxJob.create_bound portBurst packets2send hfit
  cases hm with
  | allocFails hp hg => exact hc
  | alloc mbufs h hp hg =>
    have hlt := UInt64.lt_iff_toNat_lt.mp hg
    have hroom : s.seqn.toNat + mbufs.length < 2 ^ 64 := by omega
    have hlen : (s.prepared ++ prepare s.seqn mbufs).length = s.prepared.length + mbufs.length := by
      rw [List.length_append, prepare_length]
    refine ⟨?_, ?_, ?_, ?_⟩
    · change (s.prepared ++ prepare s.seqn mbufs).map (·.seqn.toNat) =
        List.range' 2 (s.prepared ++ prepare s.seqn mbufs).length
      rw [hlen, List.map_append, hc.numbers, prepare_numbers s.seqn mbufs hroom, hc.counter,
        ← List.range'_append_1]
      congr 2
      omega
    · change (s.seqn + UInt64.ofNat mbufs.length).toNat =
        (s.prepared ++ prepare s.seqn mbufs).length + 1
      rw [hlen, seqn_add s.seqn mbufs.length hroom, hc.counter]
      omega
    · intro hnot
      exact absurd rfl (hnot s.timestamps.length)
    · exact TxPhase.noConfusion
  | refused ix now hp => exact ⟨hc.numbers, hc.counter, hc.offset_lt, hc.enough⟩
  | taken ix now n hp hpos hle =>
    refine ⟨hc.numbers, hc.counter, ?_, TxPhase.noConfusion⟩
    intro _
    change (TxJob.create portBurst packets2send).burst - n < _
    omega
  | leave hp hg =>
    refine ⟨hc.numbers, hc.counter, ?_, ?_⟩
    · intro _
      exact hc.offset_lt (by rw [hp]; exact fun _ => TxPhase.noConfusion)
    · intro _
      have hge := UInt64.lt_iff_toNat_lt.not.mp hg
      have hcount := hc.counter
      change _ ≤ s.prepared.length
      omega

/-- What is asked of every state of a run: the held packets are the prepared ones that were not
accepted, every number given out is accepted or held and only once, and on return the NIC has
taken as many packets as were asked for. -/
structure Conserves {burst : ℕ} (requested : ℕ) (s : TxRun α burst) : Prop where
  held_exactly : (s.acceptedPackets ++ s.held).Perm s.prepared
  once : ∀ n, 2 ≤ n → n ≤ s.seqn.toNat →
    (s.acceptedPackets.map (·.seqn.toNat)).count n + (s.held.map (·.seqn.toNat)).count n = 1
  enough : s.phase = .returned → requested ≤ s.accepted.length

theorem held_length_returned {burst : ℕ} (s : TxRun α burst) (h : s.phase = .returned) :
    s.held.length = s.offset := by
  rw [held, h]
  exact s.buffers.front_length s.offset s.offset_le

theorem conserves_of_inv {burst requested : ℕ} (s : TxRun α burst) (hb : s.Balanced)
    (hc : s.Counted requested) : s.Conserves requested := by
  have hlen : s.acceptedPackets.length = s.accepted.length := List.length_map _
  refine ⟨hb, ?_, ?_⟩
  · intro n hlo hhi
    have hnum : ((s.acceptedPackets ++ s.held).map (·.seqn.toNat)).count n =
        (List.range' 2 s.prepared.length).count n := by
      rw [← hc.numbers]
      exact (List.Perm.map _ hb).count_eq n
    have hcount := hc.counter
    rw [List.map_append, List.count_append] at hnum
    rw [hnum]
    refine List.count_eq_one_of_mem List.nodup_range' ?_
    rw [List.mem_range'_1]
    omega
  · intro hr
    have htotal := List.Perm.length_eq hb
    have hoff := hc.offset_lt (by rw [hr]; exact fun _ => TxPhase.noConfusion)
    have henough := hc.enough hr
    rw [List.length_append, hlen, held_length_returned s hr] at htotal
    omega

theorem balanced_initial {burst : ℕ} (buffers : Slots (Packet α) burst) :
    (initial buffers).Balanced := by
  change ([] ++ buffers.front 0).Perm []
  rw [Slots.front, List.take_zero, List.nil_append]

theorem counted_initial {burst : ℕ} (requested : ℕ) (hb : 1 ≤ burst)
    (buffers : Slots (Packet α) burst) : (initial buffers).Counted requested :=
  ⟨rfl, rfl, fun _ => hb, TxPhase.noConfusion⟩

/-- A property kept by every move that meets `Cond` holds in every state of a run of such
moves, together with the count of the packets. -/
theorem run_inv (Inv : TxRun α (TxJob.create portBurst packets2send).burst → Prop)
    (Cond : TxAnswer α → Prop)
    (hmove : ∀ s answer s', Moves (TxJob.create portBurst packets2send) memory s answer s' →
      Cond answer → Inv s ∧ s.Counted packets2send.toNat → Inv s')
    (buffers : Slots (Packet α) (TxJob.create portBurst packets2send).burst)
    (hinit : Inv (initial buffers)) (answers : List (TxAnswer α))
    (tr : List (Transition (TxRun α (TxJob.create portBurst packets2send).burst) (TxAnswer α)))
    (htr : trace (step (TxJob.create portBurst packets2send) memory) (initial buffers) answers
      = some tr)
    (hfit : packets2send.toNat + 6 * (TxJob.create portBurst packets2send).burst < 2 ^ 64)
    (hcond : ∀ answer ∈ answers, Cond answer) :
    ∀ t ∈ tr, Inv t.post ∧ t.post.Counted packets2send.toNat := by
  have hstep : ∀ (s : TxRun α (TxJob.create portBurst packets2send).burst) answer s',
      Inv s ∧ s.Counted packets2send.toNat → Cond answer →
      step (TxJob.create portBurst packets2send) memory s answer = some s' →
      Inv s' ∧ s'.Counted packets2send.toNat := by
    intro s answer s' hinv hc h
    have hm := step_moves h
    exact ⟨hmove s answer s' hm hc hinv,
      counted_moves portBurst packets2send memory hfit hm hinv.2⟩
  have hrun := trace_invariant (fun s => Inv s ∧ s.Counted packets2send.toNat)
    (fun _ answer => Cond answer) hstep (initial buffers) answers tr htr
    ⟨hinit, counted_initial _ (TxJob.create portBurst packets2send).one_le_burst buffers⟩
    (fun t ht => hcond t.event (trace_event_mem (initial buffers) answers tr htr t ht))
  intro t ht
  exact (hrun.2 t ht).2

/-- No packet is lost or sent twice, whatever the pool and the NIC answer, and the job returns
only after the packets asked for were accepted, where the count of the packets fits 64 bits. -/
theorem run_conserves (buffers : Slots (Packet α) (TxJob.create portBurst packets2send).burst)
    (answers : List (TxAnswer α))
    (tr : List (Transition (TxRun α (TxJob.create portBurst packets2send).burst) (TxAnswer α)))
    (htr : trace (step (TxJob.create portBurst packets2send) memory) (initial buffers) answers
      = some tr)
    (hfit : packets2send.toNat + 6 * (TxJob.create portBurst packets2send).burst < 2 ^ 64) :
    ∀ t ∈ tr, t.post.Conserves packets2send.toNat := by
  have hrun := run_inv portBurst packets2send memory Balanced (fun _ => True)
    (fun s answer s' hm _ hinv => balanced_moves hm hinv.1) buffers (balanced_initial buffers)
    answers tr htr hfit (fun _ _ => trivial)
  intro t ht
  exact conserves_of_inv t.post (hrun t ht).1 (hrun t ht).2

def emptyBurst (n : ℕ) : Slots (Packet ℕ) n := ⟨List.replicate n ⟨0, 0⟩, List.length_replicate⟩

def noMemory : ℕ → UInt64 := fun _ => 0

theorem run_conserves_three :
    ∃ tr, trace (step (TxJob.create 3 10) noMemory) (initial (emptyBurst 3))
        [.alloc [7, 8, 9], .burst 50 0, .burst 60 1, .allocFails, .alloc [5], .burst 70 2]
          = some tr ∧ ∀ t ∈ tr, t.post.Conserves 10 := by
  refine ⟨_, rfl, ?_⟩
  exact run_conserves 3 10 noMemory (emptyBurst 3)
    [.alloc [7, 8, 9], .burst 50 0, .burst 60 1, .allocFails, .alloc [5], .burst 70 2] _ rfl
    (by decide)

/-- With the five extra bursts the number of packets wraps around: the job returns at once. -/
theorem wrapped_count_sends_nothing :
    ∃ tr, trace (step (TxJob.create 32 18446744073709551456) noMemory) (initial (emptyBurst 32))
        [.leave] = some tr ∧
      ∃ t ∈ tr, t.post.phase = .returned ∧ t.post.accepted = [] ∧
        ¬ t.post.Conserves 18446744073709551456 := by
  refine ⟨_, rfl, _, List.mem_cons_self .., rfl, rfl, ?_⟩
  intro h
  exact absurd (h.enough rfl) (by decide)

/-! ## Order on the wire -/

/-- The NIC takes the whole burst, or the part it leaves behind goes evenly into what it takes. -/
def KeepsOrder (job : TxJob) : TxAnswer α → Prop
  | .burst _ n => n = job.burst ∨ job.burst - n ∣ n
  | _ => True

def InOrder {burst : ℕ} (s : TxRun α burst) : Prop := s.acceptedPackets ++ s.held = s.prepared

/-- Turning the held packets by a multiple of their number leaves them where they were. -/
theorem held_sent_in_order (job : TxJob) (s : TxRun α job.burst) (now : UInt64) (n : ℕ)
    (h : n ≤ job.burst) (hk : n = job.burst ∨ job.burst - n ∣ n) :
    (sent job memory s now n).held = s.buffers.cells.drop n := by
  have hturn := held_sent job memory s now n h
  have hlen := congrArg List.length hturn
  rw [List.length_rotate, List.length_drop, s.buffers.length_cells] at hlen
  obtain rfl | hdvd := hk
  · rw [← hturn, ← List.rotate_mod, hlen, Nat.sub_self, Nat.mod_zero]
    rw [Nat.sub_self] at hlen
    rw [List.length_eq_zero_iff.mp hlen, List.rotate_nil]
  · rw [← hturn, ← List.rotate_mod, hlen, Nat.mod_eq_zero_of_dvd hdvd, List.rotate_zero]

theorem inOrder_moves {job : TxJob} {s s' : TxRun α job.burst} {answer : TxAnswer α}
    (hm : Moves job memory s answer s') (hk : KeepsOrder job answer) (ho : s.InOrder) :
    s'.InOrder := by
  cases hm with
  | allocFails hp hg => exact ho
  | alloc mbufs h hp hg =>
    change s.acceptedPackets ++ (fill job memory s mbufs (Nat.le_of_eq h)).held =
      s.prepared ++ prepare s.seqn mbufs
    rw [held_fill job memory s mbufs hp h, ← List.append_assoc, ho]
  | refused ix now hp => exact ho
  | taken ix now n hp hpos hle =>
    have ho' : s.acceptedPackets ++ s.buffers.cells = s.prepared := by
      rw [← held_of_sending hp]
      exact ho
    change _ ++ _ = s.prepared
    rw [acceptedPackets_sent, held_sent_in_order memory job _ now n hle hk, List.append_assoc]
    change s.acceptedPackets ++ (s.buffers.cells.take n ++ s.buffers.cells.drop n) = s.prepared
    rw [List.take_append_drop, ho']
  | leave hp hg =>
    change s.acceptedPackets ++ s.buffers.front s.offset = s.prepared
    rw [← held_of_head hp]
    exact ho

theorem accepted_increasing {burst requested : ℕ} (s : TxRun α burst) (ho : s.InOrder)
    (hc : s.Counted requested) : (s.acceptedPackets.map (·.seqn)).Pairwise (· < ·) := by
  have hall : (s.prepared.map (·.seqn.toNat)).Pairwise (· < ·) := by
    rw [hc.numbers]
    exact List.pairwise_lt_range'
  rw [← ho, List.map_append, List.pairwise_append] at hall
  have hacc := hall.1
  rw [List.pairwise_map] at hacc ⊢
  exact hacc.imp UInt64.lt_iff_toNat_lt.mpr

/-- In a run where every send leaves the packets held over in their order, the NIC gets the
packets in the order of their numbers. -/
theorem run_in_order (buffers : Slots (Packet α) (TxJob.create portBurst packets2send).burst)
    (answers : List (TxAnswer α))
    (tr : List (Transition (TxRun α (TxJob.create portBurst packets2send).burst) (TxAnswer α)))
    (htr : trace (step (TxJob.create portBurst packets2send) memory) (initial buffers) answers
      = some tr)
    (hfit : packets2send.toNat + 6 * (TxJob.create portBurst packets2send).burst < 2 ^ 64)
    (hkeep : ∀ answer ∈ answers, KeepsOrder (TxJob.create portBurst packets2send) answer) :
    ∀ t ∈ tr, (t.post.acceptedPackets.map (·.seqn)).Pairwise (· < ·) := by
  have hrun := run_inv portBurst packets2send memory InOrder
    (KeepsOrder (TxJob.create portBurst packets2send))
    (fun s answer s' hm hk hinv => inOrder_moves memory hm hk hinv.1) buffers
    (List.perm_nil.mp (balanced_initial buffers)) answers tr htr hfit hkeep
  intro t ht
  exact accepted_increasing t.post (hrun t ht).1 (hrun t ht).2

theorem run_in_order_four :
    ∃ tr, trace (step (TxJob.create 4 10) noMemory) (initial (emptyBurst 4))
        [.alloc [1, 2, 3, 4], .burst 50 2, .alloc [5, 6], .burst 60 4] = some tr ∧
      ∀ t ∈ tr, (t.post.acceptedPackets.map (·.seqn)).Pairwise (· < ·) := by
  refine ⟨_, rfl, ?_⟩
  refine run_in_order 4 10 noMemory (emptyBurst 4)
    [.alloc [1, 2, 3, 4], .burst 50 2, .alloc [5, 6], .burst 60 4] _ rfl (by decide) ?_
  simp only [List.forall_mem_cons]
  exact ⟨trivial, Or.inr (by decide), trivial, Or.inl rfl, by simp⟩

/-- Of three packets the NIC takes one: the other two change places. -/
theorem partial_send_reorders :
    ∃ tr, trace (step (TxJob.create 3 10) noMemory) (initial (emptyBurst 3))
        [.alloc [1, 2, 3], .burst 50 1, .alloc [4], .burst 60 3] = some tr ∧
      ∃ t ∈ tr, t.post.acceptedPackets.map (·.seqn) = [2, 4, 3, 5] ∧
        ¬ (t.post.acceptedPackets.map (·.seqn)).Pairwise (· < ·) := by
  refine ⟨_, rfl, _, List.mem_cons_of_mem _ (List.mem_cons_of_mem _ (List.mem_cons_of_mem _
    (List.mem_cons_self ..))), rfl, ?_⟩
  intro h
  exact absurd h (by decide)

end Run

end TxRun

end DpdkTools.Sockperf
