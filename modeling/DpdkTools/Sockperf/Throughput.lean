import DpdkTools.Sockperf.Channel
import DpdkTools.Sockperf.Losses

/-! The throughput test from the sending jobs to the report.

Every queue has a job that sends numbered packets. The network loses some of them and may mix the
queues, but brings what it keeps of one queue in order. The channel records what arrives, and
`statistics::process` works out losses and round trips from the records and the tables of the jobs. -/
namespace DpdkTools.Sockperf
open Runs GapCount
set_option autoImplicit false

/-! ## The jobs -/

section Jobs
variable {α : Type} (portBurst : UInt16) (packets2send : UInt64)

/-- A state that the job of a queue reaches while the NIC takes whole bursts or nothing. -/
def SendsWhole (s : TxRun α (TxJob.create portBurst packets2send).burst) : Prop :=
  ∃ memory buffers answers tr,
    trace (TxRun.step (TxJob.create portBurst packets2send) memory) (.initial buffers) answers =
      some tr ∧
    (∀ answer ∈ answers, TxRun.Whole (TxJob.create portBurst packets2send) answer) ∧
    final (.initial buffers) tr = s

/-- The counter goes a burst beyond the bound of the outer loop at most. -/
def BelowBound (s : TxRun α (TxJob.create portBurst packets2send).burst) : Prop :=
  s.seqn.toNat ≤ packets2send.toNat + 6 * (TxJob.create portBurst packets2send).burst

theorem belowBound_moves (memory : ℕ → UInt64)
    (hfit : packets2send.toNat + 6 * (TxJob.create portBurst packets2send).burst < 2 ^ 64)
    {s s' : TxRun α (TxJob.create portBurst packets2send).burst} {answer : TxAnswer α}
    (hm : TxRun.Moves (TxJob.create portBurst packets2send) memory s answer s')
    (h : BelowBound portBurst packets2send s) : BelowBound portBurst packets2send s' := by
  have hbound := TxJob.create_bound portBurst packets2send hfit
  cases hm with
  | allocFails hp hg => exact h
  | alloc mbufs hlen hp hg =>
    have hlt := UInt64.lt_iff_toNat_lt.mp hg
    change (s.seqn + UInt64.ofNat mbufs.length).toNat ≤ _
    rw [TxRun.seqn_add s.seqn mbufs.length (by omega)]
    omega
  | refused ix now hp => exact h
  | taken ix now n hp hpos hle => exact h
  | leave hp hg => exact h

variable (hfit : packets2send.toNat + 6 * (TxJob.create portBurst packets2send).burst < 2 ^ 28)
  (s : TxRun α (TxJob.create portBurst packets2send).burst)
include hfit

theorem SendsWhole.inv (h : SendsWhole portBurst packets2send s) :
    s.Attributed ∧ BelowBound portBurst packets2send s ∧ s.Counted packets2send.toNat := by
  obtain ⟨memory, buffers, answers, tr, htr, hwhole, rfl⟩ := h
  have hfit64 : packets2send.toNat + 6 * (TxJob.create portBurst packets2send).burst < 2 ^ 64 := by
    omega
  have hone := (TxJob.create portBurst packets2send).one_le_burst
  have hseqn : (TxRun.initial buffers).seqn.toNat = 1 := rfl
  have hinit : (TxRun.initial buffers).Attributed ∧
      BelowBound portBurst packets2send (.initial buffers) :=
    ⟨TxRun.attributed_initial buffers, by unfold BelowBound; omega⟩
  have hrun := TxRun.run_inv portBurst packets2send memory
    (fun s => s.Attributed ∧ BelowBound portBurst packets2send s)
    (TxRun.Whole (TxJob.create portBurst packets2send))
    (fun s answer s' hm hw hinv =>
      ⟨TxRun.attributed_moves portBurst packets2send memory hfit64 hm hw hinv.2 hinv.1.1,
        belowBound_moves portBurst packets2send memory hfit64 hm hinv.1.2⟩)
    buffers hinit answers tr htr hfit64 hwhole
  cases hlast : tr.getLast? with
  | none =>
    rw [final, hlast]
    exact ⟨hinit.1, hinit.2, TxRun.counted_initial _ hone buffers⟩
  | some t =>
    obtain ⟨hinv, hcounted⟩ := hrun t (List.mem_of_getLast? hlast)
    rw [final, hlast]
    exact ⟨hinv.1, hinv.2, hcounted⟩

/-- The NIC has taken the packets from number 2 on, without a gap. -/
theorem SendsWhole.numbers (h : SendsWhole portBurst packets2send s) :
    s.acceptedPackets.map (·.seqn.toNat) = List.range' 2 s.acceptedPackets.length := by
  obtain ⟨hatt, -, hcounted⟩ := h.inv portBurst packets2send hfit s
  have hnum := hcounted.numbers
  rw [← hatt.in_order, List.map_append, List.length_append, ← List.range'_append_1] at hnum
  exact (List.append_inj hnum (by rw [List.length_map, List.length_range'])).1

theorem SendsWhole.small (h : SendsWhole portBurst packets2send s) (p : Packet α)
    (hp : p ∈ s.acceptedPackets) : 2 ≤ p.seqn.toNat ∧ p.seqn.toNat < 2 ^ 28 := by
  obtain ⟨hatt, hbelow, hcounted⟩ := h.inv portBurst packets2send hfit s
  have hmem : p.seqn.toNat ∈ s.acceptedPackets.map (·.seqn.toNat) := List.mem_map_of_mem hp
  rw [h.numbers portBurst packets2send hfit s, List.mem_range'_1] at hmem
  have hlen := congrArg List.length hatt.in_order
  rw [List.length_append] at hlen
  have hcount := hcounted.counter
  unfold BelowBound at hbelow
  omega

/-- The table of the job has the time of the send that took the packet. -/
theorem SendsWhole.sentAt_eq (h : SendsWhole portBurst packets2send s) (p : Packet α × UInt64)
    (hp : p ∈ s.accepted) : sentAt s.timestamps p.1.seqn = some p.2 := by
  obtain ⟨hatt, -, -⟩ := h.inv portBurst packets2send hfit s
  obtain ⟨k, hlo, hhi, hval, -⟩ := hatt.stamped p hp
  exact Sockperf.sentAt_eq _ k s.timestamps p.1.seqn p.2 hatt.keys hlo hhi hval

end Jobs

/-! ## The network -/

/-- The number that a message carries. -/
def number (x : Message) : SeqnT :=
  seqn (x.1.heap x.2).data (msgHeaderSize (x.1.heap x.2))

def fromQueue (x : Message) : ℕ := (splitSeqn (number x)).1.toNat

/-- The numbers that the packets of a queue carry, in the order the NIC took them. -/
def sentNumbers {α : Type} {burst : ℕ} (q : ℕ) (s : TxRun α burst) : List SeqnT :=
  s.acceptedPackets.map fun p => makeSeqn (UInt8.ofNat q) p.seqn

/-- What arrives of a queue is a part of what the NIC took, in the same order; how the queues mix, and
what arrives besides the packets of the test, is left open. -/
structure Delivers {α : Type} {burst : ℕ} (runs : ℕ → TxRun α burst) (ntx : ℕ) (xs : List Message) :
    Prop where
  known : ∀ x ∈ xs, isData x = true → fromQueue x < ntx
  in_order : ∀ q < ntx, List.Sublist (((xs.filter isData).filter (fromQueue · = q)).map number)
    (sentNumbers q (runs q))

/-! ## The records -/

namespace Statistics

/-- The first records of the table are those of the messages, in their order. -/
def Holds (s : Statistics) (xs : List Message) : Prop :=
  ∀ (i : ℕ) (x : Message), xs[i]? = some x →
    (s.memory i).seqn = number x ∧ (s.memory i).enqueuedRx = x.1.enqueued

theorem Holds.prefix {s : Statistics} {xs ys : List Message} (h : s.Holds (xs ++ ys)) : s.Holds xs := by
  intro i x hi
  have hlt : i < xs.length := (List.getElem?_eq_some_iff.mp hi).1
  exact h i x (by rw [List.getElem?_append_left hlt, hi])

theorem numbersOf_holds (s : Statistics) (xs : List Message) (h : s.Holds xs) (q : ℕ) :
    s.numbersOf xs.length q =
      (xs.filter (fromQueue · = q)).map fun x => (splitSeqn (number x)).2.toNat := by
  induction xs using List.reverseRecOn with
  | nil => rfl
  | append_singleton xs x ih =>
    have hlast := (h xs.length x (by simp)).1
    have hqueue : s.queueOf xs.length = fromQueue x := by rw [queueOf, hlast, fromQueue]
    have hseqn : s.seqnOf xs.length = (splitSeqn (number x)).2 := by rw [seqnOf, hlast]
    rw [List.length_append, List.length_singleton, numbersOf_succ, ih h.prefix, hqueue, hseqn,
      List.filter_append, List.map_append]
    by_cases hq : fromQueue x = q
    · rw [if_pos hq, List.filter_cons_of_pos (by simpa using hq)]
      rfl
    · rw [if_neg hq, List.filter_cons_of_neg (by simpa using hq)]
      rfl

/-! ## Round trips -/

/-- The send time that a round of the loop finds. -/
def sendTime (s : Statistics) (timestamps : SendTables) (i : ℕ) : Option UInt64 :=
  sentAt (timestamps.getD (s.queueOf i) []) (s.seqnOf i)

theorem evaluate_rtts (s : Statistics) (timestamps : SendTables) (e : Evaluation) (i : ℕ) (t : UInt64)
    (hqueue : s.queueOf i < e.stats.length) (ht : s.sendTime timestamps i = some t) :
    (s.evaluate timestamps e i).rtts = e.rtts ++ [(s.memory i).enqueuedRx - t] := by
  have hfound : (((timestamps.getD (s.queueOf i) [])[upperBound (timestamps.getD (s.queueOf i) [])
      (s.seqnOf i - 1) - 1]?).map Prod.snd).getD 0 = t := by
    rw [sendTime, sentAt] at ht
    cases hub : upperBound (timestamps.getD (s.queueOf i) []) (s.seqnOf i - 1) with
    | zero =>
      rw [hub] at ht
      exact absurd ht (by simp)
    | succ ix =>
      rw [hub] at ht
      have hentry : ((timestamps.getD (s.queueOf i) [])[ix]?).map Prod.snd = some t := ht
      rw [Nat.add_sub_cancel, hentry]
      rfl
  unfold evaluate
  dsimp only [Evaluation.reads]
  rw [if_neg (by omega), hfound]
  by_cases hprev : (e.stats.getD (s.queueOf i) {}).prev = notSet
  · rw [if_pos hprev]
  · rw [if_neg hprev]

theorem evaluated_rtts (s : Statistics) (timestamps : SendTables) (times : ℕ → UInt64) (n : ℕ)
    (hn : n ≤ notSet) (hqueue : ∀ i < n, s.queueOf i < s.txqN.toNat)
    (htimes : ∀ i < n, s.sendTime timestamps i = some (times i)) :
    (s.evaluated timestamps n).rtts = (List.range n).map fun i => (s.memory i).enqueuedRx - times i := by
  induction n with
  | zero => rfl
  | succ n ih =>
    have hlength := (s.remembers_evaluated timestamps n (by omega)).length
    have hbefore := ih (by omega) (fun i hi => hqueue i (by omega)) (fun i hi => htimes i (by omega))
    have hlast := hqueue n (by omega)
    rw [evaluated_succ, evaluate_rtts s timestamps _ n (times n) (by omega) (htimes n (by omega)),
      hbefore, List.range_succ, List.map_append]
    rfl

/-! ## Losses -/

/-- What is reported of a queue whose packets came in order: its last one, the numbers that are not
there and nothing out of sequence. -/
theorem counts_in_order (s : Statistics) (timestamps : SendTables) (q : ℕ) (hq : q < s.txqN.toNat)
    (hsome : s.numbersOf s.collectedPackets q ≠ [])
    (hin : (s.numbersOf s.collectedPackets q).Pairwise (· < ·)) :
    ∃ r, s.report ((s.evaluated timestamps s.collectedPackets).stats.getD q {}) = some r ∧
      r.expected.toNat ∈ s.numbersOf s.collectedPackets q ∧
      (∀ n ∈ s.numbersOf s.collectedPackets q, n ≤ r.expected.toNat) ∧
      r.missing.toNat = (absent (s.numbersOf s.collectedPackets q)).card ∧
      r.outOfSequence.toNat = 0 ∧
      ((s.evaluated timestamps s.collectedPackets).stats.getD q {}).asserted = true := by
  have hcounts := s.evaluated_counts timestamps s.collectedPackets q (s.collectedPackets_le).2 hq
  obtain ⟨n, ns, hnumbers⟩ := List.exists_cons_of_ne_nil hsome
  rw [hnumbers] at hcounts hin ⊢
  have htracks : s.Tracks _ (tally n ns) := hcounts
  obtain ⟨hfirst, hrest⟩ := List.pairwise_cons.mp hin
  obtain ⟨hsound, hmissing, hlate⟩ := (tally_exact_iff n ns).mpr
    ⟨hfirst, hrest.imp fun h => Nat.ne_of_lt h⟩
  obtain ⟨htop, hmax⟩ := tally_top n ns
  refine ⟨_, if_neg htracks.prev, ?_, ?_, ?_, ?_, ?_⟩
  · rw [htracks.top]
    exact htop
  · rw [htracks.top]
    exact hmax
  · rw [htracks.missing hsound, hmissing]
  · rw [htracks.late, hlate, late_of_increasing _ hin]
  · rw [htracks.sound, hsound]

/-! ## Reads -/

theorem attributable_of_sendTime (s : Statistics) (timestamps : SendTables) (i : ℕ) (t : UInt64)
    (hqueue : s.queueOf i < s.txqN.toNat) (ht : s.sendTime timestamps i = some t) :
    timestamps.getD (s.queueOf i) [] ≠ [] ∧ s.Attributable timestamps i := by
  have hub : upperBound (timestamps.getD (s.queueOf i) []) (s.seqnOf i - 1) ≠ 0 := by
    intro hzero
    rw [sendTime, sentAt, hzero] at ht
    exact absurd ht (by simp)
  have hle : upperBound (timestamps.getD (s.queueOf i) []) (s.seqnOf i - 1) ≤
      (timestamps.getD (s.queueOf i) []).length := List.findIdx_le_length
  have hne : timestamps.getD (s.queueOf i) [] ≠ [] := by
    intro hnil
    rw [hnil] at hub
    exact hub rfl
  exact ⟨hne, Nat.ne_of_lt hqueue, fun _ =>
    (upperBound_inside _ _ hne).mp ⟨Nat.one_le_iff_ne_zero.mpr hub, hle⟩⟩

end Statistics

/-- The packets of a queue that the NIC took between the first and the last of the numbers, and that
are not among them. -/
def lost {α : Type} (ns : List ℕ) (packets : List (Packet α)) : List (Packet α) :=
  packets.filter fun p =>
    p.seqn.toNat ∉ ns ∧ (∃ a ∈ ns, a < p.seqn.toNat) ∧ ∃ b ∈ ns, p.seqn.toNat < b

/-- Where the packets have all the numbers from 2 on, those not seen are the packets lost. -/
theorem lost_length {α : Type} (ns : List ℕ) (packets : List (Packet α))
    (hpackets : packets.map (·.seqn.toNat) = List.range' 2 packets.length)
    (hns : ∀ n ∈ ns, n ∈ packets.map (·.seqn.toNat)) :
    (lost ns packets).length = (absent ns).card := by
  have hnumbers : (lost ns packets).map (·.seqn.toNat) =
      (List.range' 2 packets.length).filter fun n => n ∉ ns ∧ (∃ a ∈ ns, a < n) ∧ ∃ b ∈ ns, n < b := by
    rw [← hpackets, List.filter_map]
    rfl
  have hset : absent ns = ((lost ns packets).map (·.seqn.toNat)).toFinset := by
    ext n
    rw [hnumbers, List.mem_toFinset, List.mem_filter, mem_absent, decide_eq_true_eq]
    refine ⟨fun h => ⟨?_, h⟩, And.right⟩
    -- a number between two that were taken was taken
    obtain ⟨-, ⟨a, ha, hlo⟩, b, hb, hhi⟩ := h
    have ha' := hns a ha
    have hb' := hns b hb
    rw [hpackets, List.mem_range'_1] at ha' hb'
    rw [List.mem_range'_1]
    omega
  have hnodup : ((lost ns packets).map (·.seqn.toNat)).Nodup := by
    rw [hnumbers]
    exact List.Nodup.filter _ List.nodup_range'
  rw [hset, List.toFinset_card_of_nodup hnodup, List.length_map]

/-! ## What the channel has recorded -/

section Records
variable (packets2send ntx clockHz : UInt64) (memory : ℕ → PacketInfo) (es : List EnqueueCall)

/-- The messages that get a slot. -/
def kept : List Message :=
  ((messages es).filter isData).take (packets2send.toNat * ntx.toNat)

variable (hpos : 1 ≤ ntx.toNat) (hn : ntx.toNat ≤ 255)
  (hp : packets2send.toNat * ntx.toNat ^ 2 < 2 ^ 64)
include hpos hn hp

/-- The table of a channel with detailed statistics after its calls. -/
theorem table_spec (hclock : clockHz ≠ 0 ∨ ∀ x ∈ kept packets2send ntx es, x.1.timestamp x.2 = none) :
    ∃ out, (Channel.create packets2send ntx clockHz true memory).enqueues es = some out ∧
      out.1.stats.Holds (kept packets2send ntx es) ∧
      out.1.stats.collectedPackets = (kept packets2send ntx es).length ∧
      out.1.stats.txqN.toNat = ntx.toNat := by
  have hsend := create_packets2send packets2send ntx clockHz true memory hp
  have hsize := create_size packets2send ntx clockHz true memory hn hpos hp
  have hstart : (Channel.create packets2send ntx clockHz true memory).stats.nextSlot = 0 := rfl
  have htxq : (Channel.create packets2send ntx clockHz true memory).stats.txqN = ntx.toUInt8 := rfl
  have hhz : (Channel.create packets2send ntx clockHz true memory).clockHz = clockHz := rfl
  generalize Channel.create packets2send ntx clockHz true memory = c at *
  have hnext : c.stats.nextSlot.toNat = 0 := by rw [hstart]; rfl
  have hslotted : c.slotted (messages es) = kept packets2send ntx es := by
    rw [Channel.slotted, hnext, hsend, Nat.sub_zero, kept]
  have hroom : c.packets2send.toNat ≤ c.stats.size.toNat := by
    rw [hsize, hsend]
    split_ifs with hd
    · exact Nat.le_mul_of_pos_right _ hpos
    · have hzero : packets2send.toNat * ntx.toNat = 0 := by
        by_contra hne
        exact hd ⟨rfl, hne⟩
      omega
  have hle : c.Within := by
    rw [Channel.Within, hnext]
    exact Nat.zero_le _
  have hdefined : (c.enqueues es).isSome := by
    rw [Channel.enqueues_isSome, c.receiveMessages_isSome hle, hslotted, hhz]
    exact hclock
  obtain ⟨out, hout⟩ := Option.isSome_iff_exists.mp hdefined
  obtain ⟨hrun, -, -⟩ := c.enqueues_spec es out hout
  obtain ⟨-, -, hsize', htxq', hnext'⟩ := c.receiveMessages_counts hle (messages es) _ hrun
  obtain ⟨-, -, hwritten⟩ := c.receiveMessages_recorded hle hroom (messages es) _ hrun
  rw [hslotted, hnext] at hwritten
  dsimp only at hsize' htxq' hnext' hwritten
  refine ⟨out, hout, ?_, ?_, ?_⟩
  · intro i x hi
    have hinfo := hwritten i x hi
    rw [Nat.zero_add] at hinfo
    obtain ⟨hseqn, henqueued, -⟩ := Channel.packetInfo_fields x.1 c.clockHz x.2 _ hinfo
    exact ⟨hseqn, henqueued⟩
  · have hlength := c.slotted_length (messages es)
    rw [hslotted, hnext] at hlength
    rw [Statistics.collectedPackets, Statistics.requestedSlots, hsize', hnext', hlength, hnext]
    omega
  · rw [htxq', htxq, UInt64.toNat_toUInt8]
    omega

end Records

/-! ## The report -/

section Report
variable {α : Type} (portBurst : UInt16) (packets2send ntx : UInt64)
  (runs : ℕ → TxRun α (TxJob.create portBurst packets2send).burst) (es : List EnqueueCall)

def sendTables : SendTables := (List.range ntx.toNat).map fun q => (runs q).timestamps

/-- The numbers of a queue that got a slot. -/
def arrived (q : ℕ) : List ℕ :=
  ((kept packets2send ntx es).filter (fromQueue · = q)).map fun x => (splitSeqn (number x)).2.toNat

variable (hfit : packets2send.toNat + 6 * (TxJob.create portBurst packets2send).burst < 2 ^ 28)
  (hruns : ∀ q < ntx.toNat, SendsWhole portBurst packets2send (runs q))
  (hnet : Delivers runs ntx.toNat (messages es))
include hfit hruns hnet

/-- A message with a slot is a packet that the NIC took from the queue it names. -/
theorem kept_sent (x : Message) (hx : x ∈ kept packets2send ntx es) :
    fromQueue x < ntx.toNat ∧ ∃ p ∈ (runs (fromQueue x)).acceptedPackets,
      number x = makeSeqn (UInt8.ofNat (fromQueue x)) p.seqn ∧ (splitSeqn (number x)).2 = p.seqn := by
  have hdata : x ∈ (messages es).filter isData := List.mem_of_mem_take hx
  have hqueue := hnet.known x (List.mem_of_mem_filter hdata) (List.of_mem_filter hdata)
  have hnumber : number x ∈ (((messages es).filter isData).filter
      (fromQueue · = fromQueue x)).map number :=
    List.mem_map_of_mem (List.mem_filter.mpr ⟨hdata, by simp⟩)
  obtain ⟨p, hp, heq⟩ := List.mem_map.mp ((hnet.in_order _ hqueue).subset hnumber)
  have hsmall := (hruns _ hqueue).small portBurst packets2send hfit _ p hp
  refine ⟨hqueue, p, hp, heq.symm, ?_⟩
  rw [← heq, (splitSeqn_makeSeqn _ p.seqn (by omega)).mpr hsmall.2]

/-- What arrived of a queue is part of what was sent on it, in order. -/
theorem arrived_sublist (q : ℕ) (hq : q < ntx.toNat) :
    (arrived packets2send ntx es q).Sublist ((runs q).acceptedPackets.map (·.seqn.toNat)) := by
  have hpart : ((kept packets2send ntx es).filter (fromQueue · = q)).map number |>.Sublist
      (sentNumbers q (runs q)) :=
    (((List.take_sublist _ _).filter _).map number).trans (hnet.in_order q hq)
  have hcounters : (sentNumbers q (runs q)).map (fun n => (splitSeqn n).2.toNat) =
      (runs q).acceptedPackets.map (·.seqn.toNat) := by
    rw [sentNumbers, List.map_map]
    apply List.map_congr_left
    intro p hp
    have hsmall := (hruns q hq).small portBurst packets2send hfit _ p hp
    rw [Function.comp_apply, (splitSeqn_makeSeqn _ p.seqn (by omega)).mpr hsmall.2]
  have hmapped := hpart.map fun n => (splitSeqn n).2.toNat
  rw [hcounters, List.map_map] at hmapped
  exact hmapped

end Report

/-- What `process` reports, against what the jobs sent and what arrived: for each queue its last
packet with a slot, the packets that were lost between the first and the last one with a slot, none of
them out of sequence, and for every message with a slot the time since the send that took its packet.
No read leaves its container. -/
structure Reports {α : Type} {burst : ℕ} (packets2send ntx : UInt64) (runs : ℕ → TxRun α burst)
    (es : List EnqueueCall) (s : Statistics) (timestamps : SendTables) : Prop where
  inside : ∀ a ∈ (s.process timestamps).log, s.Inside timestamps a
  queues : ∀ q < ntx.toNat, ∃ r, (s.process timestamps).reports[q]? = some (some r) ∧
    r.expected.toNat ∈ arrived packets2send ntx es q ∧
    (∀ n ∈ arrived packets2send ntx es q, n ≤ r.expected.toNat) ∧
    r.missing.toNat = (lost (arrived packets2send ntx es q) (runs q).acceptedPackets).length ∧
    r.outOfSequence.toNat = 0
  asserted : ∀ q < ntx.toNat, ((s.process timestamps).stats.getD q {}).asserted = true
  rtts_length : (s.process timestamps).rtts.length = (kept packets2send ntx es).length
  rtts : ∀ (i : ℕ) (x : Message), (kept packets2send ntx es)[i]? = some x →
    ∃ p ∈ (runs (fromQueue x)).accepted,
      number x = makeSeqn (UInt8.ofNat (fromQueue x)) p.1.seqn ∧
      (s.process timestamps).rtts[i]? = some (x.1.enqueued - p.2)

def fourPackets : List (TxAnswer ℕ) :=
  [.alloc [1, 2], .burst 50 2, .alloc [3, 4], .burst 60 0, .burst 70 2]

def fourSent : TxRun ℕ (TxJob.create 2 2).burst :=
  (trace (TxRun.step (TxJob.create 2 2) TxRun.noMemory)
    (.initial (TxRun.emptyBurst (TxJob.create 2 2).burst)) fourPackets).elim
      (.initial (TxRun.emptyBurst (TxJob.create 2 2).burst))
      (final (.initial (TxRun.emptyBurst (TxJob.create 2 2).burst)))

def fourArrived : EnqueueCall where
  enqueued := 100
  timestamp := fun _ => none
  heap := fun b => samplePing ([makeSeqn 0 2, makeSeqn 1 2, makeSeqn 0 4, makeSeqn 1 3].getD b 0)
  buffers := [0, 1, 2, 3]

theorem fourSent_whole : SendsWhole 2 2 fourSent := by
  refine ⟨TxRun.noMemory, TxRun.emptyBurst (TxJob.create 2 2).burst, fourPackets, _, rfl, ?_, rfl⟩
  simp only [fourPackets, List.forall_mem_cons]
  exact ⟨trivial, Or.inr rfl, trivial, Or.inl rfl, Or.inr rfl, by simp⟩

end DpdkTools.Sockperf
