import DpdkTools.Jobs
import DpdkTools.Lib.Runs
import DpdkTools.Lib.Slots

/-! The transmit job of a device (`device::tx_job`, `dpdkx/device.cpp`) and the ring it drains
(`tx_ring`, `dpdkx/detail/tx_ring.cpp`).

Producers put mbufs on the ring; each call of `process` tops up the pending array from the ring
and offers the pending prefix to the NIC. The NIC may take any prefix of it. Mbufs are opaque
here, so the type of their pointers is a parameter. -/
namespace DpdkTools
open Runs
set_option autoImplicit false

def defaultRingSize : ℕ := 1024

/-! ## The ring -/

/-- A ring with its queued mbufs, oldest first. An `rte_ring` of size `s` holds `s - 1`. -/
structure TxRing (α : Type) where
  capacity : ℕ
  items : List α
  items_le : items.length ≤ capacity

namespace TxRing
variable {α : Type}

def create : TxRing α := ⟨defaultRingSize - 1, [], Nat.zero_le _⟩

def accepted (r : TxRing α) (buffers : List α) : List α :=
  buffers.take (r.capacity - r.items.length)

/-- `tx_ring::enque(buffers, n)`: the new ring and the number of mbufs stored. -/
def enque (r : TxRing α) (buffers : List α) : TxRing α × ℕ :=
  (⟨r.capacity, r.items ++ r.accepted buffers, by
    have := r.items_le
    simp only [accepted, List.length_append, List.length_take]
    omega⟩, (r.accepted buffers).length)

def dequeue (r : TxRing α) (k : ℕ) : TxRing α :=
  ⟨r.capacity, r.items.drop k, by
    have := r.items_le
    rw [List.length_drop]
    omega⟩

end TxRing

/-! ## The job -/

/-- The members of `device::tx_job` that `process` uses. -/
structure TxJob (α : Type) where
  n : ℕ
  burstSize : ℕ
  buffers : Slots α maxPktBurst
  n_le : n ≤ burstSize
  burst_le : burstSize ≤ maxPktBurst

namespace TxJob
variable {α : Type}

def create (burtsSize : ℕ) (buffers : Slots α maxPktBurst) : TxJob α where
  n := 0
  burstSize := min burtsSize maxPktBurst
  buffers := buffers
  n_le := Nat.zero_le _
  burst_le := Nat.min_le_right _ _

def pending (j : TxJob α) : List α := j.buffers.front j.n

def fill (j : TxJob α) (xs : List α) (h : xs.length ≤ j.burstSize - j.n) : TxJob α where
  n := j.n + xs.length
  burstSize := j.burstSize
  buffers := j.buffers.store j.n xs (by have := j.n_le; have := j.burst_le; omega)
  n_le := by have := j.n_le; omega
  burst_le := j.burst_le

/-- What `process` does with the answer `sent` of `rte_eth_tx_burst`. -/
def sendDone (j : TxJob α) (sent : ℕ) : TxJob α where
  n := j.n - sent
  burstSize := j.burstSize
  buffers :=
    if sent ≠ 0 then
      if j.n ≠ sent then j.buffers.copyBackward 0 sent j.n else j.buffers
    else j.buffers
  n_le := by have := j.n_le; omega
  burst_le := j.burst_le

structure Outcome (α : Type) where
  job : TxJob α
  ring : TxRing α
  taken : List α
  state : JobState

/-- The part of `process` from `rte_eth_tx_burst` on; `none` is an answer the NIC cannot give. -/
def transmit (j : TxJob α) (r : TxRing α) (sent : ℕ) : Option (Outcome α) :=
  if sent ≤ j.n then
    if j.n = 0 then some ⟨j, r, [], .idling⟩
    else some ⟨j.sendDone sent, r, j.pending.take sent, .busy⟩
  else none

/-- `device::tx_job::process`, where the ring hands over `k` mbufs (not asked when the array is
full) and the NIC takes `sent`. -/
def process (j : TxJob α) (r : TxRing α) (k sent : ℕ) : Option (Outcome α) :=
  if j.burstSize = j.n then
    -- `burst_size_ == n_` short-circuits the dequeue and enters the branch whatever `n_` is
    if sent ≤ j.n then some ⟨j.sendDone sent, r, j.pending.take sent, .busy⟩ else none
  else if h : k ≤ j.burstSize - j.n then
    if k ≤ r.items.length then
      (j.fill (r.items.take k) (by rw [List.length_take]; omega)).transmit (r.dequeue k) sent
    else none
  else none

end TxJob

/-! ## Runs: producers and the job, in any order -/

/-- The job, its ring, and two records kept for the statement: every mbuf the ring ever
accepted, and every mbuf the NIC ever took, both in order. -/
structure TxState (α : Type) where
  job : TxJob α
  ring : TxRing α
  enqueued : List α
  accepted : List α

inductive TxEvent (α : Type) where
  | enque (buffers : List α)
  | process (k sent : ℕ)

namespace TxState
variable {α : Type}

def initial (burtsSize : ℕ) (buffers : Slots α maxPktBurst) : TxState α :=
  ⟨TxJob.create burtsSize buffers, TxRing.create, [], []⟩

def step (s : TxState α) : TxEvent α → Option (TxState α)
  | .enque buffers =>
    some { s with
      ring := (s.ring.enque buffers).1
      enqueued := s.enqueued ++ s.ring.accepted buffers }
  | .process k sent =>
    (s.job.process s.ring k sent).map fun o =>
      { s with job := o.job, ring := o.ring, accepted := s.accepted ++ o.taken }

def Conserved (s : TxState α) : Prop :=
  s.accepted ++ s.job.pending ++ s.ring.items = s.enqueued

def offered (s : TxState α) (k : ℕ) : ℕ :=
  if s.job.burstSize = s.job.n then s.job.n else s.job.n + k

/-- The NIC takes all that it is offered, or nothing. -/
def WholeSend (s : TxState α) : TxEvent α → Prop
  | .enque _ => True
  | .process k sent => sent = 0 ∨ sent = s.offered k

instance (s : TxState α) (e : TxEvent α) : Decidable (s.WholeSend e) := by
  cases e
  · exact inferInstanceAs (Decidable True)
  · exact inferInstanceAs (Decidable (_ ∨ _))

end TxState

/-! ## One call -/

namespace TxJob
variable {α : Type}

theorem pending_length (j : TxJob α) : j.pending.length = j.n :=
  j.buffers.front_length j.n (Nat.le_trans j.n_le j.burst_le)

theorem pending_fill (j : TxJob α) (xs : List α) (h : xs.length ≤ j.burstSize - j.n) :
    (j.fill xs h).pending = j.pending ++ xs :=
  j.buffers.front_store j.n xs (by have := j.n_le; have := j.burst_le; omega)

/-- After a send the pending prefix is the old one cut short: the copy moves the mbufs that were
sent to the end of the array, and what is kept is the front. -/
theorem pending_sendDone (j : TxJob α) (sent : ℕ) (h : sent ≤ j.n) :
    (j.sendDone sent).pending = j.pending.take (j.n - sent) := by
  have hcut : j.buffers.front (j.n - sent) = j.pending.take (j.n - sent) := by
    rw [pending, Slots.front, Slots.front, List.take_take]
    congr 1
    omega
  rw [← hcut, pending, sendDone]
  split_ifs
  · exact j.buffers.front_copyBackward 0 sent j.n (j.n - sent) (by omega)
  · rfl
  · rfl

theorem sendDone_split (j : TxJob α) (sent : ℕ) (h : sent = 0 ∨ sent = j.n) :
    j.pending.take sent ++ (j.sendDone sent).pending = j.pending := by
  rcases h with rfl | rfl
  · rw [pending_sendDone j 0 (Nat.zero_le _), Nat.sub_zero, List.take_zero, List.nil_append,
      List.take_of_length_le (Nat.le_of_eq j.pending_length)]
  · rw [pending_sendDone j j.n (Nat.le_refl _), Nat.sub_self, List.take_zero, List.append_nil,
      List.take_of_length_le (Nat.le_of_eq j.pending_length)]

/-- A proper partial send of distinct mbufs never splits it: the first mbuf is taken and stays
pending. -/
theorem sendDone_no_split (j : TxJob α) (sent : ℕ) (h : sent ≤ j.n) (hnd : j.pending.Nodup)
    (hs : j.pending.take sent ++ (j.sendDone sent).pending = j.pending) :
    sent = 0 ∨ sent = j.n := by
  rw [pending_sendDone j sent h] at hs
  have hlen := j.pending_length
  by_contra hne
  rw [not_or] at hne
  obtain ⟨x, xs, hx⟩ : ∃ x xs, j.pending = x :: xs := by
    cases hp : j.pending with
    | nil => rw [hp] at hlen; simp at hlen; omega
    | cons x xs => exact ⟨x, xs, rfl⟩
  have htwice : x ∈ j.pending.take sent ∧ x ∈ j.pending.take (j.n - sent) := by
    rw [hx]
    refine ⟨?_, ?_⟩
    · rw [List.take_cons (by omega)]; exact List.mem_cons_self ..
    · rw [List.take_cons (by omega)]; exact List.mem_cons_self ..
  rw [← hs, List.nodup_append] at hnd
  exact hnd.2.2 x htwice.1 x htwice.2 rfl

@[simp] theorem fill_n (j : TxJob α) (xs : List α) (h : xs.length ≤ j.burstSize - j.n) :
    (j.fill xs h).n = j.n + xs.length := rfl

@[simp] theorem sendDone_n (j : TxJob α) (sent : ℕ) : (j.sendDone sent).n = j.n - sent := rfl

theorem pending_eq_nil (j : TxJob α) (h : j.n = 0) : j.pending = [] := by
  rw [← List.length_eq_zero_iff, pending_length, h]

theorem transmit_cases {j : TxJob α} {r : TxRing α} {sent : ℕ} {o : Outcome α}
    (h : j.transmit r sent = some o) :
    o.ring = r ∧ sent ≤ j.n ∧
      o.taken ++ o.job.pending = j.pending.take sent ++ (j.sendDone sent).pending := by
  unfold transmit at h
  split_ifs at h with hs h0
  · obtain rfl := Option.some.inj h
    have hsent : (j.sendDone sent).pending = [] := pending_eq_nil _ (by rw [sendDone_n]; omega)
    exact ⟨rfl, hs, by rw [pending_eq_nil j h0, hsent]; simp⟩
  · obtain rfl := Option.some.inj h
    exact ⟨rfl, hs, rfl⟩

/-- Everything one call can do: it offers the pending prefix topped up with `xs` from the head
of the ring, and the NIC takes the first `sent` of it. -/
theorem process_cases {j : TxJob α} {r : TxRing α} {k sent : ℕ} {o : Outcome α}
    (h : j.process r k sent = some o) :
    ∃ (xs : List α) (full : TxJob α), full.pending = j.pending ++ xs ∧ xs ++ o.ring.items = r.items ∧
      full.n = (if j.burstSize = j.n then j.n else j.n + k) ∧ sent ≤ full.n ∧
      o.taken ++ o.job.pending = full.pending.take sent ++ (full.sendDone sent).pending := by
  unfold process at h
  by_cases hb : j.burstSize = j.n
  · rw [if_pos hb] at h
    split_ifs at h with hs
    obtain rfl := Option.some.inj h
    exact ⟨[], j, by simp, by simp, by rw [if_pos hb], hs, rfl⟩
  · rw [if_neg hb] at h
    split_ifs at h with hk hr
    have hlen : (r.items.take k).length = k := by rw [List.length_take]; omega
    obtain ⟨hring, hbound, hsplit⟩ := transmit_cases h
    refine ⟨r.items.take k, _, pending_fill j _ (by omega), ?_, ?_, hbound, hsplit⟩
    · rw [hring]
      exact List.take_append_drop k r.items
    · rw [if_neg hb, fill_n, hlen]

end TxJob

/-! ## Whole runs -/

namespace TxState
variable {α : Type}

theorem conserved_initial (burtsSize : ℕ) (buffers : Slots α maxPktBurst) :
    (initial burtsSize buffers).Conserved := by
  have h : (TxJob.create burtsSize buffers).pending = [] := TxJob.pending_eq_nil _ rfl
  simp [Conserved, initial, h, TxRing.create]

theorem conserved_process {s s' : TxState α} {k sent : ℕ} (hc : s.Conserved)
    (h : s.step (.process k sent) = some s') :
    ∃ full : TxJob α, full.n = s.offered k ∧ full.pending.Sublist s.enqueued ∧
      sent ≤ full.n ∧ s'.enqueued = s.enqueued ∧
      (s'.Conserved ↔ full.pending.take sent ++ (full.sendDone sent).pending = full.pending) := by
  obtain ⟨o, ho, rfl⟩ := Option.map_eq_some_iff.mp h
  obtain ⟨xs, full, hfull, hring, hn, hbound, hsplit⟩ := TxJob.process_cases ho
  have henq : s.enqueued = s.accepted ++ (full.pending ++ o.ring.items) := by
    have hc' : s.accepted ++ s.job.pending ++ s.ring.items = s.enqueued := hc
    rw [← hc', hfull, ← hring]
    simp only [List.append_assoc]
  refine ⟨full, hn, ?_, hbound, rfl, ?_⟩
  · rw [henq]
    exact (List.sublist_append_left _ _).trans (List.sublist_append_right _ _)
  · have hpost : s.accepted ++ o.taken ++ o.job.pending ++ o.ring.items =
        s.accepted ++ ((full.pending.take sent ++ (full.sendDone sent).pending) ++ o.ring.items) := by
      rw [← hsplit]
      simp only [List.append_assoc]
    change s.accepted ++ o.taken ++ o.job.pending ++ o.ring.items = s.enqueued ↔ _
    rw [hpost, henq, List.append_cancel_left_eq, List.append_cancel_right_eq]

theorem conserved_enque {s s' : TxState α} {buffers : List α} (hc : s.Conserved)
    (h : s.step (.enque buffers) = some s') : s'.Conserved := by
  obtain rfl := Option.some.inj h
  have hc' : s.accepted ++ s.job.pending ++ s.ring.items = s.enqueued := hc
  change s.accepted ++ s.job.pending ++ (s.ring.items ++ s.ring.accepted buffers) =
    s.enqueued ++ s.ring.accepted buffers
  rw [← hc']
  simp only [List.append_assoc]

theorem step_conserved (s : TxState α) (e : TxEvent α) (s' : TxState α) (hc : s.Conserved)
    (hw : s.WholeSend e) (h : s.step e = some s') : s'.Conserved := by
  cases e with
  | enque buffers => exact conserved_enque hc h
  | process k sent =>
    obtain ⟨full, hn, _, _, _, hiff⟩ := conserved_process hc h
    rw [hiff]
    apply TxJob.sendDone_split
    rw [hn]
    exact hw

theorem step_whole (s : TxState α) (e : TxEvent α) (s' : TxState α) (hc : s.Conserved)
    (h : s.step e = some s') (hgood : s'.Conserved ∧ s'.enqueued.Nodup) : s.WholeSend e := by
  cases e with
  | enque buffers => trivial
  | process k sent =>
    obtain ⟨full, hn, hsub, hbound, henq, hiff⟩ := conserved_process hc h
    have hnd : full.pending.Nodup := (henq ▸ hgood.2).sublist hsub
    change sent = 0 ∨ sent = s.offered k
    rw [← hn]
    exact full.sendDone_no_split sent hbound hnd (hiff.mp hgood.1)

/-- The order is kept in every state of a run in which the NIC always takes all that it is
offered or nothing. Where the mbufs of the run are distinct this is the only way to keep it. -/
theorem run_conserved (burtsSize : ℕ) (buffers : Slots α maxPktBurst) (es : List (TxEvent α))
    (tr : List (Transition (TxState α) (TxEvent α)))
    (htr : trace step (initial burtsSize buffers) es = some tr) :
    ((∀ t ∈ tr, t.pre.WholeSend t.event) → ∀ t ∈ tr, t.post.Conserved) ∧
      ((∀ t ∈ tr, t.post.enqueued.Nodup) → (∀ t ∈ tr, t.post.Conserved) →
        ∀ t ∈ tr, t.pre.WholeSend t.event) := by
  have h0 := conserved_initial burtsSize buffers
  refine ⟨fun hw t ht => ?_, fun hnd hc => ?_⟩
  · exact ((trace_invariant Conserved WholeSend step_conserved _ es tr htr h0 hw).2 t ht).2
  · exact trace_condition Conserved WholeSend (fun _ _ => True)
      (fun s => s.Conserved ∧ s.enqueued.Nodup) (fun s e s' hs _ => step_conserved s e s' hs)
      (fun s e s' hs _ => step_whole s e s' hs) _ es tr htr h0 (fun _ _ => trivial)
      (fun t ht => ⟨hc t ht, hnd t ht⟩)

theorem run_conserved_pair :
    ∃ tr, trace step (initial 4 ⟨List.replicate maxPktBurst 0, List.length_replicate⟩)
        [.enque [1, 2], .process 2 2] = some tr ∧
      (∀ t ∈ tr, t.pre.WholeSend t.event) ∧ ∀ t ∈ tr, t.post.Conserved := by
  refine ⟨_, rfl, ?_, ?_⟩
  · simp only [List.forall_mem_cons]
    exact ⟨trivial, by decide, by simp⟩
  · refine (run_conserved 4 ⟨List.replicate maxPktBurst 0, List.length_replicate⟩
      [.enque [1, 2], .process 2 2] _ rfl).1 ?_
    simp only [List.forall_mem_cons]
    exact ⟨trivial, by decide, by simp⟩

/-- Two mbufs of which the NIC takes one: afterwards the taken one is still pending and the
other one is gone. -/
theorem partial_send_loses :
    ∃ tr, trace step (initial 4 ⟨List.replicate maxPktBurst 0, List.length_replicate⟩)
        [.enque [1, 2], .process 2 1] = some tr ∧ ∃ t ∈ tr, ¬ t.post.Conserved := by
  refine ⟨_, rfl, _, List.mem_cons_of_mem _ (List.mem_cons_self ..), ?_⟩
  unfold Conserved
  decide

end TxState

end DpdkTools
