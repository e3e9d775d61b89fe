import DpdkTools.Config.Construct
import DpdkTools.Lib.Grants

/-! Who sends on a tx queue directly: `device::tx_queue` and its caller `sink::setup_sink`.

The queues below `tx_queues_` are given to cores from the top downwards, the others are drained by
the jobs. `per_core_queue_` is looked into on every call and nothing is ever written to it, so a
core that asks again is given the next queue. -/
namespace DpdkTools.Config
open Grants
set_option autoImplicit false

/-- `device::no_txq` -/
def noTxq : BitVec 16 := BitVec.allOnes 16

/-- The members that `device::tx_queue` uses; `maxLcore` is `RTE_MAX_LCORE`. -/
structure TxQueues (maxLcore : ℕ) where
  txQueues : BitVec 16
  perCoreQueue : Fin maxLcore → BitVec 16

section Calls
variable {maxLcore : ℕ}

namespace TxQueues

/-- `device::tx_queue` -/
def txQueue (s : TxQueues maxLcore) (core : Fin maxLcore) : BitVec 16 × TxQueues maxLcore :=
  let res := s.perCoreQueue core
  if res = noTxq ∧ s.txQueues ≠ 0 then
    (s.txQueues - 1, { s with txQueues := s.txQueues - 1 })
  else (res, s)

/-- The queue of a result other than `no_txq`. -/
def granted (res : BitVec 16) : Option (BitVec 16) := if res = noTxq then none else some res

def grant (s : TxQueues maxLcore) (core : Fin maxLcore) :
    Option (BitVec 16) × TxQueues maxLcore :=
  (granted (s.txQueue core).1, (s.txQueue core).2)

end TxQueues

/-- The members as the constructor leaves them. -/
def Constructed.txQueueState (d : Constructed) (maxLcore : ℕ) : TxQueues maxLcore :=
  ⟨d.txQueues, fun _ => noTxq⟩

/-- The calls of `device::tx_queue` by the given cores, one after the other. -/
def Constructed.txQueueCalls (d : Constructed) (cores : List (Fin maxLcore)) :
    Log (Fin maxLcore) (BitVec 16) :=
  logOf TxQueues.grant (d.txQueueState maxLcore) cores

/-- Where `sink::setup_sink` lets a sink send. -/
inductive SinkTarget where
  | txBurst (queueId : BitVec 16)
  | ringEnque
  deriving Repr, DecidableEq

/-- `sink::setup_sink` -/
def setupSink (s : TxQueues maxLcore) (core : Fin maxLcore) : SinkTarget × TxQueues maxLcore :=
  let txq := (s.txQueue core).1
  if noTxq ≠ txq then (.txBurst txq, (s.txQueue core).2) else (.ringEnque, (s.txQueue core).2)

def setupSinks : TxQueues maxLcore → List (Fin maxLcore) → List SinkTarget
  | _, [] => []
  | s, core :: cores => (setupSink s core).1 :: setupSinks (setupSink s core).2 cores

/-- The direct queues are owned: by one core each, for good, and never by a job. -/
structure QueuesOwned (d : Constructed) (log : Log (Fin maxLcore) (BitVec 16)) : Prop where
  stays : Stays log
  exclusive : Exclusive log
  undrained : ∀ a ∈ log, ∀ q, a.2 = some q → q ∉ d.txJobs

/-- Each of the first `t` callers calls once. -/
def CallOnce : ℕ → List (Fin maxLcore) → Prop
  | 0, _ => True
  | _, [] => True
  | t + 1, core :: cores => core ∉ cores ∧ CallOnce t cores

instance decidableCallOnce : ∀ (t : ℕ) (cores : List (Fin maxLcore)), Decidable (CallOnce t cores)
  | 0, _ => .isTrue trivial
  | _ + 1, [] => .isTrue trivial
  | t + 1, core :: cores =>
    have := decidableCallOnce t cores
    inferInstanceAs (Decidable (core ∉ cores ∧ CallOnce t cores))

/-! ## One call -/

namespace TxQueues

/-- The table as the constructor fills it. -/
def Unwritten (s : TxQueues maxLcore) : Prop := ∀ core, s.perCoreQueue core = noTxq

theorem grant_unwritten (s : TxQueues maxLcore) (core : Fin maxLcore) (h : s.Unwritten) :
    (s.grant core).2.Unwritten := by
  simp only [grant, txQueue]
  split
  · exact h
  · exact h

theorem toNat_pred (q : BitVec 16) (h : q ≠ 0) : (q - 1).toNat + 1 = q.toNat := by
  bv_omega

/-- A call either counts down by one or finds nothing left. -/
theorem grant_cases (s : TxQueues maxLcore) (core : Fin maxLcore) (h : s.Unwritten) :
    (s.txQueues ≠ 0 ∧ (s.grant core).1 = some (s.txQueues - 1) ∧
      (s.grant core).2.txQueues = s.txQueues - 1) ∨
    (s.txQueues = 0 ∧ s.grant core = (none, s)) := by
  by_cases hz : s.txQueues = 0
  · right
    have hres : s.txQueue core = (noTxq, s) := by
      rw [txQueue, if_neg (fun hc => hc.2 hz), h core]
    refine ⟨hz, ?_⟩
    rw [grant, hres, granted, if_pos rfl]
  · left
    have hres : s.txQueue core = (s.txQueues - 1, { s with txQueues := s.txQueues - 1 }) := by
      rw [txQueue, if_pos ⟨h core, hz⟩]
    -- the counter is below `no_txq` once it has been counted down
    have hne : s.txQueues - 1 ≠ noTxq := by
      intro heq
      have hpred := toNat_pred s.txQueues hz
      have hlt := s.txQueues.isLt
      rw [heq, show noTxq.toNat = 65535 from rfl] at hpred
      omega
    refine ⟨hz, ?_, ?_⟩
    · rw [grant, hres, granted, if_neg hne]
    · rw [grant, hres]

/-- What is left is what lies below the counter. -/
theorem spends : Spends (@grant maxLcore) Unwritten
    (fun s => {q | q.toNat < s.txQueues.toNat}) := by
  constructor
  · exact grant_unwritten
  · intro s core h q hq
    rcases grant_cases s core h with ⟨hz, -, hs⟩ | ⟨-, hs⟩
    · have hpred := toNat_pred s.txQueues hz
      have hq' : q.toNat < (s.grant core).2.txQueues.toNat := hq
      rw [hs] at hq'
      show q.toNat < s.txQueues.toNat
      omega
    · rw [hs] at hq
      exact hq
  · intro s core r h hr
    rcases grant_cases s core h with ⟨hz, hgrant, hs⟩ | ⟨-, hs⟩
    · rw [hgrant] at hr
      cases hr
      have hpred := toNat_pred s.txQueues hz
      constructor
      · show (s.txQueues - 1).toNat < s.txQueues.toNat
        omega
      · show ¬ (s.txQueues - 1).toNat < (s.grant core).2.txQueues.toNat
        rw [hs]
        exact lt_irrefl _
    · rw [hs] at hr
      cases hr

end TxQueues

/-! ## All calls -/

theorem not_mem_holders (s : TxQueues maxLcore) (core : Fin maxLcore)
    (cores : List (Fin maxLcore)) :
    (∀ b ∈ logOf TxQueues.grant s cores, b.1 ≠ core) ↔ core ∉ cores := by
  have hmap := logOf_holders TxQueues.grant cores s
  constructor
  · intro h hmem
    rw [← hmap] at hmem
    obtain ⟨b, hb, heq⟩ := List.mem_map.mp hmem
    exact h b hb heq
  · intro h b hb heq
    apply h
    rw [← hmap, ← heq]
    exact List.mem_map_of_mem hb

/-- A core is granted a queue as long as the counter has not run out. -/
theorem once_iff (cores : List (Fin maxLcore)) : ∀ s : TxQueues maxLcore, s.Unwritten →
    ((logOf TxQueues.grant s cores).Pairwise (fun a b => a.2.isSome → b.1 ≠ a.1) ↔
      CallOnce s.txQueues.toNat cores) := by
  induction cores with
  | nil =>
    intro s _
    cases s.txQueues.toNat with
    | zero => exact iff_of_true List.Pairwise.nil trivial
    | succ t => exact iff_of_true List.Pairwise.nil trivial
  | cons core cores ih =>
    intro s h
    have htail := ih _ (s.grant_unwritten core h)
    rw [logOf, List.pairwise_cons]
    rcases s.grant_cases core h with ⟨hz, hgrant, hs⟩ | ⟨hz, hs⟩
    · have hhead := not_mem_holders (s.grant core).2 core cores
      have hpred := TxQueues.toNat_pred s.txQueues hz
      rw [hs] at htail
      rw [htail, hgrant, ← hpred, CallOnce]
      apply and_congr_left'
      rw [← hhead]
      constructor
      · intro hall b hb
        exact hall b hb rfl
      · intro hall b hb _
        exact hall b hb
    · -- nothing is left: neither this call nor a later one is granted a queue
      rw [hs] at htail ⊢
      rw [htail, hz]
      apply and_iff_right
      intro b _ hsome
      cases hsome

/-- A job drains none of the queues below the counter. -/
theorem txQueueCalls_undrained (host : Host) (eth : EthDev) (config : Device) (d : Constructed)
    (h : makeDevice host eth config = .ok d) (cores : List (Fin maxLcore)) :
    ∀ a ∈ d.txQueueCalls cores, ∀ q, a.2 = some q → q ∉ d.txJobs := by
  intro a ha q hq hmem
  have hmade := makeDevice_ok host eth config d h
  have hlt : q.toNat < d.txQueues.toNat :=
    TxQueues.spends.mem_left _ _ _ cores _ (fun _ => rfl) a ha q hq
  rw [hmade.txJobs] at hmem
  have hle := le_of_mem_txJobQueues config _ q hmem
  rw [hmade.txQueues] at hlt
  omega

theorem txQueueCalls_fresh (d : Constructed) (cores : List (Fin maxLcore)) :
    Fresh (d.txQueueCalls cores) :=
  TxQueues.spends.fresh _ _ _ cores _ (fun _ => rfl)

/-! ## The sinks -/

def SinkTarget.ofGrant : Option (BitVec 16) → SinkTarget
  | none => .ringEnque
  | some q => .txBurst q

theorem setupSink_eq (s : TxQueues maxLcore) (core : Fin maxLcore) :
    setupSink s core = (SinkTarget.ofGrant (s.grant core).1, (s.grant core).2) := by
  rw [setupSink, TxQueues.grant, TxQueues.granted]
  by_cases h : (s.txQueue core).1 = noTxq
  · rw [if_neg (fun hne => hne h.symm), if_pos h]
    rfl
  · rw [if_pos (Ne.symm h), if_neg h]
    rfl

theorem setupSinks_eq (cores : List (Fin maxLcore)) : ∀ s : TxQueues maxLcore,
    setupSinks s cores = (logOf TxQueues.grant s cores).map fun a => SinkTarget.ofGrant a.2 := by
  induction cores with
  | nil =>
    intro s
    rfl
  | cons core cores ih =>
    intro s
    rw [setupSinks, setupSink_eq, ih, logOf, List.map_cons]

/-- However many sinks a core sets up, no two of them burst on one queue. -/
theorem sinks_apart (d : Constructed) (cores : List (Fin maxLcore)) :
    (setupSinks (d.txQueueState maxLcore) cores).Pairwise
      (fun a b => ∀ q, a = .txBurst q → b ≠ .txBurst q) := by
  rw [setupSinks_eq, List.pairwise_map]
  refine (txQueueCalls_fresh d cores).imp ?_
  intro a b hab q ha hb
  cases hga : a.2 with
  | none =>
    rw [hga] at ha
    cases ha
  | some r =>
    cases hgb : b.2 with
    | none =>
      rw [hgb] at hb
      cases hb
    | some r' =>
      rw [hga] at ha
      rw [hgb] at hb
      cases ha
      cases hb
      exact hab q hga hgb

/-! ## Ownership -/

/-- The direct queues are owned exactly when none of the cores that are given one calls again. -/
theorem queuesOwned_iff (host : Host) (eth : EthDev) (config : Device) (d : Constructed)
    (h : makeDevice host eth config = .ok d) (cores : List (Fin maxLcore)) :
    QueuesOwned d (d.txQueueCalls cores) ↔
      CallOnce (config.txNbQueues.toNat - config.txRings.toNat) cores := by
  have hfresh := txQueueCalls_fresh d cores
  have honce : Stays (d.txQueueCalls cores) ↔ CallOnce d.txQueues.toNat cores :=
    (hfresh.stays_iff).trans (once_iff cores (d.txQueueState maxLcore) fun _ => rfl)
  rw [(makeDevice_ok host eth config d h).txQueues, directTxQueues_toNat] at honce
  rw [← honce]
  constructor
  · intro howned
    exact howned.stays
  · intro hstays
    exact ⟨hstays, hfresh.exclusive, txQueueCalls_undrained host eth config d h cores⟩

/-- Three tx queues, one of them behind a ring. -/
def oneRing : Device := (bareDevice.setTxNbQueues 3).set .txRings 1#16

/-- Two cores that call once each. -/
theorem queuesOwned_iff_two : ∃ d, makeDevice igcHost (willingEth none) oneRing = .ok d ∧
    QueuesOwned d (d.txQueueCalls [(0 : Fin 128), 1]) := by
  refine ⟨_, rfl, ?_⟩
  apply (queuesOwned_iff igcHost (willingEth none) oneRing _ rfl _).mpr
  decide

/-- One core that sets up two sinks is given both queues. -/
theorem asked_twice : ∃ d, makeDevice igcHost (willingEth none) oneRing = .ok d ∧
    d.txQueueCalls [(0 : Fin 128), 0] = [(0, some 1), (0, some 0)] ∧
    ¬ QueuesOwned d (d.txQueueCalls [(0 : Fin 128), 0]) := by
  refine ⟨_, rfl, rfl, ?_⟩
  intro howned
  have hstay := List.rel_of_pairwise_cons howned.stays (List.mem_singleton_self _) 1#16 rfl rfl
  cases hstay

end Calls
end DpdkTools.Config
