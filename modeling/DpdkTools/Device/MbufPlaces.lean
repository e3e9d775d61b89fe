import DpdkTools.Config.TxRings
import DpdkTools.Device.RxDeferred
import DpdkTools.Device.TxJob
import Mathlib.Algebra.Order.Group.Multiset
import Mathlib.Data.Multiset.OrderedMonoid
import Mathlib.Algebra.Order.Sub.Basic
import Mathlib.Tactic.Abel

/-! Where the mbufs of a device are: in the pool (or on the receive rings of the NIC, which are filled
from it), with a channel, with a thread that builds packets, on a ring or in the array of a transmit
job, or with the NIC until it has sent them.

Receive calls, transmit jobs, channels and threads take their turns in any order. A receive call puts
its replies on the ring that `service_tx` selects. -/
namespace DpdkTools
open Runs
set_option autoImplicit false

/-- A transmit job and its ring. -/
structure TxLane where
  job : TxJob MbufPtr
  ring : TxRing MbufPtr

namespace TxLane

def create (burtsSize : ℕ) (buffers : Slots MbufPtr maxPktBurst) : TxLane :=
  ⟨TxJob.create burtsSize buffers, TxRing.create⟩

def mbufs (l : TxLane) : List MbufPtr := l.job.pending ++ l.ring.items

def room (l : TxLane) : ℕ := l.ring.capacity - l.ring.items.length

def enque (l : TxLane) (bs : List MbufPtr) : TxLane := { l with ring := (l.ring.enque bs).1 }

/-- What `rte_eth_tx_burst` is offered in a call in which the ring hands over `k`. -/
def offered (l : TxLane) (k : ℕ) : ℕ := if l.job.burstSize = l.job.n then l.job.n else l.job.n + k

theorem create_mbufs (burtsSize : ℕ) (buffers : Slots MbufPtr maxPktBurst) :
    (create burtsSize buffers).mbufs = [] := by
  have h : (TxJob.create burtsSize buffers).pending = [] := TxJob.pending_eq_nil _ rfl
  simp [mbufs, create, h, TxRing.create]

theorem enque_mbufs (l : TxLane) (bs : List MbufPtr) :
    (l.enque bs).mbufs = l.mbufs ++ bs.take l.room := by
  simp only [mbufs, enque, TxRing.enque, TxRing.accepted, room, List.append_assoc]

/-- A call of the job in which the NIC takes everything or nothing takes the sent mbufs out and leaves
the others. -/
theorem process_mbufs (l : TxLane) (k sent : ℕ) (o : TxJob.Outcome MbufPtr)
    (h : l.job.process l.ring k sent = some o) (hw : sent = 0 ∨ sent = l.offered k) :
    o.taken ++ (⟨o.job, o.ring⟩ : TxLane).mbufs = l.mbufs := by
  obtain ⟨xs, full, hfull, hring, hn, _, hsplit⟩ := TxJob.process_cases h
  have hwhole := full.sendDone_split sent (by rw [hn]; exact hw)
  rw [mbufs, mbufs, ← List.append_assoc, hsplit, hwhole, hfull, ← hring, List.append_assoc]

end TxLane

def lanesMbufs (lanes : List TxLane) : Multiset MbufPtr := (lanes.flatMap TxLane.mbufs : List MbufPtr)

/-- Changing one lane moves its mbufs and no others. -/
theorem lanesMbufs_set (lanes : List TxLane) (ix : ℕ) (l l' : TxLane) (h : lanes[ix]? = some l) :
    lanesMbufs (lanes.set ix l') + (l.mbufs : Multiset MbufPtr) =
      lanesMbufs lanes + (l'.mbufs : Multiset MbufPtr) := by
  induction lanes generalizing ix with
  | nil => exact absurd h (by simp)
  | cons x xs ih =>
    cases ix with
    | zero =>
      obtain rfl : x = l := by simpa using h
      simp only [lanesMbufs, List.set_cons_zero, List.flatMap_cons, ← Multiset.coe_add]
      abel
    | succ ix =>
      have hxs : xs[ix]? = some l := by simpa using h
      have hrest := ih ix hxs
      simp only [lanesMbufs, List.set_cons_succ, List.flatMap_cons, ← Multiset.coe_add] at hrest ⊢
      rw [add_assoc, hrest, add_assoc]

theorem lanesMbufs_enque (lanes : List TxLane) (ix : ℕ) (l : TxLane) (bs : List MbufPtr)
    (h : lanes[ix]? = some l) :
    lanesMbufs (lanes.set ix (l.enque bs)) = lanesMbufs lanes + (bs.take l.room : Multiset MbufPtr) := by
  have hset := lanesMbufs_set lanes ix l (l.enque bs) h
  rw [l.enque_mbufs, ← Multiset.coe_add] at hset
  apply add_right_cancel (b := (l.mbufs : Multiset MbufPtr))
  rw [hset]
  abel

theorem taken_out {a bs : Multiset MbufPtr} (h : bs ≤ a) : ∃ rest, a - bs = rest ∧ a = rest + bs :=
  ⟨a - bs, rfl, (tsub_add_cancel_of_le h).symm⟩

/-! ## The device -/

structure DeviceMbufs where
  arp : ArpTable
  lanes : List TxLane
  pool : Multiset MbufPtr
  channels : Multiset MbufPtr
  producers : Multiset MbufPtr
  nic : Multiset MbufPtr
  /-- With no one: given back by a channel where the recycle count is not looked at. -/
  leaked : Multiset MbufPtr

inductive DeviceEvent where
  | rx (queueId : ℕ) (p : RxPoll)
  | tx (ix k sent : ℕ)
  /-- The NIC is done with packets it has sent. -/
  | complete (bs : Multiset MbufPtr)
  /-- A channel is done with packets it was given. -/
  | release (bs : Multiset MbufPtr)
  | alloc (bs : Multiset MbufPtr)
  | enque (ix : ℕ) (bs : List MbufPtr)
  | free (bs : Multiset MbufPtr)

namespace DeviceMbufs

def places (s : DeviceMbufs) : Multiset MbufPtr :=
  s.pool + s.channels + s.producers + lanesMbufs s.lanes + s.nic + s.leaked

def initial (lanes : List TxLane) (mbufs : Multiset MbufPtr) : DeviceMbufs :=
  ⟨fun _ => none, lanes, mbufs, 0, 0, 0, 0⟩

section Step
variable (config : DeviceConfig) (svcTxN : ℕ)

/-- The index of the ring that `service_tx` selects. -/
def serviceTx (s : DeviceMbufs) (queueId : ℕ) : Option ℕ :=
  (Config.remainder queueId svcTxN).map fun r => r + s.lanes.length - svcTxN

/-- What is left of a burst when everyone has taken their mbufs. -/
def dropped (p : RxPoll) (o : RxOutcome) : Multiset MbufPtr :=
  (p.burst : Multiset MbufPtr) -
    (freed o.actions ++ kept p.call.enqueue o.actions ++ o.packets.ringed : List MbufPtr)

/-- The lanes after a receive call has put `bs` on the ring that `service_tx` selects. -/
def replied (s : DeviceMbufs) (queueId : ℕ) (bs : List MbufPtr) : Option (List TxLane) :=
  -- a call without a reply asks for no ring
  if bs = [] then some s.lanes
  else
    (s.serviceTx svcTxN queueId).bind fun ix =>
      s.lanes[ix]?.bind fun lane =>
        if bs.length ≤ lane.room then some (s.lanes.set ix (lane.enque bs)) else none

def received (s : DeviceMbufs) (lanes : List TxLane) (p : RxPoll) (o : RxOutcome) : DeviceMbufs :=
  { s with
    arp := o.packets.arp
    lanes := lanes
    pool := s.pool - (p.burst : Multiset MbufPtr) + (freed o.actions : Multiset MbufPtr)
    channels := s.channels + (kept p.call.enqueue o.actions : Multiset MbufPtr)
    leaked := s.leaked + dropped p o }

def step (s : DeviceMbufs) : DeviceEvent → Option DeviceMbufs
  | .rx queueId p =>
    if (p.burst : Multiset MbufPtr) ≤ s.pool then
      (p.process config s.arp).bind fun o =>
        (s.replied svcTxN queueId o.packets.ringed).map fun lanes => s.received lanes p o
    else none
  | .tx ix k sent =>
    s.lanes[ix]?.bind fun lane =>
      (lane.job.process lane.ring k sent).map fun o =>
        { s with lanes := s.lanes.set ix ⟨o.job, o.ring⟩, nic := s.nic + (o.taken : Multiset MbufPtr) }
  | .complete bs => if bs ≤ s.nic then some { s with nic := s.nic - bs, pool := s.pool + bs } else none
  | .release bs =>
    if bs ≤ s.channels then some { s with channels := s.channels - bs, pool := s.pool + bs } else none
  | .alloc bs =>
    if bs ≤ s.pool then some { s with pool := s.pool - bs, producers := s.producers + bs } else none
  | .enque ix bs =>
    s.lanes[ix]?.bind fun lane =>
      if (bs : Multiset MbufPtr) ≤ s.producers then
        some { s with
          lanes := s.lanes.set ix (lane.enque bs)
          producers := s.producers - (bs.take lane.room : List MbufPtr) }
      else none
  | .free bs =>
    if bs ≤ s.producers then some { s with producers := s.producers - bs, pool := s.pool + bs } else none

/-- The NIC takes all that it is offered, or nothing. -/
def WholeSend (s : DeviceMbufs) : DeviceEvent → Prop
  | .tx ix k sent => ∀ lane ∈ s.lanes[ix]?, sent = 0 ∨ sent = lane.offered k
  | _ => True

instance (s : DeviceMbufs) (e : DeviceEvent) : Decidable (s.WholeSend e) := by
  cases e with
  | tx ix k sent =>
    exact inferInstanceAs (Decidable (∀ lane ∈ s.lanes[ix]?, sent = 0 ∨ sent = lane.offered k))
  | _ => exact inferInstanceAs (Decidable True)

/-- No channel gives an mbuf back where the count is dropped. -/
def NothingDropped : DeviceEvent → Prop
  | .rx _ p => RecyclesNothing p.job (p.callOf config) p.heap p.burst
  | _ => True

/-! ## One step -/

/-- The burst is shared out: freed, with a channel, on the ring, or with no one. -/
theorem burst_shared (p : RxPoll) (arp : ArpTable) (o : RxOutcome) (h : p.process config arp = some o) :
    (p.burst : Multiset MbufPtr) = (freed o.actions : Multiset MbufPtr) +
      (kept p.call.enqueue o.actions : Multiset MbufPtr) + (o.packets.ringed : Multiset MbufPtr) +
      dropped p o := by
  have hle : ((freed o.actions ++ kept p.call.enqueue o.actions ++ o.packets.ringed : List MbufPtr) :
      Multiset MbufPtr) ≤ p.burst := by
    rcases p.job.process_cases (p.callOf config) p.heap arp p.burst o h with
      ⟨_, rfl⟩ | ⟨hne, hle, _, heap', _, hl2, _, _⟩
    · exact Multiset.zero_le _
    · rw [RxPoll.process, process_spec p.job (p.callOf config) p.heap heap' arp p.burst hne hle hl2
        p.recycle_le] at h
      obtain ⟨⟨v, vs⟩, hv, hset⟩ := Option.bind_eq_some_iff.mp h
      split_ifs at hset with hroom
      have hledger := ledger_settle (p.callOf config) heap' arp p.job.burstSize p.burst.length v vs o
        (Option.some.inj hset).symm
      rw [verdicts_fst _ heap' p.burst _ v vs hv] at hledger
      rw [← Multiset.coe_eq_coe.mpr hledger, ← Multiset.coe_add _ (DpdkTools.leaked _ _)]
      exact Multiset.le_add_right _ _
  rw [Multiset.coe_add, Multiset.coe_add, dropped, add_tsub_cancel_of_le hle]

theorem replied_mbufs (s : DeviceMbufs) (queueId : ℕ) (bs : List MbufPtr) (lanes : List TxLane)
    (h : s.replied svcTxN queueId bs = some lanes) :
    lanesMbufs lanes = lanesMbufs s.lanes + (bs : Multiset MbufPtr) := by
  rw [replied] at h
  split_ifs at h with hnil
  · obtain rfl := Option.some.inj h
    rw [hnil, Multiset.coe_nil, add_zero]
  · obtain ⟨ix, _, h⟩ := Option.bind_eq_some_iff.mp h
    obtain ⟨lane, hlane, h⟩ := Option.bind_eq_some_iff.mp h
    split_ifs at h with hroom
    obtain rfl := Option.some.inj h
    rw [lanesMbufs_enque s.lanes ix lane bs hlane, List.take_of_length_le hroom]

theorem received_places (s : DeviceMbufs) (queueId : ℕ) (lanes : List TxLane) (p : RxPoll) (o : RxOutcome)
    (hpool : (p.burst : Multiset MbufPtr) ≤ s.pool) (ho : p.process config s.arp = some o)
    (hreplied : s.replied svcTxN queueId o.packets.ringed = some lanes) :
    (s.received lanes p o).places = s.places := by
  have hshared := burst_shared config p s.arp o ho
  have hlanes := replied_mbufs svcTxN s queueId o.packets.ringed lanes hreplied
  obtain ⟨rest, hsub, hall⟩ := taken_out hpool
  rw [places, places, received]
  dsimp only
  rw [hsub, hlanes, hall, hshared]
  abel

/-- What a step can do. -/
inductive Steps (s : DeviceMbufs) : DeviceEvent → DeviceMbufs → Prop
  | rx (queueId : ℕ) (p : RxPoll) (o : RxOutcome) (lanes : List TxLane)
      (hpool : (p.burst : Multiset MbufPtr) ≤ s.pool) (ho : p.process config s.arp = some o)
      (hreplied : s.replied svcTxN queueId o.packets.ringed = some lanes) :
      Steps s (.rx queueId p) (s.received lanes p o)
  | tx (ix k sent : ℕ) (lane : TxLane) (o : TxJob.Outcome MbufPtr) (hlane : s.lanes[ix]? = some lane)
      (ho : lane.job.process lane.ring k sent = some o) :
      Steps s (.tx ix k sent)
        { s with lanes := s.lanes.set ix ⟨o.job, o.ring⟩, nic := s.nic + (o.taken : Multiset MbufPtr) }
  | complete (bs : Multiset MbufPtr) (hle : bs ≤ s.nic) :
      Steps s (.complete bs) { s with nic := s.nic - bs, pool := s.pool + bs }
  | release (bs : Multiset MbufPtr) (hle : bs ≤ s.channels) :
      Steps s (.release bs) { s with channels := s.channels - bs, pool := s.pool + bs }
  | alloc (bs : Multiset MbufPtr) (hle : bs ≤ s.pool) :
      Steps s (.alloc bs) { s with pool := s.pool - bs, producers := s.producers + bs }
  | enque (ix : ℕ) (bs : List MbufPtr) (lane : TxLane) (hlane : s.lanes[ix]? = some lane)
      (hle : (bs : Multiset MbufPtr) ≤ s.producers) :
      Steps s (.enque ix bs)
        { s with
          lanes := s.lanes.set ix (lane.enque bs)
          producers := s.producers - (bs.take lane.room : List MbufPtr) }
  | free (bs : Multiset MbufPtr) (hle : bs ≤ s.producers) :
      Steps s (.free bs) { s with producers := s.producers - bs, pool := s.pool + bs }

theorem step_steps (s : DeviceMbufs) (e : DeviceEvent) (s' : DeviceMbufs)
    (h : s.step config svcTxN e = some s') : Steps config svcTxN s e s' := by
  cases e with
  | rx queueId p =>
    rw [step] at h
    split_ifs at h with hpool
    obtain ⟨o, ho, h⟩ := Option.bind_eq_some_iff.mp h
    obtain ⟨lanes, hreplied, rfl⟩ := Option.map_eq_some_iff.mp h
    exact Steps.rx queueId p o lanes hpool ho hreplied
  | tx ix k sent =>
    obtain ⟨lane, hlane, h⟩ := Option.bind_eq_some_iff.mp h
    obtain ⟨o, ho, rfl⟩ := Option.map_eq_some_iff.mp h
    exact Steps.tx ix k sent lane o hlane ho
  | complete bs =>
    obtain ⟨hle, h⟩ := Option.ite_none_right_eq_some.mp h
    obtain rfl := Option.some.inj h
    exact Steps.complete bs hle
  | release bs =>
    obtain ⟨hle, h⟩ := Option.ite_none_right_eq_some.mp h
    obtain rfl := Option.some.inj h
    exact Steps.release bs hle
  | alloc bs =>
    obtain ⟨hle, h⟩ := Option.ite_none_right_eq_some.mp h
    obtain rfl := Option.some.inj h
    exact Steps.alloc bs hle
  | enque ix bs =>
    obtain ⟨lane, hlane, h⟩ := Option.bind_eq_some_iff.mp h
    obtain ⟨hle, h⟩ := Option.ite_none_right_eq_some.mp h
    obtain rfl := Option.some.inj h
    exact Steps.enque ix bs lane hlane hle
  | free bs =>
    obtain ⟨hle, h⟩ := Option.ite_none_right_eq_some.mp h
    obtain rfl := Option.some.inj h
    exact Steps.free bs hle

theorem step_places (s : DeviceMbufs) (e : DeviceEvent) (s' : DeviceMbufs) (hw : s.WholeSend e)
    (h : s.step config svcTxN e = some s') : s'.places = s.places := by
  cases step_steps config svcTxN s e s' h with
  | rx queueId p o lanes hpool ho hreplied =>
    exact received_places config svcTxN s queueId lanes p o hpool ho hreplied
  | tx ix k sent lane o hlane ho =>
    have hset := lanesMbufs_set s.lanes ix lane ⟨o.job, o.ring⟩ hlane
    rw [← lane.process_mbufs k sent o ho (hw lane hlane), ← Multiset.coe_add, ← add_assoc] at hset
    have hlanes := add_right_cancel hset
    rw [places, places]
    dsimp only
    rw [← hlanes]
    abel
  | complete bs hle | release bs hle | alloc bs hle | free bs hle =>
    obtain ⟨rest, hsub, hall⟩ := taken_out hle
    rw [places, places]
    dsimp only
    rw [hsub, hall]
    abel
  | enque ix bs lane hlane hle =>
    have hlanes := lanesMbufs_enque s.lanes ix lane bs hlane
    have htaken : ((bs.take lane.room : List MbufPtr) : Multiset MbufPtr) ≤ s.producers :=
      le_trans (Multiset.coe_le.mpr (List.take_sublist _ _).subperm) hle
    obtain ⟨rest, hsub, hall⟩ := taken_out htaken
    rw [places, places]
    dsimp only
    rw [hsub, hlanes, hall]
    abel

/-- A call that drops no recycle count shares out the whole burst. -/
theorem dropped_zero (p : RxPoll) (arp : ArpTable) (o : RxOutcome) (h : p.process config arp = some o)
    (hnothing : RecyclesNothing p.job (p.callOf config) p.heap p.burst) : dropped p o = 0 := by
  have hle : p.burst.length ≤ p.job.burstSize := by
    rcases p.job.process_cases (p.callOf config) p.heap arp p.burst o h with ⟨hnil, _⟩ | ⟨_, hle, _⟩
    · rw [hnil]
      exact Nat.zero_le _
    · exact hle
  obtain ⟨o', ho', howned⟩ :=
    (process_owned_iff p.job (p.callOf config) p.heap arp p.burst hle p.recycle_le).mpr hnothing
  obtain rfl : o = o' := Option.some.inj (h.symm.trans ho')
  have hperm : (freed o.actions ++ kept p.call.enqueue o.actions ++ o.packets.ringed).Perm p.burst := howned
  rw [dropped, Multiset.coe_eq_coe.mpr hperm]
  exact tsub_self _

theorem step_leaked (s : DeviceMbufs) (e : DeviceEvent) (s' : DeviceMbufs) (hn : NothingDropped config e)
    (h : s.step config svcTxN e = some s') : s'.leaked = s.leaked := by
  cases step_steps config svcTxN s e s' h with
  | rx queueId p o lanes _ ho _ =>
    rw [received]
    dsimp only
    rw [dropped_zero config p s.arp o ho hn, add_zero]
  | tx _ _ _ _ _ _ _ | complete _ _ | release _ _ | alloc _ _ | enque _ _ _ _ _ | free _ _ => rfl

/-! ## Runs -/

theorem places_initial (lanes : List TxLane) (mbufs : Multiset MbufPtr)
    (hlanes : ∀ l ∈ lanes, l.mbufs = []) : (initial lanes mbufs).places = mbufs := by
  have hempty : lanesMbufs lanes = 0 := by
    rw [lanesMbufs, List.flatMap_eq_nil_iff.mpr hlanes]
    rfl
  simp [places, initial, hempty]

/-- Whatever the order of receive calls, transmit jobs, channels and threads: while the NIC takes
whole bursts every mbuf is in one place, and no step leaves one with no one but a receive call that
drops a recycle count. -/
theorem run_places (lanes : List TxLane) (hlanes : ∀ l ∈ lanes, l.mbufs = [])
    (mbufs : Multiset MbufPtr) (hdistinct : mbufs.Nodup) (es : List DeviceEvent)
    (tr : List (Transition DeviceMbufs DeviceEvent))
    (htr : trace (step config svcTxN) (initial lanes mbufs) es = some tr)
    (hw : ∀ t ∈ tr, t.pre.WholeSend t.event) :
    (∀ t ∈ tr, t.post.places = mbufs ∧ t.post.places.Nodup) ∧
      (∀ t ∈ tr, NothingDropped config t.event → t.post.leaked = t.pre.leaked) ∧
      ((∀ e ∈ es, NothingDropped config e) → ∀ t ∈ tr, t.post.leaked = 0) := by
  obtain ⟨_, hall⟩ := trace_invariant (fun s => s.places = mbufs) WholeSend
    (fun s e s' hs hw h => (step_places config svcTxN s e s' hw h).trans hs)
    (initial lanes mbufs) es tr htr (places_initial lanes mbufs hlanes) hw
  refine ⟨?_, ?_, ?_⟩
  · intro t ht
    have hplaces := (hall t ht).2
    refine ⟨hplaces, ?_⟩
    rw [hplaces]
    exact hdistinct
  · exact trace_forall (fun s e s' => NothingDropped config e → s'.leaked = s.leaked)
      (fun s e s' h hn => step_leaked config svcTxN s e s' hn h) (initial lanes mbufs) es tr htr
  · intro hn t ht
    obtain ⟨_, hleaked⟩ := trace_invariant (fun s => s.leaked = 0) (fun _ e => NothingDropped config e)
      (fun s e s' hs hn h => (step_leaked config svcTxN s e s' hn h).trans hs)
      (initial lanes mbufs) es tr htr rfl
      (fun t ht => hn t.event (trace_event_mem (initial lanes mbufs) es tr htr t ht))
    exact (hleaked t ht).2

end Step

def oneLane : List TxLane := [TxLane.create 32 ⟨List.replicate maxPktBurst 0, List.length_replicate⟩]

theorem mixedBurst_nodup : ([0, 1, 2] : List MbufPtr).Nodup := by
  decide

theorem recycles_none (ch : ChannelPtr) (slice : List MbufPtr) :
    (sampleCall fun _ _ => 0).enqueue ch slice ≤ slice.length :=
  Nat.zero_le _

/-- Two UDP packets for a channel with an ARP packet between them. -/
def mixedPoll : RxPoll where
  job := freshJob 32
  call := sampleCall fun _ _ => 0
  heap := mixedHeap
  burst := [0, 1, 2]
  nodup := mixedBurst_nodup
  recycle_le := recycles_none

def mixedRun : List DeviceEvent :=
  [.alloc {3}, .rx 0 mixedPoll, .enque 0 [3], .release {2}, .tx 0 1 1, .complete {3}]

theorem run_places_mixed :
    ∃ tr, trace (step (sampleCall fun _ _ => 0).env.config 1) (initial oneLane {0, 1, 2, 3}) mixedRun =
        some tr ∧
      (∀ t ∈ tr, t.post.places = {0, 1, 2, 3} ∧ t.post.places.Nodup) ∧ ∀ t ∈ tr, t.post.leaked = 0 := by
  have hruns : ((trace (step (sampleCall fun _ _ => 0).env.config 1) (initial oneLane {0, 1, 2, 3})
      mixedRun).map fun tr => decide (∀ t ∈ tr, t.pre.WholeSend t.event)) = some true := by
    decide +kernel
  obtain ⟨tr, htr, hwhole⟩ := Option.map_eq_some_iff.mp hruns
  obtain ⟨hplaces, -, hleaked⟩ := run_places _ 1 oneLane
    (by simp only [oneLane, List.mem_singleton, forall_eq]; exact TxLane.create_mbufs _ _)
    {0, 1, 2, 3} (by decide) mixedRun tr htr (of_decide_eq_true hwhole)
  refine ⟨tr, htr, hplaces, hleaked ?_⟩
  simp only [mixedRun, List.forall_mem_cons]
  refine ⟨trivial, ?_, trivial, trivial, trivial, trivial, by simp⟩
  exact ⟨mixedHeap, _, _, mixedHeap_fixed _, rfl, by decide, by simp [mixedPoll, RxPoll.callOf, sampleCall]⟩

end DeviceMbufs

end DpdkTools
