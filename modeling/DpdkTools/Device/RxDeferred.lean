import DpdkTools.Device.RxStale
import DpdkTools.Device.RxKept

/-! What a whole receive call does with the packets it defers: `rx_job::process` gives them to
`process_rx_packets` as it has measured them, and nothing else of the call touches them. -/
namespace DpdkTools
set_option autoImplicit false

/-! ## The loop of `process_rx_packets`, packet by packet -/

section Packets
variable (env : RxEnv)

/-- What every packet of a burst keeps of the table, the burst keeps. -/
theorem splitRxPackets_arp (P : ArpTable → Prop) (bs : List MbufPtr) :
    ∀ heap arp, bs.Nodup →
      (∀ arp, ∀ b ∈ bs, P arp → P (processRxPacket env arp b (heap b)).2.1) → P arp →
      P (splitRxPackets env heap arp bs).arp := by
  induction bs with
  | nil =>
    intro heap arp _ _ h
    exact h
  | cons b bs ih =>
    intro heap arp hnodup hstep h
    obtain ⟨hb, hbs⟩ := List.nodup_cons.mp hnodup
    have hall := ih (Function.update heap b (processRxPacket env arp b (heap b)).1)
      (processRxPacket env arp b (heap b)).2.1 hbs (by
        intro arp' x hx hP
        rw [Function.update_of_ne (ne_of_mem_of_not_mem hx hb)]
        exact hstep arp' x (List.mem_cons_of_mem b hx) hP)
      (hstep arp b (List.mem_cons_self ..) h)
    rw [splitRxPackets]
    split_ifs
    · exact hall
    · exact hall

/-- What one packet brings about and no packet undoes, a burst with that packet brings about. -/
theorem splitRxPackets_learns (P : ArpTable → Prop) (bs : List MbufPtr) (x : MbufPtr) (m : Mbuf)
    (hkeep : ∀ arp b m, P arp → P (processRxPacket env arp b m).2.1)
    (hlearn : ∀ arp, P (processRxPacket env arp x m).2.1) :
    ∀ heap arp, bs.Nodup → x ∈ bs → heap x = m → P (splitRxPackets env heap arp bs).arp := by
  induction bs with
  | nil =>
    intro heap arp _ hx
    exact absurd hx List.not_mem_nil
  | cons b bs ih =>
    intro heap arp hnodup hx hm
    obtain ⟨hb, hbs⟩ := List.nodup_cons.mp hnodup
    have hall : P (splitRxPackets env (Function.update heap b (processRxPacket env arp b (heap b)).1)
        (processRxPacket env arp b (heap b)).2.1 bs).arp := by
      obtain rfl | hx := List.mem_cons.mp hx
      · apply splitRxPackets_arp env P bs _ _ hbs (fun arp' y _ hP => hkeep arp' y _ hP)
        rw [hm]
        exact hlearn arp
      · apply ih _ _ hbs hx
        rw [Function.update_of_ne (ne_of_mem_of_not_mem hx hb), hm]
    rw [splitRxPackets]
    split_ifs
    · exact hall
    · exact hall

/-- The reply does not depend on the table. -/
theorem processRxPacket_mbuf (arp arp' : ArpTable) (b : MbufPtr) (m : Mbuf) :
    (processRxPacket env arp b m).1 = (processRxPacket env arp' b m).1 := by
  unfold processRxPacket
  split_ifs <;> rfl

theorem splitRxPackets_mbuf (bs : List MbufPtr) :
    ∀ heap arp, bs.Nodup → ∀ b ∈ bs,
      (splitRxPackets env heap arp bs).heap b = (processRxPacket env arp b (heap b)).1 := by
  induction bs with
  | nil =>
    intro heap arp _ b hb
    exact absurd hb List.not_mem_nil
  | cons x xs ih =>
    intro heap arp hnodup b hb
    obtain ⟨hx, hxs⟩ := List.nodup_cons.mp hnodup
    have hall : (splitRxPackets env (Function.update heap x (processRxPacket env arp x (heap x)).1)
        (processRxPacket env arp x (heap x)).2.1 xs).heap b = (processRxPacket env arp b (heap b)).1 := by
      obtain rfl | hb := List.mem_cons.mp hb
      · rw [splitRxPackets_heap env xs _ _ b hx, Function.update_self]
      · rw [ih _ _ hxs b hb, Function.update_of_ne (ne_of_mem_of_not_mem hb hx)]
        exact processRxPacket_mbuf env _ _ b (heap b)
    rw [splitRxPackets]
    split_ifs
    · exact hall
    · exact hall

end Packets

/-! ## The whole call -/

/-- The verdict on a packet that needs no lookup, or a UDP packet without a channel, defers it. -/
theorem classify_not_ipv4 (c : RxCall) (v v' : SinkView) (m : Mbuf) (k : Verdict) (h0 : m.ethProto ≠ 0)
    (h4 : m.ethProto ≠ etherTypeIpv4) (h : classify c v m = some (v', k)) : k = .other := by
  rw [classify, if_neg h0, if_neg h4] at h
  exact (Prod.mk.inj (Option.some.inj h)).2.symm

theorem verdicts_covers (c : RxCall) (heap : MbufHeap) (v v' : SinkView) (bs : List MbufPtr)
    (vs : List (MbufPtr × Verdict)) (h : verdicts c heap v bs = some (v', vs)) (b : MbufPtr)
    (hb : b ∈ bs) : ∃ k w w', (b, k) ∈ vs ∧ classify c w (heap b) = some (w', k) := by
  rw [← verdicts_fst c heap bs v v' vs h] at hb
  obtain ⟨⟨b', k⟩, hmem, rfl⟩ := List.mem_map.mp hb
  obtain ⟨_, w, w', hcl⟩ := verdicts_mem c heap bs v v' vs h b' k hmem
  exact ⟨k, w, w', hmem, hcl⟩

/-- The packets given to `process_rx_packets`: different mbufs of the burst, measured and otherwise
as they were received, and among them every one that is not IPv4. -/
structure Deferred (c : RxCall) (heap : MbufHeap) (arp : ArpTable) (burst : List MbufPtr)
    (o : RxOutcome) : Prop where
  packets : o.packets = processRxPackets c.env o.heap arp o.given
  nodup : o.given.Nodup
  received : ∀ b ∈ o.given, b ∈ burst
  measured : ∀ b ∈ o.given, (heap b).updateL2size.map Prod.fst = some (o.heap b)
  given : ∀ b ∈ burst, ∀ r, (heap b).updateL2size = some r → r.1.ethProto ≠ 0 →
    r.1.ethProto ≠ etherTypeIpv4 → b ∈ o.given

theorem settle_given (c : RxCall) (heap : MbufHeap) (arp : ArpTable) (burstSize n : ℕ)
    (v : SinkView) (vs : List (MbufPtr × Verdict)) :
    (settle c heap arp burstSize n v vs).given = deferred vs ∧
      (settle c heap arp burstSize n v vs).heap = udpHeap heap ((delivered vs).map Prod.snd) := by
  by_cases hnil : deferred vs = []
  · rw [settle, if_pos hnil, hnil]
    exact ⟨rfl, rfl⟩
  · rw [settle, if_neg hnil]
    exact ⟨rfl, rfl⟩

theorem process_deferred (j : RxJob) (c : RxCall) (hc : ∀ ch bs, c.enqueue ch bs ≤ bs.length)
    (heap : MbufHeap) (arp : ArpTable) (burst : List MbufPtr) (hnodup : burst.Nodup) (o : RxOutcome)
    (ho : j.process c heap arp burst = some o) : Deferred c heap arp burst o := by
  rcases j.process_cases c heap arp burst o ho with
    ⟨rfl, rfl⟩ | ⟨hne, hle, _, heap', _, hl2, _, _⟩
  · refine ⟨rfl, List.nodup_nil, ?_, ?_, ?_⟩
    · intro b hb
      exact absurd hb List.not_mem_nil
    · intro b hb
      exact absurd hb List.not_mem_nil
    · intro b hb
      exact absurd hb List.not_mem_nil
  rw [process_spec j c heap heap' arp burst hne hle hl2 hc] at ho
  obtain ⟨⟨v, vs⟩, hv, hset⟩ := Option.bind_eq_some_iff.mp ho
  split_ifs at hset with hroom
  obtain rfl := Option.some.inj hset
  obtain ⟨hgiven, hheap⟩ := settle_given c heap' arp j.burstSize burst.length v vs
  have hfst : vs.map Prod.fst = burst := verdicts_fst c heap' burst _ v vs hv
  have hnodup' : (vs.map Prod.fst).Nodup := by
    rw [hfst]
    exact hnodup
  refine ⟨?_, ?_, ?_, ?_, ?_⟩
  · rw [settle_packets, hheap, hgiven]
  · rw [hgiven]
    exact hnodup'.sublist (List.filter_sublist.map Prod.fst)
  · intro b hb
    rw [hgiven] at hb
    rw [← hfst]
    exact mem_of_deferred vs b hb
  · intro b hb
    rw [hgiven] at hb
    have hburst : b ∈ burst := by
      rw [← hfst]
      exact mem_of_deferred vs b hb
    rw [hheap, udpHeap, if_neg (deferred_not_delivered vs hnodup' b hb)]
    exact updateL2sizes_mem heap heap' burst hl2 b hburst
  · intro b hb r hr h0 h4
    have hmeasured : heap' b = r.1 := by
      have hmem := updateL2sizes_mem heap heap' burst hl2 b hb
      rw [hr, Option.map_some] at hmem
      exact (Option.some.inj hmem).symm
    obtain ⟨k, w, w', hmem, hcl⟩ := verdicts_covers c heap' _ v burst vs hv b hb
    rw [hmeasured] at hcl
    obtain rfl := classify_not_ipv4 c w w' r.1 k h0 h4 hcl
    rw [hgiven]
    exact List.mem_map.mpr ⟨(b, .other), List.mem_filter.mpr ⟨hmem, rfl⟩, rfl⟩

/-- A receive call: different mbufs, and channels that give back no more than they got. -/
structure RxPoll where
  job : RxJob
  call : RxCall
  heap : MbufHeap
  burst : List MbufPtr
  nodup : burst.Nodup
  recycle_le : ∀ ch bs, call.enqueue ch bs ≤ bs.length

def RxPoll.env (p : RxPoll) (config : DeviceConfig) : RxEnv := { p.call.env with config := config }

def RxPoll.callOf (p : RxPoll) (config : DeviceConfig) : RxCall := { p.call with env := p.env config }

def RxPoll.process (p : RxPoll) (config : DeviceConfig) (arp : ArpTable) : Option RxOutcome :=
  p.job.process (p.callOf config) p.heap arp p.burst

/-- `read_clock()` is never 0. -/
def RxPoll.ClockRuns (p : RxPoll) : Prop := ∀ b, p.call.env.readClock b ≠ 0

theorem RxPoll.deferred (p : RxPoll) (config : DeviceConfig) (arp : ArpTable) (o : RxOutcome)
    (h : p.process config arp = some o) :
    Deferred (p.callOf config) p.heap arp p.burst o :=
  process_deferred p.job (p.callOf config) p.recycle_le p.heap arp p.burst p.nodup o h

end DpdkTools
