import DpdkTools.Device.ArpFrames

/-! ARP between devices that all run this code.

The link keeps a frame that was put on it until it loses it for good. A receive call meets a burst of
copies, so that frames may be repeated and overtaken too. Besides ARP the devices send IPv4.

`ether_address` enters its pending record after the request is on the ring (`try_emplace`), so
asking is two steps here and any receive call may come between them. -/
namespace DpdkTools
open Runs
set_option autoImplicit false

/-! ## The link -/

inductive LinkEvent (ι : Type) where
  | ask (i : ι) (ip4addr : Be32) (buffer : Option Mbuf) (room : Bool)
  | emplace (i : ι) (ip4addr : Be32)
  | transmit (frame : Mbuf)
  | poll (i : ι) (p : RxPoll)
  | lose (k : ℕ)

/-- The tables of the devices, the requests sent and not yet recorded, and the frames that were sent
and are not lost. -/
structure ArpLink (ι : Type) where
  arp : ι → ArpTable
  asking : List (ι × Be32)
  air : List Mbuf

namespace ArpLink
variable {ι : Type} (config : ι → DeviceConfig)

def initial : ArpLink ι := ⟨fun _ _ => none, [], []⟩

def step [DecidableEq ι] (s : ArpLink ι) : LinkEvent ι → Option (ArpLink ι)
  | .ask i ip4addr buffer room =>
    match (etherAddress (config i) (s.arp i) ip4addr buffer room).sent with
    | none => some s
    | some request => some { s with asking := s.asking ++ [(i, ip4addr)], air := s.air ++ [request] }
  | .emplace i ip4addr =>
    if (i, ip4addr) ∈ s.asking then
      some { s with
        arp := Function.update s.arp i (tryEmplace (s.arp i) ip4addr .pending)
        asking := s.asking.erase (i, ip4addr) }
    else none
  | .transmit frame => if Ipv4Frame frame then some { s with air := s.air ++ [frame] } else none
  | .poll i p =>
    if ∀ b ∈ p.burst, ∃ f ∈ s.air, Received f (p.heap b) then
      (p.process (config i) (s.arp i)).map fun o =>
        { s with
          arp := Function.update s.arp i o.packets.arp
          air := s.air ++ o.packets.ringed.map o.packets.heap }
    else none
  | .lose k => if k < s.air.length then some { s with air := s.air.eraseIdx k } else none

/-- The tables and the frames say what is so. -/
structure Inv (s : ArpLink ι) : Prop where
  truthful : ∀ i, Truthful config (s.arp i)
  honest : ∀ f ∈ s.air, Honest config f

theorem inv_initial : (initial : ArpLink ι).Inv config where
  truthful := fun _ => truthful_empty config
  honest := fun _ hf => absurd hf List.not_mem_nil

/-! ## A receive call -/

section RxPoll
variable (i : ι) (p : RxPoll) (arp : ArpTable) (o : RxOutcome) (ho : p.process (config i) arp = some o)
  (hburst : ∀ b ∈ p.burst, Honest config (p.heap b))

/-- What `process_rx_packets` sees of an honest burst: the header length, and the frames as they are. -/
theorem given_measured (hgiven : ∀ b ∈ o.given, b ∈ p.burst)
    (hmeasured : ∀ b ∈ o.given, (p.heap b).updateL2size.map Prod.fst = some (o.heap b))
    (hburst : ∀ b ∈ p.burst, Honest config (p.heap b)) :
    ∀ b ∈ o.given, o.heap b = { p.heap b with l2Len := 14 } ∧ Honest config (o.heap b) := by
  intro b hb
  have hhonest := hburst b (hgiven b hb)
  have hm := hmeasured b hb
  rw [hhonest.measured config, Option.map_some] at hm
  have heq : o.heap b = { p.heap b with l2Len := 14 } := (Option.some.inj hm).symm
  refine ⟨heq, ?_⟩
  rw [heq]
  exact hhonest.received config ⟨Nat.le_refl _, fun _ _ => rfl⟩

include ho hburst

theorem poll_honest (hmac : ∀ j, (config j).macAddr.length = 6) (harp : Truthful config arp) :
    Truthful config o.packets.arp ∧ ∀ b ∈ o.packets.ringed, Honest config (o.packets.heap b) := by
  have hdef := p.deferred (config i) arp o ho
  have hgiven := given_measured config p o hdef.received hdef.measured hburst
  obtain ⟨_, hringed, _, hheap, harp', _⟩ :=
    processRxPackets_spec (p.env (config i)) o.heap arp o.given
  have hpackets : o.packets = processRxPackets (p.env (config i)) o.heap arp o.given := hdef.packets
  rw [← hpackets] at hringed hheap harp'
  have hone : ∀ arp, ∀ b ∈ o.given, Truthful config arp →
      Honest config (processRxPacket (p.env (config i)) arp b (o.heap b)).1 ∧
        Truthful config (processRxPacket (p.env (config i)) arp b (o.heap b)).2.1 := by
    intro arp b hb harp
    obtain ⟨hl2, hhonest⟩ := hgiven b hb
    exact processRxPacket_honest config (p.env (config i)) i rfl hmac arp b (o.heap b) (by rw [hl2])
      hhonest harp
  constructor
  · rw [harp']
    exact splitRxPackets_arp _ (Truthful config) o.given o.heap arp hdef.nodup
      (fun arp b hb h => (hone arp b hb h).2) harp
  · intro b hb
    have hmem : b ∈ o.given := by
      rw [hringed] at hb
      exact (splitRxPackets_perm _ o.heap arp o.given).mem_iff.mp (List.mem_append_right _ hb)
    rw [hheap, splitRxPackets_mbuf _ o.given o.heap arp hdef.nodup b hmem]
    exact (hone arp b hmem harp).1

end RxPoll

/-! ## Safety -/

variable [DecidableEq ι]

theorem step_inv (hmac : ∀ j, (config j).macAddr.length = 6) (s : ArpLink ι) (e : LinkEvent ι)
    (s' : ArpLink ι) (hi : s.Inv config) (h : s.step config e = some s') : s'.Inv config := by
  cases e with
  | ask i ip4addr buffer room =>
    rw [step] at h
    obtain ⟨_, hsent⟩ | ⟨_, _, b, hsent⟩ :=
      ArpHistory.etherAddress_effect (config i) (s.arp i) ip4addr buffer room
    · rw [hsent] at h
      obtain rfl := Option.some.inj h
      exact hi
    · rw [hsent] at h
      obtain rfl := Option.some.inj h
      refine ⟨hi.truthful, ?_⟩
      intro f hf
      obtain hf | hf := List.mem_append.mp hf
      · exact hi.honest f hf
      · rw [List.mem_singleton.mp hf]
        exact Or.inr ⟨i, arpRequest_frame (config i) (hmac i) b ip4addr⟩
  | emplace i ip4addr =>
    rw [step] at h
    split_ifs at h
    obtain rfl := Option.some.inj h
    refine ⟨?_, hi.honest⟩
    intro j
    by_cases hj : j = i
    · subst hj
      dsimp only
      rw [Function.update_self]
      exact (hi.truthful j).emplace config ip4addr
    · dsimp only
      rw [Function.update_of_ne hj]
      exact hi.truthful j
  | transmit frame =>
    rw [step] at h
    split_ifs at h with hframe
    obtain rfl := Option.some.inj h
    refine ⟨hi.truthful, ?_⟩
    intro f hf
    obtain hf | hf := List.mem_append.mp hf
    · exact hi.honest f hf
    · rw [List.mem_singleton.mp hf]
      exact Or.inl hframe
  | poll i p =>
    rw [step] at h
    split_ifs at h with hcopies
    obtain ⟨o, ho, rfl⟩ := Option.map_eq_some_iff.mp h
    have hburst : ∀ b ∈ p.burst, Honest config (p.heap b) := by
      intro b hb
      obtain ⟨f, hf, hr⟩ := hcopies b hb
      exact (hi.honest f hf).received config hr
    obtain ⟨harp, hringed⟩ := poll_honest config i p (s.arp i) o ho hburst hmac (hi.truthful i)
    refine ⟨?_, ?_⟩
    · intro j
      by_cases hj : j = i
      · subst hj
        dsimp only
        rw [Function.update_self]
        exact harp
      · dsimp only
        rw [Function.update_of_ne hj]
        exact hi.truthful j
    · intro f hf
      obtain hf | hf := List.mem_append.mp hf
      · exact hi.honest f hf
      · obtain ⟨b, hb, rfl⟩ := List.mem_map.mp hf
        exact hringed b hb
  | lose k =>
    rw [step] at h
    split_ifs at h
    obtain rfl := Option.some.inj h
    exact ⟨hi.truthful, fun f hf => hi.honest f (List.mem_of_mem_eraseIdx hf)⟩

theorem run_inv (hmac : ∀ j, (config j).macAddr.length = 6) (s : ArpLink ι) (es : List (LinkEvent ι))
    (tr : List (Transition (ArpLink ι) (LinkEvent ι))) (htr : trace (step config) s es = some tr)
    (hi : s.Inv config) :
    (final s tr).Inv config ∧ ∀ t ∈ tr, t.pre.Inv config ∧ t.post.Inv config :=
  trace_invariant (Inv config) (fun _ _ => True) (fun s e s' hi _ h => step_inv config hmac s e s' hi h)
    s es tr htr hi (fun _ _ => trivial)

/-- An address that `ether_address` gives comes from the table, but in its own range. -/
theorem etherAddress_ok (c : DeviceConfig) (arp : ArpTable) (ip4addr : Be32) (buffer : Option Mbuf)
    (room : Bool) (mac : List UInt8) (h : (etherAddress c arp ip4addr buffer room).result = .ok mac) :
    (isOwnRange ip4addr = true ∧ mac = c.macAddr) ∨
      (isOwnRange ip4addr = false ∧ resolved arp ip4addr = some mac) := by
  cases hown : isOwnRange ip4addr with
  | true =>
    rw [etherAddress.eq_def, hown, if_pos rfl] at h
    exact Or.inl ⟨rfl, (Except.ok.inj h).symm⟩
  | false =>
    refine Or.inr ⟨rfl, ?_⟩
    rw [etherAddress.eq_def, hown, if_neg Bool.false_ne_true] at h
    rw [resolved]
    cases harp : arp ip4addr with
    | some rec =>
      rw [harp] at h
      dsimp only at h ⊢
      split_ifs at h with hstamp
      · rw [if_pos hstamp, Except.ok.inj h]
    | none =>
      rw [harp] at h
      cases buffer with
      | none =>
        dsimp only at h
        split_ifs at h
      | some b =>
        dsimp only at h
        split_ifs at h

/-- Whatever is lost, repeated, overtaken or left over, in no state does `ether_address` answer with
a hardware address that no device of that protocol address has, or in its own range with any but its
own. -/
theorem run_answers_truthfully (hmac : ∀ j, (config j).macAddr.length = 6) (es : List (LinkEvent ι))
    (tr : List (Transition (ArpLink ι) (LinkEvent ι))) (htr : trace (step config) initial es = some tr) :
    ∀ t ∈ tr, ∀ i ip4addr buffer room mac,
      (etherAddress (config i) (t.post.arp i) ip4addr buffer room).result = .ok mac →
      (isOwnRange ip4addr = true → mac = (config i).macAddr) ∧
        (isOwnRange ip4addr = false →
          ∃ j, (config j).ip4Addr = ip4addr ∧ (config j).macAddr = mac) := by
  intro t ht i ip4addr buffer room mac hok
  obtain ⟨_, hall⟩ := run_inv config hmac initial es tr htr (inv_initial config)
  obtain ⟨hown, hmac'⟩ | ⟨hother, hresolved⟩ :=
    etherAddress_ok (config i) (t.post.arp i) ip4addr buffer room mac hok
  · refine ⟨fun _ => hmac', fun hother => ?_⟩
    rw [hown] at hother
    exact absurd hother (by decide)
  · refine ⟨fun hown => ?_, fun _ => (hall t ht).2.truthful i ip4addr mac hresolved⟩
    rw [hother] at hown
    exact absurd hown (by decide)

/-! ## Two devices -/

def blankMbuf : Mbuf := { data := fun _ => 0, dataLen := 0 }

/-- A receive call that meets one mbuf. -/
def pollOf (m : Mbuf) : RxPoll where
  job := freshJob 32
  call := { sampleCall fun _ _ => 0 with
    env := ⟨ArpHistory.arpConfig, fun _ _ => 0, fun _ => 7, fun _ => true⟩ }
  heap := fun _ => m
  burst := [0]
  nodup := List.nodup_singleton 0
  recycle_le := fun _ _ => Nat.zero_le _

def pairConfig : Bool → DeviceConfig
  | false => ArpHistory.arpConfig
  | true => { ArpHistory.arpConfig with macAddr := [2, 0, 0, 0, 0, 2], ip4Addr := 0x0200000A }

def pairRequest : Mbuf := arpRequest (pairConfig false) blankMbuf 0x0200000A

def pairReply : Mbuf :=
  arpReply ((pollOf pairRequest).env (pairConfig true)) { pairRequest with l2Len := 14 }

/-- 10.0.0.1 asks for 10.0.0.2; the request and the reply arrive, the pending record comes in
between, and then the request is lost. -/
def pairRun : List (LinkEvent Bool) :=
  [.ask false 0x0200000A (some blankMbuf) true, .poll true (pollOf pairRequest),
    .emplace false 0x0200000A, .poll false (pollOf pairReply), .lose 0]

theorem pair_macs (j : Bool) : (pairConfig j).macAddr.length = 6 := by
  cases j <;> rfl

theorem run_answers_truthfully_pair :
    ∃ tr, trace (step pairConfig) initial pairRun = some tr ∧ ∃ t ∈ tr, ∃ mac,
      (etherAddress (pairConfig false) (t.post.arp false) 0x0200000A none true).result = .ok mac ∧
        ∃ j, (pairConfig j).ip4Addr = 0x0200000A ∧ (pairConfig j).macAddr = mac := by
  have hlast : (trace (step pairConfig) initial pairRun).bind (fun tr => tr.getLast?.map fun t =>
      (etherAddress (pairConfig false) (t.post.arp false) 0x0200000A none true).result) =
      some (.ok [2, 0, 0, 0, 0, 2]) := by
    decide +kernel
  obtain ⟨tr, htr, hlast⟩ := Option.bind_eq_some_iff.mp hlast
  obtain ⟨t, ht, hok⟩ := Option.map_eq_some_iff.mp hlast
  have hmem := List.mem_of_getLast? ht
  refine ⟨tr, htr, t, hmem, _, hok, ?_⟩
  exact (run_answers_truthfully pairConfig pair_macs pairRun tr htr t hmem false 0x0200000A none true _
    hok).2 (by decide)

end ArpLink

end DpdkTools
