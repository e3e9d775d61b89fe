import DpdkTools.Device.RxPackets
import DpdkTools.Lib.Runs
import DpdkTools.Net.Cksum
import DpdkTools.Net.MakeUdp

/-! The ARP table from its two sides: `device::ether_address` asks for an address and leaves a
pending record, `process_rx_packets` enters the sender of every ARP packet (`dpdkx/device.cpp`).

A record with timestamp 0 is pending. The run keeps, beside the table, what an observer of the link
knows: the senders heard so far and the requests put on the service ring. -/
namespace DpdkTools
open Runs
set_option autoImplicit false

/-! ## Asking -/

inductive ArpErrc where
  | notSupported
  | resourceUnavailableTryAgain
  | noBufferSpace
  deriving Repr, DecidableEq

/-- The request that `ether_address` builds in a fresh mbuf. -/
def arpRequest (config : DeviceConfig) (buffer : Mbuf) (ip4addr : Be32) : Mbuf :=
  let buffer := makeEther buffer etherTypeArp sizeofArpHdr
  let data := storeBytes buffer.data 6 config.macAddr
  let data := storeBytes data 0 (List.replicate 6 0xff)
  let arphdr := buffer.l2Len
  let data := storeBe16 (storeBe16 data arphdr (rteBe16 1)) (arphdr + 2) etherTypeIpv4
  -- address lengths
  let data := storeBytes data (arphdr + 4) [6, 4]
  let data := storeBe16 data (arphdr + 6) (rteBe16 1)
  let data := storeBe32 (storeBytes data (arphdr + 8) config.macAddr) (arphdr + 14) config.ip4Addr
  let data := storeBytes data (arphdr + 18) (List.replicate 6 0)
  { buffer with data := storeBe32 data (arphdr + 24) ip4addr }

/-- `arp4rec{}`. -/
def Arp4Rec.pending : Arp4Rec := ⟨List.replicate 6 0, 0⟩

def tryEmplace (arp : ArpTable) (ip4addr : Be32) (rec : Arp4Rec) : ArpTable :=
  match arp ip4addr with
  | some _ => arp
  | none => Function.update arp ip4addr (some rec)

/-- The test at the head of `ether_address`, on the network-order address. -/
def isOwnRange (ip4addr : Be32) : Bool := ip4addr &&& 0x7f = 0x7f

/-- What a call of `ether_address` returns, the table afterwards, and what it puts on the ring. -/
structure Asked where
  result : Except ArpErrc (List UInt8)
  arp : ArpTable
  sent : Option Mbuf

/-- `device::ether_address`, with the mbuf that the pool gives and the answer of the ring. -/
def etherAddress (config : DeviceConfig) (arp : ArpTable) (ip4addr : Be32) (buffer : Option Mbuf)
    (room : Bool) : Asked :=
  if isOwnRange ip4addr then ⟨.ok config.macAddr, arp, none⟩
  else
    match arp ip4addr with
    | some rec =>
      if rec.timestamp ≠ 0 then ⟨.ok rec.macAddr, arp, none⟩
      else ⟨.error .resourceUnavailableTryAgain, arp, none⟩
    | none =>
      if config.arpTable then
        match buffer with
        | none => ⟨.error .noBufferSpace, arp, none⟩
        | some buffer =>
          if room then
            ⟨.error .resourceUnavailableTryAgain, tryEmplace arp ip4addr .pending,
              some (arpRequest config buffer ip4addr)⟩
          else ⟨.error .resourceUnavailableTryAgain, arp, none⟩
      else ⟨.error .notSupported, arp, none⟩

theorem arpRequest_tip (config : DeviceConfig) (buffer : Mbuf) (ip4addr : Be32) :
    arpTip (arpRequest config buffer ip4addr) = ip4addr :=
  loadBe32_storeBe32 _ _ _

/-! ## Hearing -/

/-- An Ethernet/IPv4 ARP request or reply. -/
structure Arp4Packet (m : Mbuf) : Prop where
  ether : m.ethProto = etherTypeArp
  fits : m.l2Len + sizeofArpHdr ≤ m.dataLen
  hardware : arpHardware m = rteBe16 1
  protocol : arpProtocol m = etherTypeIpv4
  opcode : arpOpcode m = rteBe16 1 ∨ arpOpcode m = rteBe16 2

instance (m : Mbuf) : Decidable (Arp4Packet m) :=
  decidable_of_iff
    (m.ethProto = etherTypeArp ∧ m.l2Len + sizeofArpHdr ≤ m.dataLen ∧ arpHardware m = rteBe16 1 ∧
      arpProtocol m = etherTypeIpv4 ∧ (arpOpcode m = rteBe16 1 ∨ arpOpcode m = rteBe16 2))
    ⟨fun ⟨h1, h2, h3, h4, h5⟩ => ⟨h1, h2, h3, h4, h5⟩, fun h => ⟨h.1, h.2, h.3, h.4, h.5⟩⟩

/-- The protocol and the hardware address of the sender. -/
def arpSender (m : Mbuf) : Option (Be32 × List UInt8) :=
  if Arp4Packet m then some (arpSip m, arpSha m) else none

/-- The hardware address heard last for an address. -/
def latest (heard : List (Be32 × List UInt8)) (ip : Be32) : Option (List UInt8) :=
  (heard.reverse.find? (·.1 = ip)).map Prod.snd

/-- What the table answers for an address. -/
def resolved (arp : ArpTable) (ip : Be32) : Option (List UInt8) :=
  match arp ip with
  | none => none
  | some rec => if rec.timestamp ≠ 0 then some rec.macAddr else none

theorem latest_snoc (heard : List (Be32 × List UInt8)) (s : Be32 × List UInt8) (ip : Be32) :
    latest (heard ++ [s]) ip = if s.1 = ip then some s.2 else latest heard ip := by
  rw [latest, List.reverse_append, List.reverse_singleton, List.singleton_append, List.find?_cons]
  by_cases h : s.1 = ip
  · simp [h]
  · simp [h, latest]

theorem latest_append (heard heard' : List (Be32 × List UInt8)) (ip : Be32)
    (h : latest heard ip ≠ none) : latest (heard ++ heard') ip ≠ none := by
  induction heard' generalizing heard with
  | nil =>
    rw [List.append_nil]
    exact h
  | cons s heard' ih =>
    rw [List.append_cons]
    apply ih
    rw [latest_snoc]
    split_ifs
    · exact Option.some_ne_none _
    · exact h

theorem processRxPacket_arp4 (env : RxEnv) (arp : ArpTable) (b : MbufPtr) (m : Mbuf)
    (h : Arp4Packet m) : (processRxPacket env arp b m).2.1 = learnArp env arp b m := by
  have hether : etherTypeArp ≠ etherTypeIpv4 := by decide
  have hops : (rteBe16 2) ≠ rteBe16 1 := by decide
  unfold processRxPacket
  rw [h.ether, if_neg hether, if_pos rfl, if_neg (Nat.not_lt.mpr h.fits), h.hardware, h.protocol]
  simp only [decide_true, Bool.and_self, if_true]
  obtain hop | hop := h.opcode
  · rw [if_pos hop]
    split_ifs
    · rfl
    · rfl
  · rw [hop, if_neg hops, if_pos rfl]

theorem processRxPacket_other (env : RxEnv) (arp : ArpTable) (b : MbufPtr) (m : Mbuf)
    (h : ¬ Arp4Packet m) : (processRxPacket env arp b m).2.1 = arp := by
  unfold processRxPacket
  split_ifs with h4 hshort hecho harp hfits hfields hrequest hown hreply
  all_goals try rfl
  all_goals
    rw [Bool.and_eq_true, decide_eq_true_eq, decide_eq_true_eq] at hfields
    refine absurd ⟨harp, Nat.not_lt.mp hfits, hfields.1, hfields.2, ?_⟩ h
  · exact Or.inl hrequest
  · exact Or.inl hrequest
  · exact Or.inr hreply

/-- One packet keeps what the table answers in step with what was heard. -/
theorem processRxPacket_resolved (env : RxEnv) (arp : ArpTable) (b : MbufPtr) (m : Mbuf)
    (heard : List (Be32 × List UInt8)) (hon : env.config.arpTable = true)
    (hclock : env.readClock b ≠ 0) (h : ∀ ip, resolved arp ip = latest heard ip) (ip : Be32) :
    resolved (processRxPacket env arp b m).2.1 ip = latest (heard ++ (arpSender m).toList) ip := by
  by_cases harp : Arp4Packet m
  · rw [processRxPacket_arp4 env arp b m harp, learnArp, if_pos hon, arpSender, if_pos harp,
      Option.toList_some, latest_snoc, resolved]
    by_cases hip : arpSip m = ip
    · subst hip
      simp [hclock]
    · rw [Function.update_of_ne (Ne.symm hip), if_neg hip, ← h ip, resolved]
  · rw [processRxPacket_other env arp b m harp, arpSender, if_neg harp, Option.toList_none,
      List.append_nil, h ip]

theorem processRxPacket_present (env : RxEnv) (arp : ArpTable) (b : MbufPtr) (m : Mbuf) (ip : Be32)
    (h : arp ip ≠ none) : (processRxPacket env arp b m).2.1 ip ≠ none := by
  by_cases harp : Arp4Packet m
  · rw [processRxPacket_arp4 env arp b m harp, learnArp]
    split_ifs
    · by_cases hip : ip = arpSip m
      · rw [hip, Function.update_self]
        exact Option.some_ne_none _
      · rw [Function.update_of_ne hip]
        exact h
    · exact h
  · rw [processRxPacket_other env arp b m harp]
    exact h

/-! ## Runs -/

/-- One call of `process_rx_packets`: different mbufs, whatever they hold. -/
structure ArpBurst where
  heap : MbufHeap
  buffers : List MbufPtr
  nodup : buffers.Nodup
  readClock : MbufPtr → ℕ
  enque : MbufPtr → Bool

def ArpBurst.heard (burst : ArpBurst) : List (Be32 × List UInt8) :=
  burst.buffers.filterMap fun b => arpSender (burst.heap b)

inductive ArpEvent where
  | rx (burst : ArpBurst)
  | ask (ip4addr : Be32) (buffer : Option Mbuf) (room : Bool)

/-- `read_clock()` is never 0. -/
def ArpEvent.ClockRuns : ArpEvent → Prop
  | .rx burst => ∀ b, burst.readClock b ≠ 0
  | .ask _ _ _ => True

structure ArpHistory where
  arp : ArpTable
  heard : List (Be32 × List UInt8)
  requests : List Mbuf

namespace ArpHistory

def initial : ArpHistory := ⟨fun _ => none, [], []⟩

section Run
variable (config : DeviceConfig) (rteIpv4Cksum : (ℕ → UInt8) → ℕ → Be16)

def step (s : ArpHistory) : ArpEvent → Option ArpHistory
  | .rx burst =>
    let env : RxEnv := ⟨config, rteIpv4Cksum, burst.readClock, burst.enque⟩
    some { s with
      arp := (processRxPackets env burst.heap s.arp burst.buffers).arp
      heard := s.heard ++ burst.heard }
  | .ask ip4addr buffer room =>
    let r := etherAddress config s.arp ip4addr buffer room
    some { s with arp := r.arp, requests := s.requests ++ r.sent.toList }

/-- How many requests for an address were put on the ring. -/
def requestsFor (s : ArpHistory) (ip : Be32) : ℕ := s.requests.countP fun m => arpTip m = ip

/-- The table answers with what was heard last, and only an address with a record was asked for. -/
structure Inv (s : ArpHistory) : Prop where
  answers : ∀ ip, resolved s.arp ip = latest s.heard ip
  unasked : ∀ ip, s.arp ip = none → s.requestsFor ip = 0
  once : ∀ ip, s.requestsFor ip ≤ 1

theorem inv_initial : initial.Inv := by
  refine ⟨?_, ?_, ?_⟩
  · intro ip
    rfl
  · intro ip _
    rfl
  · intro ip
    exact Nat.zero_le _

/-! ## One burst -/

/-- The packets of a burst are in different mbufs, so each is met as it was received. -/
theorem split_resolved (env : RxEnv) (hon : env.config.arpTable = true)
    (hclock : ∀ b, env.readClock b ≠ 0) (bs : List MbufPtr) (heap : MbufHeap) (arp : ArpTable)
    (heard : List (Be32 × List UInt8)) (hnodup : bs.Nodup)
    (h : ∀ ip, resolved arp ip = latest heard ip) (ip : Be32) :
    resolved (splitRxPackets env heap arp bs).arp ip =
      latest (heard ++ bs.filterMap fun b => arpSender (heap b)) ip := by
  induction bs generalizing heap arp heard with
  | nil =>
    rw [splitRxPackets, List.filterMap_nil, List.append_nil]
    exact h ip
  | cons b bs ih =>
    obtain ⟨hb, hrest⟩ := List.nodup_cons.mp hnodup
    have hone := processRxPacket_resolved env arp b (heap b) heard hon (hclock b) h
    have hall := ih (Function.update heap b (processRxPacket env arp b (heap b)).1)
      (processRxPacket env arp b (heap b)).2.1 (heard ++ (arpSender (heap b)).toList) hrest hone
    have hsame : (bs.filterMap fun b' => arpSender
        (Function.update heap b (processRxPacket env arp b (heap b)).1 b')) =
        bs.filterMap fun b' => arpSender (heap b') := by
      apply List.filterMap_congr
      intro b' hb'
      rw [Function.update_of_ne (ne_of_mem_of_not_mem hb' hb)]
    rw [hsame, List.append_assoc] at hall
    have hheard : (b :: bs).filterMap (fun b' => arpSender (heap b')) =
        (arpSender (heap b)).toList ++ bs.filterMap fun b' => arpSender (heap b') := by
      rw [List.filterMap_cons]
      cases arpSender (heap b) with
      | none => rfl
      | some s => rfl
    rw [hheard, ← hall, splitRxPackets]
    split_ifs
    · rfl
    · rfl

theorem split_present (env : RxEnv) (bs : List MbufPtr) (heap : MbufHeap) (arp : ArpTable) (ip : Be32)
    (h : arp ip ≠ none) : (splitRxPackets env heap arp bs).arp ip ≠ none := by
  induction bs generalizing heap arp with
  | nil => exact h
  | cons b bs ih =>
    have hall := ih (Function.update heap b (processRxPacket env arp b (heap b)).1)
      (processRxPacket env arp b (heap b)).2.1 (processRxPacket_present env arp b (heap b) ip h)
    rw [splitRxPackets]
    split_ifs
    · exact hall
    · exact hall

theorem step_rx_inv (hon : config.arpTable = true) (s : ArpHistory) (burst : ArpBurst)
    (hclock : ∀ b, burst.readClock b ≠ 0) (hi : s.Inv) (s' : ArpHistory)
    (h : s.step config rteIpv4Cksum (.rx burst) = some s') : s'.Inv := by
  obtain rfl := Option.some.inj h
  obtain ⟨_, _, _, _, harp, _⟩ := processRxPackets_spec
    ⟨config, rteIpv4Cksum, burst.readClock, burst.enque⟩ burst.heap s.arp burst.buffers
  refine ⟨?_, ?_, hi.once⟩
  · intro ip
    dsimp only
    rw [harp]
    exact split_resolved _ hon hclock burst.buffers burst.heap s.arp s.heard burst.nodup hi.answers ip
  · intro ip hnone
    apply hi.unasked ip
    by_contra hsome
    rw [harp] at hnone
    exact split_present _ _ _ _ _ hsome hnone

/-! ## One question -/

theorem etherAddress_effect (arp : ArpTable) (ip4addr : Be32) (buffer : Option Mbuf) (room : Bool) :
    let r := etherAddress config arp ip4addr buffer room
    r.arp = arp ∧ r.sent = none ∨
      arp ip4addr = none ∧ r.arp = Function.update arp ip4addr (some .pending) ∧
        ∃ b, r.sent = some (arpRequest config b ip4addr) := by
  dsimp only
  rw [etherAddress.eq_def]
  by_cases hown : isOwnRange ip4addr = true
  · rw [if_pos hown]
    exact Or.inl ⟨rfl, rfl⟩
  · rw [if_neg hown]
    cases harp : arp ip4addr with
    | some rec =>
      refine Or.inl ?_
      dsimp only
      split_ifs
      · exact ⟨rfl, rfl⟩
      · exact ⟨rfl, rfl⟩
    | none =>
      cases buffer with
      | none =>
        refine Or.inl ?_
        dsimp only
        split_ifs
        · exact ⟨rfl, rfl⟩
        · exact ⟨rfl, rfl⟩
      | some b =>
        dsimp only
        split_ifs
        · exact Or.inr ⟨rfl, by rw [tryEmplace, harp], b, rfl⟩
        · exact Or.inl ⟨rfl, rfl⟩
        · exact Or.inl ⟨rfl, rfl⟩

theorem etherAddress_result (hon : config.arpTable = true) (arp : ArpTable) (ip4addr : Be32)
    (buffer : Option Mbuf) (room : Bool) (hreach : isOwnRange ip4addr = false) :
    let r := etherAddress config arp ip4addr buffer room
    (∀ mac, r.result = .ok mac ↔ resolved arp ip4addr = some mac) ∧
      (resolved arp ip4addr = none →
        r.result = .error .resourceUnavailableTryAgain ∨ r.result = .error .noBufferSpace) := by
  dsimp only
  rw [etherAddress.eq_def, hreach, if_neg Bool.false_ne_true, resolved]
  cases harp : arp ip4addr with
  | some rec =>
    dsimp only
    split_ifs
    · simp
    · simp
  | none =>
    dsimp only
    rw [if_pos hon]
    cases buffer with
    | none => simp
    | some b =>
      dsimp only
      split_ifs
      · simp
      · simp

theorem step_ask_inv (s : ArpHistory) (ip4addr : Be32) (buffer : Option Mbuf) (room : Bool)
    (hi : s.Inv) (s' : ArpHistory)
    (h : s.step config rteIpv4Cksum (.ask ip4addr buffer room) = some s') : s'.Inv := by
  obtain rfl := Option.some.inj h
  obtain ⟨harp, hsent⟩ | ⟨hnone, harp, b, hsent⟩ :=
    etherAddress_effect config s.arp ip4addr buffer room
  · have hsame : (⟨(etherAddress config s.arp ip4addr buffer room).arp, s.heard,
        s.requests ++ (etherAddress config s.arp ip4addr buffer room).sent.toList⟩ : ArpHistory) = s := by
      rw [harp, hsent, Option.toList_none, List.append_nil]
    rw [hsame]
    exact hi
  · have hcount : ∀ ip, (s.requests ++ [arpRequest config b ip4addr]).countP (fun m => arpTip m = ip) =
        s.requestsFor ip + if ip4addr = ip then 1 else 0 := by
      intro ip
      rw [List.countP_append, List.countP_singleton, arpRequest_tip, requestsFor]
      simp only [decide_eq_true_eq]
    refine ⟨?_, ?_, ?_⟩
    · intro ip
      dsimp only
      rw [harp, ← hi.answers ip]
      by_cases hip : ip = ip4addr
      · subst hip
        simp [resolved, hnone, Arp4Rec.pending]
      · rw [resolved, Function.update_of_ne hip, resolved]
    · intro ip hip
      dsimp only [requestsFor] at hip ⊢
      rw [harp] at hip
      rw [hsent, Option.toList_some, hcount]
      by_cases he : ip4addr = ip
      · subst he
        rw [Function.update_self] at hip
        exact absurd hip (Option.some_ne_none _)
      · rw [Function.update_of_ne (Ne.symm he)] at hip
        rw [if_neg he, hi.unasked ip hip]
    · intro ip
      dsimp only [requestsFor]
      rw [hsent, Option.toList_some, hcount]
      by_cases he : ip4addr = ip
      · subst he
        rw [if_pos rfl, hi.unasked ip4addr hnone]
      · rw [if_neg he]
        exact hi.once ip

theorem step_inv (hon : config.arpTable = true) (s : ArpHistory) (e : ArpEvent) (s' : ArpHistory)
    (hi : s.Inv) (hclock : e.ClockRuns) (h : s.step config rteIpv4Cksum e = some s') : s'.Inv := by
  cases e with
  | rx burst => exact step_rx_inv config rteIpv4Cksum hon s burst hclock hi s' h
  | ask ip4addr buffer room => exact step_ask_inv config rteIpv4Cksum s ip4addr buffer room hi s' h

theorem step_heard (s : ArpHistory) (e : ArpEvent) (s' : ArpHistory)
    (h : s.step config rteIpv4Cksum e = some s') : ∃ more, s'.heard = s.heard ++ more := by
  cases e with
  | rx burst =>
    obtain rfl := Option.some.inj h
    exact ⟨_, rfl⟩
  | ask ip4addr buffer room =>
    obtain rfl := Option.some.inj h
    exact ⟨[], (List.append_nil _).symm⟩

/-! ## The resolver -/

/-- In every run each question is answered from what was heard last, at most one request is sent for
an address, and an address once resolved stays resolved. -/
theorem run_resolves (hon : config.arpTable = true) (es : List ArpEvent)
    (tr : List (Transition ArpHistory ArpEvent))
    (htr : trace (step config rteIpv4Cksum) initial es = some tr) (hclock : ∀ e ∈ es, e.ClockRuns) :
    (∀ t ∈ tr, ∀ ip4addr buffer room, t.event = .ask ip4addr buffer room →
      isOwnRange ip4addr = false →
      let r := etherAddress config t.pre.arp ip4addr buffer room
      (∀ mac, r.result = .ok mac ↔ latest t.pre.heard ip4addr = some mac) ∧
        (latest t.pre.heard ip4addr = none →
          r.result = .error .resourceUnavailableTryAgain ∨ r.result = .error .noBufferSpace)) ∧
      (∀ ip, (final initial tr).requestsFor ip ≤ 1) ∧
      ∀ t ∈ tr, ∀ ip, resolved t.pre.arp ip ≠ none → resolved t.post.arp ip ≠ none := by
  have hevents := trace_event_mem initial es tr htr
  obtain ⟨hlast, hall⟩ := trace_invariant Inv (fun _ e => e.ClockRuns)
    (step_inv config rteIpv4Cksum hon) initial es tr htr inv_initial
    (fun t ht => hclock t.event (hevents t ht))
  refine ⟨?_, hlast.once, ?_⟩
  · intro t ht ip4addr buffer room _ hreach
    have hanswer := etherAddress_result config hon t.pre.arp ip4addr buffer room hreach
    rw [(hall t ht).1.answers ip4addr] at hanswer
    exact hanswer
  · intro t ht ip hpre
    obtain ⟨more, hmore⟩ := trace_forall (fun s _ s' => ∃ more, s'.heard = s.heard ++ more)
      (step_heard config rteIpv4Cksum) initial es tr htr t ht
    rw [(hall t ht).2.answers, hmore]
    rw [(hall t ht).1.answers] at hpre
    exact latest_append t.pre.heard more ip hpre

end Run

/-! ## A run -/

def arpConfig : DeviceConfig := ⟨true, true, [2, 0, 0, 0, 0, 1], 0x0100000A, false⟩

/-- The reply of 10.0.0.2. -/
def replyPacket : Mbuf where
  data := fun i =>
    (List.replicate 12 (0 : UInt8) ++ [8, 6, 0, 1, 8, 0, 6, 4, 0, 2, 2, 0, 0, 0, 0, 2, 10, 0, 0, 2]).getD i 0
  dataLen := 60
  l2Len := 14

def replyBurst : ArpBurst := ⟨fun _ => replyPacket, [0], List.pairwise_singleton _ 0, fun _ => 7, fun _ => true⟩

/-- Asked for, heard, and asked for again when there is no mbuf. -/
theorem run_resolves_reply :
    ∃ tr, trace (step arpConfig headerCksum) initial
        [.ask 0x0200000A (some replyPacket) true, .rx replyBurst, .ask 0x0200000A none true] = some tr ∧
      (final initial tr).requestsFor 0x0200000A ≤ 1 ∧
      ∃ t ∈ tr, (etherAddress arpConfig t.pre.arp 0x0200000A none true).result = .ok [2, 0, 0, 0, 0, 2] := by
  have hclock : ∀ e ∈ [ArpEvent.ask 0x0200000A (some replyPacket) true, .rx replyBurst,
      .ask 0x0200000A none true], e.ClockRuns := by
    simp only [List.forall_mem_cons]
    exact ⟨trivial, fun _ => Nat.succ_ne_zero 6, trivial, by simp⟩
  obtain ⟨hanswers, honce, _⟩ := run_resolves arpConfig headerCksum rfl _ _ rfl hclock
  refine ⟨_, rfl, honce 0x0200000A, _,
    List.mem_cons_of_mem _ (List.mem_cons_of_mem _ (List.mem_cons_self ..)), ?_⟩
  refine ((hanswers _ (List.mem_cons_of_mem _ (List.mem_cons_of_mem _ (List.mem_cons_self ..)))
    0x0200000A none true rfl (by decide)).1 _).mpr ?_
  decide

end ArpHistory

end DpdkTools
