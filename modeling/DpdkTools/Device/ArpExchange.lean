import DpdkTools.Device.ArpLink

/-! A request, its reply, and what they do to the table of the asker.

A request that arrives is answered while the ring has room, the reply enters the address, and an
address once resolved stays resolved. A pending record always has its request on the link. -/
namespace DpdkTools
open Runs
set_option autoImplicit false

/-! ## A request and its reply -/

/-- A request for `ip4addr`, behind a plain Ethernet header. -/
structure ArpRequestFor (ip4addr : Be32) (m : Mbuf) : Prop where
  whole : sizeofEtherHdr + sizeofArpHdr ≤ m.dataLen
  ether : loadBe16 m.data 12 = etherTypeArp
  hardware : loadBe16 m.data 14 = rteBe16 1
  protocol : loadBe16 m.data 16 = etherTypeIpv4
  opcode : loadBe16 m.data 20 = rteBe16 1
  tip : loadBe32 m.data 38 = ip4addr

theorem loadBe16_outside (data : ℕ → UInt8) (off pos : ℕ) (bs : List UInt8)
    (h : pos + 2 ≤ off ∨ off + bs.length ≤ pos) :
    loadBe16 (storeBytes data off bs) pos = loadBe16 data pos :=
  loadBe16_congr _ _ pos (storeBytes_outside data off pos bs (by omega))
    (storeBytes_outside data off (pos + 1) bs (by omega))

theorem loadBe16_outside_be16 (data : ℕ → UInt8) (off pos : ℕ) (x : Be16)
    (h : pos + 2 ≤ off ∨ off + 2 ≤ pos) : loadBe16 (storeBe16 data off x) pos = loadBe16 data pos :=
  loadBe16_outside data off pos _ h

theorem loadBe16_outside_be32 (data : ℕ → UInt8) (off pos : ℕ) (x : Be32)
    (h : pos + 2 ≤ off ∨ off + 4 ≤ pos) : loadBe16 (storeBe32 data off x) pos = loadBe16 data pos :=
  loadBe16_outside data off pos _ h

/-- The part of the request behind its opcode. -/
theorem arpRequest_fixed (c : DeviceConfig) (buffer : Mbuf)
    (ip4addr : Be32) (pos : ℕ) (hpos : 6 ≤ pos ∧ pos + 2 ≤ 22) (h12 : 12 ≤ pos) :
    loadBe16 (arpRequest c buffer ip4addr).data pos =
      loadBe16 (storeBe16 (storeBytes (storeBe16 (storeBe16
        (storeBytes (storeBytes (storeBe16 buffer.data 12 etherTypeArp) 6 c.macAddr) 0
          (List.replicate 6 0xff)) 14 (rteBe16 1)) 16 etherTypeIpv4) 18 [6, 4]) 20 (rteBe16 1)) pos := by
  rw [arpRequest]
  dsimp only [makeEther, sizeofEtherHdr]
  rw [loadBe16_outside_be32 _ _ _ _ (by omega), loadBe16_outside _ _ _ _ (by omega),
    loadBe16_outside_be32 _ _ _ _ (by omega), loadBe16_outside _ _ _ _ (by omega)]

theorem arpRequest_for (c : DeviceConfig) (hmac : c.macAddr.length = 6) (buffer : Mbuf)
    (ip4addr : Be32) : ArpRequestFor ip4addr (arpRequest c buffer ip4addr) where
  whole := (arpRequest_frame c hmac buffer ip4addr).whole
  ether := (arpRequest_frame c hmac buffer ip4addr).ether
  hardware := by
    rw [arpRequest_fixed c buffer ip4addr 14 (by omega) (by omega),
      loadBe16_outside_be16 _ _ _ _ (by omega), loadBe16_outside _ _ _ _ (by omega),
      loadBe16_outside_be16 _ _ _ _ (by omega)]
    exact loadBe16_storeBe16 _ 14 _
  protocol := by
    rw [arpRequest_fixed c buffer ip4addr 16 (by omega) (by omega),
      loadBe16_outside_be16 _ _ _ _ (by omega), loadBe16_outside _ _ _ _ (by omega)]
    exact loadBe16_storeBe16 _ 16 _
  opcode := by
    rw [arpRequest_fixed c buffer ip4addr 20 (by omega) (by omega)]
    exact loadBe16_storeBe16 _ 20 _
  tip := loadBe32_storeBe32 _ 38 _

theorem ArpRequestFor.received {ip4addr : Be32} {f m : Mbuf} (h : ArpRequestFor ip4addr f)
    (hr : Received f m) : ArpRequestFor ip4addr m := by
  have hwhole : 14 + 28 ≤ f.dataLen := h.whole
  have hword : ∀ off, off + 2 ≤ 42 → loadBe16 m.data off = loadBe16 f.data off :=
    fun off hoff => (hr.2.loadBe16_eq off (by omega)).symm
  refine ⟨Nat.le_trans h.whole hr.1, ?_, ?_, ?_, ?_, ?_⟩
  · rw [hword 12 (by omega), h.ether]
  · rw [hword 14 (by omega), h.hardware]
  · rw [hword 16 (by omega), h.protocol]
  · rw [hword 20 (by omega), h.opcode]
  · rw [← h.tip]
    exact (hr.2.loadBe32_eq 38 (by omega)).symm

theorem ArpRequestFor.packet {ip4addr : Be32} {m : Mbuf} (h : ArpRequestFor ip4addr m)
    (hl2 : m.l2Len = 14) : Arp4Packet m where
  ether := by rw [Mbuf.ethProto, hl2, ← h.ether]
  fits := by
    have hwhole : 14 + 28 ≤ m.dataLen := h.whole
    rw [hl2]
    exact hwhole
  hardware := by rw [arpHardware, hl2, h.hardware]
  protocol := by rw [arpProtocol, hl2, ← h.protocol]
  opcode := Or.inl (by rw [arpOpcode, hl2, ← h.opcode])

/-- The device that is asked for answers. -/
theorem ArpRequestFor.answered {m : Mbuf} (env : RxEnv) (h : ArpRequestFor env.config.ip4Addr m)
    (hl2 : m.l2Len = 14) (arp : ArpTable) (b : MbufPtr) :
    processRxPacket env arp b m = (arpReply env m, learnArp env arp b m, true) := by
  have hpacket := h.packet hl2
  have hop : arpOpcode m = rteBe16 1 := by rw [arpOpcode, hl2, ← h.opcode]
  have htip : env.config.ip4Addr = arpTip m := by rw [arpTip, hl2, ← h.tip]
  rw [processRxPacket, if_neg (by rw [hpacket.ether]; exact etherTypeArp_ne_ipv4), if_pos hpacket.ether,
    if_neg (Nat.not_lt.mpr hpacket.fits), hpacket.hardware, hpacket.protocol]
  simp only [decide_true, Bool.and_self, if_true]
  rw [if_pos hop, if_pos htip]

/-- The reply is an ARP packet from the device that was asked for. -/
theorem arpReply_packet (env : RxEnv) (hmac : env.config.macAddr.length = 6) (ip4addr : Be32) (m : Mbuf)
    (hl2 : m.l2Len = 14) (h : ArpRequestFor ip4addr m) :
    loadBe16 (arpReply env m).data 14 = rteBe16 1 ∧
      loadBe16 (arpReply env m).data 16 = etherTypeIpv4 ∧
      loadBe16 (arpReply env m).data 20 = rteBe16 2 := by
  have hfixed : ∀ pos, 12 ≤ pos ∧ pos + 2 ≤ 22 → loadBe16 (arpReply env m).data pos =
      loadBe16 (storeBe16 m.data 20 (rteBe16 2)) pos := by
    intro pos hpos
    rw [arpReply]
    dsimp only
    rw [hl2, loadBe16_outside _ _ _ _ (by omega), loadBe16_outside_be32 _ _ _ _ (by omega),
      loadBe16_outside_be32 _ _ _ _ (by omega), etherAddrCopy,
      loadBe16_outside _ _ _ _ (by omega), loadBe16_outside _ _ _ _ (by omega), etherAddrCopy,
      loadBe16_outside _ _ _ _ (by simp [loadBytes]; omega)]
  refine ⟨?_, ?_, ?_⟩
  · rw [hfixed 14 (by omega), loadBe16_outside_be16 _ _ _ _ (by omega), h.hardware]
  · rw [hfixed 16 (by omega), loadBe16_outside_be16 _ _ _ _ (by omega), h.protocol]
  · rw [hfixed 20 (by omega)]
    exact loadBe16_storeBe16 _ 20 _

/-- What arrives of the reply. -/
theorem arpReply_received (env : RxEnv) (hmac : env.config.macAddr.length = 6) (ip4addr : Be32)
    (m m' : Mbuf) (hl2 : m.l2Len = 14) (h : ArpRequestFor ip4addr m)
    (hr : Received (arpReply env m) m') (hl2' : m'.l2Len = 14) :
    Arp4Packet m' ∧ arpSip m' = env.config.ip4Addr := by
  obtain ⟨hhw, hproto, hop⟩ := arpReply_packet env hmac ip4addr m hl2 h
  have hframe := (arpReply_frame env hmac m hl2 h.whole h.ether).received hr
  have hlen : 42 ≤ (arpReply env m).dataLen := h.whole
  have hword : ∀ off, off + 2 ≤ 42 → loadBe16 m'.data off = loadBe16 (arpReply env m).data off :=
    fun off hoff => (hr.2.loadBe16_eq off (by omega)).symm
  refine ⟨⟨?_, ?_, ?_, ?_, Or.inr ?_⟩, ?_⟩
  · rw [Mbuf.ethProto, hl2', ← hframe.ether]
  · have hwhole : 14 + 28 ≤ m'.dataLen := hframe.whole
    rw [hl2']
    exact hwhole
  · rw [arpHardware, hl2', hword 14 (by omega), hhw]
  · rw [arpProtocol, hl2', ← hproto]
    exact hword 16 (by omega)
  · rw [arpOpcode, hl2', ← hop]
    exact hword 20 (by omega)
  · rw [arpSip, hl2', ← hframe.sip]

namespace ArpLink
variable {ι : Type} (config : ι → DeviceConfig)

/-! ## Resolving -/

theorem resolved_learnt (arp : ArpTable) (ip : Be32) (rec : Arp4Rec) (h : rec.timestamp ≠ 0) (x : Be32) :
    resolved (Function.update arp ip (some rec)) x = if x = ip then some rec.macAddr else resolved arp x := by
  by_cases hx : x = ip
  · subst hx
    rw [resolved, Function.update_self, if_pos rfl]
    exact if_pos h
  · rw [resolved, Function.update_of_ne hx, if_neg hx, resolved]

theorem processRxPacket_stays (env : RxEnv) (hclock : ∀ b, env.readClock b ≠ 0) (ip : Be32)
    (arp : ArpTable) (b : MbufPtr) (m : Mbuf) (h : resolved arp ip ≠ none) :
    resolved (processRxPacket env arp b m).2.1 ip ≠ none := by
  by_cases harp : Arp4Packet m
  · rw [processRxPacket_arp4 env arp b m harp, learnArp]
    split_ifs
    · rw [resolved_learnt arp (arpSip m) _ (hclock b)]
      split_ifs
      · exact Option.some_ne_none _
      · exact h
    · exact h
  · rw [processRxPacket_other env arp b m harp]
    exact h

theorem processRxPacket_learns (env : RxEnv) (hclock : ∀ b, env.readClock b ≠ 0)
    (hon : env.config.arpTable = true) (arp : ArpTable) (b : MbufPtr) (m : Mbuf) (harp : Arp4Packet m) :
    resolved (processRxPacket env arp b m).2.1 (arpSip m) ≠ none := by
  rw [processRxPacket_arp4 env arp b m harp, learnArp, if_pos hon,
    resolved_learnt arp (arpSip m) _ (hclock b), if_pos rfl]
  exact Option.some_ne_none _

def ClockRuns : LinkEvent ι → Prop
  | .poll _ p => RxPoll.ClockRuns p
  | _ => True

/-- No frame is lost for good. -/
def KeepsFrames : LinkEvent ι → Prop
  | .lose _ => False
  | _ => True

theorem poll_arp (i : ι) (p : RxPoll) (arp : ArpTable) (o : RxOutcome)
    (ho : p.process (config i) arp = some o) :
    o.packets.arp = (splitRxPackets (p.env (config i)) o.heap arp o.given).arp := by
  have hdef := p.deferred (config i) arp o ho
  have hpackets : o.packets = processRxPackets (p.env (config i)) o.heap arp o.given := hdef.packets
  obtain ⟨_, _, _, _, harp, _⟩ := processRxPackets_spec (p.env (config i)) o.heap arp o.given
  rw [hpackets, harp]

/-- An ARP packet of the burst is among those given to `process_rx_packets`. -/
theorem poll_given (i : ι) (p : RxPoll) (arp : ArpTable) (o : RxOutcome)
    (ho : p.process (config i) arp = some o) (b : MbufPtr) (hb : b ∈ p.burst)
    (hlen : sizeofEtherHdr + sizeofArpHdr ≤ (p.heap b).dataLen)
    (harp : loadBe16 (p.heap b).data 12 = etherTypeArp) :
    b ∈ o.given ∧ o.heap b = { p.heap b with l2Len := 14 } := by
  have hdef := p.deferred (config i) arp o ho
  have hwhole : 14 + 28 ≤ (p.heap b).dataLen := hlen
  have hl2 := updateL2size_untagged (p.heap b) (by unfold sizeofEtherHdr; omega) (by rw [harp]; decide)
  have hproto : ({ p.heap b with l2Len := 14 } : Mbuf).ethProto = etherTypeArp := harp
  have hgiven : b ∈ o.given := by
    refine hdef.given b hb _ hl2 ?_ ?_
    · rw [hproto]
      decide
    · rw [hproto]
      exact etherTypeArp_ne_ipv4
  refine ⟨hgiven, ?_⟩
  have hm := hdef.measured b hgiven
  rw [hl2, Option.map_some] at hm
  exact (Option.some.inj hm).symm

/-- A device that receives a request for its address, and whose ring has room, puts the reply on
the ring. -/
theorem poll_answers (j : ι) (p : RxPoll) (arp : ArpTable) (o : RxOutcome)
    (ho : p.process (config j) arp = some o) (b : MbufPtr) (hb : b ∈ p.burst)
    (hreq : ArpRequestFor (config j).ip4Addr (p.heap b)) (hring : p.call.env.enque b = true) :
    b ∈ o.packets.ringed ∧
      o.packets.heap b = arpReply (p.env (config j)) { p.heap b with l2Len := 14 } := by
  have hdef := p.deferred (config j) arp o ho
  have hpackets : o.packets = processRxPackets (p.env (config j)) o.heap arp o.given := hdef.packets
  obtain ⟨hgiven, hheap⟩ := poll_given config j p arp o ho b hb hreq.whole hreq.ether
  have hmeasured : ArpRequestFor (config j).ip4Addr { p.heap b with l2Len := 14 } :=
    hreq.received ⟨Nat.le_refl _, fun _ _ => rfl⟩
  have hanswer := hmeasured.answered (p.env (config j)) rfl arp b
  rw [← hheap] at hanswer ⊢
  have hoffered : offered (p.env (config j)) (o.heap b) = true := by
    rw [← processRxPacket_offered (p.env (config j)) arp b, hanswer]
  obtain ⟨_, _, hringed⟩ := processRxPackets_filter (p.env (config j)) o.heap arp o.given hdef.nodup
  obtain ⟨_, _, _, hfinal, _, _⟩ := processRxPackets_spec (p.env (config j)) o.heap arp o.given
  rw [hpackets, hringed, hfinal, splitRxPackets_mbuf _ o.given o.heap arp hdef.nodup b hgiven, hanswer]
  refine ⟨List.mem_filter.mpr ⟨hgiven, ?_⟩, rfl⟩
  rw [accepted, hoffered, Bool.true_and]
  exact hring

theorem poll_learns (i : ι) (p : RxPoll) (hclock : p.ClockRuns) (hon : (config i).arpTable = true)
    (arp : ArpTable) (o : RxOutcome) (ho : p.process (config i) arp = some o) (b : MbufPtr)
    (hb : b ∈ p.burst) (harp : Arp4Packet { p.heap b with l2Len := 14 })
    (hlen : sizeofEtherHdr + sizeofArpHdr ≤ (p.heap b).dataLen) :
    resolved o.packets.arp (arpSip { p.heap b with l2Len := 14 }) ≠ none := by
  have hdef := p.deferred (config i) arp o ho
  obtain ⟨hgiven, hheap⟩ := poll_given config i p arp o ho b hb hlen harp.ether
  rw [poll_arp config i p arp o ho]
  exact splitRxPackets_learns (p.env (config i)) (fun arp => resolved arp _ ≠ none) o.given b
    { p.heap b with l2Len := 14 }
    (fun arp b m h => processRxPacket_stays (p.env (config i)) hclock _ arp b m h)
    (fun arp => processRxPacket_learns (p.env (config i)) hclock hon arp b _ harp)
    o.heap arp hdef.nodup hgiven hheap

theorem poll_stays (i : ι) (p : RxPoll) (hclock : p.ClockRuns) (arp : ArpTable) (o : RxOutcome)
    (ho : p.process (config i) arp = some o) (ip : Be32) (h : resolved arp ip ≠ none) :
    resolved o.packets.arp ip ≠ none := by
  have hdef := p.deferred (config i) arp o ho
  rw [poll_arp config i p arp o ho]
  exact splitRxPackets_arp (p.env (config i)) (fun arp => resolved arp ip ≠ none) o.given o.heap arp
    hdef.nodup (fun arp b _ h => processRxPacket_stays (p.env (config i)) hclock ip arp b _ h) h

variable [DecidableEq ι]

/-- An address once resolved stays resolved. -/
theorem step_stays (s : ArpLink ι) (e : LinkEvent ι) (s' : ArpLink ι) (hclock : ClockRuns e)
    (h : s.step config e = some s') (i : ι) (ip : Be32) (hres : resolved (s.arp i) ip ≠ none) :
    resolved (s'.arp i) ip ≠ none := by
  cases e with
  | ask j ip4addr buffer room =>
    rw [step] at h
    cases hsent : (etherAddress (config j) (s.arp j) ip4addr buffer room).sent with
    | none =>
      rw [hsent] at h
      obtain rfl := Option.some.inj h
      exact hres
    | some request =>
      rw [hsent] at h
      obtain rfl := Option.some.inj h
      exact hres
  | emplace j ip4addr =>
    rw [step] at h
    split_ifs at h
    obtain rfl := Option.some.inj h
    by_cases hj : i = j
    · subst hj
      dsimp only
      rw [Function.update_self]
      cases hrec : s.arp i ip4addr with
      | some rec =>
        rw [tryEmplace, hrec]
        exact hres
      | none =>
        simp only [tryEmplace, hrec]
        by_cases hip : ip = ip4addr
        · subst hip
          rw [resolved, hrec] at hres
          exact absurd rfl hres
        · rw [resolved, Function.update_of_ne hip]
          exact hres
    · dsimp only
      rw [Function.update_of_ne hj]
      exact hres
  | transmit frame =>
    rw [step] at h
    split_ifs at h
    obtain rfl := Option.some.inj h
    exact hres
  | poll j p =>
    rw [step] at h
    split_ifs at h
    obtain ⟨o, ho, rfl⟩ := Option.map_eq_some_iff.mp h
    by_cases hj : i = j
    · subst hj
      dsimp only
      rw [Function.update_self]
      exact poll_stays config i p hclock (s.arp i) o ho ip hres
    · dsimp only
      rw [Function.update_of_ne hj]
      exact hres
  | lose k =>
    rw [step] at h
    split_ifs at h
    obtain rfl := Option.some.inj h
    exact hres

theorem step_asks (s : ArpLink ι) (i : ι) (ip4addr : Be32) (buffer : Mbuf) (s' : ArpLink ι)
    (hon : (config i).arpTable = true) (hreach : isOwnRange ip4addr = false)
    (hnew : s.arp i ip4addr = none) (h : s.step config (.ask i ip4addr (some buffer) true) = some s') :
    arpRequest (config i) buffer ip4addr ∈ s'.air := by
  have hsent : (etherAddress (config i) (s.arp i) ip4addr (some buffer) true).sent =
      some (arpRequest (config i) buffer ip4addr) := by
    rw [etherAddress.eq_def, hreach, if_neg Bool.false_ne_true, hnew]
    dsimp only
    rw [if_pos hon, if_pos rfl]
  rw [step, hsent] at h
  obtain rfl := Option.some.inj h
  exact List.mem_append_right _ (List.mem_singleton.mpr rfl)

theorem step_answers (s : ArpLink ι) (j : ι) (p : RxPoll) (s' : ArpLink ι)
    (h : s.step config (.poll j p) = some s') (b : MbufPtr) (hb : b ∈ p.burst)
    (hreq : ArpRequestFor (config j).ip4Addr (p.heap b)) (hroom : p.call.env.enque b = true) :
    arpReply (p.env (config j)) { p.heap b with l2Len := 14 } ∈ s'.air := by
  rw [step] at h
  split_ifs at h
  obtain ⟨o, ho, rfl⟩ := Option.map_eq_some_iff.mp h
  obtain ⟨hringed, hreply⟩ := poll_answers config j p _ o ho b hb hreq hroom
  exact List.mem_append_right _ (List.mem_map.mpr ⟨b, hringed, hreply⟩)

/-- A copy of the reply enters the address of the device that made it. -/
theorem step_learns (s : ArpLink ι) (i : ι) (p : RxPoll) (s' : ArpLink ι) (hclock : p.ClockRuns)
    (hon : (config i).arpTable = true) (h : s.step config (.poll i p) = some s') (b : MbufPtr)
    (hb : b ∈ p.burst) (env : RxEnv) (hmac : env.config.macAddr.length = 6) (ip4addr : Be32) (m : Mbuf)
    (hl2 : m.l2Len = 14) (hreq : ArpRequestFor ip4addr m) (hr : Received (arpReply env m) (p.heap b)) :
    resolved (s'.arp i) env.config.ip4Addr ≠ none := by
  obtain ⟨hpacket, hsip⟩ := arpReply_received env hmac ip4addr m { p.heap b with l2Len := 14 } hl2 hreq
    hr rfl
  rw [step] at h
  split_ifs at h
  obtain ⟨o, ho, rfl⟩ := Option.map_eq_some_iff.mp h
  dsimp only
  rw [Function.update_self, ← hsip]
  exact poll_learns config i p hclock hon _ o ho b hb hpacket hpacket.fits

omit [DecidableEq ι] in
/-- A resolved address is the one of the device that has it. -/
theorem Inv.answer {s : ArpLink ι} (hi : s.Inv config) (i j : ι) (hon : (config i).arpTable = true)
    (hreach : isOwnRange (config j).ip4Addr = false)
    (hsole : ∀ k, (config k).ip4Addr = (config j).ip4Addr → (config k).macAddr = (config j).macAddr)
    (h : resolved (s.arp i) (config j).ip4Addr ≠ none) (buffer : Option Mbuf) (room : Bool) :
    (etherAddress (config i) (s.arp i) (config j).ip4Addr buffer room).result =
      .ok (config j).macAddr := by
  obtain ⟨mac, hmac⟩ := Option.ne_none_iff_exists'.mp h
  obtain ⟨k, hk, hkmac⟩ := hi.truthful i _ mac hmac
  rw [((ArpHistory.etherAddress_result (config i) hon _ _ buffer room hreach).1 mac).mpr hmac, ← hkmac,
    hsole k hk]

theorem pair_sole (k : Bool) (h : (pairConfig k).ip4Addr = (pairConfig true).ip4Addr) :
    (pairConfig k).macAddr = (pairConfig true).macAddr := by
  cases k with
  | false => exact absurd h (by decide)
  | true => rfl

/-- What was asked for and is not resolved has its request on the link. -/
def Asked (s : ArpLink ι) : Prop :=
  ∀ i ip, (∃ rec, s.arp i ip = some rec ∧ rec.timestamp = 0) ∨ (i, ip) ∈ s.asking →
    ∃ buffer, arpRequest (config i) buffer ip ∈ s.air

theorem processRxPacket_pending (env : RxEnv) (hclock : ∀ b, env.readClock b ≠ 0) (ip : Be32)
    (arp : ArpTable) (b : MbufPtr) (m : Mbuf) (P : Prop)
    (h : ∀ rec, arp ip = some rec → rec.timestamp = 0 → P) :
    ∀ rec, (processRxPacket env arp b m).2.1 ip = some rec → rec.timestamp = 0 → P := by
  by_cases harp : Arp4Packet m
  · rw [processRxPacket_arp4 env arp b m harp, learnArp]
    split_ifs
    · intro rec hrec hstamp
      by_cases hip : ip = arpSip m
      · rw [hip, Function.update_self] at hrec
        rw [← Option.some.inj hrec] at hstamp
        exact absurd hstamp (hclock b)
      · rw [Function.update_of_ne hip] at hrec
        exact h rec hrec hstamp
    · exact h
  · rw [processRxPacket_other env arp b m harp]
    exact h

theorem step_asked (s : ArpLink ι) (e : LinkEvent ι) (s' : ArpLink ι) (hi : s.Asked config)
    (hclock : ClockRuns e) (hkeeps : KeepsFrames e) (h : s.step config e = some s') :
    s'.Asked config := by
  cases e with
  | ask i ip4addr buffer room =>
    rw [step] at h
    obtain ⟨_, hsent⟩ | ⟨_, _, b, hsent⟩ :=
      ArpHistory.etherAddress_effect (config i) (s.arp i) ip4addr buffer room
    · rw [hsent] at h
      obtain rfl := Option.some.inj h
      exact hi
    · rw [hsent] at h
      obtain rfl := Option.some.inj h
      intro k ip hk
      by_cases hsame : (k, ip) = (i, ip4addr)
      · obtain ⟨rfl, rfl⟩ := Prod.mk.inj hsame
        exact ⟨b, List.mem_append_right _ (List.mem_singleton.mpr rfl)⟩
      · obtain ⟨buffer', hbuffer⟩ := hi k ip (hk.imp_right fun hmem =>
          (List.mem_append.mp hmem).resolve_right fun hnew => hsame (List.mem_singleton.mp hnew))
        exact ⟨buffer', List.mem_append_left _ hbuffer⟩
  | emplace i ip4addr =>
    rw [step] at h
    split_ifs at h with hasking
    obtain rfl := Option.some.inj h
    intro k ip hk
    obtain ⟨rec, hrec, hstamp⟩ | hmem := hk
    · by_cases hsame : k = i ∧ ip = ip4addr
      · obtain ⟨rfl, rfl⟩ := hsame
        exact hi k ip (Or.inr hasking)
      · refine hi k ip (Or.inl ⟨rec, ?_, hstamp⟩)
        rw [← hrec]
        dsimp only
        by_cases hk : k = i
        · subst hk
          have hip : ip ≠ ip4addr := fun h => hsame ⟨rfl, h⟩
          rw [Function.update_self, tryEmplace]
          cases s.arp k ip4addr with
          | some _ => rfl
          | none => exact (Function.update_of_ne hip _ _).symm
        · rw [Function.update_of_ne hk]
    · exact hi k ip (Or.inr (List.mem_of_mem_erase hmem))
  | transmit frame =>
    rw [step] at h
    split_ifs at h
    obtain rfl := Option.some.inj h
    intro k ip hk
    obtain ⟨buffer, hbuffer⟩ := hi k ip hk
    exact ⟨buffer, List.mem_append_left _ hbuffer⟩
  | poll i p =>
    rw [step] at h
    split_ifs at h
    obtain ⟨o, ho, rfl⟩ := Option.map_eq_some_iff.mp h
    intro k ip hk
    have hold : ∃ buffer, arpRequest (config k) buffer ip ∈ s.air := by
      obtain ⟨rec, hrec, hstamp⟩ | hmem := hk
      · dsimp only at hrec
        by_cases hk : k = i
        · subst hk
          rw [Function.update_self, poll_arp config k p (s.arp k) o ho] at hrec
          have hdef := p.deferred (config k) (s.arp k) o ho
          exact splitRxPackets_arp (p.env (config k))
            (fun arp => ∀ rec, arp ip = some rec → rec.timestamp = 0 → _) o.given o.heap (s.arp k)
            hdef.nodup (fun arp b _ => processRxPacket_pending (p.env (config k)) hclock ip arp b _ _)
            (fun rec hrec hstamp => hi k ip (Or.inl ⟨rec, hrec, hstamp⟩)) rec hrec hstamp
        · rw [Function.update_of_ne hk] at hrec
          exact hi k ip (Or.inl ⟨rec, hrec, hstamp⟩)
      · exact hi k ip (Or.inr hmem)
    obtain ⟨buffer, hbuffer⟩ := hold
    exact ⟨buffer, List.mem_append_left _ hbuffer⟩
  | lose k => exact absurd hkeeps id

/-- A receive call that meets one ARP packet has a result. -/
theorem pollOf_process (c : DeviceConfig) (arp : ArpTable) (m : Mbuf)
    (hlen : sizeofEtherHdr + sizeofArpHdr ≤ m.dataLen) (harp : loadBe16 m.data 12 = etherTypeArp) :
    ∃ o, (pollOf m).process c arp = some o := by
  have hwhole : 14 + 28 ≤ m.dataLen := hlen
  have hl2 := updateL2size_untagged m (by unfold sizeofEtherHdr; omega) (by rw [harp]; decide)
  obtain ⟨heap', hheap⟩ := (updateL2sizes_isSome (fun _ => m) [0]).mpr (by
    intro b _
    rw [hl2]
    exact Option.some_ne_none _)
  have hmeasured : heap' 0 = { m with l2Len := 14 } := by
    have hmem := updateL2sizes_mem (fun _ => m) heap' [0] hheap 0 (List.mem_singleton.mpr rfl)
    rw [hl2, Option.map_some] at hmem
    exact (Option.some.inj hmem).symm
  have hproto : (heap' 0).ethProto = etherTypeArp := by
    rw [hmeasured]
    exact harp
  have hclassify : ∀ v, classify ((pollOf m).callOf c) v (heap' 0) = some (v, .other) := by
    intro v
    rw [classify, hproto, if_neg (by decide), if_neg etherTypeArp_ne_ipv4]
  rw [RxPoll.process, process_spec (pollOf m).job ((pollOf m).callOf c) (pollOf m).heap heap' arp
    (pollOf m).burst (List.cons_ne_nil 0 []) (show 1 ≤ 32 by decide) hheap (fun _ _ => Nat.zero_le _)]
  change ∃ o, (verdicts _ heap' _ [0]).bind _ = some o
  rw [verdicts, hclassify]
  exact ⟨_, rfl⟩

theorem step_pollOf (s : ArpLink ι) (i : ι) (m : Mbuf) (hm : m ∈ s.air)
    (hlen : sizeofEtherHdr + sizeofArpHdr ≤ m.dataLen) (harp : loadBe16 m.data 12 = etherTypeArp) :
    ∃ s', s.step config (.poll i (pollOf m)) = some s' := by
  obtain ⟨o, ho⟩ := pollOf_process (config i) (s.arp i) m hlen harp
  rw [step, if_pos (fun _ _ => ⟨m, hm, Nat.le_refl _, fun _ _ => rfl⟩), ho]
  exact ⟨_, rfl⟩

/-- A request on the link is answered by two receive calls. -/
theorem request_resolves (hmac : ∀ j, (config j).macAddr.length = 6) (i j : ι)
    (hon : (config i).arpTable = true) (s : ArpLink ι) (buffer : Mbuf)
    (hair : arpRequest (config i) buffer (config j).ip4Addr ∈ s.air) :
    ∃ p p' s' s'', s.step config (.poll j p) = some s' ∧ s'.step config (.poll i p') = some s'' ∧
      resolved (s''.arp i) (config j).ip4Addr ≠ none := by
  have hreq := arpRequest_for (config i) (hmac i) buffer (config j).ip4Addr
  obtain ⟨s', hs'⟩ := step_pollOf config s j _ hair hreq.whole hreq.ether
  have hreply := step_answers config s j _ s' hs' 0 (List.mem_singleton.mpr rfl) hreq rfl
  have hmeasured : ArpRequestFor (config j).ip4Addr
      { arpRequest (config i) buffer (config j).ip4Addr with l2Len := 14 } :=
    hreq.received ⟨Nat.le_refl _, fun _ _ => rfl⟩
  have hframe := arpReply_frame ((pollOf (arpRequest (config i) buffer (config j).ip4Addr)).env (config j))
    (hmac j) _ rfl hmeasured.whole hmeasured.ether
  obtain ⟨s'', hs''⟩ := step_pollOf config s' i _ hreply hframe.whole hframe.ether
  refine ⟨_, _, s', s'', hs', hs'', ?_⟩
  exact step_learns config s' i _ s'' (fun _ => Nat.succ_ne_zero 6) hon hs'' 0 (List.mem_singleton.mpr rfl)
    _ (hmac j) (config j).ip4Addr _ rfl hmeasured ⟨Nat.le_refl _, fun _ _ => rfl⟩

omit [DecidableEq ι] in
theorem asked_initial : (initial : ArpLink ι).Asked config := by
  intro i ip h
  obtain ⟨rec, hrec, _⟩ | hmem := h
  · exact absurd hrec (by simp [initial])
  · exact absurd hmem List.not_mem_nil

/-- No run leaves the resolver stuck: while no frame is lost for good, at most three more steps
resolve the address of a device, a pending record or not. -/
theorem run_resolvable (hmac : ∀ j, (config j).macAddr.length = 6) (i j : ι)
    (hon : (config i).arpTable = true) (hreach : isOwnRange (config j).ip4Addr = false)
    (hsole : ∀ k, (config k).ip4Addr = (config j).ip4Addr → (config k).macAddr = (config j).macAddr)
    (es : List (LinkEvent ι)) (hclocks : ∀ e ∈ es, ClockRuns e) (hkeeps : ∀ e ∈ es, KeepsFrames e)
    (tr : List (Transition (ArpLink ι) (LinkEvent ι))) (htr : trace (step config) initial es = some tr) :
    ∃ es' tr', es'.length ≤ 3 ∧ trace (step config) (final initial tr) es' = some tr' ∧
      ∀ buffer room, (etherAddress (config i) ((final (final initial tr) tr').arp i) (config j).ip4Addr
        buffer room).result = .ok (config j).macAddr := by
  have hi := (run_inv config hmac initial es tr htr (inv_initial config)).1
  have hevents := trace_event_mem initial es tr htr
  obtain ⟨hasked, _⟩ := trace_invariant (Asked config) (fun _ e => ClockRuns e ∧ KeepsFrames e)
    (fun s e s' h hcond hstep => step_asked config s e s' h hcond.1 hcond.2 hstep) initial es tr htr
    (asked_initial config)
    (fun t ht => ⟨hclocks t.event (hevents t ht), hkeeps t.event (hevents t ht)⟩)
  by_cases hres : resolved ((final initial tr).arp i) (config j).ip4Addr ≠ none
  · exact ⟨[], [], Nat.zero_le 3, rfl, hi.answer config i j hon hreach hsole hres⟩
  cases hrec : (final initial tr).arp i (config j).ip4Addr with
  | some rec =>
    have hpending : rec.timestamp = 0 := by
      by_contra hstamp
      apply hres
      rw [resolved, hrec]
      dsimp only
      rw [if_pos hstamp]
      exact Option.some_ne_none _
    obtain ⟨buffer, hair⟩ := hasked i (config j).ip4Addr (Or.inl ⟨rec, hrec, hpending⟩)
    obtain ⟨p, p', s', s'', hs', hs'', hlearnt⟩ := request_resolves config hmac i j hon _ buffer hair
    refine ⟨[.poll j p, .poll i p'], _, Nat.le_succ 2, trace_step hs' (trace_step hs'' rfl), ?_⟩
    exact (step_inv config hmac _ _ s'' (step_inv config hmac _ _ s' hi hs') hs'').answer config i j hon
      hreach hsole hlearnt
  | none =>
    have hsome : ∃ s₁, (final initial tr).step config
        (.ask i (config j).ip4Addr (some blankMbuf) true) = some s₁ := by
      rw [step]
      split
      · exact ⟨_, rfl⟩
      · exact ⟨_, rfl⟩
    obtain ⟨s₁, hs₁⟩ := hsome
    have hair := step_asks config _ i (config j).ip4Addr blankMbuf s₁ hon hreach hrec hs₁
    have hi₁ := step_inv config hmac _ _ s₁ hi hs₁
    obtain ⟨p, p', s', s'', hs', hs'', hlearnt⟩ := request_resolves config hmac i j hon s₁ blankMbuf hair
    refine ⟨[.ask i _ (some blankMbuf) true, .poll j p, .poll i p'], _, Nat.le_refl 3, trace_step hs₁ (trace_step hs' (trace_step hs'' rfl)), ?_⟩
    exact (step_inv config hmac _ _ s'' (step_inv config hmac _ _ s' hi₁ hs') hs'').answer config i j hon
      hreach hsole hlearnt

/-- The pending record is there, and the request has not arrived yet. -/
theorem run_resolvable_pair :
    ∃ tr, trace (step pairConfig) initial [.ask false 0x0200000A (some blankMbuf) true,
        .emplace false 0x0200000A] = some tr ∧
      ∃ es' tr', es'.length ≤ 3 ∧ trace (step pairConfig) (final initial tr) es' = some tr' ∧
        (etherAddress (pairConfig false) ((final (final initial tr) tr').arp false) 0x0200000A none
          true).result = .ok [2, 0, 0, 0, 0, 2] := by
  have hruns : (trace (step pairConfig) initial [.ask false 0x0200000A (some blankMbuf) true,
      .emplace false 0x0200000A]).isSome = true := by
    decide +kernel
  obtain ⟨tr, htr⟩ := Option.isSome_iff_exists.mp hruns
  have hclocks : ∀ e ∈ [LinkEvent.ask false 0x0200000A (some blankMbuf) true, .emplace false 0x0200000A],
      ClockRuns e := by
    simp only [List.forall_mem_cons]
    exact ⟨trivial, trivial, by simp⟩
  have hkeeps : ∀ e ∈ [LinkEvent.ask false 0x0200000A (some blankMbuf) true, .emplace false 0x0200000A],
      KeepsFrames e := by
    simp only [List.forall_mem_cons]
    exact ⟨trivial, trivial, by simp⟩
  obtain ⟨es', tr', hlen, htr', hok⟩ :=
    run_resolvable pairConfig pair_macs false true rfl (by decide) pair_sole _ hclocks hkeeps tr htr
  exact ⟨tr, htr, es', tr', hlen, htr', hok none true⟩

end ArpLink

end DpdkTools
