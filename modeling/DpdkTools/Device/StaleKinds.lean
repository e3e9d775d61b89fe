import DpdkTools.Device.RxStale

/-! The frames by whose stale bytes a call decides.

For a header of length 0 it is the protocol, and for an echo request with a header of one word the
destination address that lies behind the data. Each such frame can be completed in two ways that
some call tells apart, so that none of them could be allowed in `process_same`. -/
namespace DpdkTools
set_option autoImplicit false

/-! ## The protocol of a packet without header -/

/-- Whatever the protocol behind the data of such a frame is taken for, a channel at its port makes
the difference. -/
theorem headerlessUdp_decides (m : Mbuf) (r : Mbuf × Be16) (hr : m.updateL2size = some r)
    (htags : ¬ m.EndsInTag) (h : HeaderlessUdp r.1) :
    ∃ data₁ data₂, SameBelow m.dataLen m.data data₁ ∧ SameBelow m.dataLen m.data data₂ ∧
      ¬ SameRuns
        (cachedJob.process (portCall r.1.udpDstPort) (fun _ => m.withData data₁) (fun _ => none) [0])
        (cachedJob.process (portCall r.1.udpDstPort) (fun _ => m.withData data₂) (fun _ => none) [0]) := by
  obtain ⟨hl2, _⟩ := m.updateL2size_header r hr htags
  obtain ⟨l, hl⟩ := m.updateL2size_frame r hr
  have hlen : r.1.dataLen = m.dataLen := by rw [hl]
  have hrunt : r.1.dataLen < r.1.l2Len + 10 := of_decide_eq_true h.runt
  have hfits : r.1.l2Len + 8 ≤ r.1.dataLen := h.udp_fits
  have hsame : ∀ x, SameBelow m.dataLen m.data (Function.update m.data (r.1.l2Len + 9) x) :=
    SameBelow.update m.data (r.1.l2Len + 9) (by omega)
  obtain ⟨hparse, hsame'⟩ := m.updateL2size_withData r hr htags _ (hsame ipprotoUdp)
  have hproto : ∀ x, (r.1.withData (Function.update m.data (r.1.l2Len + 9) x)).nextProtoId = x := by
    intro x
    exact Function.update_self ..
  have hshort : (r.1.withData (Function.update m.data (r.1.l2Len + 9) ipprotoUdp)).udpTooShort =
      false := by
    rw [udpTooShort_same hsame' (by omega), h.dgram_fits]
  have hudp : isUdp (r.1.withData (Function.update m.data (r.1.l2Len + 9) ipprotoUdp)) = true := by
    rw [isUdp, hproto, ethProto_same hsame' hl2 (by omega), h.ether]
    decide
  have hport : (r.1.withData (Function.update m.data (r.1.l2Len + 9) ipprotoUdp)).udpDstPort =
      r.1.udpDstPort := udpDstPort_same hsame' (by omega) h.dgram_fits
  obtain ⟨o, ho, hmem, _⟩ := portCall_delivers _ _ hparse hudp hshort
  rw [hport] at ho
  refine ⟨_, _, hsame ipprotoUdp, hsame 0, ?_⟩
  rintro (⟨hn, _⟩ | ⟨o₁, o₂, ho₁, ho₂, hdec⟩)
  · exact absurd (ho.symm.trans hn) (by simp)
  · obtain rfl := Option.some.inj (ho.symm.trans ho₁)
    rw [hdec.handed_eq] at hmem
    obtain ⟨r₂, hr₂, hudp₂, _, _⟩ := handed_measured cachedJob (portCall r.1.udpDstPort)
      (by simp [portCall]) _ _ _ o₂ ho₂ 7 0 hmem
    obtain ⟨hparse₂, _⟩ := m.updateL2size_withData r hr htags _ (hsame 0)
    obtain rfl := Option.some.inj (hparse₂.symm.trans hr₂)
    rw [isUdp, hproto, Bool.and_eq_true] at hudp₂
    exact absurd hudp₂.2 (by decide)

/-! ## The destination of an echo request -/

/-- A device that answers echo requests. Whether the NIC computes the checksum is open. -/
def echoCall (offload : Bool) : RxCall :=
  { portCall 0 with
    env := ⟨⟨true, false, List.replicate 6 0, 0, offload⟩, fun _ _ => 1, fun _ => 0, fun _ => true⟩ }

theorem echoCall_answers (offload : Bool) (m : Mbuf) (r : Mbuf × Be16) (hr : m.updateL2size = some r)
    (h4 : r.1.ethProto = etherTypeIpv4) (hicmp : r.1.nextProtoId = ipprotoIcmp)
    (hhdr : ¬ r.1.dataLen < r.1.l2Len + r.1.ipv4HdrLen)
    (hreq : isEchoRequest (echoCall offload).env r.1 = true) :
    ∃ o, cachedJob.process (echoCall offload) (fun _ => m) (fun _ => none) [0] = some o ∧
      o.packets.ringed = [0] ∧ o.packets.heap 0 = echoReply (echoCall offload).env r.1 := by
  have hcl : classify (echoCall offload) cachedJob.view r.1 = some (cachedJob.view, .other) := by
    rw [classify, h4, if_neg etherTypeIpv4_ne_zero, if_pos rfl, hicmp, if_neg (by decide)]
  refine ⟨_, cachedJob_process (echoCall offload) (by simp [echoCall, portCall]) m r hr .other hcl _, ?_⟩
  have hdef : deferred [((0 : MbufPtr), Verdict.other)] = [0] := rfl
  have hdel : delivered [((0 : MbufPtr), Verdict.other)] = [] := rfl
  have hone : processRxPacket (echoCall offload).env (fun _ => none) 0 r.1 =
      (echoReply (echoCall offload).env r.1, fun _ => none, true) := by
    rw [processRxPacket, if_pos h4, if_neg hhdr, hicmp, hreq]
    rfl
  have hspec := processRxPackets_spec (echoCall offload).env
    (udpHeap (Function.update (fun _ => m) 0 r.1) []) (fun _ => none) [0]
  obtain ⟨_, hring, _, hheap, _, _⟩ := hspec
  rw [settle_packets, hdef, hdel, List.map_nil, hring, hheap, splitRxPackets, splitRxPackets, udpHeap_nil, Function.update_self, hone]
  have henq : (echoCall offload).env.enque 0 = true := rfl
  simp only [henq, Bool.and_self, if_true, Function.update_self, and_self]

/-- With a header of one word, the checksum of the reply lies behind type, code and checksum of the
message, so that it is what `echoAddresses` has left there. -/
theorem echoReply_cksum (env : RxEnv) (m : Mbuf) (hihl : m.ipv4HdrLen = 4) :
    loadBe16 (echoReply env m).data (m.l2Len + 10) =
      loadBe16 (echoAddresses env m).data (m.l2Len + 10) := by
  have hbyte : ∀ i, m.l2Len + 8 ≤ i → (echoReply env m).data i = (echoAddresses env m).data i := by
    intro i hi
    rw [echoReply_eq, echoMessage_outside _ _ _ (Or.inr (by omega))]
  exact loadBe16_congr _ _ _ (hbyte _ (by omega)) (hbyte _ (by omega))

theorem echoAddresses_cksum_mcast (offload : Bool) (m : Mbuf) (h : (m.data (m.l2Len + 16)).toNat = 0xE0) :
    loadBe16 (echoAddresses (echoCall offload).env m).data (m.l2Len + 10) =
      if offload then 0 else 1 := by
  have hm : isMulticastIpv4Addr m.ipv4DstAddr = true := by
    rw [Mbuf.ipv4DstAddr, isMulticastIpv4Addr_loadBe32, h]
    rfl
  cases offload with
  | true => simp [echoAddresses, hm, echoCall, loadBe16_storeBe16]
  | false => simp [echoAddresses, hm, echoCall, loadBe16_storeBe16]

theorem echoAddresses_cksum_own (offload : Bool) (m : Mbuf) (hl2 : 14 ≤ m.l2Len)
    (h : (m.data (m.l2Len + 16)).toNat ≠ 0xE0) :
    loadBe16 (echoAddresses (echoCall offload).env m).data (m.l2Len + 10) =
      loadBe16 m.data (m.l2Len + 10) := by
  have hm : isMulticastIpv4Addr m.ipv4DstAddr = false := by
    rw [Mbuf.ipv4DstAddr, isMulticastIpv4Addr_loadBe32]
    simpa using h
  have hbyte : ∀ i, m.l2Len + 10 ≤ i → i < m.l2Len + 12 →
      (echoAddresses (echoCall offload).env m).data i = m.data i := by
    intro i hlo hhi
    rw [echoAddresses_own (echoCall offload).env m hm]
    exact echoOwnHeader_outside (echoCall offload).env m rfl hl2 i (by omega) (by omega)
  exact loadBe16_congr _ _ _ (hbyte _ (by omega) (by omega)) (hbyte _ (by omega) (by omega))

/-- The checksum of a reply tells whether the destination was taken for a multicast address, with
the right setting of the NIC. -/
theorem echoReply_differs (a a' : Mbuf) (hl2 : a'.l2Len = a.l2Len) (h14 : 14 ≤ a.l2Len)
    (hihl : a.ipv4HdrLen = 4) (hihl' : a'.ipv4HdrLen = 4)
    (hmcast : (a.data (a.l2Len + 16)).toNat = 0xE0)
    (hown : (a'.data (a'.l2Len + 16)).toNat ≠ 0xE0) :
    ∃ offload, loadBe16 (echoReply (echoCall offload).env a).data (a.l2Len + 10) ≠
      loadBe16 (echoReply (echoCall offload).env a').data (a.l2Len + 10) := by
  have hfirst : ∀ offload, loadBe16 (echoReply (echoCall offload).env a).data (a.l2Len + 10) =
      if offload then 0 else 1 := by
    intro offload
    rw [echoReply_cksum _ a hihl, echoAddresses_cksum_mcast offload a hmcast]
  have hsecond : ∀ offload, loadBe16 (echoReply (echoCall offload).env a').data (a.l2Len + 10) =
      loadBe16 a'.data (a.l2Len + 10) := by
    intro offload
    rw [← hl2, echoReply_cksum _ a' hihl', echoAddresses_cksum_own offload a' (by omega) hown]
  by_cases h0 : loadBe16 a'.data (a.l2Len + 10) = 0
  · refine ⟨false, ?_⟩
    rw [hfirst, hsecond, h0]
    decide
  · refine ⟨true, ?_⟩
    rw [hfirst, hsecond]
    exact fun h => h0 h.symm

/-- Only with a header of one word can the destination of an echo request lie behind the data. -/
theorem TruncatedEcho.ihl {env : RxEnv} {m : Mbuf} (h : TruncatedEcho env m) :
    m.ipv4HdrLen = 4 ∧ m.l2Len + 12 ≤ m.dataLen := by
  have hecho := h.echo
  have hout := h.dst_outside
  simp only [isEchoRequest, Bool.and_eq_true, decide_eq_true_eq, beq_iff_eq] at hecho
  obtain ⟨⟨⟨htype, hcode⟩, _⟩, hfits⟩ := hecho
  unfold sizeofIcmpHdr at hfits
  have hihl : m.ipv4HdrLen = (m.data m.l2Len).toNat % 16 * 4 := rfl
  have hcases : m.ipv4HdrLen = 0 ∨ m.ipv4HdrLen = 4 ∨ m.ipv4HdrLen = 8 := by omega
  obtain h0 | h4 | h8 := hcases
  · rw [h0, Nat.add_zero] at htype
    rw [htype] at hihl
    have hihl' : m.ipv4HdrLen = 32 := hihl
    omega
  · omega
  · -- type and code would lie where the protocol is
    have hproto : m.data (m.l2Len + 9) = 1 := h.icmp
    rw [h8, hproto] at hcode
    exact absurd hcode (by decide)

/-- However it is completed, such a request is answered. -/
theorem TruncatedEcho.answered {env : RxEnv} {m : Mbuf} {r : Mbuf × Be16}
    (h : TruncatedEcho env r.1) (hr : m.updateL2size = some r) (htags : ¬ m.EndsInTag)
    (offload : Bool) (data' : ℕ → UInt8) (hsame : SameBelow m.dataLen m.data data') :
    ∃ o, cachedJob.process (echoCall offload) (fun _ => m.withData data') (fun _ => none) [0] =
        some o ∧ o.packets.ringed = [0] ∧
      o.packets.heap 0 = echoReply (echoCall offload).env (r.1.withData data') := by
  obtain ⟨hparse, hsame'⟩ := m.updateL2size_withData r hr htags data' hsame
  obtain ⟨hl2, _⟩ := m.updateL2size_header r hr htags
  obtain ⟨hihl, hfits⟩ := h.ihl
  have hrunt : r.1.runt = false := decide_eq_false (by omega)
  have hreq : isEchoRequest (echoCall offload).env r.1 = true := by
    have hecho := h.echo
    simp only [isEchoRequest, Bool.and_eq_true] at hecho ⊢
    exact ⟨⟨hecho.1.1, rfl⟩, hecho.2⟩
  apply echoCall_answers offload _ _ hparse
  · rw [ethProto_same hsame' hl2 (by omega), h.ether]
  · rw [nextProtoId_same hsame' hrunt, h.icmp]
  · rw [ipv4HdrLen_same hsame' (by omega), hihl]
    change ¬ r.1.dataLen < r.1.l2Len + 4
    omega
  · rw [isEchoRequest_same _ _ _ hsame' (by omega), hreq]

/-- Whatever the destination behind the data of such a request is taken for, the checksum of the
reply tells the difference. -/
theorem truncatedEcho_decides (env : RxEnv) (m : Mbuf) (r : Mbuf × Be16)
    (hr : m.updateL2size = some r) (htags : ¬ m.EndsInTag) (h : TruncatedEcho env r.1) :
    ∃ offload data₁ data₂, SameBelow m.dataLen m.data data₁ ∧ SameBelow m.dataLen m.data data₂ ∧
      ¬ SameRuns
        (cachedJob.process (echoCall offload) (fun _ => m.withData data₁) (fun _ => none) [0])
        (cachedJob.process (echoCall offload) (fun _ => m.withData data₂) (fun _ => none) [0]) := by
  obtain ⟨_, hhdr⟩ := m.updateL2size_header r hr htags
  obtain ⟨l, hl⟩ := m.updateL2size_frame r hr
  obtain ⟨hihl, hfits⟩ := h.ihl
  have hout := h.dst_outside
  have hlen : r.1.dataLen = m.dataLen := by rw [hl]
  -- `x` is the first octet of the destination
  have hsame : ∀ x, SameBelow m.dataLen m.data (Function.update m.data (r.1.l2Len + 16) x) :=
    SameBelow.update m.data (r.1.l2Len + 16) (by omega)
  have hihl' : ∀ x, (r.1.withData (Function.update m.data (r.1.l2Len + 16) x)).ipv4HdrLen = 4 := by
    intro x
    rw [ipv4HdrLen_same (m.updateL2size_withData r hr htags _ (hsame x)).2 (by omega), hihl]
  have hoctet : ∀ x, (r.1.withData (Function.update m.data (r.1.l2Len + 16) x)).data
      (r.1.l2Len + 16) = x := fun x => Function.update_self ..
  obtain ⟨offload, hdiffer⟩ := echoReply_differs
    (r.1.withData (Function.update m.data (r.1.l2Len + 16) 0xE0))
    (r.1.withData (Function.update m.data (r.1.l2Len + 16) 0)) rfl (by change 14 ≤ r.1.l2Len; omega)
    (hihl' 0xE0) (hihl' 0) (congrArg UInt8.toNat (hoctet 0xE0))
    (fun heq => absurd ((congrArg UInt8.toNat (hoctet 0)).symm.trans heq) (by decide))
  obtain ⟨o₁, ho₁, hring₁, hheap₁⟩ := h.answered hr htags offload _ (hsame 0xE0)
  obtain ⟨o₂, ho₂, _, hheap₂⟩ := h.answered hr htags offload _ (hsame 0)
  refine ⟨offload, _, _, hsame 0xE0, hsame 0, ?_⟩
  intro hruns
  obtain ⟨data', hbytes, heq⟩ := (hruns.decisions ho₁ ho₂).replies 0
    (by rw [hring₁]; exact List.mem_cons_self ..)
  have hload := hbytes.loadBe16_eq (r.1.l2Len + 10) (by
    rw [hheap₁, echoReply_eq, echoMessage_dataLen, (echoAddresses_lens _ _).2]
    exact hfits)
  have hdata' : data' = (o₂.packets.heap 0).data := by rw [heq]; rfl
  rw [hdata', hheap₁, hheap₂] at hload
  exact hdiffer hload

/-! ## Frames on their own -/

/-- A frame of one of the kinds is recognised by its data. -/
theorem StaleFree.withData {env : RxEnv} {m : Mbuf} {data' : ℕ → UInt8} (h : StaleFree env m)
    (hsame : SameBelow m.dataLen m.data data') : StaleFree env (m.withData data') := by
  have hparse : ∀ r', (m.withData data').updateL2size = some r' →
      ∃ r, m.updateL2size = some r ∧ r'.1 = r.1.withData data' ∧
        SameBelow r.1.dataLen r.1.data data' ∧ 2 ≤ r.1.l2Len := by
    intro r' hr'
    rw [Mbuf.updateL2size_same m data' hsame h.tags] at hr'
    obtain ⟨r, hr, rfl⟩ := Option.map_eq_some_iff.mp hr'
    exact ⟨r, hr, rfl, (m.updateL2size_withData r hr h.tags data' hsame).2,
      (m.updateL2size_header r hr h.tags).1⟩
  refine ⟨?_, ?_, ?_⟩
  · intro hends
    have hlen : 126 ≤ m.dataLen := hends.1
    refine h.tags ⟨hlen, hends.2.1, ?_⟩
    intro i hi
    have hproto : (m.withData data').tagProto i = m.tagProto i :=
      (hsame.loadBe16_eq (12 + 4 * i) (by omega)).symm
    rw [← hproto]
    exact hends.2.2 i hi
  · intro r' hr' hudp
    obtain ⟨r, hr, heq, hsame', hl2⟩ := hparse r' hr'
    rw [heq] at hudp
    exact h.udp r hr (headerlessUdp_same hsame' hl2 hudp)
  · intro r' hr' hecho
    obtain ⟨r, hr, heq, hsame', hl2⟩ := hparse r' hr'
    rw [heq] at hecho
    have hfits : r.1.l2Len + 12 ≤ r.1.dataLen := hecho.ihl.2
    have hrunt : r.1.runt = false := decide_eq_false (by omega)
    refine h.echo r hr ⟨?_, ?_, ?_, hecho.dst_outside⟩
    · rw [← hecho.ether, ethProto_same hsame' hl2 (by omega)]
    · rw [← hecho.icmp, nextProtoId_same hsame' hrunt]
    · rw [← hecho.echo, isEchoRequest_same env r.1 data' hsame' (by omega)]

/-- Every call treats all frames with this data alike. -/
def TreatedAlike (m : Mbuf) : Prop :=
  ∀ (j : RxJob) (c : RxCall) (arp : ArpTable) (data₁ data₂ : ℕ → UInt8),
    (∀ ch bs, c.enqueue ch bs ≤ bs.length) → ReadsHeaderOnly c.env.rteIpv4Cksum →
    c.env.config.macAddr.length = 6 → SameBelow m.dataLen m.data data₁ →
    SameBelow m.dataLen m.data data₂ →
    SameRuns (j.process c (fun _ => m.withData data₁) arp [0])
      (j.process c (fun _ => m.withData data₂) arp [0])

/-- Unless the tags run past offset 126, a frame is treated alike exactly if it is of neither kind. -/
theorem treatedAlike_iff (m : Mbuf) (htags : ¬ m.EndsInTag) :
    TreatedAlike m ↔ ∀ env, StaleFree env m := by
  constructor
  · intro halike env
    refine ⟨htags, ?_, ?_⟩
    · intro r hr hudp
      obtain ⟨data₁, data₂, h₁, h₂, hdiffer⟩ := headerlessUdp_decides m r hr htags hudp
      exact hdiffer (halike cachedJob _ _ data₁ data₂ (by simp [portCall]) (fun _ _ _ _ _ => rfl) rfl
        h₁ h₂)
    · intro r hr hecho
      obtain ⟨offload, data₁, data₂, h₁, h₂, hdiffer⟩ := truncatedEcho_decides env m r hr htags hecho
      exact hdiffer (halike cachedJob _ _ data₁ data₂ (by simp [echoCall, portCall])
        (fun _ _ _ _ _ => rfl) rfl h₁ h₂)
  · intro hfree j c arp data₁ data₂ hc hck hmac h₁ h₂
    have hboth : SameBelow m.dataLen data₁ data₂ := fun i hi => (h₁ i hi).symm.trans (h₂ i hi)
    apply process_same j c hc hck hmac
    · exact List.nodup_singleton 0
    · intro b _
      exact ⟨data₂, hboth, rfl⟩
    · intro b _
      exact (hfree c.env).withData h₁
    · exact Or.inl (by decide)

end DpdkTools
