import DpdkTools.Device.RxWellFormed
import DpdkTools.Net.Stale

/-! What a call does with bytes that lie behind the data of a packet.

The mbufs of a pool are used again and again, so that behind `data_len` there is what an earlier
packet has left. `rx_job::process` and `process_rx_packets` read the protocol, the header length
and the addresses of a packet before, or without, comparing `data_len` with where these fields end.
Mostly a length test that comes later frees the packet anyhow. A call decides by such a byte in
three cases only: the protocol of a packet without header, the destination address of an echo
request with a header of one word, and the type behind a tag at offset 126. -/
namespace DpdkTools
set_option autoImplicit false

/-! ## Fields inside the data -/

/-- The data ends before the protocol of an IPv4 header. -/
def Mbuf.runt (m : Mbuf) : Bool := m.dataLen < m.l2Len + 10

/-- A UDP packet, as far as its data goes: the header has length 0, and the protocol lies behind
the data. -/
structure HeaderlessUdp (m : Mbuf) : Prop where
  ether : m.ethProto = etherTypeIpv4
  udp_fits : m.l2Len + sizeofUdpHdr ≤ m.dataLen
  runt : m.runt = true
  ihl : m.ipv4HdrLen = 0
  dgram_fits : m.udpTooShort = false

/-- An echo request that is answered although its destination address lies behind the data. -/
structure TruncatedEcho (env : RxEnv) (m : Mbuf) : Prop where
  ether : m.ethProto = etherTypeIpv4
  icmp : m.nextProtoId = ipprotoIcmp
  echo : isEchoRequest env m = true
  dst_outside : m.dataLen ≤ m.l2Len + 16

section Fields
variable {m : Mbuf} {data' : ℕ → UInt8} (hsame : SameBelow m.dataLen m.data data')
include hsame

theorem ethProto_same (hl2 : 2 ≤ m.l2Len) (h : m.l2Len ≤ m.dataLen) :
    (m.withData data').ethProto = m.ethProto :=
  (hsame.loadBe16_eq (m.l2Len - 2) (by omega)).symm

theorem ipv4HdrLen_same (h : m.l2Len < m.dataLen) :
    (m.withData data').ipv4HdrLen = m.ipv4HdrLen := by
  have hbyte : data' m.l2Len = m.data m.l2Len := (hsame m.l2Len h).symm
  exact congrArg (fun x : UInt8 => x.toNat % 16 * 4) hbyte

theorem nextProtoId_same (h : m.runt = false) :
    (m.withData data').nextProtoId = m.nextProtoId := by
  have hlen := of_decide_eq_false h
  exact (hsame (m.l2Len + 9) (by omega)).symm

/-- The length test looks at `dgram_len` only when it lies inside the data. -/
theorem udpTooShort_same (h : m.l2Len < m.dataLen) :
    (m.withData data').udpTooShort = m.udpTooShort := by
  have hihl := ipv4HdrLen_same hsame h
  by_cases hfits : m.l2Len + m.ipv4HdrLen + sizeofUdpHdr ≤ m.dataLen
  · have hdgram : (m.withData data').udpDgramLen = m.udpDgramLen := by
      have hload := hsame.loadBe16_eq (m.l2Len + m.ipv4HdrLen + 4) (by
        unfold sizeofUdpHdr at hfits
        omega)
      rw [Mbuf.udpDgramLen, Mbuf.udpDgramLen, hihl, hload]
      rfl
    rw [Mbuf.udpTooShort, Mbuf.udpTooShort, hihl, hdgram]
    rfl
  · have hshort : m.dataLen < m.l2Len + m.ipv4HdrLen + sizeofUdpHdr := Nat.lt_of_not_le hfits
    have hshort' : (m.withData data').dataLen <
        (m.withData data').l2Len + (m.withData data').ipv4HdrLen + sizeofUdpHdr := by
      rw [hihl]
      exact hshort
    rw [Mbuf.udpTooShort, Mbuf.udpTooShort, decide_eq_true hshort, decide_eq_true hshort',
      Bool.true_or, Bool.true_or]

theorem udpDstPort_same (h : m.l2Len < m.dataLen) (hshort : m.udpTooShort = false) :
    (m.withData data').udpDstPort = m.udpDstPort := by
  have hfits := ((udpTooShort_eq_false m).mp hshort).1
  unfold sizeofUdpHdr at hfits
  have hload := hsame.loadBe16_eq (m.l2Len + m.ipv4HdrLen + 2) (by omega)
  rw [Mbuf.udpDstPort, Mbuf.udpDstPort, ipv4HdrLen_same hsame h, hload]
  rfl

/-- A frame of this kind is recognised by its data. -/
theorem headerlessUdp_same (hl2 : 2 ≤ m.l2Len) (h : HeaderlessUdp (m.withData data')) :
    HeaderlessUdp m := by
  have hfits : m.l2Len + 8 ≤ m.dataLen := h.udp_fits
  refine ⟨?_, hfits, h.runt, ?_, ?_⟩
  · rw [← h.ether, ethProto_same hsame hl2 (by omega)]
  · rw [← h.ihl, ipv4HdrLen_same hsame (by omega)]
  · rw [← h.dgram_fits, udpTooShort_same hsame (by omega)]

end Fields

/-! ## The verdict -/

theorem findRxChannel_port (v : SinkView) (tables : TablePtr → Sinks) (published : TablePtr)
    (ep ep' : Ip4Endpoint) (h : ep.2 = ep'.2) :
    v.findRxChannel tables published ep = v.findRxChannel tables published ep' := by
  rw [SinkView.findRxChannel, SinkView.findRxChannel, h]

/-- The verdict on a packet with the first ten bytes of its header depends on its data only. -/
theorem classify_same (c : RxCall) (v : SinkView) (m : Mbuf) (data' : ℕ → UInt8)
    (hsame : SameBelow m.dataLen m.data data') (hl2 : 2 ≤ m.l2Len) (h : m.runt = false) :
    classify c v (m.withData data') = classify c v m := by
  have hlen := of_decide_eq_false h
  rw [classify, classify, ethProto_same hsame hl2 (by omega), nextProtoId_same hsame h,
    udpTooShort_same hsame (by omega)]
  cases hshort : m.udpTooShort with
  | true => simp only [if_true]
  | false =>
    have hport : (m.withData data').udpEndpoint.2 = m.udpEndpoint.2 :=
      udpDstPort_same hsame (by omega) hshort
    rw [findRxChannel_port v c.tables c.published _ _ hport]

/-- A runt is handed to no channel, and no channel is looked up for it. -/
theorem classify_runt (c : RxCall) (v : SinkView) (m : Mbuf) (hr : m.runt = true)
    (h : ¬ HeaderlessUdp m) : ∃ k, classify c v m = some (v, k) ∧ ∀ ch, k ≠ .deliver ch := by
  have hlen : m.dataLen < m.l2Len + 10 := of_decide_eq_true hr
  unfold classify
  split_ifs with h0 h4 hudp hshort
  · exact ⟨.broken, rfl, fun _ => Verdict.noConfusion⟩
  · exact ⟨.shortUdp, rfl, fun _ => Verdict.noConfusion⟩
  · -- the test can be passed with a header of length 0 only
    have hshort := Bool.eq_false_iff.mpr hshort
    have hfits := ((udpTooShort_eq_false m).mp hshort).1
    have hihl : m.ipv4HdrLen = (m.data m.l2Len).toNat % 16 * 4 := rfl
    unfold sizeofUdpHdr at hfits
    exact absurd ⟨h4, by unfold sizeofUdpHdr; omega, hr, by omega, hshort⟩ h
  · exact ⟨.other, rfl, fun _ => Verdict.noConfusion⟩
  · exact ⟨.other, rfl, fun _ => Verdict.noConfusion⟩

/-! ## Replies -/

/-- `rte_ipv4_cksum` reads the header that it is given, of the length written there, and nothing
else. -/
def ReadsHeaderOnly (cksum : (ℕ → UInt8) → ℕ → Be16) : Prop :=
  ∀ data data' off, data off = data' off →
    (∀ i < (data off).toNat % 16 * 4, data (off + i) = data' (off + i)) →
    cksum data off = cksum data' off

theorem isMulticastIpv4Addr_loadBe32 (data : ℕ → UInt8) (off : ℕ) :
    isMulticastIpv4Addr (loadBe32 data off) = ((data off).toNat == 0xE0) := by
  have h0 := (data off).toNat_lt
  have h1 := (data (off + 1)).toNat_lt
  have h2 := (data (off + 2)).toNat_lt
  have h3 := (data (off + 3)).toNat_lt
  have hmod : (loadBe32 data off).toNat % 256 = (data off).toNat := by
    rw [loadBe32, UInt32.toNat_ofNat']
    omega
  rw [isMulticastIpv4Addr, hmod]

section Stages
variable (env : RxEnv) (m : Mbuf)

/-- The frame with the MAC addresses of the reply. -/
def echoEther : ℕ → UInt8 := storeBytes (etherAddrCopy m.data 6 0) 6 env.config.macAddr

/-- The header of a reply to 224.x.x.x, before its checksum. -/
def echoMcastHeader : ℕ → UInt8 :=
  storeBe16 (storeBe32 (storeBe32 (echoEther env m) (m.l2Len + 16) m.ipv4SrcAddr) (m.l2Len + 12)
    (echoSrcAddr m.ipv4SrcAddr)) (m.l2Len + 10) 0

def echoOwnHeader : ℕ → UInt8 :=
  storeBe32 (storeBe32 (echoEther env m) (m.l2Len + 16) m.ipv4SrcAddr) (m.l2Len + 12)
    env.config.ip4Addr

theorem echoAddresses_offload (hm : isMulticastIpv4Addr m.ipv4DstAddr = true)
    (ho : env.config.ipv4CksumOffload = true) :
    echoAddresses env m = { m with
      data := echoMcastHeader env m
      l3Len := m.ipv4HdrLen
      olFlags := txIpv4CksumFlags } := by
  simp only [echoAddresses, hm, ho, if_true, echoMcastHeader, echoEther]

theorem echoAddresses_mcast (hm : isMulticastIpv4Addr m.ipv4DstAddr = true)
    (ho : env.config.ipv4CksumOffload = false) :
    echoAddresses env m = { m with
      data := storeBe16 (echoMcastHeader env m) (m.l2Len + 10)
        (env.rteIpv4Cksum (echoMcastHeader env m) m.l2Len)
      l3Len := m.ipv4HdrLen
      olFlags := 0 } := by
  simp only [echoAddresses, hm, ho, if_true, Bool.false_eq_true, if_false, echoMcastHeader, echoEther]

theorem echoAddresses_own (hm : isMulticastIpv4Addr m.ipv4DstAddr = false) :
    echoAddresses env m = { m with data := echoOwnHeader env m } := by
  simp only [echoAddresses, hm, Bool.false_eq_true, if_false, echoOwnHeader, echoEther]

theorem echoAddresses_lens :
    (echoAddresses env m).l2Len = m.l2Len ∧ (echoAddresses env m).dataLen = m.dataLen := by
  cases hm : isMulticastIpv4Addr m.ipv4DstAddr with
  | false =>
    rw [echoAddresses_own env m hm]
    exact ⟨rfl, rfl⟩
  | true =>
    cases ho : env.config.ipv4CksumOffload with
    | false =>
      rw [echoAddresses_mcast env m hm ho]
      exact ⟨rfl, rfl⟩
    | true =>
      rw [echoAddresses_offload env m hm ho]
      exact ⟨rfl, rfl⟩

variable (hmac : env.config.macAddr.length = 6) (hl2 : 14 ≤ m.l2Len)
include hmac hl2

theorem echoEther_outside (i : ℕ) (hi : m.l2Len ≤ i) : echoEther env m i = m.data i := by
  rw [echoEther, storeBytes_outside _ _ _ _ (by rw [hmac]; omega),
    etherAddrCopy_outside _ _ _ _ (by omega)]

theorem echoMcastHeader_outside (i : ℕ) (hi : m.l2Len ≤ i) (h : i < m.l2Len + 10 ∨ m.l2Len + 20 ≤ i) :
    echoMcastHeader env m i = m.data i := by
  rw [echoMcastHeader, storeBe16_outside _ _ _ _ (by omega), storeBe32_outside _ _ _ _ (by omega),
    storeBe32_outside _ _ _ _ (by omega), echoEther_outside env m hmac hl2 i hi]

theorem echoOwnHeader_outside (i : ℕ) (hi : m.l2Len ≤ i) (h : i < m.l2Len + 12 ∨ m.l2Len + 20 ≤ i) :
    echoOwnHeader env m i = m.data i := by
  rw [echoOwnHeader, storeBe32_outside _ _ _ _ (by omega), storeBe32_outside _ _ _ _ (by omega),
    echoEther_outside env m hmac hl2 i hi]

/-- The header up to the checksum, and all behind the addresses, stay. -/
theorem echoAddresses_outside (i : ℕ) (hi : m.l2Len ≤ i) (h : i < m.l2Len + 10 ∨ m.l2Len + 20 ≤ i) :
    (echoAddresses env m).data i = m.data i := by
  cases hm : isMulticastIpv4Addr m.ipv4DstAddr with
  | false =>
    rw [echoAddresses_own env m hm]
    exact echoOwnHeader_outside env m hmac hl2 i hi (by omega)
  | true =>
    cases ho : env.config.ipv4CksumOffload with
    | true =>
      rw [echoAddresses_offload env m hm ho]
      exact echoMcastHeader_outside env m hmac hl2 i hi h
    | false =>
      rw [echoAddresses_mcast env m hm ho]
      change storeBe16 (echoMcastHeader env m) (m.l2Len + 10) _ i = m.data i
      rw [storeBe16_outside _ _ _ _ (by omega),
        echoMcastHeader_outside env m hmac hl2 i hi h]

end Stages

section Replies
variable (env : RxEnv) (m : Mbuf) (data' : ℕ → UInt8)

/-- The addresses of a reply, from a request whose header and first octet of the destination lie
inside the data. -/
theorem echoAddresses_same (hsame : SameBelow m.dataLen m.data data')
    (hck : ReadsHeaderOnly env.rteIpv4Cksum) (hmac : env.config.macAddr.length = 6)
    (hl2 : 14 ≤ m.l2Len ∨ m.l2Len + 60 ≤ m.dataLen)
    (hhdr : m.l2Len + m.ipv4HdrLen ≤ m.dataLen) (hdst : m.l2Len + 16 < m.dataLen) :
    SameData (echoAddresses env m) (echoAddresses env (m.withData data')) := by
  have hihl := ipv4HdrLen_same hsame (by omega)
  have hsrc : (m.withData data').ipv4SrcAddr = m.ipv4SrcAddr :=
    (hsame.loadBe32_eq (m.l2Len + 12) (by omega)).symm
  have hmcast : isMulticastIpv4Addr (m.withData data').ipv4DstAddr =
      isMulticastIpv4Addr m.ipv4DstAddr := by
    have hbyte : data' (m.l2Len + 16) = m.data (m.l2Len + 16) := (hsame _ hdst).symm
    rw [Mbuf.ipv4DstAddr, Mbuf.ipv4DstAddr, isMulticastIpv4Addr_loadBe32,
      isMulticastIpv4Addr_loadBe32]
    exact congrArg (fun x : UInt8 => x.toNat == 0xE0) hbyte
  have heth : SameBelow m.dataLen (storeBytes (etherAddrCopy m.data 6 0) 6 env.config.macAddr)
      (storeBytes (etherAddrCopy data' 6 0) 6 env.config.macAddr) :=
    (hsame.etherAddrCopy 6 0 (by omega)).storeBytes 6 _
  unfold echoAddresses
  dsimp only
  rw [hsrc, hmcast, hihl]
  by_cases hm : isMulticastIpv4Addr m.ipv4DstAddr = true
  · simp only [hm, if_true]
    have hip := ((heth.storeBe32 (m.l2Len + 16) m.ipv4SrcAddr).storeBe32 (m.l2Len + 12)
      (echoSrcAddr m.ipv4SrcAddr)).storeBe16 (m.l2Len + 10) 0
    split_ifs
    · exact ⟨_, hip, rfl⟩
    · -- the header that the checksum is computed of lies inside the data
      have hcksum := hck _ _ m.l2Len (hip m.l2Len (by omega)) (by
        intro i hi
        apply hip
        obtain h14 | h60 := hl2
        · have hbyte := echoMcastHeader_outside env m hmac h14 m.l2Len (Nat.le_refl _) (by omega)
          unfold echoMcastHeader echoEther at hbyte
          rw [hbyte] at hi
          have hlen : m.ipv4HdrLen = (m.data m.l2Len).toNat % 16 * 4 := rfl
          omega
        · omega)
      refine ⟨_, hip.storeBe16 (m.l2Len + 10) (env.rteIpv4Cksum _ m.l2Len), ?_⟩
      rw [hcksum]
      rfl
  · simp only [hm]
    exact ⟨_, (heth.storeBe32 (m.l2Len + 16) m.ipv4SrcAddr).storeBe32 (m.l2Len + 12) _, rfl⟩

/-- The reply behind its addresses: type and checksum of the message at `off`. -/
def echoMessage (off : ℕ) (a : Mbuf) : Mbuf :=
  let typed := storeBytes a.data off [0]
  a.withData (storeBe16 typed (off + 2) (echoCksum (loadBe16 typed (off + 2))))

theorem echoMessage_same (off : ℕ) (a : Mbuf) (hsame : SameBelow a.dataLen a.data data')
    (hoff : off + 4 ≤ a.dataLen) : SameData (echoMessage off a) (echoMessage off (a.withData data')) := by
  have htyped := hsame.storeBytes off [0]
  have hcksum := htyped.loadBe16_eq (off + 2) (by omega)
  refine ⟨_, htyped.storeBe16 (off + 2) (echoCksum (loadBe16 _ (off + 2))), ?_⟩
  rw [hcksum]
  rfl

theorem echoMessage_dataLen (off : ℕ) (a : Mbuf) : (echoMessage off a).dataLen = a.dataLen := rfl

theorem echoMessage_outside (off i : ℕ) (a : Mbuf) (h : i < off ∨ off + 4 ≤ i) :
    (echoMessage off a).data i = a.data i := by
  have hstored : (echoMessage off a).data i = storeBe16 (storeBytes a.data off [0]) (off + 2)
      (echoCksum (loadBe16 (storeBytes a.data off [0]) (off + 2))) i := rfl
  rw [hstored, storeBe16_outside _ _ _ _ (by omega),
    storeBytes_outside _ _ _ _ (by simp; omega)]

theorem echoReply_eq : echoReply env m =
    echoMessage (m.l2Len + m.ipv4HdrLen) (echoAddresses env m) := by
  simp only [echoReply, echoMessage, Mbuf.withData]

theorem echoReply_same (hsame : SameBelow m.dataLen m.data data')
    (hck : ReadsHeaderOnly env.rteIpv4Cksum) (hmac : env.config.macAddr.length = 6)
    (hl2 : 14 ≤ m.l2Len ∨ m.l2Len + 60 ≤ m.dataLen)
    (hicmp : m.l2Len + m.ipv4HdrLen + sizeofIcmpHdr ≤ m.dataLen)
    (hdst : m.l2Len + 16 < m.dataLen) :
    SameData (echoReply env m) (echoReply env (m.withData data')) := by
  unfold sizeofIcmpHdr at hicmp
  obtain ⟨data'', haddr, heq⟩ := echoAddresses_same env m data' hsame hck hmac hl2 (by omega) hdst
  have hoff : m.l2Len + m.ipv4HdrLen + 4 ≤ (echoAddresses env m).dataLen := by
    rw [(echoAddresses_lens env m).2]
    omega
  rw [echoReply_eq, echoReply_eq, heq, ipv4HdrLen_same hsame (by omega)]
  exact echoMessage_same data'' (m.l2Len + m.ipv4HdrLen) (echoAddresses env m) haddr hoff

/-- Type and code are read before the length is compared, but count only if it suffices. -/
theorem isEchoRequest_same (hsame : SameBelow m.dataLen m.data data') (h : m.l2Len < m.dataLen) :
    isEchoRequest env (m.withData data') = isEchoRequest env m := by
  have hihl := ipv4HdrLen_same hsame h
  by_cases hfits : m.l2Len + m.ipv4HdrLen + sizeofIcmpHdr ≤ m.dataLen
  · unfold sizeofIcmpHdr at hfits
    have htype : data' (m.l2Len + m.ipv4HdrLen) = m.data (m.l2Len + m.ipv4HdrLen) :=
      (hsame _ (by omega)).symm
    have hcode : data' (m.l2Len + m.ipv4HdrLen + 1) = m.data (m.l2Len + m.ipv4HdrLen + 1) :=
      (hsame _ (by omega)).symm
    rw [isEchoRequest, isEchoRequest, hihl, ← htype, ← hcode]
    rfl
  · have hfits' : ¬ (m.withData data').l2Len + m.ipv4HdrLen + sizeofIcmpHdr ≤
        (m.withData data').dataLen := hfits
    rw [isEchoRequest, isEchoRequest, hihl, decide_eq_false hfits, decide_eq_false hfits', Bool.and_false, Bool.and_false]

theorem arpReply_same (hsame : SameBelow m.dataLen m.data data')
    (harp : m.l2Len + sizeofArpHdr ≤ m.dataLen) :
    SameData (arpReply env m) (arpReply env (m.withData data')) := by
  unfold sizeofArpHdr at harp
  have htha := (((hsame.storeBe16 (m.l2Len + 6) (rteBe16 2)).etherAddrCopy 6 0
    (by omega)).storeBytes 6 env.config.macAddr).etherAddrCopy (m.l2Len + 8) (m.l2Len + 18) (by omega)
  have hsip := htha.loadBe32_eq (m.l2Len + 14) (by omega)
  refine ⟨_, ((htha.storeBe32 (m.l2Len + 24) (loadBe32 _ (m.l2Len + 14))).storeBe32 (m.l2Len + 14)
    env.config.ip4Addr).storeBytes (m.l2Len + 8) env.config.macAddr, ?_⟩
  rw [arpReply, hsip]
  rfl

theorem learnArp_same (hsame : SameBelow m.dataLen m.data data')
    (harp : m.l2Len + sizeofArpHdr ≤ m.dataLen) (arp : ArpTable) (b : MbufPtr) :
    learnArp env arp b (m.withData data') = learnArp env arp b m := by
  unfold sizeofArpHdr at harp
  have hsip : arpSip (m.withData data') = arpSip m :=
    (hsame.loadBe32_eq (m.l2Len + 14) (by omega)).symm
  have hsha : arpSha (m.withData data') = arpSha m :=
    (hsame.loadBytes_eq (m.l2Len + 8) 6 (by omega)).symm
  rw [learnArp, learnArp, hsip, hsha]

end Replies

theorem sameData_self (m : Mbuf) (data' : ℕ → UInt8) (hsame : SameBelow m.dataLen m.data data') :
    SameData m (m.withData data') := ⟨data', hsame, rfl⟩

/-! ## One packet -/

theorem processRxPacket_arp (env : RxEnv) (arp : ArpTable) (b : MbufPtr) (m : Mbuf)
    (h4 : m.ethProto ≠ etherTypeIpv4) (h : m.ethProto = etherTypeArp)
    (hlen : ¬ m.dataLen < m.l2Len + sizeofArpHdr) :
    processRxPacket env arp b m =
      if arpHardware m = rteBe16 1 && arpProtocol m = etherTypeIpv4 then
        if arpOpcode m = rteBe16 1 then
          if env.config.ip4Addr = arpTip m then (arpReply env m, learnArp env arp b m, true)
          else (m, learnArp env arp b m, false)
        else if arpOpcode m = rteBe16 2 then (m, learnArp env arp b m, false)
        else (m, arp, false)
      else (m, arp, false) := by
  rw [processRxPacket, if_neg h4, if_pos h, if_neg hlen]

section OnePacket
variable (env : RxEnv) (arp : ArpTable) (b : MbufPtr) (m : Mbuf) (data' : ℕ → UInt8)

theorem processRxPacket_ipv4_same (hsame : SameBelow m.dataLen m.data data')
    (hck : ReadsHeaderOnly env.rteIpv4Cksum) (hmac : env.config.macAddr.length = 6)
    (hl2 : 2 ≤ m.l2Len) (hhdr : 14 ≤ m.l2Len ∨ m.l2Len + 60 ≤ m.dataLen) (hrunt : m.runt = false)
    (hecho : ¬ TruncatedEcho env m) (h4 : m.ethProto = etherTypeIpv4) :
    (processRxPacket env arp b (m.withData data')).2 = (processRxPacket env arp b m).2 ∧
      SameData (processRxPacket env arp b m).1 (processRxPacket env arp b (m.withData data')).1 := by
  have hlen := of_decide_eq_false hrunt
  have hself := sameData_self m data' hsame
  rw [processRxPacket, processRxPacket, ethProto_same hsame hl2 (by omega), if_pos h4, if_pos h4,
    ipv4HdrLen_same hsame (by omega), nextProtoId_same hsame hrunt,
    isEchoRequest_same env m data' hsame (by omega)]
  by_cases hshort : m.dataLen < m.l2Len + m.ipv4HdrLen
  · have hshort' : (m.withData data').dataLen < (m.withData data').l2Len + m.ipv4HdrLen := hshort
    rw [if_pos hshort, if_pos hshort']
    exact ⟨rfl, hself⟩
  · have hshort' : ¬ (m.withData data').dataLen < (m.withData data').l2Len + m.ipv4HdrLen := hshort
    rw [if_neg hshort, if_neg hshort']
    split_ifs with hreq
    · rw [Bool.and_eq_true, decide_eq_true_eq] at hreq
      have hfits : m.l2Len + m.ipv4HdrLen + sizeofIcmpHdr ≤ m.dataLen := by
        have hreq := hreq.2
        simp only [isEchoRequest, Bool.and_eq_true, decide_eq_true_eq] at hreq
        exact hreq.2
      have hdst : m.l2Len + 16 < m.dataLen := by
        by_contra hout
        exact hecho ⟨h4, hreq.1, hreq.2, by omega⟩
      exact ⟨rfl, echoReply_same env m data' hsame hck hmac hhdr hfits hdst⟩
    · exact ⟨rfl, hself⟩

theorem processRxPacket_arp_same (hsame : SameBelow m.dataLen m.data data')
    (hether : (m.withData data').ethProto = m.ethProto) (h4 : m.ethProto ≠ etherTypeIpv4)
    (harp : m.ethProto = etherTypeArp) :
    (processRxPacket env arp b (m.withData data')).2 = (processRxPacket env arp b m).2 ∧
      SameData (processRxPacket env arp b m).1 (processRxPacket env arp b (m.withData data')).1 := by
  have hself := sameData_self m data' hsame
  by_cases hshort : m.dataLen < m.l2Len + sizeofArpHdr
  · have hshort' : (m.withData data').dataLen < (m.withData data').l2Len + sizeofArpHdr := hshort
    rw [processRxPacket, processRxPacket, hether, if_neg h4, if_neg h4, if_pos harp, if_pos harp,
      if_pos hshort, if_pos hshort']
    exact ⟨rfl, hself⟩
  · have hfits : m.l2Len + sizeofArpHdr ≤ m.dataLen := Nat.le_of_not_lt hshort
    have hfits' : m.l2Len + 28 ≤ m.dataLen := hfits
    have hhw : arpHardware (m.withData data') = arpHardware m :=
      (hsame.loadBe16_eq m.l2Len (by omega)).symm
    have hpr : arpProtocol (m.withData data') = arpProtocol m :=
      (hsame.loadBe16_eq (m.l2Len + 2) (by omega)).symm
    have hop : arpOpcode (m.withData data') = arpOpcode m :=
      (hsame.loadBe16_eq (m.l2Len + 6) (by omega)).symm
    have htip : arpTip (m.withData data') = arpTip m :=
      (hsame.loadBe32_eq (m.l2Len + 24) (by omega)).symm
    rw [processRxPacket_arp env arp b m h4 harp hshort,
      processRxPacket_arp env arp b (m.withData data') (by rw [hether]; exact h4)
        (by rw [hether]; exact harp) hshort, hhw, hpr, hop, htip,
      learnArp_same env m data' hsame hfits]
    split_ifs
    · exact ⟨rfl, arpReply_same env m data' hsame hfits⟩
    · exact ⟨rfl, hself⟩
    · exact ⟨rfl, hself⟩
    · exact ⟨rfl, hself⟩
    · exact ⟨rfl, hself⟩

/-- What is done with a packet, and what is learnt from it, depends on its data only; and so does
the data of the reply. -/
theorem processRxPacket_same (hsame : SameBelow m.dataLen m.data data')
    (hck : ReadsHeaderOnly env.rteIpv4Cksum) (hmac : env.config.macAddr.length = 6)
    (hl2 : 2 ≤ m.l2Len) (hhdr : 14 ≤ m.l2Len ∨ m.l2Len + 60 ≤ m.dataLen) (hrunt : m.runt = false)
    (hecho : ¬ TruncatedEcho env m) :
    (processRxPacket env arp b (m.withData data')).2 = (processRxPacket env arp b m).2 ∧
      SameData (processRxPacket env arp b m).1 (processRxPacket env arp b (m.withData data')).1 := by
  have hlen := of_decide_eq_false hrunt
  have hether := ethProto_same hsame hl2 (by omega)
  by_cases h4 : m.ethProto = etherTypeIpv4
  · exact processRxPacket_ipv4_same env arp b m data' hsame hck hmac hl2 hhdr hrunt hecho h4
  · by_cases harp : m.ethProto = etherTypeArp
    · exact processRxPacket_arp_same env arp b m data' hsame hether h4 harp
    · rw [processRxPacket, processRxPacket, hether, if_neg h4, if_neg h4, if_neg harp, if_neg harp]
      exact ⟨rfl, sameData_self m data' hsame⟩

end OnePacket

/-- A runt is left alone. -/
theorem processRxPacket_runt (env : RxEnv) (arp : ArpTable) (b : MbufPtr) (m : Mbuf)
    (hr : m.runt = true) : processRxPacket env arp b m = (m, arp, false) := by
  have hlen : m.dataLen < m.l2Len + 10 := of_decide_eq_true hr
  unfold processRxPacket
  by_cases h4 : m.ethProto = etherTypeIpv4
  · rw [if_pos h4]
    split_ifs with hshort hreq
    · rfl
    · -- a header of length 0 begins with the type of the request, which has another length in it
      exfalso
      rw [Bool.and_eq_true] at hreq
      have hecho := hreq.2
      simp only [isEchoRequest, Bool.and_eq_true, decide_eq_true_eq, beq_iff_eq] at hecho
      obtain ⟨⟨⟨htype, _⟩, _⟩, hfits⟩ := hecho
      have hihl : m.ipv4HdrLen = (m.data m.l2Len).toNat % 16 * 4 := rfl
      unfold sizeofIcmpHdr at hfits
      have hzero : m.ipv4HdrLen = 0 := by omega
      rw [hzero, Nat.add_zero] at htype
      rw [htype] at hihl
      have hihl' : m.ipv4HdrLen = 32 := hihl
      omega
    · rfl
  · rw [if_neg h4]
    by_cases harp : m.ethProto = etherTypeArp
    · rw [if_pos harp, if_pos (by unfold sizeofArpHdr; omega)]
    · rw [if_neg harp]

end DpdkTools
