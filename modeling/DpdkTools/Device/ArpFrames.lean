import DpdkTools.Device.ArpResolver
import DpdkTools.Device.RxDeferred

/-! The frames that devices running this code put on a link, as they arrive: padded perhaps, and with
old bytes behind their data.

A frame is honest when it carries IPv4 or an ARP packet whose sender is a device with the addresses
it gives. Requests are honest, and so is what `process_rx_packets` makes of an honest frame. -/
namespace DpdkTools
set_option autoImplicit false

/-! ## Frames -/

/-- What arrives when `f` was sent: the same bytes, perhaps more of them. -/
def Received (f m : Mbuf) : Prop := f.dataLen ≤ m.dataLen ∧ SameBelow f.dataLen f.data m.data

instance (f m : Mbuf) : Decidable (Received f m) :=
  inferInstanceAs (Decidable (_ ∧ ∀ i < f.dataLen, f.data i = m.data i))

/-- An untagged IPv4 frame. -/
structure Ipv4Frame (f : Mbuf) : Prop where
  whole : sizeofEtherHdr ≤ f.dataLen
  ether : loadBe16 f.data 12 = etherTypeIpv4

instance (f : Mbuf) : Decidable (Ipv4Frame f) :=
  decidable_of_iff (sizeofEtherHdr ≤ f.dataLen ∧ loadBe16 f.data 12 = etherTypeIpv4)
    ⟨fun h => ⟨h.1, h.2⟩, fun h => ⟨h.1, h.2⟩⟩

/-- An untagged ARP packet whose sender is a device with these addresses. -/
structure ArpFrame (config : DeviceConfig) (f : Mbuf) : Prop where
  whole : sizeofEtherHdr + sizeofArpHdr ≤ f.dataLen
  ether : loadBe16 f.data 12 = etherTypeArp
  sip : loadBe32 f.data 28 = config.ip4Addr
  sha : loadBytes f.data 22 6 = config.macAddr

section Frames
variable {ι : Type} (config : ι → DeviceConfig)

/-- A frame that says in ARP what is so: nothing, or the addresses of one of the devices. -/
def Honest (f : Mbuf) : Prop := Ipv4Frame f ∨ ∃ j, ArpFrame (config j) f

theorem Ipv4Frame.received {f m : Mbuf} (h : Ipv4Frame f) (hr : Received f m) : Ipv4Frame m where
  whole := Nat.le_trans h.whole hr.1
  ether := by
    rw [← h.ether]
    exact (hr.2.loadBe16_eq 12 h.whole).symm

theorem ArpFrame.received {c : DeviceConfig} {f m : Mbuf} (h : ArpFrame c f) (hr : Received f m) :
    ArpFrame c m := by
  have hwhole : 14 + 28 ≤ f.dataLen := h.whole
  refine ⟨Nat.le_trans h.whole hr.1, ?_, ?_, ?_⟩
  · rw [← h.ether]
    exact (hr.2.loadBe16_eq 12 (by omega)).symm
  · rw [← h.sip]
    exact (hr.2.loadBe32_eq 28 (by omega)).symm
  · rw [← h.sha]
    exact (hr.2.loadBytes_eq 22 6 (by omega)).symm

theorem Honest.received {f m : Mbuf} (h : Honest config f) (hr : Received f m) : Honest config m := by
  obtain h4 | ⟨j, harp⟩ := h
  · exact Or.inl (h4.received hr)
  · exact Or.inr ⟨j, harp.received hr⟩

theorem updateL2size_untagged (m : Mbuf) (hlen : sizeofEtherHdr ≤ m.dataLen)
    (h : Mbuf.isTag (loadBe16 m.data 12) = false) :
    m.updateL2size = some ({ m with l2Len := 14 }, loadBe16 m.data 12) :=
  Mbuf.updateL2size_tags m 0 (by decide) (fun i hi => absurd hi (Nat.not_lt_zero i)) h hlen

/-- An honest frame has no tags. -/
theorem Honest.measured {m : Mbuf} (h : Honest config m) :
    m.updateL2size = some ({ m with l2Len := 14 }, loadBe16 m.data 12) := by
  obtain h4 | ⟨j, harp⟩ := h
  · exact updateL2size_untagged m h4.whole (by rw [h4.ether]; decide)
  · have hwhole : 14 + 28 ≤ m.dataLen := harp.whole
    exact updateL2size_untagged m (by unfold sizeofEtherHdr; omega) (by rw [harp.ether]; decide)

/-! ## The frames a device makes -/

theorem loadBytes_outside (data : ℕ → UInt8) (off pos len : ℕ) (bs : List UInt8)
    (h : pos + len ≤ off ∨ off + bs.length ≤ pos) :
    loadBytes (storeBytes data off bs) pos len = loadBytes data pos len := by
  apply loadBytes_congr
  intro i hi
  exact storeBytes_outside data off (pos + i) bs (by omega)

theorem loadBytes_outside_be32 (data : ℕ → UInt8) (off pos len : ℕ) (x : Be32)
    (h : pos + len ≤ off ∨ off + 4 ≤ pos) :
    loadBytes (storeBe32 data off x) pos len = loadBytes data pos len :=
  loadBytes_outside data off pos len _ h

theorem loadBe32_outside_be32 (data : ℕ → UInt8) (off pos : ℕ) (x : Be32)
    (h : pos + 4 ≤ off ∨ off + 4 ≤ pos) : loadBe32 (storeBe32 data off x) pos = loadBe32 data pos :=
  loadBe32_outside data off pos _ h

theorem arpRequest_frame (c : DeviceConfig) (hmac : c.macAddr.length = 6) (buffer : Mbuf)
    (ip4addr : Be32) : ArpFrame c (arpRequest c buffer ip4addr) where
  whole := (by decide : 14 + 28 ≤ (14 + 28) % 2 ^ 16)
  ether := by
    rw [← loadBe16_storeBe16 buffer.data 12 etherTypeArp]
    apply loadBe16_congr <;>
      simp [arpRequest, makeEther, storeBe16, storeBe32, storeBytes, sizeofEtherHdr, hmac]
  sip := by
    rw [arpRequest]
    dsimp only [makeEther, sizeofEtherHdr]
    rw [loadBe32_outside_be32 _ _ _ _ (by omega), loadBe32_outside _ _ _ _ (by omega)]
    exact loadBe32_storeBe32 _ 28 _
  sha := by
    rw [arpRequest]
    dsimp only [makeEther, sizeofEtherHdr]
    rw [loadBytes_outside_be32 _ _ _ _ _ (by omega), loadBytes_outside _ _ _ _ _ (by omega),
      loadBytes_outside_be32 _ _ _ _ _ (by omega), ← hmac]
    exact loadBytes_storeBytes _ 22 _

/-- The reply keeps the hardware and protocol types and says the answering device's addresses. -/
theorem arpReply_frame (env : RxEnv) (hmac : env.config.macAddr.length = 6) (m : Mbuf)
    (hl2 : m.l2Len = 14) (hlen : sizeofEtherHdr + sizeofArpHdr ≤ m.dataLen)
    (h : loadBe16 m.data 12 = etherTypeArp) : ArpFrame env.config (arpReply env m) where
  whole := hlen
  ether := by
    rw [← h]
    apply loadBe16_congr <;>
      simp [arpReply, hl2, etherAddrCopy, storeBe16, storeBe32, storeBytes, loadBytes, hmac]
  sip := by
    rw [arpReply]
    dsimp only
    rw [hl2, loadBe32_outside _ _ _ _ (by omega)]
    exact loadBe32_storeBe32 _ 28 _
  sha := by
    rw [arpReply]
    dsimp only
    rw [hl2, ← hmac]
    exact loadBytes_storeBytes _ 22 _

theorem echoEther_ether (env : RxEnv) (hmac : env.config.macAddr.length = 6) (m : Mbuf) (i : ℕ)
    (hi : 12 ≤ i) : echoEther env m i = m.data i := by
  rw [echoEther, storeBytes_outside _ _ _ _ (by rw [hmac]; omega),
    etherAddrCopy_outside _ _ _ _ (by omega)]

/-- An echo reply leaves the ethertype alone. -/
theorem echoAddresses_ether (env : RxEnv) (hmac : env.config.macAddr.length = 6) (m : Mbuf)
    (hl2 : m.l2Len = 14) (i : ℕ) (hlo : 12 ≤ i) (hhi : i < 14) :
    (echoAddresses env m).data i = m.data i := by
  have hmcast : echoMcastHeader env m i = m.data i := by
    rw [echoMcastHeader, storeBe16_outside _ _ _ _ (by omega), storeBe32_outside _ _ _ _ (by omega),
      storeBe32_outside _ _ _ _ (by omega), echoEther_ether env hmac m i hlo]
  cases hm : isMulticastIpv4Addr m.ipv4DstAddr with
  | false =>
    rw [echoAddresses_own env m hm]
    change echoOwnHeader env m i = m.data i
    rw [echoOwnHeader, storeBe32_outside _ _ _ _ (by omega), storeBe32_outside _ _ _ _ (by omega),
      echoEther_ether env hmac m i hlo]
  | true =>
    cases ho : env.config.ipv4CksumOffload with
    | true =>
      rw [echoAddresses_offload env m hm ho]
      exact hmcast
    | false =>
      rw [echoAddresses_mcast env m hm ho]
      change storeBe16 (echoMcastHeader env m) (m.l2Len + 10) _ i = m.data i
      rw [storeBe16_outside _ _ _ _ (by omega), hmcast]

theorem echoReply_frame (env : RxEnv) (hmac : env.config.macAddr.length = 6) (m : Mbuf)
    (hl2 : m.l2Len = 14) (h : Ipv4Frame m) : Ipv4Frame (echoReply env m) := by
  have hsame : ∀ i, 12 ≤ i → i < 14 → (echoReply env m).data i = m.data i := by
    intro i hlo hhi
    rw [echoReply_eq, echoMessage_outside _ _ _ (by omega)]
    exact echoAddresses_ether env hmac m hl2 i hlo hhi
  refine ⟨?_, ?_⟩
  · have hlen : (echoReply env m).dataLen = m.dataLen := by
      rw [echoReply_eq, echoMessage_dataLen, (echoAddresses_lens env m).2]
    rw [hlen]
    exact h.whole
  · rw [← h.ether]
    exact loadBe16_congr _ _ 12 (hsame 12 (by omega) (by omega)) (hsame 13 (by omega) (by omega))

/-! ## One packet -/

/-- A table whose entries are addresses of devices; pending records say nothing. -/
def Truthful (arp : ArpTable) : Prop :=
  ∀ ip mac, resolved arp ip = some mac → ∃ j, (config j).ip4Addr = ip ∧ (config j).macAddr = mac

theorem truthful_empty : Truthful config fun _ => none := by
  intro ip mac h
  exact absurd h (by simp [resolved])

theorem Truthful.learn {arp : ArpTable} (h : Truthful config arp) (env : RxEnv) (b : MbufPtr) (m : Mbuf)
    (j : ι) (hip : arpSip m = (config j).ip4Addr) (hmac : arpSha m = (config j).macAddr) :
    Truthful config (learnArp env arp b m) := by
  rw [learnArp]
  split_ifs
  · intro ip mac hmac'
    by_cases hsame : ip = arpSip m
    · subst hsame
      rw [resolved, Function.update_self] at hmac'
      dsimp only at hmac'
      split_ifs at hmac'
      exact ⟨j, hip.symm, hmac.symm.trans (Option.some.inj hmac')⟩
    · rw [resolved, Function.update_of_ne hsame] at hmac'
      exact h ip mac hmac'
  · exact h

theorem Truthful.emplace {arp : ArpTable} (h : Truthful config arp) (ip4addr : Be32) :
    Truthful config (tryEmplace arp ip4addr .pending) := by
  cases hnew : arp ip4addr with
  | some rec =>
    rw [tryEmplace, hnew]
    exact h
  | none =>
    intro ip mac hmac
    simp only [tryEmplace, hnew] at hmac
    by_cases hsame : ip = ip4addr
    · subst hsame
      exact absurd hmac (by simp [resolved, Arp4Rec.pending])
    · rw [resolved, Function.update_of_ne hsame] at hmac
      exact h ip mac hmac

section Packet
variable (env : RxEnv) (i : ι) (henv : env.config = config i)
  (hmac : ∀ j, (config j).macAddr.length = 6)
include henv hmac

/-- A device that receives an honest frame learns what is so, and the mbuf it may put on the ring
is an honest frame again. -/
theorem processRxPacket_honest (arp : ArpTable) (b : MbufPtr) (m : Mbuf) (hl2 : m.l2Len = 14)
    (h : Honest config m) (harp : Truthful config arp) :
    Honest config (processRxPacket env arp b m).1 ∧
      Truthful config (processRxPacket env arp b m).2.1 := by
  have hown : env.config.macAddr.length = 6 := by rw [henv, hmac i]
  have hproto : m.ethProto = loadBe16 m.data 12 := by rw [Mbuf.ethProto, hl2]
  obtain h4 | ⟨j, hj⟩ := h
  · have hkeep : Honest config m := Or.inl h4
    have hecho : Honest config (echoReply env m) := Or.inl (echoReply_frame env hown m hl2 h4)
    rw [processRxPacket, if_pos (hproto.trans h4.ether)]
    split_ifs
    · exact ⟨hkeep, harp⟩
    · exact ⟨hecho, harp⟩
    · exact ⟨hkeep, harp⟩
  · have hkeep : Honest config m := Or.inr ⟨j, hj⟩
    have hreply : Honest config (arpReply env m) :=
      Or.inr ⟨i, henv ▸ arpReply_frame env hown m hl2 hj.whole hj.ether⟩
    have hsip : arpSip m = (config j).ip4Addr := by rw [arpSip, hl2, ← hj.sip]
    have hsha : arpSha m = (config j).macAddr := by rw [arpSha, hl2, ← hj.sha]
    have hlearn := harp.learn config env b m j hsip hsha
    have hne : m.ethProto ≠ etherTypeIpv4 := by
      rw [hproto, hj.ether]
      exact etherTypeArp_ne_ipv4
    rw [processRxPacket, if_neg hne, if_pos (hproto.trans hj.ether)]
    split_ifs
    · exact ⟨hkeep, harp⟩
    · exact ⟨hreply, hlearn⟩
    · exact ⟨hkeep, hlearn⟩
    · exact ⟨hkeep, hlearn⟩
    · exact ⟨hkeep, harp⟩
    · exact ⟨hkeep, harp⟩

end Packet

end Frames

end DpdkTools
