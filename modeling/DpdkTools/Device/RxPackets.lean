import DpdkTools.Net.Mbuf
import Mathlib.Logic.Function.Basic
import Mathlib.Data.List.Basic
import Mathlib.Data.List.Perm.Basic

/-! The packets a receive job does not hand to a channel: `device::process_rx_packets`
(`dpdkx/device.cpp`). It answers ICMP echo requests and ARP requests by rewriting the mbuf in
place and putting it on a service ring, and compacts the others to the front of the array.

`rte_ipv4_cksum`, the clock and the ring's answer are parameters. `processRxPackets_spec` reduces
the in-place loop to a recursion over the list of mbufs. -/
namespace DpdkTools
set_option autoImplicit false

/-! ## Configuration and environment -/

structure DeviceConfig where
  icmp : Bool
  arpTable : Bool
  macAddr : List UInt8
  ip4Addr : Be32
  ipv4CksumOffload : Bool

structure Arp4Rec where
  macAddr : List UInt8
  timestamp : ℕ

/-- What one call meets outside: the checksum function, the clock at each packet, and which
mbufs the service ring takes. -/
structure RxEnv where
  config : DeviceConfig
  rteIpv4Cksum : (ℕ → UInt8) → ℕ → Be16
  readClock : MbufPtr → ℕ
  enque : MbufPtr → Bool

def txIpv4CksumFlags : ℕ := 2 ^ 55 + 2 ^ 54

/-- `is_multicast_ipv4_addr`, which looks at the first octet only. -/
def isMulticastIpv4Addr (addr : Be32) : Bool := addr.toNat % 256 == 0xE0

/-! ## Echo replies -/

/-- The source address of a reply to a multicast echo request. -/
def echoSrcAddr (src : Be32) : Be32 :=
  if rteBeToCpu32 src &&& 3 = 1 then rteBeToCpu32 (rteBeToCpu32 src &&& 0xFFFFFFFC ||| 2)
  else rteBeToCpu32 (rteBeToCpu32 src &&& 0xFFFFFFFC ||| 1)

def foldCksum (cksum : ℕ) : ℕ := cksum % 2 ^ 16 + cksum / 2 ^ 16

def echoCksum (cksum : Be16) : Be16 :=
  UInt16.ofNat (0xffff - foldCksum (foldCksum
    ((0xffff - cksum.toNat) + (0xffff - (rteBe16 0x0800).toNat) + (rteBe16 0).toNat)) % 2 ^ 16)

def echoAddresses (env : RxEnv) (m : Mbuf) : Mbuf :=
  let eth := storeBytes (etherAddrCopy m.data 6 0) 6 env.config.macAddr
  let src := m.ipv4SrcAddr
  let dst := m.ipv4DstAddr
  if isMulticastIpv4Addr dst then
    let ip := storeBe16 (storeBe32 (storeBe32 eth (m.l2Len + 16) src) (m.l2Len + 12) (echoSrcAddr src))
      (m.l2Len + 10) 0
    if env.config.ipv4CksumOffload then
      { m with data := ip, l3Len := m.ipv4HdrLen, olFlags := txIpv4CksumFlags }
    else
      { m with
        data := storeBe16 ip (m.l2Len + 10) (env.rteIpv4Cksum ip m.l2Len)
        l3Len := m.ipv4HdrLen
        olFlags := 0 }
  else
    { m with data := storeBe32 (storeBe32 eth (m.l2Len + 16) src) (m.l2Len + 12) env.config.ip4Addr }

def echoReply (env : RxEnv) (m : Mbuf) : Mbuf :=
  let off := m.l2Len + m.ipv4HdrLen
  let m' := echoAddresses env m
  let typed := storeBytes m'.data off [0]
  { m' with data := storeBe16 typed (off + 2) (echoCksum (loadBe16 typed (off + 2))) }

def isEchoRequest (env : RxEnv) (m : Mbuf) : Bool :=
  let off := m.l2Len + m.ipv4HdrLen
  m.data off == 8 && m.data (off + 1) == 0 && env.config.icmp && off + sizeofIcmpHdr ≤ m.dataLen

/-! ## ARP -/

def arpHardware (m : Mbuf) : Be16 := loadBe16 m.data m.l2Len
def arpProtocol (m : Mbuf) : Be16 := loadBe16 m.data (m.l2Len + 2)
def arpOpcode (m : Mbuf) : Be16 := loadBe16 m.data (m.l2Len + 6)
def arpSha (m : Mbuf) : List UInt8 := loadBytes m.data (m.l2Len + 8) 6
def arpSip (m : Mbuf) : Be32 := loadBe32 m.data (m.l2Len + 14)
def arpTip (m : Mbuf) : Be32 := loadBe32 m.data (m.l2Len + 24)

def arpReply (env : RxEnv) (m : Mbuf) : Mbuf :=
  let op := storeBe16 m.data (m.l2Len + 6) (rteBe16 2)
  let eth := storeBytes (etherAddrCopy op 6 0) 6 env.config.macAddr
  let tha := etherAddrCopy eth (m.l2Len + 8) (m.l2Len + 18)
  let tip := storeBe32 tha (m.l2Len + 24) (loadBe32 tha (m.l2Len + 14))
  let sip := storeBe32 tip (m.l2Len + 14) env.config.ip4Addr
  { m with data := storeBytes sip (m.l2Len + 8) env.config.macAddr }

abbrev ArpTable := Be32 → Option Arp4Rec

/-- `arp4_.insert_or_assign` when the feature is on. -/
def learnArp (env : RxEnv) (arp : ArpTable) (b : MbufPtr) (m : Mbuf) : ArpTable :=
  if env.config.arpTable then
    Function.update arp (arpSip m) (some ⟨arpSha m, env.readClock b⟩)
  else arp

/-! ## One packet, and the loop -/

/-- What the `switch` does to one packet: the mbuf and the ARP table afterwards, and whether the
mbuf is offered to the service ring. -/
def processRxPacket (env : RxEnv) (arp : ArpTable) (b : MbufPtr) (m : Mbuf) :
    Mbuf × ArpTable × Bool :=
  if m.ethProto = etherTypeIpv4 then
    if m.dataLen < m.l2Len + m.ipv4HdrLen then (m, arp, false)
    else if m.nextProtoId = ipprotoIcmp && isEchoRequest env m then (echoReply env m, arp, true)
    else (m, arp, false)
  else if m.ethProto = etherTypeArp then
    if m.dataLen < m.l2Len + sizeofArpHdr then (m, arp, false)
    else if arpHardware m = rteBe16 1 && arpProtocol m = etherTypeIpv4 then
      if arpOpcode m = rteBe16 1 then
        if env.config.ip4Addr = arpTip m then (arpReply env m, learnArp env arp b m, true)
        else (m, learnArp env arp b m, false)
      else if arpOpcode m = rteBe16 2 then (m, learnArp env arp b m, false)
      else (m, arp, false)
    else (m, arp, false)
  -- RARP, IPv6 and every other ethertype are only logged
  else (m, arp, false)

structure RxPackets where
  heap : MbufHeap
  arp : ArpTable
  buffers : List MbufPtr
  used : ℕ
  ringed : List MbufPtr

namespace RxPackets

def step (env : RxEnv) (s : RxPackets) (i : ℕ) : RxPackets :=
  match s.buffers[i]? with
  | none => s
  | some b =>
    let r := processRxPacket env s.arp b (s.heap b)
    let s' := { s with heap := Function.update s.heap b r.1, arp := r.2.1 }
    if r.2.2 && env.enque b then { s' with ringed := s'.ringed ++ [b] }
    else { s' with buffers := s'.buffers.set s'.used b, used := s'.used + 1 }

end RxPackets

def processRxPackets (env : RxEnv) (heap : MbufHeap) (arp : ArpTable) (buffers : List MbufPtr) :
    RxPackets :=
  (List.range buffers.length).foldl (RxPackets.step env) ⟨heap, arp, buffers, 0, []⟩

/-! ## The loop as a recursion -/

def splitRxPackets (env : RxEnv) : MbufHeap → ArpTable → List MbufPtr → RxPackets
  | heap, arp, [] => ⟨heap, arp, [], 0, []⟩
  | heap, arp, b :: bs =>
    let r := processRxPacket env arp b (heap b)
    let s := splitRxPackets env (Function.update heap b r.1) r.2.1 bs
    if r.2.2 && env.enque b then { s with ringed := b :: s.ringed }
    else { s with buffers := b :: s.buffers, used := s.used + 1 }

theorem step_ringed (env : RxEnv) (s : RxPackets) (i : ℕ) (b : MbufPtr) (hget : s.buffers[i]? = some b)
    (hring : ((processRxPacket env s.arp b (s.heap b)).2.2 && env.enque b) = true) :
    s.step env i = ⟨Function.update s.heap b (processRxPacket env s.arp b (s.heap b)).1,
      (processRxPacket env s.arp b (s.heap b)).2.1, s.buffers, s.used, s.ringed ++ [b]⟩ := by
  simp [RxPackets.step, hget, hring]

theorem step_kept (env : RxEnv) (s : RxPackets) (i : ℕ) (b : MbufPtr) (hget : s.buffers[i]? = some b)
    (hring : ((processRxPacket env s.arp b (s.heap b)).2.2 && env.enque b) = false) :
    s.step env i = ⟨Function.update s.heap b (processRxPacket env s.arp b (s.heap b)).1,
      (processRxPacket env s.arp b (s.heap b)).2.1, s.buffers.set s.used b, s.used + 1, s.ringed⟩ := by
  simp [RxPackets.step, hget, hring]

theorem take_set_succ {α : Type} (xs : List α) (n : ℕ) (x : α) (h : n < xs.length) :
    (xs.set n x).take (n + 1) = xs.take n ++ [x] := by
  rw [List.take_succ_eq_append_getElem (by simpa using h), List.getElem_set_self,
    List.take_set_of_le (Nat.le_refl n)]

/-- The loop from index `i` on: the part before `used` is settled, the part from `i` on is as it
was given. -/
theorem foldl_step_spec (env : RxEnv) (bs : List MbufPtr) (i : ℕ) (s t r : RxPackets)
    (ht : t = (List.range' i bs.length).foldl (RxPackets.step env) s)
    (hr : r = splitRxPackets env s.heap s.arp bs)
    (hrest : s.buffers.drop i = bs) (hused : s.used ≤ i) :
    t.buffers.take t.used = s.buffers.take s.used ++ r.buffers ∧ t.ringed = s.ringed ++ r.ringed ∧
      t.used = s.used + r.used ∧ t.heap = r.heap ∧ t.arp = r.arp ∧
      t.buffers.length = s.buffers.length := by
  induction bs generalizing i s r with
  | nil => subst ht hr; simp [splitRxPackets]
  | cons b bs ih =>
    have hi : i < s.buffers.length := by
      have := congrArg List.length hrest
      simp only [List.length_drop, List.length_cons] at this
      omega
    have hget : s.buffers[i]? = some b := by
      have := congrArg List.head? hrest
      simpa [List.head?_drop] using this
    have hdrop : s.buffers.drop (i + 1) = bs := by
      rw [← List.drop_drop, hrest]
      rfl
    rw [List.length_cons, List.range'_succ, List.foldl_cons] at ht
    unfold splitRxPackets at hr
    cases hring : (processRxPacket env s.arp b (s.heap b)).2.2 && env.enque b with
    | true =>
      rw [step_ringed env s i b hget hring] at ht
      obtain ⟨h1, h2, h3, h4, h5, h6⟩ := ih (i + 1) _ _ ht rfl hdrop (Nat.le_succ_of_le hused)
      simp only [hring, ↓reduceIte] at hr
      subst hr
      exact ⟨h1, by simpa using h2, h3, h4, h5, h6⟩
    | false =>
      rw [step_kept env s i b hget hring] at ht
      have hdrop' : (s.buffers.set s.used b).drop (i + 1) = bs := by
        rw [List.drop_set_of_lt (by omega), hdrop]
      obtain ⟨h1, h2, h3, h4, h5, h6⟩ := ih (i + 1) _ _ ht rfl hdrop' (Nat.succ_le_succ hused)
      simp only [hring, Bool.false_eq_true, ↓reduceIte] at hr
      subst hr
      simp only [take_set_succ s.buffers s.used b (by omega), List.append_assoc,
        List.singleton_append] at h1
      simp only [List.length_set] at h6
      exact ⟨h1, h2, by dsimp only at h3 ⊢; omega, h4, h5, h6⟩

theorem processRxPackets_spec (env : RxEnv) (heap : MbufHeap) (arp : ArpTable)
    (buffers : List MbufPtr) :
    let t := processRxPackets env heap arp buffers
    let r := splitRxPackets env heap arp buffers
    t.buffers.take t.used = r.buffers ∧ t.ringed = r.ringed ∧ t.used = r.used ∧ t.heap = r.heap ∧
      t.arp = r.arp ∧ t.buffers.length = buffers.length := by
  have h := foldl_step_spec env buffers 0 ⟨heap, arp, buffers, 0, []⟩ _ _ rfl rfl rfl (Nat.le_refl 0)
  simpa [processRxPackets, List.range_eq_range'] using h

theorem splitRxPackets_perm (env : RxEnv) (heap : MbufHeap) (arp : ArpTable) (bs : List MbufPtr) :
    ((splitRxPackets env heap arp bs).buffers ++ (splitRxPackets env heap arp bs).ringed).Perm bs := by
  induction bs generalizing heap arp with
  | nil => exact List.Perm.refl _
  | cons b bs ih =>
    unfold splitRxPackets
    have h := ih (Function.update heap b (processRxPacket env arp b (heap b)).1)
      (processRxPacket env arp b (heap b)).2.1
    dsimp only
    split_ifs
    · exact List.perm_middle.trans (h.cons b)
    · exact h.cons b

end DpdkTools
