import DpdkTools.Device.Attach
import DpdkTools.Device.RxPackets
import DpdkTools.Net.Cksum
import DpdkTools.Net.MakeUdp

/-! The packet behind a membership report: `device::mcast_group` (`dpdkx/mcast.cpp`), of which
`Mcasts.mcastGroup` keeps the record only.

The mbuf comes from a pool, and whatever was in its data room before is still there. The checksum
of the message is taken over `l3_len + payload_size` bytes from the start of the message, which is
the length of the message and 24 bytes more. -/
namespace DpdkTools
open OnesComplement
set_option autoImplicit false

/-! ## Which groups are accepted -/

/-- The first octet of a network-order address, and the last one. -/
def firstOctet (addr : Be32) : ℕ := addr.toNat % 256

def lastOctet (addr : Be32) : ℕ := addr.toNat / 2 ^ 24

def IsMcastOctet (n : ℕ) : Prop := 224 ≤ n ∧ n ≤ 239

theorem rteIsIpv4Mcast_iff (x : UInt32) : rteIsIpv4Mcast x = true ↔ IsMcastOctet (x.toNat / 2 ^ 24) := by
  have hlow : (rteIpv4 224 0 0 0).toNat = 224 * 2 ^ 24 := by decide
  have hhigh : (rteIpv4 239 255 255 255).toNat = 240 * 2 ^ 24 - 1 := by decide
  rw [rteIsIpv4Mcast, Bool.and_eq_true, decide_eq_true_eq, decide_eq_true_eq, UInt32.le_iff_toNat_le,
    UInt32.le_iff_toNat_le, hlow, hhigh, IsMcastOctet]
  omega

theorem rteBeToCpu32_first (x : Be32) : (rteBeToCpu32 x).toNat / 2 ^ 24 = firstOctet x := by
  have hx : x.toNat < 2 ^ 32 := x.toNat_lt
  rw [rteBeToCpu32, UInt32.toNat_ofNat', firstOctet, Nat.mod_eq_of_lt (by omega)]
  omega

theorem mcastGroup_badAddress (m : Mcasts) (g : Be32) (type : IgmpType) (svc : SvcTx) :
    (m.mcastGroup g type svc).2 = some .badAddress ↔ IsMcastOctet (lastOctet g) := by
  rw [lastOctet, ← rteIsIpv4Mcast_iff, Mcasts.mcastGroup]
  by_cases hg : rteIsIpv4Mcast g = true
  · simp only [hg, if_true]
  · simp only [hg, Bool.false_eq_true, if_false, iff_false]
    split_ifs
    all_goals simp

/-- `mcast_group` refuses what is no multicast address, and takes every group that `attach_rx` joins
and `detach_rx` leaves. -/
structure TakesGroups (g : Be32) : Prop where
  rejects : ∀ (m : Mcasts) (type : IgmpType) (svc : SvcTx),
    (m.mcastGroup g type svc).2 = some .badAddress ↔ ¬ IsMcastOctet (firstOctet g)
  joins : ∀ (d : Device) (port : Be16), IsMcastOctet (firstOctet g) → d.mcasts.joinedMcasts g = none →
    (d.joinEndpoint (g, port) ⟨true, true⟩).2 = .success
  leaves : ∀ (d : Device) (port : Be16), IsMcastOctet (firstOctet g) → d.mcasts.joinedMcasts g ≠ none →
    (d.leaveEndpoint (g, port) ⟨true, true⟩).2 = .success

/-- The test looks at the last octet, and the wrong way round. -/
theorem takesGroups_iff (g : Be32) :
    TakesGroups g ↔ (IsMcastOctet (firstOctet g) ↔ ¬ IsMcastOctet (lastOctet g)) := by
  constructor
  · intro h
    rw [← mcastGroup_badAddress Mcasts.empty g .changeToExcludeMode ⟨true, true⟩, h.rejects, not_not]
  · intro h
    have hsend : IsMcastOctet (firstOctet g) → Mcasts.Sendable g ⟨true, true⟩ := by
      intro hfirst
      refine ⟨Bool.eq_false_iff.mpr ?_, rfl, rfl⟩
      rw [ne_eq, rteIsIpv4Mcast_iff]
      exact h.mp hfirst
    have hdecide : IsMcastOctet (firstOctet g) → rteIsIpv4Mcast (rteBeToCpu32 g) = true := by
      rw [rteIsIpv4Mcast_iff, rteBeToCpu32_first]
      exact id
    refine ⟨?_, ?_, ?_⟩
    · intro m type svc
      rw [mcastGroup_badAddress, h, not_not]
    · intro d port hfirst hnone
      simp only [Device.joinEndpoint, hdecide hfirst, if_true]
      rw [Mcasts.joinMcast_first _ _ _ (hsend hfirst) hnone]
      rfl
    · intro d port hfirst hsome
      obtain ⟨count, hcount⟩ := Option.ne_none_iff_exists'.mp hsome
      simp only [Device.leaveEndpoint, hdecide hfirst, if_true]
      rw [Mcasts.leaveMcast_present _ _ _ (hsend hfirst) count hcount]
      rfl

/-- 239.1.1.230 is a group, and is refused. -/
theorem group_refused : IsMcastOctet (firstOctet 0xE60101EF) ∧
    (Mcasts.empty.mcastGroup 0xE60101EF .changeToExcludeMode ⟨true, true⟩).2 = some .badAddress ∧
    ¬ TakesGroups 0xE60101EF := by
  have hgroup : IsMcastOctet (firstOctet 0xE60101EF) := ⟨by decide, by decide⟩
  refine ⟨hgroup, rfl, ?_⟩
  intro h
  exact (h.rejects Mcasts.empty .changeToExcludeMode ⟨true, true⟩).mp rfl hgroup

/-! ## The packet -/

def ipprotoIgmp : UInt8 := 2

def sizeofIgmpv3MemRep : ℕ := 8
def sizeofIgmRecord : ℕ := 4
def sizeofIp4Addr : ℕ := 4

/-- `ip_header_alert_options`: the option router alert. -/
def ipHeaderAlertOptions : Be32 := 0x00000494
def sizeofAlertOptions : ℕ := 4

def payloadSize : ℕ := sizeofIgmpv3MemRep + sizeofIgmRecord + sizeofIp4Addr

def membershipReport : UInt8 := 0x22

def IgmpType.value : IgmpType → UInt8
  | .changeToExcludeMode => 4
  | .changeToIncludeMode => 3

/-- `rte_cpu_to_be_64` on a little-endian host. -/
def rteCpuToBe64 (x : UInt64) : UInt64 :=
  UInt64.ofNat (((List.range 8).map fun i => x.toNat / 256 ^ i % 256 * 256 ^ (7 - i)).sum)

/-- `ether_addr_for_ipv4_mcast`: the first six bytes of an integer, as they lie in memory. -/
def etherAddrForIpv4Mcast (addr : UInt32) : List UInt8 :=
  let intAddr := rteCpuToBe64 (0x01005e000000 ||| (addr &&& 0x7fffff).toUInt64) >>> 16
  (List.range 6).map fun i => UInt8.ofNat (intAddr.toNat / 256 ^ i)

/-- The routers that listen to reports, 224.0.0.22 in host order. -/
def reportDstAddr : UInt32 := rteIpv4 224 0 0 22

/-- `ihl += 1`, on the lower half of the byte. -/
def incIhl (b : UInt8) : UInt8 := UInt8.ofNat (b.toNat / 16 * 16 + (b.toNat % 16 + 1) % 16)

/-- What a report takes from the device and from DPDK. -/
structure ReportEnv where
  config : DeviceConfig
  rteRawCksum : (ℕ → UInt8) → ℕ → ℕ → UInt16
  rteIpv4Cksum : (ℕ → UInt8) → ℕ → Be16

namespace ReportEnv

/-- Everything up to the message. -/
def reportHeaders (env : ReportEnv) (buffer : Mbuf) : Mbuf :=
  let buffer := makeIpv4 buffer ipprotoIgmp (sizeofAlertOptions + payloadSize)
  let ip4hdr := buffer.l2Len
  let data := storeBytes buffer.data 6 env.config.macAddr
  let data := storeBytes data 0 (etherAddrForIpv4Mcast reportDstAddr)
  let data := storeBytes data ip4hdr [incIhl (data ip4hdr)]
  let data := storeBe32 data (ip4hdr + 12) env.config.ip4Addr
  let data := storeBe32 data (ip4hdr + 16) (rteBeToCpu32 reportDstAddr)
  let data := storeBytes data (ip4hdr + 8) [1]
  { buffer with
    data := storeBe32 data (buffer.l2Len + sizeofIpv4Hdr) ipHeaderAlertOptions
    l3Len := buffer.l3Len + sizeofAlertOptions }

/-- The message at `igmp`, without its checksum. -/
def reportMessage (data : ℕ → UInt8) (igmp : ℕ) (ip4addr : Be32) (type : IgmpType) : ℕ → UInt8 :=
  let data := storeBytes data igmp [membershipReport, 0]
  let data := storeBe16 (storeBe16 data (igmp + 4) 0) (igmp + 6) (rteCpuToBe16 1)
  let record := igmp + sizeofIgmpv3MemRep
  let data := storeBe16 (storeBytes data record [type.value, 0]) (record + 2) 0
  let data := storeBe32 data (record + sizeofIgmRecord) ip4addr
  storeBe16 data (igmp + 2) 0

def mcastReport (env : ReportEnv) (buffer : Mbuf) (ip4addr : Be32) (type : IgmpType) : Mbuf :=
  let buffer := env.reportHeaders buffer
  let igmp := buffer.l2Len + buffer.l3Len
  let data := reportMessage buffer.data igmp ip4addr type
  let data := storeBe16 data (igmp + 2)
    (~~~ env.rteRawCksum data igmp (buffer.l3Len + payloadSize))
  let data := storeBe16 data (buffer.l2Len + 10) 0
  if env.config.ipv4CksumOffload then { buffer with data := data, olFlags := txIpv4CksumFlags }
  else { buffer with data := storeBe16 data (buffer.l2Len + 10) (env.rteIpv4Cksum data buffer.l2Len) }

/-- `device::mcast_group` with the mbuf it gets, if any: what it puts on the ring, and the error. -/
def mcastGroup (env : ReportEnv) (buffer : Option Mbuf) (room : Bool) (ip4addr : Be32)
    (type : IgmpType) : Option Mbuf × ErrorCode :=
  if rteIsIpv4Mcast ip4addr then (none, some .badAddress)
  else
    match buffer with
    | none => (none, some .noBufferSpace)
    | some buffer =>
      if room then (some (env.mcastReport buffer ip4addr type), none)
      else (none, some .resourceUnavailableTryAgain)

/-- A record is sent exactly when a packet is. -/
theorem mcastGroup_record (env : ReportEnv) (buffer : Option Mbuf) (room : Bool) (g : Be32)
    (type : IgmpType) (m : Mcasts) :
    let r := env.mcastGroup buffer room g type
    m.mcastGroup g type ⟨buffer.isSome, room⟩ =
      ({ m with reports := m.reports ++ r.1.toList.map fun _ => ⟨g, type⟩ }, r.2) := by
  dsimp only
  unfold mcastGroup Mcasts.mcastGroup
  cases rteIsIpv4Mcast g
  · cases buffer
    · simp
    · cases room
      · simp
      · simp
  · simp

end ReportEnv

/-! ## What is on the ring -/

/-- A membership report with one record and no sources. -/
structure MembershipReport (config : DeviceConfig) (g : Be32) (type : IgmpType) (p : Mbuf) : Prop where
  ether : p.ethProto = etherTypeIpv4
  srcMac : loadBytes p.data 6 6 = config.macAddr
  dstMac : loadBytes p.data 0 6 = [0x01, 0x00, 0x5e, p.data 31 &&& 0x7f, p.data 32, p.data 33]
  l2_len : p.l2Len = sizeofEtherHdr
  l3_len : p.l3Len = 24
  hdr_len : p.ipv4HdrLen = p.l3Len
  total_len : loadBe16 p.data 16 = rteCpuToBe16 (p.l3Len + payloadSize)
  data_len : p.dataLen = p.l2Len + p.l3Len + payloadSize
  version : (p.data 14).toNat / 16 = 4
  ttl : p.data 22 = 1
  proto : p.nextProtoId = ipprotoIgmp
  src : p.ipv4SrcAddr = config.ip4Addr
  dst : p.ipv4DstAddr = rteBeToCpu32 reportDstAddr
  alert : loadBytes p.data 34 4 = [0x94, 4, 0, 0]
  header : p.HeaderVerifies ∨ p.CksumOffloaded
  report : loadBytes p.data 38 2 = [membershipReport, 0] ∧ loadBytes p.data 42 4 = [0, 0, 0, 1]
  record : loadBytes p.data 46 4 = [type.value, 0, 0, 0]
  group : loadBe32 p.data 50 = g
  cksum : Verifies p.data (p.l2Len + p.l3Len) payloadSize

namespace ReportEnv

section Layout
variable (env : ReportEnv) (buffer : Mbuf)

theorem reportHeaders_lens : (env.reportHeaders buffer).l2Len = 14 ∧
    (env.reportHeaders buffer).l3Len = 24 ∧ (env.reportHeaders buffer).dataLen = 54 ∧
    (env.reportHeaders buffer).olFlags = 0 := ⟨rfl, rfl, rfl, rfl⟩

theorem reportMessage_outside (data : ℕ → UInt8) (igmp i : ℕ) (g : Be32) (type : IgmpType)
    (h : i < igmp ∨ igmp + 16 ≤ i) : reportMessage data igmp g type i = data i := by
  simp only [reportMessage, storeBe16, storeBe32, sizeofIgmpv3MemRep, sizeofIgmRecord]
  iterate 7 rw [storeBytes_outside _ _ _ _ (by simp; omega)]

theorem reportHeaders_outside (hmac : env.config.macAddr.length = 6) (i : ℕ) (h : 38 ≤ i) :
    (env.reportHeaders buffer).data i = buffer.data i := by
  have hdst : (etherAddrForIpv4Mcast reportDstAddr).length = 6 := rfl
  simp only [reportHeaders, makeIpv4, makeEther, storeBe16, storeBe32, sizeofEtherHdr, sizeofIpv4Hdr]
  iterate 5 rw [storeBytes_outside _ _ _ _ (by simp; omega)]
  rw [storeBytes_outside _ _ _ _ (by rw [hdst]; omega),
    storeBytes_outside _ _ _ _ (by rw [hmac]; omega)]
  iterate 7 rw [storeBytes_outside _ _ _ _ (by simp; omega)]

theorem etherAddrForIpv4Mcast_report :
    etherAddrForIpv4Mcast reportDstAddr = [0x01, 0x00, 0x5e, 0x00, 0x00, 0x16] := by decide

/-- The fixed bytes of the headers: the first address, type to protocol, the last address and the
option. -/
theorem reportHeaders_bytes (hmac : env.config.macAddr.length = 6) :
    loadBytes (env.reportHeaders buffer).data 0 6 = [0x01, 0x00, 0x5e, 0x00, 0x00, 0x16] ∧
      loadBytes (env.reportHeaders buffer).data 12 12 =
        [0x08, 0x00, 0x46, 0, 0, 40, 0, 0, 0, 0, 1, ipprotoIgmp] ∧
      loadBytes (env.reportHeaders buffer).data 30 4 = [224, 0, 0, 22] ∧
      loadBytes (env.reportHeaders buffer).data 34 4 = [0x94, 4, 0, 0] := by
  have hdst : rteBeToCpu32 reportDstAddr = 0x160000E0 := by decide
  have htotal : rteCpuToBe16 (20 + (sizeofAlertOptions + payloadSize)) = 0x2800 := by decide
  have hether : etherTypeIpv4 = 8 := by decide
  have hihl : incIhl rteIpv4VhlDef = 0x46 := by decide
  refine ⟨?_, ?_, ?_, ?_⟩
  all_goals
    simp [loadBytes, List.range_succ, reportHeaders, makeIpv4, makeEther, storeBe16, storeBe32,
      storeBytes, sizeofEtherHdr, sizeofIpv4Hdr, ipHeaderAlertOptions, etherAddrForIpv4Mcast_report,
      hmac, hdst, htotal, hether, hihl]

theorem reportHeaders_vhl (hmac : env.config.macAddr.length = 6) :
    (env.reportHeaders buffer).data 14 = 0x46 :=
  byte_of_loadBytes (reportHeaders_bytes env buffer hmac).2.1 2 (by decide)

theorem reportHeaders_srcMac (hmac : env.config.macAddr.length = 6) :
    loadBytes (env.reportHeaders buffer).data 6 6 = env.config.macAddr := by
  have hstored : loadBytes (env.reportHeaders buffer).data 6 6 =
      loadBytes (storeBytes buffer.data 6 env.config.macAddr) 6 6 := by
    simp [loadBytes, List.range_succ, reportHeaders, makeIpv4, makeEther, storeBe16, storeBe32,
      storeBytes, sizeofEtherHdr, sizeofIpv4Hdr, ipHeaderAlertOptions, etherAddrForIpv4Mcast_report,
      hmac]
  have hload := loadBytes_storeBytes buffer.data 6 env.config.macAddr
  rw [hmac] at hload
  rw [hstored, hload]

theorem reportHeaders_src : loadBe32 (env.reportHeaders buffer).data 26 = env.config.ip4Addr := by
  simp only [reportHeaders, makeIpv4, makeEther, sizeofEtherHdr, sizeofIpv4Hdr]
  rw [storeBe32, loadBe32_outside _ _ _ _ (by simp), loadBe32_outside _ _ _ _ (by simp), storeBe32,
    loadBe32_outside _ _ _ _ (by simp), loadBe32_storeBe32]

theorem reportMessage_bytes (data : ℕ → UInt8) (g : Be32) (type : IgmpType) :
    loadBytes (reportMessage data 38 g type) 38 2 = [membershipReport, 0] ∧
      loadBytes (reportMessage data 38 g type) 42 4 = [0, 0, 0, 1] ∧
      loadBytes (reportMessage data 38 g type) 46 4 = [type.value, 0, 0, 0] := by
  have hone : rteCpuToBe16 1 = 0x100 := by decide
  refine ⟨?_, ?_, ?_⟩
  all_goals
    simp [loadBytes, List.range_succ, reportMessage, storeBe16, storeBe32, storeBytes, hone,
      sizeofIgmpv3MemRep, sizeofIgmRecord]

theorem reportMessage_group (data : ℕ → UInt8) (g : Be32) (type : IgmpType) :
    loadBe32 (reportMessage data 38 g type) 50 = g := by
  rw [reportMessage, storeBe16, loadBe32_outside _ _ _ _ (by simp)]
  exact loadBe32_storeBe32 _ 50 g

/-- The data with the checksum of the message and none of the header. -/
def reportSummed (g : Be32) (type : IgmpType) : ℕ → UInt8 :=
  let data := reportMessage (env.reportHeaders buffer).data 38 g type
  storeBe16 (storeBe16 data 40 (~~~ env.rteRawCksum data 38 40)) 24 0

variable (g : Be32) (type : IgmpType)

theorem mcastReport_offload (ho : env.config.ipv4CksumOffload = true) :
    env.mcastReport buffer g type = { env.reportHeaders buffer with
      data := env.reportSummed buffer g type
      olFlags := txIpv4CksumFlags } := by
  unfold mcastReport
  rw [ho]
  rfl

theorem mcastReport_own (ho : env.config.ipv4CksumOffload = false) :
    env.mcastReport buffer g type = { env.reportHeaders buffer with
      data := storeBe16 (env.reportSummed buffer g type) 24
        (env.rteIpv4Cksum (env.reportSummed buffer g type) 14) } := by
  unfold mcastReport
  rw [ho]
  rfl

theorem mcastReport_lens : (env.mcastReport buffer g type).l2Len = 14 ∧
    (env.mcastReport buffer g type).l3Len = 24 ∧ (env.mcastReport buffer g type).dataLen = 54 := by
  obtain ⟨hl2, hl3, hlen, _⟩ := reportHeaders_lens env buffer
  cases ho : env.config.ipv4CksumOffload with
  | true =>
    rw [mcastReport_offload env buffer g type ho]
    exact ⟨hl2, hl3, hlen⟩
  | false =>
    rw [mcastReport_own env buffer g type ho]
    exact ⟨hl2, hl3, hlen⟩

theorem reportSummed_header (i : ℕ) (h : i < 24 ∨ 26 ≤ i ∧ i < 38) :
    env.reportSummed buffer g type i = (env.reportHeaders buffer).data i := by
  rw [reportSummed, storeBe16_outside _ _ _ _ (by omega), storeBe16_outside _ _ _ _ (by omega),
    reportMessage_outside _ _ _ _ _ (by omega)]

/-- Checksums apart, the packet has its header and then its message. -/
theorem mcastReport_header (i : ℕ) (h : i < 24 ∨ 26 ≤ i ∧ i < 38) :
    (env.mcastReport buffer g type).data i = (env.reportHeaders buffer).data i := by
  have hsummed := reportSummed_header env buffer g type i h
  cases ho : env.config.ipv4CksumOffload with
  | true =>
    rw [mcastReport_offload env buffer g type ho]
    exact hsummed
  | false =>
    rw [mcastReport_own env buffer g type ho]
    dsimp only
    rw [storeBe16_outside _ _ _ _ (by omega), hsummed]

theorem mcastReport_hdrLen (hmac : env.config.macAddr.length = 6) :
    (env.mcastReport buffer g type).ipv4HdrLen = 24 := by
  rw [Mbuf.ipv4HdrLen, (mcastReport_lens env buffer g type).1,
    mcastReport_header env buffer g type 14 (by omega), reportHeaders_vhl env buffer hmac]
  rfl

theorem mcastReport_behind (i : ℕ) (h : 38 ≤ i) :
    (env.mcastReport buffer g type).data i = env.reportSummed buffer g type i := by
  cases ho : env.config.ipv4CksumOffload with
  | true => rw [mcastReport_offload env buffer g type ho]
  | false =>
    rw [mcastReport_own env buffer g type ho]
    dsimp only
    rw [storeBe16_outside _ _ _ _ (by omega)]

theorem mcastReport_message (i : ℕ) (h : 38 ≤ i) (hck : i < 40 ∨ 42 ≤ i) :
    (env.mcastReport buffer g type).data i =
      reportMessage (env.reportHeaders buffer).data 38 g type i := by
  rw [mcastReport_behind env buffer g type i h, reportSummed, storeBe16_outside _ _ _ _ (by omega),
    storeBe16_outside _ _ _ _ (by omega)]

/-! ## Its checksums -/

theorem mcastReport_cksum (hraw : IsRawCksum env.rteRawCksum) (hmac : env.config.macAddr.length = 6) :
    Verifies (env.mcastReport buffer g type).data 38 16 ↔ sum buffer.data 54 24 % 65535 = 0 := by
  have hbehind : sum (env.mcastReport buffer g type).data 38 16 =
      sum (env.reportSummed buffer g type) 38 16 :=
    sum_congr _ _ _ _ fun i hlo _ => mcastReport_behind env buffer g type i hlo
  have hheader : sum (env.reportSummed buffer g type) 38 16 = _ :=
    sum_storeBytes_outside _ 38 24 16 _ (by simp)
  let data := reportMessage (env.reportHeaders buffer).data 38 g type
  have hstore := sum_storeBe16 data 38 1 16 (~~~ env.rteRawCksum data 38 40) (by omega)
  have hzero : word data (38 + 2 * 1) = 0 := word_storeBe16 _ _ 0
  have hcksum : (~~~ env.rteRawCksum data 38 40).toNat = 65535 - fold (sum data 38 40) := by
    rw [UInt16.toNat_not, hraw data 38 40 (by decide)]
    rfl
  -- behind the message the checksum goes on over the old content of the mbuf
  have hsplit : sum data 38 40 = sum data 38 16 + sum buffer.data 54 24 := by
    have hold : sum data 54 24 = sum buffer.data 54 24 := by
      apply sum_congr
      intro i hlo _
      have hmessage : data i = (env.reportHeaders buffer).data i :=
        reportMessage_outside _ 38 i g type (by omega)
      rw [hmessage, reportHeaders_outside env buffer hmac i (by omega)]
    rw [← hold]
    exact sum_split data 38 8 24
  have hpos : 0 < sum data 38 16 := by
    have hfirst : data 38 = membershipReport :=
      byte_of_loadBytes (reportMessage_bytes (env.reportHeaders buffer).data g type).1 0 (by decide)
    apply sum_pos data 38 16 (by decide)
    rw [hfirst]
    decide
  rw [hzero, Nat.add_zero, hcksum, hsplit] at hstore
  rw [verifies_iff, hbehind, hheader, ← verifies_iff]
  exact verifies_fill_iff _ 38 16 _ _ hpos hstore

theorem mcastReport_hdrCksum (hck : IsIpv4Cksum env.rteIpv4Cksum)
    (hmac : env.config.macAddr.length = 6) :
    (env.mcastReport buffer g type).HeaderVerifies ∨ (env.mcastReport buffer g type).CksumOffloaded := by
  have hfirst : env.reportSummed buffer g type 14 = 0x46 := by
    rw [reportSummed_header env buffer g type 14 (by omega), reportHeaders_vhl env buffer hmac]
  have hzero : word (env.reportSummed buffer g type) 24 = 0 := word_storeBe16 _ _ 0
  cases ho : env.config.ipv4CksumOffload with
  | true =>
    rw [mcastReport_offload env buffer g type ho]
    refine Or.inr ⟨?_, ?_, ?_⟩
    · change txIpv4CksumFlags.testBit 54 = true
      decide
    · change txIpv4CksumFlags.testBit 55 = true
      decide
    · exact loadBe16_storeBe16 _ 24 0
  | false =>
    refine Or.inl ?_
    have hdata : (env.mcastReport buffer g type).data = storeBe16 (env.reportSummed buffer g type) 24
        (env.rteIpv4Cksum (env.reportSummed buffer g type) 14) := by
      rw [mcastReport_own env buffer g type ho]
    rw [Mbuf.HeaderVerifies, mcastReport_hdrLen env buffer g type hmac,
      (mcastReport_lens env buffer g type).1, hdata]
    have hlen : (env.reportSummed buffer g type 14).toNat % 16 * 4 = 24 := by
      rw [hfirst]
      decide
    exact header_filled hck _ 14 24 hlen (by decide) hzero

/-! ## The report -/

/-- All of the packet but the checksum of the message is as it should be. -/
theorem mcastReport_valid (hck : IsIpv4Cksum env.rteIpv4Cksum) (hmac : env.config.macAddr.length = 6)
    (hver : Verifies (env.mcastReport buffer g type).data 38 16) :
    MembershipReport env.config g type (env.mcastReport buffer g type) := by
  obtain ⟨hl2, hl3, hlen⟩ := mcastReport_lens env buffer g type
  obtain ⟨hdstMac, hfixed, hdst, halert⟩ := reportHeaders_bytes env buffer hmac
  obtain ⟨htype, hcount, hrecord⟩ := reportMessage_bytes (env.reportHeaders buffer).data g type
  have hhdr := mcastReport_header env buffer g type
  have hmsg := mcastReport_message env buffer g type
  have htop : ∀ i < 12, (env.mcastReport buffer g type).data (12 + i) =
      [0x08, 0x00, 0x46, 0, 0, 40, 0, 0, 0, 0, 1, ipprotoIgmp].getD i 0 := by
    intro i hi
    rw [hhdr (12 + i) (by omega), byte_of_loadBytes hfixed i hi]
  have hbottom : ∀ i < 4, (env.mcastReport buffer g type).data (30 + i) =
      [224, 0, 0, 22].getD i 0 := by
    intro i hi
    rw [hhdr (30 + i) (by omega), byte_of_loadBytes hdst i hi]
  refine ⟨?ether, ?srcMac, ?dstMac, hl2, hl3, ?hdr_len, ?total_len, ?data_len, ?version, ?ttl, ?proto,
    ?src, ?dst, ?alert, mcastReport_hdrCksum env buffer g type hck hmac, ⟨?report, ?count⟩, ?record,
    ?group, ?cksum⟩
  case ether =>
    rw [Mbuf.ethProto, hl2]
    change loadBe16 _ 12 = etherTypeIpv4
    rw [loadBe16, htop 0 (by decide), htop 1 (by decide)]
    decide
  case srcMac =>
    rw [← reportHeaders_srcMac env buffer hmac]
    exact loadBytes_congr _ _ 6 6 fun i _ => hhdr (6 + i) (by omega)
  case dstMac =>
    have hmapped := loadBytes_congr _ _ 0 6 fun i _ => hhdr (0 + i) (by omega)
    rw [hmapped, hdstMac, hbottom 1 (by decide), hbottom 2 (by decide), hbottom 3 (by decide)]
    decide
  case hdr_len => rw [mcastReport_hdrLen env buffer g type hmac, hl3]
  case total_len =>
    rw [loadBe16, htop 4 (by decide), htop 5 (by decide), hl3]
    decide
  case data_len =>
    rw [hlen, hl2, hl3]
    rfl
  case version =>
    rw [htop 2 (by decide)]
    decide
  case ttl => exact htop 10 (by decide)
  case proto =>
    rw [Mbuf.nextProtoId, hl2]
    exact htop 11 (by decide)
  case src =>
    rw [Mbuf.ipv4SrcAddr, hl2, ← reportHeaders_src env buffer]
    exact loadBe32_congr _ _ 26 fun i _ => hhdr (26 + i) (by omega)
  case dst =>
    rw [Mbuf.ipv4DstAddr, hl2]
    change loadBe32 _ 30 = _
    have hfirst := hbottom 0 (by decide)
    rw [Nat.add_zero] at hfirst
    rw [loadBe32, hfirst, hbottom 1 (by decide), hbottom 2 (by decide), hbottom 3 (by decide)]
    decide
  case alert =>
    rw [← halert]
    exact loadBytes_congr _ _ 34 4 fun i _ => hhdr (34 + i) (by omega)
  case report =>
    rw [← htype]
    exact loadBytes_congr _ _ 38 2 fun i _ => hmsg (38 + i) (by omega) (by omega)
  case count =>
    rw [← hcount]
    exact loadBytes_congr _ _ 42 4 fun i _ => hmsg (42 + i) (by omega) (by omega)
  case record =>
    rw [← hrecord]
    exact loadBytes_congr _ _ 46 4 fun i _ => hmsg (46 + i) (by omega) (by omega)
  case group =>
    have hload := loadBe32_congr _ _ 50 fun i _ => hmsg (50 + i) (by omega) (by omega)
    rw [hload, reportMessage_group]
  case cksum =>
    rw [hl2, hl3]
    exact hver

/-- An accepted report goes out, and is valid exactly if the 24 bytes behind it, as they were in the
mbuf before, sum to a zero. -/
theorem mcastGroup_report_iff (hraw : IsRawCksum env.rteRawCksum) (hck : IsIpv4Cksum env.rteIpv4Cksum)
    (hmac : env.config.macAddr.length = 6) (hg : rteIsIpv4Mcast g = false) :
    ∃ p, env.mcastGroup (some buffer) true g type = (some p, none) ∧
      (MembershipReport env.config g type p ↔ sum buffer.data 54 24 % 65535 = 0) := by
  refine ⟨env.mcastReport buffer g type, ?_, ?_⟩
  · simp only [mcastGroup, hg, Bool.false_eq_true, if_false, if_true]
  · rw [← mcastReport_cksum env buffer g type hraw hmac]
    constructor
    · intro h
      have hver := h.cksum
      rw [h.l2_len, h.l3_len] at hver
      exact hver
    · exact mcastReport_valid env buffer g type hck hmac

end Layout

/-- A device with address 10.0.0.1 that computes checksums itself. -/
def plain : ReportEnv where
  config := ⟨true, true, [2, 0, 0, 0, 0, 1], 0x0100000A, false⟩
  rteRawCksum := foldedSum
  rteIpv4Cksum := headerCksum

/-- A fresh mbuf: nothing was in it yet. -/
def freshMbuf : Mbuf := ⟨fun _ => 0, 0, 0, 0, 0, 0⟩

/-- A long packet of ones was in it. -/
def usedMbuf : Mbuf := ⟨fun _ => 1, 0, 0, 0, 0, 0⟩

theorem freshMbuf_report :
    ∃ p, plain.mcastGroup (some freshMbuf) true 0x010101EF .changeToExcludeMode = (some p, none) ∧
      MembershipReport plain.config 0x010101EF .changeToExcludeMode p := by
  obtain ⟨p, hp, hvalid⟩ := mcastGroup_report_iff plain freshMbuf 0x010101EF .changeToExcludeMode
    isRawCksum_foldedSum isIpv4Cksum_headerCksum rfl rfl
  exact ⟨p, hp, hvalid.mpr (by decide)⟩

theorem usedMbuf_report_wrong :
    ∃ p, plain.mcastGroup (some usedMbuf) true 0x010101EF .changeToExcludeMode = (some p, none) ∧
      ¬ Verifies p.data 38 16 ∧ ¬ MembershipReport plain.config 0x010101EF .changeToExcludeMode p := by
  have hwrong : ¬ Verifies (plain.mcastReport usedMbuf 0x010101EF .changeToExcludeMode).data 38 16 := by
    rw [mcastReport_cksum plain usedMbuf _ _ isRawCksum_foldedSum rfl]
    decide
  refine ⟨_, rfl, hwrong, ?_⟩
  intro h
  have hver := h.cksum
  rw [h.l2_len, h.l3_len] at hver
  exact hwrong hver

end ReportEnv

end DpdkTools
