import DpdkTools.Config.Device

/-! From the options to `rte_eth_dev_configure`: what `run` of `sockperf_cli/sockperf.cpp` does with
the configuration of the first device, and which offloads the device constructor asks for.

`devices_configuration` keeps the requested offloads inside the capabilities. `apply_workarounds`
comes later and takes capabilities away; nothing brings the request back inside them. -/
namespace DpdkTools.Config
open Reflect
set_option autoImplicit false

/-! ## Configuring the devices -/

/-- What DPDK answers about one port. -/
structure Port where
  portId : BitVec 16
  socketId : BitVec 32
  macaddrGet : Option (List UInt8)
  /-- `info.driver_name` and the described members of `info`. -/
  devInfoGet : Option (String × ((m : DevInfo) → BitVec m.width))
  rxMetadataNegotiate : BitVec 64 → Option (BitVec 64)

inductive RunError where
  | macaddrGet
  | devInfoGet
  | load (e : LoadError)
  | noSuitableDevice
  | noSockets
  | makeScopedMempool
  | svcMempoolLookup
  deriving Repr, DecidableEq

/-- The initializers of `config::device`; `info` is filled by `rte_eth_dev_info_get`. -/
def initialValue (info : (m : DevInfo) → BitVec m.width) : (m : Member) → BitVec m.width
  | .svcTxN => BitVec.allOnes 16
  | .rxFlowQueues => 0
  | .nextSrcPort => BitVec.ofNat 16 49152
  | .rxReconfigHint => BitVec.ofNat 16 256
  | .clockHz => 0
  | .info m => info m
  | .effectiveOffload _ => BitVec.allOnes 64
  | .txRings => BitVec.allOnes 16
  -- user flag, user mark, tunnel id
  | .rxMetaFeatures => BitVec.ofNat 64 7
  -- arp_table and dev_clock
  | .features => BitVec.ofNat 64 6

def hexDigit (n : ℕ) : Char := "0123456789ABCDEF".toList.getD n '0'

def rteEtherFormatAddr (mac : List UInt8) : String :=
  ":".intercalate (mac.map fun b =>
    String.ofList [hexDigit (b.toNat / 16), hexDigit (b.toNat % 16)])

def deviceKey (mac : List UInt8) : String := "nic." ++ rteEtherFormatAddr mac

namespace Device

/-- The second reading of `features` under a key. -/
def loadFeatures (flags : FlagsParsers) (options : String → Option String) (path : String)
    (dev : Device) : Except LoadError Device := do
  match ← readOption flags options (path ++ ".features") .features with
  | none => pure dev
  | some v => pure (dev.set .features v)

/-- The number of queues, where the driver prefers none. -/
def fixNbQueues (dev : Device) : Device :=
  let dev := if dev.rxNbQueues = 0 then dev.setRxNbQueues (dev.val (.info .maxRxQueues)) else dev
  let dev := if dev.txNbQueues = 0 then dev.setTxNbQueues (dev.val (.info .maxTxQueues)) else dev
  if dev.val .svcTxN > dev.txNbQueues then dev.set .svcTxN dev.txNbQueues else dev

/-- `effective_offload.rx &= info.rx_offload_capa`, and the same for tx. -/
def maskOffloads (dev : Device) : Device :=
  let dev := dev.set (.effectiveOffload .rx) (dev.rxOffload &&& dev.rxOffloadCapa)
  dev.set (.effectiveOffload .tx) (dev.txOffload &&& dev.txOffloadCapa)

def negotiate (port : Port) (dev : Device) : Device :=
  dev.set .rxMetaFeatures ((port.rxMetadataNegotiate (dev.val .rxMetaFeatures)).getD 0)

end Device

section Configuration
variable (flags : FlagsParsers) (options : String → Option String)

/-- `load_value` and the reading of `features`, under one key. -/
def Device.loadKey (path : String) (dev : Device) : Except LoadError Device := do
  let dev ← dev.loadValue flags options path
  dev.loadFeatures flags options path

/-- One round of the loop of `devices_configuration`. -/
def deviceConfiguration (port : Port) : Except RunError Device :=
  match port.macaddrGet, port.devInfoGet with
  | none, _ => .error .macaddrGet
  | some _, none => .error .devInfoGet
  | some mac, some (driverName, info) => do
    let dev : Device := ⟨port.socketId, port.portId, mac, driverName, initialValue info⟩
    let dev ← (dev.loadKey flags options dev.driverName).mapError .load
    let dev ← (dev.loadKey flags options (deviceKey dev.macAddr)).mapError .load
    pure (dev.fixNbQueues.maskOffloads.negotiate port)

def devicesConfiguration (ports : List Port) : Except RunError (List Device) :=
  ports.mapM (deviceConfiguration flags options)

end Configuration

/-! ## From the sockets to the constructor -/

structure Socket where
  socketId : BitVec 32
  cores : List (BitVec 32)

def rteBit64 (n : ℕ) : BitVec 64 := 1#64 <<< n

def rxOffloadTcpLro : BitVec 64 := rteBit64 4
def rxOffloadVlanExtend : BitVec 64 := rteBit64 10
def rxOffloadTimestamp : BitVec 64 := rteBit64 14
def rxOffloadRssHash : BitVec 64 := rteBit64 19
def rxOffloadBufferSplit : BitVec 64 := rteBit64 20

/-- What `apply_workarounds` takes away. -/
def igcBroken : BitVec 64 :=
  rxOffloadVlanExtend ||| rxOffloadTimestamp ||| rxOffloadTcpLro ||| rxOffloadBufferSplit

namespace Device

def adjustToSocket (dev : Device) (socket : Socket) : Device :=
  let coresN := BitVec.ofNat 16 socket.cores.length
  let dev := if dev.rxNbQueues > coresN then dev.setRxNbQueues coresN else dev
  let dev := if dev.txNbQueues > coresN then dev.setTxNbQueues coresN else dev
  { dev with socketId := socket.socketId }

/-- `apply_workarounds` at one device of its span; `run` gives it the first device alone. -/
def applyWorkaround (dev : Device) : Device :=
  if dev.driverName = "net_igc" then
    dev.set (.info .rxOffloadCapa) (dev.rxOffloadCapa &&& ~~~igcBroken)
  else dev

/-- The queue numbers that `run` itself writes: one rx queue, and tx queues by the option. -/
def requestQueues (dev : Device) (txq : BitVec 16) : Device :=
  let dev := if dev.rxNbQueues > 1 then dev.setRxNbQueues 1 else dev
  dev.setTxNbQueues (if txq = 0 then 1 else txq)

/-- One core for each queue; `none` where the socket has too few. -/
def fitToCores (dev : Device) (cores : ℕ) : Option Device :=
  if cores < dev.rxNbQueues.toNat + 1 then none
  else
    let n := cores - dev.rxNbQueues.toNat
    if n < dev.txNbQueues.toNat then some (dev.setTxNbQueues (BitVec.ofNat 16 n)) else some dev

/-- The clock part of the constructor, on the frequency that `estimate_clock_freq` returns. -/
def fixClock (dev : Device) (clockHz : BitVec 64) : Device :=
  if dev.features.getLsbD 2 then
    if clockHz ≠ 0 then
      if dev.val .clockHz = 0 then dev.set .clockHz clockHz else dev
    else
      let dev := dev.set .features (dev.features &&& ~~~rteBit64 2)
      dev.set .clockHz (BitVec.ofNat 64 1000000000)
  else dev

def fixBurstSizes (dev : Device) : Device :=
  let dev :=
    if dev.val (.info (.defaultRxportconf .burstSize)) = 0 then
      dev.set (.info (.defaultRxportconf .burstSize)) (BitVec.ofNat 16 32)
    else dev
  if dev.val (.info (.defaultTxportconf .burstSize)) = 0 then
    dev.set (.info (.defaultTxportconf .burstSize)) (BitVec.ofNat 16 32)
  else dev

def fixFlowQueues (dev : Device) : Device :=
  if dev.rxFlowQueues ≠ 0 ∧ dev.rxFlowQueues > dev.rxNbQueues then
    dev.set .rxFlowQueues dev.rxNbQueues
  else dev

end Device

/-- The call of `rte_eth_dev_configure`: the configuration of the device at that moment and the
fields of `port_conf`. -/
structure Configure where
  config : Device
  rxOffloads : BitVec 64
  txOffloads : BitVec 64
  mqModeRss : Bool

/-- What DPDK and the EAL answer during a run. -/
structure Host where
  ports : List Port
  sockets : List Socket
  makeScopedMempool : BitVec 32 → Bool
  mempoolLookup : BitVec 32 → Bool
  estimateClockFreq : BitVec 16 → BitVec 64

/-- `device::device` up to the call of `rte_eth_dev_configure`. -/
def constructDevice (host : Host) (config : Device) : Except RunError Configure :=
  let config' := config.fixClock (host.estimateClockFreq config.portId)
  if host.mempoolLookup config.socketId then
    let config' := config'.fixBurstSizes.fixFlowQueues
    let nRssQueues := config'.rxNbQueues - config'.rxFlowQueues
    let rx := config'.rxOffload
    if nRssQueues > 1 then
      .ok ⟨config', rx, config'.txOffload, rx &&& rxOffloadRssHash ≠ 0⟩
    else .ok ⟨config', rx &&& ~~~rxOffloadRssHash, config'.txOffload, false⟩
  else .error .svcMempoolLookup

/-- `run` up to the same call; `none` where it returns before. -/
def run (flags : FlagsParsers) (options : String → Option String) (txq : BitVec 16) (host : Host) :
    Except RunError (Option Configure) := do
  match ← devicesConfiguration flags options host.ports with
  | [] => throw .noSuitableDevice
  | dev :: _ =>
    match host.sockets with
    | [] => throw .noSockets
    | first :: rest =>
      let socket := ((first :: rest).find? (·.socketId = dev.socketId)).getD first
      match ((dev.adjustToSocket socket).requestQueues txq).fitToCores socket.cores.length with
      | none => pure none
      | some dev =>
        let dev := dev.applyWorkaround
        if host.makeScopedMempool socket.socketId then
          some <$> constructDevice host dev
        else throw .makeScopedMempool

/-! ## What each step does to the masks -/

/-- The fields that decide which offloads are asked for and which are allowed. -/
structure Masks where
  driverName : String
  rxOffload : BitVec 64
  txOffload : BitVec 64
  rxOffloadCapa : BitVec 64
  txOffloadCapa : BitVec 64

namespace Masks

def masked (m : Masks) : Masks :=
  { m with
    rxOffload := m.rxOffload &&& m.rxOffloadCapa
    txOffload := m.txOffload &&& m.txOffloadCapa }

def workedAround (m : Masks) : Masks :=
  if m.driverName = "net_igc" then { m with rxOffloadCapa := m.rxOffloadCapa &&& ~~~igcBroken } else m

end Masks

def Member.isMask : Member → Bool
  | .effectiveOffload _ | .info .rxOffloadCapa | .info .txOffloadCapa => true
  | _ => false

namespace Device

def masks (dev : Device) : Masks :=
  ⟨dev.driverName, dev.rxOffload, dev.txOffload, dev.rxOffloadCapa, dev.txOffloadCapa⟩

theorem val_set_ne (dev : Device) (m m' : Member) (v : BitVec m.width) (h : m' ≠ m) :
    (dev.set m v).val m' = dev.val m' := by
  rw [set]
  exact Function.update_of_ne h v dev.val

theorem val_set_mask (dev : Device) (m m' : Member) (v : BitVec m.width) (h : m.isMask = false)
    (h' : m'.isMask = true) : (dev.set m v).val m' = dev.val m' := by
  apply val_set_ne
  rintro rfl
  rw [h] at h'
  cases h'

theorem masks_set (dev : Device) (m : Member) (v : BitVec m.width) (h : m.isMask = false) :
    (dev.set m v).masks = dev.masks := by
  have hrx := dev.val_set_mask m (.effectiveOffload .rx) v h rfl
  have htx := dev.val_set_mask m (.effectiveOffload .tx) v h rfl
  have hrxCapa := dev.val_set_mask m (.info .rxOffloadCapa) v h rfl
  have htxCapa := dev.val_set_mask m (.info .txOffloadCapa) v h rfl
  simp only [masks, rxOffload, txOffload, rxOffloadCapa, txOffloadCapa, hrx, htx, hrxCapa, htxCapa]
  rfl

theorem masks_ite (dev dev' : Device) (p : Prop) [Decidable p] (h : dev'.masks = dev.masks) :
    (if p then dev' else dev).masks = dev.masks := by
  split
  · exact h
  · rfl

theorem setRxNbQueues_masks (dev : Device) (n : BitVec 16) :
    (dev.setRxNbQueues n).masks = dev.masks :=
  masks_set _ _ _ rfl

theorem setTxNbQueues_masks (dev : Device) (n : BitVec 16) :
    (dev.setTxNbQueues n).masks = dev.masks :=
  masks_set _ _ _ rfl

theorem fixNbQueues_masks (dev : Device) : dev.fixNbQueues.masks = dev.masks := by
  refine Eq.trans (masks_ite _ _ _ (masks_set _ _ _ rfl)) ?_
  refine Eq.trans (masks_ite _ _ _ (setTxNbQueues_masks _ _)) ?_
  exact masks_ite _ _ _ (setRxNbQueues_masks _ _)

theorem adjustToSocket_masks (dev : Device) (socket : Socket) :
    (dev.adjustToSocket socket).masks = dev.masks := by
  refine Eq.trans (masks_ite _ _ _ (setTxNbQueues_masks _ _)) ?_
  exact masks_ite _ _ _ (setRxNbQueues_masks _ _)

theorem requestQueues_masks (dev : Device) (txq : BitVec 16) :
    (dev.requestQueues txq).masks = dev.masks := by
  rw [requestQueues, setTxNbQueues_masks]
  exact masks_ite _ _ _ (setRxNbQueues_masks _ _)

theorem fitToCores_masks (dev dev' : Device) (cores : ℕ)
    (h : dev.fitToCores cores = some dev') : dev'.masks = dev.masks := by
  simp only [fitToCores] at h
  split at h
  · cases h
  · split at h
    · cases h
      exact setTxNbQueues_masks _ _
    · cases h
      rfl

theorem fixClock_masks (dev : Device) (clockHz : BitVec 64) :
    (dev.fixClock clockHz).masks = dev.masks := by
  rw [fixClock]
  apply masks_ite
  split
  · exact masks_ite _ _ _ (masks_set _ _ _ rfl)
  · exact Eq.trans (masks_set _ _ _ rfl) (masks_set _ _ _ rfl)

theorem fixBurstSizes_masks (dev : Device) : dev.fixBurstSizes.masks = dev.masks := by
  refine Eq.trans (masks_ite _ _ _ (masks_set _ _ _ rfl)) ?_
  exact masks_ite _ _ _ (masks_set _ _ _ rfl)

theorem fixFlowQueues_masks (dev : Device) : dev.fixFlowQueues.masks = dev.masks :=
  masks_ite _ _ _ (masks_set _ _ _ rfl)

theorem maskOffloads_masks (dev : Device) : dev.maskOffloads.masks = dev.masks.masked := rfl

theorem negotiate_masks (port : Port) (dev : Device) : (dev.negotiate port).masks = dev.masks :=
  masks_set _ _ _ rfl

theorem applyWorkaround_masks (dev : Device) :
    dev.applyWorkaround.masks = dev.masks.workedAround := by
  by_cases h : dev.driverName = "net_igc"
  · have h' : dev.masks.driverName = "net_igc" := h
    rw [applyWorkaround, Masks.workedAround, if_pos h, if_pos h']
    rfl
  · have h' : ¬ dev.masks.driverName = "net_igc" := h
    rw [applyWorkaround, Masks.workedAround, if_neg h, if_neg h']

end Device

/-- The constructor asks for the effective offloads, at most without the RSS hash. -/
theorem constructDevice_ok (host : Host) (dev : Device) (c : Configure)
    (h : constructDevice host dev = .ok c) :
    c.config.masks = dev.masks ∧ c.txOffloads = dev.txOffload ∧
      (c.rxOffloads = dev.rxOffload ∨ c.rxOffloads = dev.rxOffload &&& ~~~rxOffloadRssHash) := by
  have hmasks : ((dev.fixClock (host.estimateClockFreq dev.portId)).fixBurstSizes.fixFlowQueues).masks
      = dev.masks := by
    rw [Device.fixFlowQueues_masks, Device.fixBurstSizes_masks, Device.fixClock_masks]
  have hrx := congrArg Masks.rxOffload hmasks
  have htx := congrArg Masks.txOffload hmasks
  simp only [constructDevice] at h
  split at h
  · split at h
    · cases h
      exact ⟨hmasks, htx, Or.inl hrx⟩
    · cases h
      refine ⟨hmasks, htx, Or.inr ?_⟩
      exact congrArg (· &&& ~~~rxOffloadRssHash) hrx
  · cases h

/-! ## What is asked for -/

/-- The value of a field after both keys: that of the device overrides that of the driver. -/
def layered (flags : FlagsParsers) (options : String → Option String) (drvKey devKey : String)
    (names : List String) (m : Member) (v : BitVec m.width) : BitVec m.width :=
  (denoted flags options (memberKey devKey names) m).getD
    ((denoted flags options (memberKey drvKey names) m).getD v)

theorem Device.loadKey_ok (flags : FlagsParsers) (options : String → Option String) (path : String)
    (dev dev' : Device) (h : dev.loadKey flags options path = .ok dev') :
    ∃ val, dev' = { dev with val := val } ∧ ∀ l ∈ leaves describeDevice, l.2 ≠ .features →
      val l.2 = (denoted flags options (memberKey path l.1) l.2).getD (dev.val l.2) := by
  rw [loadKey, bind_eq_ok] at h
  obtain ⟨mid, hmid, h⟩ := h
  obtain ⟨val, rfl, hval⟩ := dev.loadValue_ok flags options path mid hmid
  rw [loadFeatures, bind_eq_ok] at h
  obtain ⟨r, _, h⟩ := h
  cases r with
  | none =>
    cases h
    exact ⟨val, rfl, fun l hl _ => hval l hl⟩
  | some v =>
    cases h
    refine ⟨Function.update val .features v, rfl, ?_⟩
    intro l hl hne
    rw [Function.update_of_ne hne]
    exact hval l hl

section Requests
variable (flags : FlagsParsers) (options : String → Option String)

/-- The rx offloads that the options ask for; by default all of them. -/
def requestedRx (mac : List UInt8) (driverName : String) : BitVec 64 :=
  layered flags options driverName (deviceKey mac) ["effective_offload", "rx"]
    (.effectiveOffload .rx) (BitVec.allOnes 64)

/-- The rx capabilities that the driver reports, where the options do not overwrite them. -/
def reportedRx (mac : List UInt8) (driverName : String) (info : (m : DevInfo) → BitVec m.width) :
    BitVec 64 :=
  layered flags options driverName (deviceKey mac) ["info", "rx_offload_capa"]
    (.info .rxOffloadCapa) (info .rxOffloadCapa)

theorem loadKeys_layered (dev mid dev' : Device)
    (hmid : dev.loadKey flags options dev.driverName = .ok mid)
    (h : mid.loadKey flags options (deviceKey mid.macAddr) = .ok dev') :
    ∃ val, dev' = { dev with val := val } ∧ ∀ l ∈ leaves describeDevice, l.2 ≠ .features →
      val l.2 = layered flags options dev.driverName (deviceKey dev.macAddr) l.1 l.2
        (dev.val l.2) := by
  obtain ⟨val, rfl, hval⟩ := dev.loadKey_ok flags options _ _ hmid
  obtain ⟨val', rfl, hval'⟩ := Device.loadKey_ok flags options _ _ _ h
  refine ⟨val', rfl, ?_⟩
  intro l hl hne
  have hlast := hval' l hl hne
  rw [hlast, layered]
  exact congrArg _ (hval l hl hne)

/-- What `devices_configuration` starts from, once the options are read. -/
structure Loaded (mac : List UInt8) (driverName : String) (info : (m : DevInfo) → BitVec m.width)
    (m : Masks) : Prop where
  driver : m.driverName = driverName
  rxOffload : m.rxOffload = requestedRx flags options mac driverName
  rxOffloadCapa : m.rxOffloadCapa = reportedRx flags options mac driverName info

theorem deviceConfiguration_ok (port : Port) (dev : Device)
    (h : deviceConfiguration flags options port = .ok dev) :
    ∃ mac driverName info m, port.macaddrGet = some mac ∧
      port.devInfoGet = some (driverName, info) ∧
      Loaded flags options mac driverName info m ∧ dev.masks = m.masked := by
  rw [deviceConfiguration] at h
  split at h
  · cases h
  · cases h
  · rename_i mac driverName info hmac hinfo
    rw [bind_eq_ok] at h
    obtain ⟨mid, hmid, h⟩ := h
    rw [bind_eq_ok] at h
    obtain ⟨last, hlast, h⟩ := h
    obtain ⟨val, rfl, hval⟩ := loadKeys_layered flags options _ mid last
      (mapError_eq_ok _ _ _ hmid) (mapError_eq_ok _ _ _ hlast)
    have hrequested := hval _ effectiveRx_described (by simp)
    have hreported := hval _ rxOffloadCapa_described (by simp)
    refine ⟨mac, driverName, info,
      Device.masks ⟨port.socketId, port.portId, mac, driverName, val⟩, hmac, hinfo,
      ⟨rfl, hrequested, hreported⟩, ?_⟩
    cases h
    rw [Device.negotiate_masks, Device.maskOffloads_masks, Device.fixNbQueues_masks]

/-- The first device, and what the constructor gets of it. -/
theorem run_ok (txq : BitVec 16) (host : Host) (c : Configure)
    (h : run flags options txq host = .ok (some c)) :
    ∃ port rest, host.ports = port :: rest ∧ ∃ dev dev',
      deviceConfiguration flags options port = .ok dev ∧
      dev'.masks = dev.masks.workedAround ∧ constructDevice host dev' = .ok c := by
  rw [run, bind_eq_ok] at h
  obtain ⟨devices, hdevices, h⟩ := h
  cases hports : host.ports with
  | nil =>
    rw [hports] at hdevices
    cases hdevices
    cases h
  | cons port rest =>
    rw [hports, devicesConfiguration, List.mapM_cons, bind_eq_ok] at hdevices
    obtain ⟨dev, hdev, hdevices⟩ := hdevices
    rw [bind_eq_ok] at hdevices
    obtain ⟨devs, _, hdevices⟩ := hdevices
    cases hdevices
    refine ⟨port, rest, rfl, dev, ?_⟩
    dsimp only at h
    split at h
    · cases h
    · rename_i first sockets hsockets
      split at h
      · cases h
      · rename_i fitted hfitted
        split at h
        · obtain ⟨c', hc', hsome⟩ := (bind_eq_ok _ _ _).mp h
          cases hsome
          refine ⟨fitted.applyWorkaround, hdev, ?_, hc'⟩
          rw [Device.applyWorkaround_masks, Device.fitToCores_masks _ _ _ hfitted,
            Device.requestQueues_masks, Device.adjustToSocket_masks]
        · cases h

/-- The driver has a workaround, and the options and capabilities of the port leave in the request
an offload that the workaround takes away. -/
def Port.asksBroken (port : Port) : Bool :=
  match port.macaddrGet, port.devInfoGet with
  | some mac, some (driverName, info) =>
    driverName = "net_igc" ∧ requestedRx flags options mac driverName &&&
      reportedRx flags options mac driverName info &&& igcBroken ≠ 0#64
  | _, _ => false

end Requests

/-! ## Staying inside the capabilities -/

/-- Every offload asked for is one that the device has. -/
def Within (offloads capa : BitVec 64) : Prop := offloads &&& ~~~capa = 0#64

instance (offloads capa : BitVec 64) : Decidable (Within offloads capa) :=
  inferInstanceAs (Decidable (_ = _))

theorem within_masked (requested capa keep : BitVec 64) :
    Within (requested &&& capa &&& keep) capa := by
  rw [Within]
  ext i hi
  simp only [BitVec.getElem_and, BitVec.getElem_not, BitVec.getElem_zero]
  cases requested[i] <;> cases capa[i] <;> cases keep[i] <;> rfl

/-- With the capabilities reduced after the masking, what is reduced must not be asked for. -/
theorem within_reduced_iff (requested capa broken keep : BitVec 64)
    (hkeep : keep &&& broken = broken) :
    Within (requested &&& capa &&& keep) (capa &&& ~~~broken) ↔
      requested &&& capa &&& broken = 0#64 := by
  have hbits : requested &&& capa &&& keep &&& ~~~(capa &&& ~~~broken)
      = requested &&& capa &&& broken := by
    ext i hi
    have hbit : (keep &&& broken)[i] = broken[i] := by rw [hkeep]
    rw [BitVec.getElem_and] at hbit
    simp only [BitVec.getElem_and, BitVec.getElem_not]
    revert hbit
    cases requested[i] <;> cases capa[i] <;> cases keep[i] <;> cases broken[i] <;> simp
  rw [Within, hbits]

theorem masked_within_iff (m : Masks) (keep : BitVec 64) (hkeep : keep &&& igcBroken = igcBroken) :
    Within (m.masked.rxOffload &&& keep) m.masked.workedAround.rxOffloadCapa ↔
      ¬ (m.driverName = "net_igc" ∧ m.rxOffload &&& m.rxOffloadCapa &&& igcBroken ≠ 0#64) := by
  by_cases hdriver : m.driverName = "net_igc"
  · have hcapa : m.masked.workedAround.rxOffloadCapa = m.rxOffloadCapa &&& ~~~igcBroken := by
      rw [Masks.workedAround, if_pos (show m.masked.driverName = "net_igc" from hdriver)]
      rfl
    rw [hcapa, show m.masked.rxOffload = m.rxOffload &&& m.rxOffloadCapa from rfl,
      within_reduced_iff _ _ _ _ hkeep]
    simp [hdriver]
  · have hcapa : m.masked.workedAround.rxOffloadCapa = m.rxOffloadCapa := by
      rw [Masks.workedAround, if_neg (show ¬ m.masked.driverName = "net_igc" from hdriver)]
      rfl
    rw [hcapa]
    simp only [hdriver, false_and, not_false_iff, iff_true]
    exact within_masked _ _ _

theorem workedAround_tx (m : Masks) :
    m.workedAround.txOffload = m.txOffload ∧ m.workedAround.txOffloadCapa = m.txOffloadCapa := by
  rw [Masks.workedAround]
  split
  · exact ⟨rfl, rfl⟩
  · exact ⟨rfl, rfl⟩

theorem workedAround_rx (m : Masks) : m.workedAround.rxOffload = m.rxOffload := by
  rw [Masks.workedAround]
  split
  · rfl
  · rfl

/-- Whether the call stays inside, in terms of the masks `m` that the options left. -/
theorem configured_within_iff (m : Masks) (host : Host) (dev : Device) (c : Configure)
    (hdev : dev.masks = m.masked.workedAround) (hc : constructDevice host dev = .ok c) :
    (Within c.rxOffloads c.config.rxOffloadCapa ∧ Within c.txOffloads c.config.txOffloadCapa) ↔
      ¬ (m.driverName = "net_igc" ∧ m.rxOffload &&& m.rxOffloadCapa &&& igcBroken ≠ 0#64) := by
  obtain ⟨hmasks, htx, hrx⟩ := constructDevice_ok host dev c hc
  rw [hdev] at hmasks
  have hcapaRx : c.config.rxOffloadCapa = m.masked.workedAround.rxOffloadCapa :=
    congrArg Masks.rxOffloadCapa hmasks
  have hcapaTx : c.config.txOffloadCapa = m.txOffloadCapa :=
    (congrArg Masks.txOffloadCapa hmasks).trans (workedAround_tx _).2
  have hdevTx : dev.txOffload = m.txOffload &&& m.txOffloadCapa :=
    (congrArg Masks.txOffload hdev).trans (workedAround_tx _).1
  have hdevRx : dev.rxOffload = m.masked.rxOffload :=
    (congrArg Masks.rxOffload hdev).trans (workedAround_rx _)
  have htxWithin : Within c.txOffloads c.config.txOffloadCapa := by
    rw [htx, hcapaTx, hdevTx, ← BitVec.and_allOnes (x := m.txOffload &&& m.txOffloadCapa)]
    exact within_masked _ _ _
  rw [and_iff_left htxWithin, hcapaRx]
  rcases hrx with hrx | hrx
  · rw [hrx, hdevRx, ← BitVec.and_allOnes (x := m.masked.rxOffload)]
    exact masked_within_iff m _ (by decide)
  · rw [hrx, hdevRx]
    exact masked_within_iff m _ (by decide)

/-- The request stays inside the capabilities exactly if the workaround takes nothing of it away. -/
theorem run_within_iff (flags : FlagsParsers) (options : String → Option String) (txq : BitVec 16)
    (host : Host) (c : Configure) (h : run flags options txq host = .ok (some c)) :
    (Within c.rxOffloads c.config.rxOffloadCapa ∧ Within c.txOffloads c.config.txOffloadCapa) ↔
      ∀ port ∈ host.ports.head?, port.asksBroken flags options = false := by
  obtain ⟨port, rest, hports, dev, dev', hdev, hmasks, hc⟩ := run_ok flags options txq host c h
  obtain ⟨mac, driverName, info, m, hmac, hinfo, hloaded, hmasked⟩ :=
    deviceConfiguration_ok flags options port dev hdev
  rw [hmasked] at hmasks
  rw [configured_within_iff m host dev' c hmasks hc, hports, List.head?_cons, hloaded.driver,
    hloaded.rxOffload, hloaded.rxOffloadCapa]
  constructor
  · intro hnot port' hport'
    cases hport'
    rw [Port.asksBroken, hmac, hinfo]
    exact decide_eq_false hnot
  · intro hall
    have hfalse := hall port rfl
    rw [Port.asksBroken, hmac, hinfo] at hfalse
    exact of_decide_eq_false hfalse

/-! ## An adapter of the worked-around driver -/

/-- The reported capabilities: checksums, VLAN extension and timestamps among them. -/
def igcInfo : (m : DevInfo) → BitVec m.width
  | .rxOffloadCapa => rteBit64 1 ||| rteBit64 2 ||| rxOffloadVlanExtend ||| rxOffloadTimestamp
  | .txOffloadCapa => rteBit64 1 ||| rteBit64 2
  | .maxRxQueues => BitVec.ofNat 16 4
  | .maxTxQueues => BitVec.ofNat 16 4
  | m => BitVec.zero m.width

def igcHost : Host where
  ports := [⟨0, 0, some [0, 1, 2, 3, 4, 5], some ("net_igc", igcInfo), some⟩]
  sockets := [⟨0, [0, 1]⟩]
  makeScopedMempool := fun _ => true
  mempoolLookup := fun _ => true
  estimateClockFreq := fun _ => BitVec.ofNat 64 1000000000

/-- The parser of flags at the one name used below; no other text is read there. -/
def cksumFlags : FlagsParsers where
  rxOffloads := fun text =>
    if text = "RTE_ETH_RX_OFFLOAD_UDP_CKSUM" then .ok (rteBit64 2) else .error (.expectation 0)
  txOffloads := fun _ => .error (.expectation 0)
  rxMetaFeatures := fun _ => .error (.expectation 0)

/-- Without options the timestamps that were taken away are asked for. -/
theorem igcHost_asks_timestamp : ∃ c, run cksumFlags (fun _ => none) 1 igcHost = .ok (some c) ∧
    ¬ (Within c.rxOffloads c.config.rxOffloadCapa ∧
      Within c.txOffloads c.config.txOffloadCapa) := by
  refine ⟨_, rfl, ?_⟩
  decide

def cksumOption (key : String) : Option String :=
  if key = "net_igc.effective_offload.rx" then some "RTE_ETH_RX_OFFLOAD_UDP_CKSUM" else none

/-- With an option that asks for checksums only, the request stays inside. -/
theorem igcHost_asks_cksum : ∃ c, run cksumFlags cksumOption 1 igcHost = .ok (some c) ∧
    Within c.rxOffloads c.config.rxOffloadCapa ∧ Within c.txOffloads c.config.txOffloadCapa := by
  refine ⟨_, rfl, ?_⟩
  exact (run_within_iff cksumFlags cksumOption 1 igcHost _ rfl).mpr (by decide)

end DpdkTools.Config
