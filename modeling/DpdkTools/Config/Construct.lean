import DpdkTools.Config.Offloads

/-! The whole of the constructor `device::device` (`dpdkx/device.cpp`), from the configuration it is
given to the queues, rings and clock of the device.

`constructDevice` is the part in front of `rte_eth_dev_configure`. Behind it the descriptor numbers
are settled, the queues are set up, and the number of service rings is bounded by the number of
transmit jobs. -/
namespace DpdkTools.Config
open Reflect
set_option autoImplicit false

/-- What DPDK answers while one device is constructed. -/
structure EthDev where
  /-- The dynamic flag, where it can be registered. -/
  rxTimestampRegister : Option (BitVec 64)
  /-- `rte_ring_create`, for the ring of one tx queue. -/
  ringCreate : BitVec 16 → Bool
  devConfigure : Configure → Bool
  adjustNbRxTxDesc : BitVec 16 → BitVec 16 → Option (BitVec 16 × BitVec 16)
  makeScopedMempool : Bool
  rxQueueSetup : BitVec 16 → Bool
  txQueueSetup : BitVec 16 → Bool

inductive DeviceError where
  | unconfigured (e : RunError)
  | ringCreate
  | devConfigure
  | adjustNbRxTxDesc
  | makeScopedMempool
  | rxQueueSetup
  | txQueueSetup
  deriving Repr, DecidableEq

namespace Device

def txRings (dev : Device) : BitVec 16 := dev.val .txRings
def svcTxN (dev : Device) : BitVec 16 := dev.val .svcTxN
def clockHz (dev : Device) : BitVec 64 := dev.val .clockHz
def rxRingSize (dev : Device) : BitVec 16 := dev.val (.info (.defaultRxportconf .ringSize))
def txRingSize (dev : Device) : BitVec 16 := dev.val (.info (.defaultTxportconf .ringSize))

/-- The initializer of `tx_queues_`. -/
def directTxQueues (dev : Device) : BitVec 16 :=
  if dev.txRings > dev.txNbQueues then 0 else dev.txNbQueues - dev.txRings

/-- The queues that `tx_jobs_` drain. -/
def txJobQueues (dev : Device) (txQueues : BitVec 16) : List (BitVec 16) :=
  (List.range (dev.txNbQueues.toNat - txQueues.toNat)).map fun i => BitVec.ofNat 16 (txQueues.toNat + i)

def defaultRingSize : BitVec 16 := BitVec.ofNat 16 1024

def fixRingSizes (dev : Device) : Device :=
  let dev :=
    if dev.rxRingSize = 0 then dev.set (.info (.defaultRxportconf .ringSize)) defaultRingSize else dev
  if dev.txRingSize = 0 then dev.set (.info (.defaultTxportconf .ringSize)) defaultRingSize else dev

def setRingSizes (dev : Device) (sizes : BitVec 16 × BitVec 16) : Device :=
  (dev.set (.info (.defaultRxportconf .ringSize)) sizes.1).set
    (.info (.defaultTxportconf .ringSize)) sizes.2

/-- The last lines of the constructor. -/
def clampSvcTxN (dev : Device) (nTxJobs : ℕ) : Device :=
  if dev.svcTxN.toNat > nTxJobs then dev.set .svcTxN (BitVec.ofNat 16 nTxJobs) else dev

end Device

/-- `dpdkx::device`, with the members that the choice of queues, rings and clock reads. -/
structure Constructed where
  config : Device
  timestampFlag : BitVec 64
  txQueues : BitVec 16
  txJobs : List (BitVec 16)

/-- Every queue below `n`. -/
def allQueues (n : BitVec 16) (setup : BitVec 16 → Bool) : Bool :=
  (List.range n.toNat).all fun q => setup (BitVec.ofNat 16 q)

/-- A call that has to succeed. -/
def ensure {α : Type} (answer : Option α) (e : DeviceError) : Except DeviceError α :=
  match answer with
  | none => .error e
  | some a => .ok a

/-- `device::device`. -/
def makeDevice (host : Host) (eth : EthDev) (config : Device) : Except DeviceError Constructed := do
  let txQueues := config.directTxQueues
  let configure ← (constructDevice host config).mapError .unconfigured
  let txJobs := configure.config.txJobQueues txQueues
  let _ ← ensure (guard (txJobs.all eth.ringCreate)) .ringCreate
  let _ ← ensure (guard (eth.devConfigure configure)) .devConfigure
  let dev := configure.config.fixRingSizes
  let sizes ← ensure (eth.adjustNbRxTxDesc dev.rxRingSize dev.txRingSize) .adjustNbRxTxDesc
  let dev := dev.setRingSizes sizes
  let _ ← ensure (guard eth.makeScopedMempool) .makeScopedMempool
  let _ ← ensure (guard (allQueues dev.rxNbQueues eth.rxQueueSetup)) .rxQueueSetup
  let _ ← ensure (guard (allQueues dev.txNbQueues eth.txQueueSetup)) .txQueueSetup
  pure ⟨dev.clampSvcTxN txJobs.length, eth.rxTimestampRegister.getD 0, txQueues, txJobs⟩

/-! ## What the constructor keeps -/

/-- The fields that only describe how large bursts, rings and the flow queues are. -/
def Member.isSizing : Member → Bool
  | .rxFlowQueues => true
  | .info (.defaultRxportconf .burstSize) | .info (.defaultTxportconf .burstSize) => true
  | .info (.defaultRxportconf .ringSize) | .info (.defaultTxportconf .ringSize) => true
  | _ => false

namespace Device

theorem val_set_self (dev : Device) (m : Member) (v : BitVec m.width) : (dev.set m v).val m = v := by
  rw [set]
  exact Function.update_self m v dev.val

theorem val_set_sizing (dev : Device) (m m' : Member) (v : BitVec m.width) (h : m.isSizing = true)
    (h' : m'.isSizing = false) : (dev.set m v).val m' = dev.val m' := by
  apply val_set_ne
  rintro rfl
  rw [h] at h'
  cases h'

theorem val_ite (p : Prop) [Decidable p] (dev dev' : Device) (m : Member)
    (h : dev'.val m = dev.val m) : (if p then dev' else dev).val m = dev.val m := by
  split
  · exact h
  · rfl

section Kept
variable (dev : Device) (m : Member) (h : m.isSizing = false)
include h

theorem fixBurstSizes_val : dev.fixBurstSizes.val m = dev.val m := by
  refine Eq.trans (val_ite _ _ _ _ (val_set_sizing _ _ _ _ rfl h)) ?_
  exact val_ite _ _ _ _ (val_set_sizing _ _ _ _ rfl h)

theorem fixFlowQueues_val : dev.fixFlowQueues.val m = dev.val m :=
  val_ite _ _ _ _ (val_set_sizing _ _ _ _ rfl h)

theorem fixRingSizes_val : dev.fixRingSizes.val m = dev.val m := by
  refine Eq.trans (val_ite _ _ _ _ (val_set_sizing _ _ _ _ rfl h)) ?_
  exact val_ite _ _ _ _ (val_set_sizing _ _ _ _ rfl h)

theorem setRingSizes_val (sizes : BitVec 16 × BitVec 16) : (dev.setRingSizes sizes).val m = dev.val m := by
  exact (val_set_sizing _ _ _ _ rfl h).trans (val_set_sizing _ _ _ _ rfl h)

end Kept

/-- The clock part writes `features` and `clock_hz` only. -/
theorem fixClock_val (dev : Device) (clockHz : BitVec 64) (m : Member) (hf : m ≠ .features)
    (hc : m ≠ .clockHz) : (dev.fixClock clockHz).val m = dev.val m := by
  rw [fixClock]
  apply val_ite
  split
  · exact val_ite _ _ _ _ (val_set_ne _ _ _ _ hc)
  · exact (val_set_ne _ _ _ _ hc).trans (val_set_ne _ _ _ _ hf)

theorem clampSvcTxN_val (dev : Device) (n : ℕ) (m : Member) (h : m ≠ .svcTxN) :
    (dev.clampSvcTxN n).val m = dev.val m :=
  val_ite _ _ _ _ (val_set_ne _ _ _ _ h)

theorem clampSvcTxN_svcTxN (dev : Device) (n : ℕ) (hn : n < 2 ^ 16) :
    (dev.clampSvcTxN n).svcTxN.toNat = min dev.svcTxN.toNat n := by
  unfold clampSvcTxN
  split
  · have hset : (dev.set .svcTxN (BitVec.ofNat 16 n)).svcTxN = BitVec.ofNat 16 n :=
      dev.val_set_self .svcTxN _
    rw [hset, BitVec.toNat_ofNat, Nat.mod_eq_of_lt hn]
    omega
  · omega

end Device

/-- What becomes of a configuration: the queues are divided, and the clock part has run. -/
structure MadeFrom (host : Host) (eth : EthDev) (config : Device) (d : Constructed) : Prop where
  txQueues : d.txQueues = config.directTxQueues
  txJobs : d.txJobs = config.txJobQueues config.directTxQueues
  svcTxN : d.config.svcTxN.toNat = min config.svcTxN.toNat d.txJobs.length
  clockHz : d.config.clockHz = (config.fixClock (host.estimateClockFreq config.portId)).clockHz
  features : d.config.features = (config.fixClock (host.estimateClockFreq config.portId)).features
  rxOffload : d.config.rxOffload = config.rxOffload
  timestampFlag : d.timestampFlag = eth.rxTimestampRegister.getD 0

theorem constructDevice_val (host : Host) (config : Device) (configure : Configure)
    (h : constructDevice host config = .ok configure) (m : Member) (hm : m.isSizing = false) :
    configure.config.val m = (config.fixClock (host.estimateClockFreq config.portId)).val m := by
  simp only [constructDevice] at h
  split at h
  · split at h
    all_goals
      cases h
      rw [Device.fixFlowQueues_val _ _ hm, Device.fixBurstSizes_val _ _ hm]
  · cases h

/-! ## How the tx queues are divided -/

theorem directTxQueues_toNat (dev : Device) :
    dev.directTxQueues.toNat = dev.txNbQueues.toNat - dev.txRings.toNat := by
  unfold Device.directTxQueues
  by_cases h : dev.txRings > dev.txNbQueues
  · rw [if_pos h]
    have hlt : dev.txNbQueues.toNat < dev.txRings.toNat := BitVec.lt_def.mp h
    show 0 = _
    omega
  · rw [if_neg h]
    apply BitVec.toNat_sub_of_le
    exact BitVec.not_lt.mp h

theorem length_txJobQueues (dev : Device) (txQueues : BitVec 16) :
    (dev.txJobQueues txQueues).length = dev.txNbQueues.toNat - txQueues.toNat := by
  rw [Device.txJobQueues, List.length_map, List.length_range]

theorem length_txJobQueues_lt (dev : Device) (txQueues : BitVec 16) :
    (dev.txJobQueues txQueues).length < 2 ^ 16 := by
  have h := dev.txNbQueues.isLt
  rw [length_txJobQueues]
  omega

/-- There is a job for each ring, as far as the queues go. -/
theorem length_txJobQueues_direct (dev : Device) :
    (dev.txJobQueues dev.directTxQueues).length = min dev.txRings.toNat dev.txNbQueues.toNat := by
  rw [length_txJobQueues, directTxQueues_toNat]
  omega

theorem le_of_mem_txJobQueues (dev : Device) (txQueues q : BitVec 16)
    (h : q ∈ dev.txJobQueues txQueues) : txQueues.toNat ≤ q.toNat := by
  obtain ⟨i, hi, rfl⟩ := List.mem_map.mp h
  have hlt := List.mem_range.mp hi
  have hnb := dev.txNbQueues.isLt
  rw [BitVec.toNat_ofNat, Nat.mod_eq_of_lt (by omega)]
  omega


theorem makeDevice_ok (host : Host) (eth : EthDev) (config : Device) (d : Constructed)
    (h : makeDevice host eth config = .ok d) : MadeFrom host eth config d := by
  unfold makeDevice at h
  simp only [bind_eq_ok] at h
  obtain ⟨configure, hconfigure, -, -, -, -, sizes, -, -, -, -, -, -, -, h⟩ := h
  cases h
  -- behind `constructDevice` only sizes are written, until the bound on `svc_tx_n`
  have hkept (m : Member) (hm : m.isSizing = false) :
      (configure.config.fixRingSizes.setRingSizes sizes).val m
        = (config.fixClock (host.estimateClockFreq config.portId)).val m := by
    rw [Device.setRingSizes_val _ _ hm, Device.fixRingSizes_val _ _ hm]
    exact constructDevice_val host config configure (mapError_eq_ok _ _ _ hconfigure) m hm
  have hnb : configure.config.txNbQueues = config.txNbQueues := by
    have hcon := constructDevice_val host config configure (mapError_eq_ok _ _ _ hconfigure)
    exact (hcon (.info (.defaultTxportconf .nbQueues)) rfl).trans
      (Device.fixClock_val _ _ _ (by simp) (by simp))
  have hjobs : configure.config.txJobQueues config.directTxQueues
      = config.txJobQueues config.directTxQueues := by
    rw [Device.txJobQueues, hnb, Device.txJobQueues]
  constructor
  · rfl
  · exact hjobs
  · dsimp only
    rw [Device.clampSvcTxN_svcTxN _ _ (length_txJobQueues_lt _ _)]
    have hsvc := (hkept .svcTxN rfl).trans (Device.fixClock_val _ _ _ (by simp) (by simp))
    exact congrArg (fun v : BitVec 16 => min v.toNat _) hsvc
  · exact (Device.clampSvcTxN_val _ _ _ (by simp)).trans (hkept .clockHz rfl)
  · exact (Device.clampSvcTxN_val _ _ _ (by simp)).trans (hkept .features rfl)
  · refine (Device.clampSvcTxN_val _ _ _ (by simp)).trans ((hkept (.effectiveOffload .rx) rfl).trans ?_)
    exact Device.fixClock_val _ _ _ (by simp) (by simp)
  · rfl

/-! ## An adapter that grants everything -/

def willingEth (rxTimestampRegister : Option (BitVec 64)) : EthDev where
  rxTimestampRegister := rxTimestampRegister
  ringCreate := fun _ => true
  devConfigure := fun _ => true
  adjustNbRxTxDesc := fun rx tx => some (rx, tx)
  makeScopedMempool := true
  rxQueueSetup := fun _ => true
  txQueueSetup := fun _ => true

/-- The adapter of `igcHost`. -/
def igcPort : Port := ⟨0, 0, some [0, 1, 2, 3, 4, 5], some ("net_igc", igcInfo), some⟩

/-- Its configuration, without options. -/
def bareDevice : Device := ⟨0, 0, [0, 1, 2, 3, 4, 5], "net_igc", initialValue igcInfo⟩

end DpdkTools.Config
