import Mathlib.Data.BitVec
import DpdkTools.Lib.Reflect

/-! The configuration of a device (`dpdkx/config/device.hpp`) and the options that overwrite it
(`load_value`, `dpdkx/config/program_options.cpp`).

The described members follow `dpdkx/config/io.hpp`, one inductive type for each described struct, so
that a value of `Member` is a path to a field of integer type and `Member.width` its size in bits.
The parsers of flag sets come from another repository and are a parameter. -/
namespace DpdkTools.Config
open Reflect
set_option autoImplicit false

/-! ## Described members -/

/-- `rte_eth_thresh`. -/
inductive Thresh where
  | pthresh
  | hthresh
  | wthresh
  deriving Repr, DecidableEq

/-- `rte_eth_rxconf`. -/
inductive Rxconf where
  | rxThresh (m : Thresh)
  | rxFreeThresh
  | rxDropEn
  | rxDeferredStart
  | rxNseg
  | shareGroup
  | shareQid
  | offloads
  | rxNmempool
  deriving Repr, DecidableEq

/-- `rte_eth_txconf`. -/
inductive Txconf where
  | txThresh (m : Thresh)
  | txRsThresh
  | txFreeThresh
  | txDeferredStart
  | offloads
  deriving Repr, DecidableEq

/-- `rte_eth_desc_lim`. -/
inductive DescLim where
  | nbMax
  | nbMin
  | nbAlign
  | nbSegMax
  | nbMtuSegMax
  deriving Repr, DecidableEq

/-- `rte_eth_dev_portconf`. -/
inductive Portconf where
  | burstSize
  | ringSize
  | nbQueues
  deriving Repr, DecidableEq

/-- `rte_eth_dev_info`, as far as it is described. -/
inductive DevInfo where
  | minMtu
  | maxMtu
  | minRxBufsize
  | maxRxBufsize
  | maxRxPktlen
  | maxLroPktSize
  | maxRxQueues
  | maxTxQueues
  | maxMacAddrs
  | maxHashMacAddrs
  | maxVfs
  | maxVmdqPools
  | rxOffloadCapa
  | txOffloadCapa
  | rxQueueOffloadCapa
  | txQueueOffloadCapa
  | retaSize
  | rssAlgoCapa
  | flowTypeRssOffloads
  | defaultRxconf (m : Rxconf)
  | defaultTxconf (m : Txconf)
  | vmdqQueueBase
  | vmdqQueueNum
  | vmdqPoolBase
  | rxDescLim (m : DescLim)
  | txDescLim (m : DescLim)
  | speedCapa
  | nbRxQueues
  | nbTxQueues
  | defaultRxportconf (m : Portconf)
  | defaultTxportconf (m : Portconf)
  | devCapa
  deriving Repr, DecidableEq

/-- `device::effective_offloads`. -/
inductive EffectiveOffloads where
  | rx
  | tx
  deriving Repr, DecidableEq

/-- `config::device`, as far as it is described. -/
inductive Member where
  | svcTxN
  | rxFlowQueues
  | nextSrcPort
  | rxReconfigHint
  | clockHz
  | info (m : DevInfo)
  | effectiveOffload (m : EffectiveOffloads)
  | txRings
  | rxMetaFeatures
  | features
  deriving Repr, DecidableEq

def Rxconf.width : Rxconf → ℕ
  | .rxThresh _ => 8
  | .rxDropEn => 8
  | .rxDeferredStart => 8
  | .offloads => 64
  | _ => 16

def Txconf.width : Txconf → ℕ
  | .txThresh _ => 8
  | .txDeferredStart => 8
  | .offloads => 64
  | _ => 16

def DevInfo.width : DevInfo → ℕ
  | .minRxBufsize | .maxRxBufsize | .maxRxPktlen | .maxLroPktSize => 32
  | .maxMacAddrs | .maxHashMacAddrs | .rssAlgoCapa | .speedCapa => 32
  | .rxOffloadCapa | .txOffloadCapa | .rxQueueOffloadCapa | .txQueueOffloadCapa => 64
  | .flowTypeRssOffloads | .devCapa => 64
  | .defaultRxconf m => m.width
  | .defaultTxconf m => m.width
  | _ => 16

/-- Size of a field in bits. -/
def Member.width : Member → ℕ
  | .clockHz | .rxMetaFeatures | .features => 64
  | .info m => m.width
  | .effectiveOffload _ => 64
  | .svcTxN | .rxFlowQueues | .nextSrcPort | .rxReconfigHint | .txRings => 16

def Thresh.describe (f : Thresh → Member) : List (Described Member) :=
  [.leaf "pthresh" (f .pthresh), .leaf "hthresh" (f .hthresh), .leaf "wthresh" (f .wthresh)]

def Rxconf.describe (f : Rxconf → Member) : List (Described Member) :=
  [.record "rx_thresh" (Thresh.describe fun m => f (.rxThresh m)),
    .leaf "rx_free_thresh" (f .rxFreeThresh), .leaf "rx_drop_en" (f .rxDropEn),
    .leaf "rx_deferred_start" (f .rxDeferredStart), .leaf "rx_nseg" (f .rxNseg),
    .leaf "share_group" (f .shareGroup), .leaf "share_qid" (f .shareQid),
    .leaf "offloads" (f .offloads), .leaf "rx_nmempool" (f .rxNmempool)]

def Txconf.describe (f : Txconf → Member) : List (Described Member) :=
  [.record "tx_thresh" (Thresh.describe fun m => f (.txThresh m)),
    .leaf "tx_rs_thresh" (f .txRsThresh), .leaf "tx_free_thresh" (f .txFreeThresh),
    .leaf "tx_deferred_start" (f .txDeferredStart), .leaf "offloads" (f .offloads)]

def DescLim.describe (f : DescLim → Member) : List (Described Member) :=
  [.leaf "nb_max" (f .nbMax), .leaf "nb_min" (f .nbMin), .leaf "nb_align" (f .nbAlign),
    .leaf "nb_seg_max" (f .nbSegMax), .leaf "nb_mtu_seg_max" (f .nbMtuSegMax)]

def Portconf.describe (f : Portconf → Member) : List (Described Member) :=
  [.leaf "burst_size" (f .burstSize), .leaf "ring_size" (f .ringSize),
    .leaf "nb_queues" (f .nbQueues)]

def DevInfo.describe (f : DevInfo → Member) : List (Described Member) :=
  [.leaf "min_mtu" (f .minMtu), .leaf "max_mtu" (f .maxMtu),
    .leaf "min_rx_bufsize" (f .minRxBufsize), .leaf "max_rx_bufsize" (f .maxRxBufsize),
    .leaf "max_rx_pktlen" (f .maxRxPktlen), .leaf "max_lro_pkt_size" (f .maxLroPktSize),
    .leaf "max_rx_queues" (f .maxRxQueues), .leaf "max_tx_queues" (f .maxTxQueues),
    .leaf "max_mac_addrs" (f .maxMacAddrs), .leaf "max_hash_mac_addrs" (f .maxHashMacAddrs),
    .leaf "max_vfs" (f .maxVfs), .leaf "max_vmdq_pools" (f .maxVmdqPools),
    .leaf "rx_offload_capa" (f .rxOffloadCapa), .leaf "tx_offload_capa" (f .txOffloadCapa),
    .leaf "rx_queue_offload_capa" (f .rxQueueOffloadCapa),
    .leaf "tx_queue_offload_capa" (f .txQueueOffloadCapa),
    .leaf "reta_size" (f .retaSize), .leaf "rss_algo_capa" (f .rssAlgoCapa),
    .leaf "flow_type_rss_offloads" (f .flowTypeRssOffloads),
    .record "default_rxconf" (Rxconf.describe fun m => f (.defaultRxconf m)),
    .record "default_txconf" (Txconf.describe fun m => f (.defaultTxconf m)),
    .leaf "vmdq_queue_base" (f .vmdqQueueBase), .leaf "vmdq_queue_num" (f .vmdqQueueNum),
    .leaf "vmdq_pool_base" (f .vmdqPoolBase),
    .record "rx_desc_lim" (DescLim.describe fun m => f (.rxDescLim m)),
    .record "tx_desc_lim" (DescLim.describe fun m => f (.txDescLim m)),
    .leaf "speed_capa" (f .speedCapa), .leaf "nb_rx_queues" (f .nbRxQueues),
    .leaf "nb_tx_queues" (f .nbTxQueues),
    .record "default_rxportconf" (Portconf.describe fun m => f (.defaultRxportconf m)),
    .record "default_txportconf" (Portconf.describe fun m => f (.defaultTxportconf m)),
    .leaf "dev_capa" (f .devCapa)]

def describeDevice : List (Described Member) :=
  [.leaf "svc_tx_n" .svcTxN, .leaf "rx_flow_queues" .rxFlowQueues,
    .leaf "next_src_port" .nextSrcPort, .leaf "rx_reconfig_hint" .rxReconfigHint,
    .leaf "clock_hz" .clockHz, .record "info" (DevInfo.describe .info),
    .record "effective_offload"
      [.leaf "rx" (.effectiveOffload .rx), .leaf "tx" (.effectiveOffload .tx)],
    .leaf "tx_rings" .txRings, .leaf "rx_meta_features" .rxMetaFeatures,
    .leaf "features" .features]

/-- No field is described twice, so no text overwrites another one of the same pass. -/
theorem describeDevice_nodup : ((leaves describeDevice).map Prod.snd).Nodup := by
  decide

/-- Where the rx offloads are asked for. -/
theorem effectiveRx_described :
    (["effective_offload", "rx"], Member.effectiveOffload .rx) ∈ leaves describeDevice := by
  simp [describeDevice, leaves, memberLeaves]

/-- Where the capability that bounds them may be overwritten. -/
theorem rxOffloadCapa_described :
    (["info", "rx_offload_capa"], Member.info .rxOffloadCapa) ∈ leaves describeDevice := by
  simp [describeDevice, DevInfo.describe, leaves, memberLeaves]

/-! ## Reading a text -/

/-- How the parser of a field is chosen (`io::io_type`). -/
inductive IoType where
  | unsigned (bits : ℕ)
  | rxOffloads
  | txOffloads
  | rxMetaFeatures
  | bitset
  deriving Repr, DecidableEq

/-- `io::inner_type`: a byte is read as `unsigned int`. -/
def innerType (bits : ℕ) : ℕ := if bits = 8 then 32 else bits

def Member.ioType : Member → IoType
  | .info .rxOffloadCapa | .info .rxQueueOffloadCapa | .effectiveOffload .rx => .rxOffloads
  | .info .txOffloadCapa | .info .txQueueOffloadCapa | .effectiveOffload .tx => .txOffloads
  | .rxMetaFeatures => .rxMetaFeatures
  | .features => .bitset
  | m => .unsigned (innerType m.width)

/-- Why a text is refused: input is left over, the parser does not match, or the constructor of
`std::bitset` throws. -/
inductive ParseFailure where
  | incomplete
  | expectation (pos : ℕ)
  | invalidArgument
  deriving Repr, DecidableEq

/-- The x3 parser of unsigned decimals; digits beyond the range of the type fail at the start. -/
def parseUnsigned (bits : ℕ) (text : String) : Except ParseFailure ℕ :=
  let digits := text.toList.takeWhile Char.isDigit
  let n := digits.foldl (fun n c => 10 * n + (c.toNat - '0'.toNat)) 0
  if digits = [] ∨ 2 ^ bits ≤ n then .error (.expectation 0)
  else if digits.length < text.toList.length then .error .incomplete
  else .ok n

/-- `std::bitset<64>{text}`: the most significant bit first, at most 64 characters used. -/
def parseBitset (text : String) : Except ParseFailure (BitVec 64) :=
  if text.toList.all fun c => c = '0' ∨ c = '1' then
    .ok (BitVec.ofNat 64
      ((text.toList.take 64).foldl (fun n c => 2 * n + if c = '1' then 1 else 0) 0))
  else .error .invalidArgument

/-- The parsers of `parser::make_flags_parser`, one for each table of names. -/
structure FlagsParsers where
  rxOffloads : String → Except ParseFailure (BitVec 64)
  txOffloads : String → Except ParseFailure (BitVec 64)
  rxMetaFeatures : String → Except ParseFailure (BitVec 64)

/-- What `load_value` throws: the key, its text and what is wrong with it. -/
structure LoadError where
  path : String
  text : String
  failure : ParseFailure
  deriving Repr, DecidableEq

section Load
variable (flags : FlagsParsers) (options : String → Option String)

def parseValue (m : Member) (text : String) : Except ParseFailure (BitVec m.width) :=
  match m.ioType with
  | .unsigned bits => (parseUnsigned bits text).map (BitVec.ofNat m.width)
  | .rxOffloads => (flags.rxOffloads text).map (BitVec.setWidth m.width)
  | .txOffloads => (flags.txOffloads text).map (BitVec.setWidth m.width)
  | .rxMetaFeatures => (flags.rxMetaFeatures text).map (BitVec.setWidth m.width)
  | .bitset => (parseBitset text).map (BitVec.setWidth m.width)

/-- `load_value_as` at a leaf. -/
def readOption (path : String) (m : Member) : Except LoadError (Option (BitVec m.width)) :=
  match options path with
  | none => .ok none
  | some text =>
    match parseValue flags m text with
    | .ok v => .ok (some v)
    | .error failure => .error ⟨path, text, failure⟩

/-- The value that the text under a key denotes, where there is one. -/
def denoted (path : String) (m : Member) : Option (BitVec m.width) :=
  match readOption flags options path m with
  | .ok v => v
  | .error _ => none

/-- `config::device`, with `info.driver_name` beside the described members. -/
structure Device where
  socketId : BitVec 32
  portId : BitVec 16
  macAddr : List UInt8
  driverName : String
  val : (m : Member) → BitVec m.width

namespace Device

/-- The fields that the code computes with, at their own sizes. -/
def rxNbQueues (dev : Device) : BitVec 16 := dev.val (.info (.defaultRxportconf .nbQueues))
def txNbQueues (dev : Device) : BitVec 16 := dev.val (.info (.defaultTxportconf .nbQueues))
def rxFlowQueues (dev : Device) : BitVec 16 := dev.val .rxFlowQueues
def rxOffload (dev : Device) : BitVec 64 := dev.val (.effectiveOffload .rx)
def txOffload (dev : Device) : BitVec 64 := dev.val (.effectiveOffload .tx)
def rxOffloadCapa (dev : Device) : BitVec 64 := dev.val (.info .rxOffloadCapa)
def txOffloadCapa (dev : Device) : BitVec 64 := dev.val (.info .txOffloadCapa)
def features (dev : Device) : BitVec 64 := dev.val .features

def set (dev : Device) (m : Member) (v : BitVec m.width) : Device :=
  { dev with val := Function.update dev.val m v }

def setRxNbQueues (dev : Device) (n : BitVec 16) : Device :=
  dev.set (.info (.defaultRxportconf .nbQueues)) n

def setTxNbQueues (dev : Device) (n : BitVec 16) : Device :=
  dev.set (.info (.defaultTxportconf .nbQueues)) n

def loadValue (path : String) (dev : Device) : Except LoadError Device := do
  let val ← loadMembers (loadField (readOption flags options)) path describeDevice dev.val
  pure { dev with val := val }

theorem loadValue_ok (path : String) (dev dev' : Device)
    (h : dev.loadValue flags options path = .ok dev') :
    ∃ val, dev' = { dev with val := val } ∧ ∀ l ∈ leaves describeDevice,
      val l.2 = (denoted flags options (memberKey path l.1) l.2).getD (dev.val l.2) := by
  rw [loadValue, bind_eq_ok] at h
  obtain ⟨val, hval, h⟩ := h
  cases h
  refine ⟨val, rfl, ?_⟩
  intro l hl
  obtain ⟨r, hr, hv⟩ := loadMembers_value (readOption flags options) describeDevice
    describeDevice_nodup path dev.val val hval l hl
  rw [hv, denoted, hr]

end Device

end Load

end DpdkTools.Config
