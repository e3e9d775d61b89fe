import DpdkTools.Config.Construct
import DpdkTools.Sockperf.Latency

/-! The clock of a device and the readers of its timestamps (`dpdkx/device.hpp`, `device.cpp`,
`sockperf_cli/utils.cpp`).

`timestamp_fix` divides by `clock_hz`, which the constructor gives a value only while the clock
feature is on. The flag of a timestamp in a packet is registered either way, so a packet may bring
a timestamp to a device without a frequency. A step that divides by zero is `none` here. -/
namespace DpdkTools
open Config Sockperf
set_option autoImplicit false

/-- `rte_bswap64` -/
def rteBswap64 (x : UInt64) : UInt64 :=
  UInt64.ofNat ((List.range 8).map fun i => x.toNat / 2 ^ (8 * i) % 256 * 2 ^ (8 * (7 - i))).sum

/-- What `read_clock` reads: the answer of `rte_eth_read_clock`, `clock_bswap_`, and `ns_timer`. -/
structure ClockReading where
  ticks : Option UInt64
  bswap : Bool
  nsTimer : UInt64

namespace Config.Constructed

def clockHz (d : Constructed) : UInt64 := UInt64.ofBitVec d.config.clockHz

def clockEnabled (d : Constructed) : Bool := d.config.features.getLsbD 2

/-- `device::timestamp_fix` -/
def timestampFix (d : Constructed) (timestamp : UInt64) : Option UInt64 :=
  Sockperf.timestampFix d.clockHz timestamp

/-- `device::read_clock` -/
def readClock (d : Constructed) (r : ClockReading) : Option UInt64 :=
  if d.clockEnabled then
    match r.ticks with
    | some ts => d.timestampFix (if r.bswap then rteBswap64 ts else ts)
    | none => some r.nsTimer
  else some r.nsTimer

def hasTimestamp (d : Constructed) (m : Mbuf) : Bool :=
  BitVec.ofNat 64 m.olFlags &&& d.timestampFlag != 0

/-- `device::buffer_timestamp`; `dynfield` is the field at the registered offset. -/
def bufferTimestamp (d : Constructed) (m : Mbuf) (dynfield : UInt64) : Option UInt64 :=
  if d.hasTimestamp m then some dynfield else none

/-- `dpdkx::timestamp` -/
def timestamp (d : Constructed) (m : Mbuf) (dynfield : UInt64) (r : ClockReading) : Option UInt64 :=
  match d.bufferTimestamp m dynfield with
  | some ts => d.timestampFix ts
  | none => d.readClock r

end Config.Constructed

namespace Sockperf

/-- The flag of the same name in `latency_test_job::process`. -/
def useDevClock (d : Constructed) (disableClock : Bool) : Bool :=
  !disableClock && d.clockEnabled && (d.config.rxOffload &&& rxOffloadTimestamp == rxOffloadTimestamp)

/-- The two times of a round trip in `latency_test_job::process`; `scheduled` is that the packet
was given a transmit time. -/
def roundTripTimes (d : Constructed) (disableClock scheduled : Bool) (r : ClockReading)
    (msg : MessageInfo) : Option (UInt64 × UInt64) :=
  if useDevClock d disableClock then do
    let sentAt ← d.readClock r
    let receivedAt ← d.timestampFix msg.receivedTs
    pure (if scheduled then sentAt + 10000 else sentAt, receivedAt)
  else some (r.nsTimer, msg.enqueuedTs)

/-- A burst that the receive job of the device hands to `enqueue`. -/
structure RxBurst where
  enqueued : UInt64
  heap : MbufHeap
  dynfield : MbufPtr → UInt64
  buffers : List MbufPtr

/-- The call of `enqueue` with the burst, on the device of the channel. -/
def RxBurst.call (d : Constructed) (burst : RxBurst) : EnqueueCall where
  enqueued := burst.enqueued
  timestamp := fun b => d.bufferTimestamp (burst.heap b) (burst.dynfield b)
  heap := burst.heap
  buffers := burst.buffers

/-- The uses of the clock and of timestamps on a device. -/
inductive ClockUse where
  | readClock (r : ClockReading)
  | timestamp (m : Mbuf) (dynfield : UInt64) (r : ClockReading)
  | roundTrip (disableClock scheduled : Bool) (r : ClockReading) (msg : MessageInfo)
  /-- all bursts of a channel, from its construction on -/
  | enqueue (packets2send ntx : UInt64) (detailedStats : Bool) (memory : ℕ → PacketInfo)
    (bursts : List RxBurst)

/-- Wherever `timestamp_fix` is evaluated, the divisor is not zero. -/
def ClockUse.Defined (d : Constructed) : ClockUse → Prop
  | .readClock r => (d.readClock r).isSome
  | .timestamp m dynfield r => (d.timestamp m dynfield r).isSome
  | .roundTrip disableClock scheduled r msg => (roundTripTimes d disableClock scheduled r msg).isSome
  | .enqueue packets2send ntx detailedStats memory bursts =>
    ((Channel.create packets2send ntx d.clockHz detailedStats memory).enqueues
      (bursts.map (RxBurst.call d))).isSome

/-- A timestamp is taken out of a packet: by `dpdkx::timestamp` where the packet has one, by
`enqueue` where one of the data messages that still get a slot has one. -/
def ClockUse.TakesTimestamp (d : Constructed) : ClockUse → Prop
  | .timestamp m _ _ => d.hasTimestamp m = true
  | .enqueue packets2send ntx _ _ bursts =>
    ∃ x ∈ ((messages (bursts.map (RxBurst.call d))).filter isData).take (packets2send * ntx).toNat,
      d.hasTimestamp (x.1.heap x.2) = true
  | _ => False

end Sockperf

/-! ## The frequency after construction -/

namespace Config

theorem Device.fixClock_clockHz (dev : Device) (clockHz : BitVec 64) :
    (dev.fixClock clockHz).clockHz ≠ 0 ↔ dev.features.getLsbD 2 = true ∨ dev.clockHz ≠ 0 := by
  rw [fixClock]
  by_cases hbit : dev.features.getLsbD 2 = true
  · rw [if_pos hbit]
    apply iff_of_true _ (Or.inl hbit)
    by_cases hest : clockHz ≠ 0
    · rw [if_pos hest]
      by_cases hz : dev.val .clockHz = 0
      · rw [if_pos hz]
        exact (dev.val_set_self .clockHz clockHz).trans_ne hest
      · rw [if_neg hz]
        exact hz
    · rw [if_neg hest]
      exact (Device.val_set_self _ .clockHz _).trans_ne
        (by decide : BitVec.ofNat 64 1000000000 ≠ 0)
  · rw [if_neg hbit]
    exact (or_iff_right hbit).symm

theorem Device.fixClock_features (dev : Device) (clockHz : BitVec 64)
    (h : (dev.fixClock clockHz).features.getLsbD 2 = true) : dev.features.getLsbD 2 = true := by
  rw [fixClock] at h
  by_contra hbit
  rw [if_neg hbit] at h
  exact hbit h

section Made
variable (host : Host) (eth : EthDev) (config : Device) (d : Constructed)
  (h : makeDevice host eth config = .ok d)
include h

theorem clockHz_ne_zero_iff :
    d.clockHz ≠ 0 ↔ config.features.getLsbD 2 = true ∨ config.clockHz ≠ 0 := by
  have hbits : d.clockHz ≠ 0 ↔ d.config.clockHz ≠ 0 := by
    apply Iff.not
    constructor
    · intro hz
      exact congrArg UInt64.toBitVec hz
    · intro hz
      rw [Constructed.clockHz, hz]
      rfl
  rw [hbits, (makeDevice_ok host eth config d h).clockHz, Device.fixClock_clockHz]

/-- A clock that is still enabled has a frequency. -/
theorem clockHz_of_enabled (henabled : d.clockEnabled = true) : d.clockHz ≠ 0 := by
  apply (clockHz_ne_zero_iff host eth config d h).mpr
  left
  rw [Constructed.clockEnabled, (makeDevice_ok host eth config d h).features] at henabled
  exact config.fixClock_features _ henabled

end Made

/-! ## The readers -/

namespace Constructed
variable (d : Constructed)

theorem timestampFix_isSome (ts : UInt64) : (d.timestampFix ts).isSome ↔ d.clockHz ≠ 0 :=
  Sockperf.timestampFix_isSome d.clockHz ts

theorem readClock_isSome (r : ClockReading) (h : d.clockEnabled = true → d.clockHz ≠ 0) :
    (d.readClock r).isSome := by
  rw [readClock]
  by_cases henabled : d.clockEnabled = true
  · rw [if_pos henabled]
    cases r.ticks with
    | none => rfl
    | some ts => exact (d.timestampFix_isSome _).mpr (h henabled)
  · rw [if_neg henabled]
    rfl

theorem timestamp_isSome (m : Mbuf) (dynfield : UInt64) (r : ClockReading)
    (h : d.clockEnabled = true → d.clockHz ≠ 0) :
    (d.timestamp m dynfield r).isSome ↔ d.clockHz ≠ 0 ∨ ¬ d.hasTimestamp m = true := by
  rw [timestamp, bufferTimestamp]
  by_cases hts : d.hasTimestamp m = true
  · rw [if_pos hts, or_iff_left (not_not_intro hts)]
    exact d.timestampFix_isSome dynfield
  · rw [if_neg hts]
    exact iff_of_true (d.readClock_isSome r h) (Or.inr hts)

end Constructed
end Config

namespace Sockperf

theorem useDevClock_runs (d : Constructed) (disableClock : Bool)
    (h : d.clockEnabled = true → d.clockHz ≠ 0) (huse : useDevClock d disableClock = true) :
    d.clockHz ≠ 0 := by
  simp only [useDevClock, Bool.and_eq_true] at huse
  exact h huse.1.2

/-- The configuration of the latency test on a device that was constructed. -/
def latencyConfig (host : Host) (eth : EthDev) (config : Config.Device) (d : Constructed)
    (h : makeDevice host eth config = .ok d) (packets2send : UInt64) (disableClock : Bool) :
    LatencyConfig where
  packets2send := packets2send
  useDevClock := useDevClock d disableClock
  clockHz := d.clockHz
  clock_runs := useDevClock_runs d disableClock (clockHz_of_enabled host eth config d h)

theorem roundTripTimes_isSome (d : Constructed) (disableClock scheduled : Bool) (r : ClockReading)
    (msg : MessageInfo) (h : d.clockEnabled = true → d.clockHz ≠ 0) :
    (roundTripTimes d disableClock scheduled r msg).isSome := by
  rw [roundTripTimes]
  by_cases huse : useDevClock d disableClock = true
  · rw [if_pos huse]
    obtain ⟨sentAt, hsent⟩ := Option.isSome_iff_exists.mp (d.readClock_isSome r h)
    obtain ⟨receivedAt, hreceived⟩ :=
      Option.isSome_iff_exists.mp ((d.timestampFix_isSome msg.receivedTs).mpr (useDevClock_runs d disableClock h huse))
    rw [hsent, hreceived]
    rfl
  · rw [if_neg huse]
    rfl

/-- Each message of a burst brings the timestamp that the device finds in its packet. -/
theorem timestamp_eq_none_iff (d : Constructed) (bursts : List RxBurst) (x : Message)
    (hx : x ∈ messages (bursts.map (RxBurst.call d))) :
    x.1.timestamp x.2 = none ↔ ¬ d.hasTimestamp (x.1.heap x.2) = true := by
  obtain ⟨e, he, hx⟩ := List.mem_flatMap.mp hx
  obtain ⟨burst, -, rfl⟩ := List.mem_map.mp he
  obtain ⟨b, -, rfl⟩ := List.mem_map.mp hx
  show d.bufferTimestamp (burst.heap b) (burst.dynfield b) = none ↔
    ¬ d.hasTimestamp (burst.heap b) = true
  rw [Constructed.bufferTimestamp]
  split
  · rename_i hts
    exact iff_of_false (by simp) (not_not_intro hts)
  · rename_i hts
    exact iff_of_true rfl hts

/-! ## Every use -/

/-- A use of the clock is defined exactly when the configuration has the feature or a frequency, or
no timestamp is taken out of a packet. -/
theorem clockUse_defined_iff (host : Host) (eth : EthDev) (config : Config.Device) (d : Constructed)
    (h : makeDevice host eth config = .ok d) (u : ClockUse) :
    u.Defined d ↔ config.features.getLsbD 2 = true ∨ config.clockHz ≠ 0 ∨ ¬ u.TakesTimestamp d := by
  have henabled := clockHz_of_enabled host eth config d h
  rw [← or_assoc, ← clockHz_ne_zero_iff host eth config d h]
  cases u with
  | readClock r => exact iff_of_true (d.readClock_isSome r henabled) (Or.inr not_false)
  | timestamp m dynfield r => exact d.timestamp_isSome m dynfield r henabled
  | roundTrip disableClock scheduled r msg =>
    exact iff_of_true (roundTripTimes_isSome d disableClock scheduled r msg henabled) (Or.inr not_false)
  | enqueue packets2send ntx detailedStats memory bursts =>
    refine (Channel.enqueues_isSome _ _).trans
      ((Channel.receiveMessages_isSome _ (Nat.zero_le _) _).trans (or_congr_right ?_))
    constructor
    · rintro hall ⟨x, hx, hts⟩
      have hmem := List.mem_of_mem_filter (List.mem_of_mem_take hx)
      exact (timestamp_eq_none_iff d bursts x hmem).mp (hall x hx) hts
    · intro hnone x hx
      have hmem := List.mem_of_mem_filter (List.mem_of_mem_take hx)
      apply (timestamp_eq_none_iff d bursts x hmem).mpr
      intro hts
      exact hnone ⟨x, hx, hts⟩

/-- A packet with the timestamp flag. -/
def stampedMbuf : Mbuf := { data := fun _ => 0, dataLen := 0, olFlags := 2 ^ 23 }

def stampingEth : EthDev := willingEth (some (rteBit64 23))

/-- The default configuration, on an adapter that timestamps its packets. -/
theorem clockUse_defined_iff_bare :
    ∃ d, makeDevice igcHost stampingEth bareDevice = .ok d ∧
      ClockUse.Defined d (.timestamp stampedMbuf 7 ⟨none, false, 5⟩) := by
  refine ⟨_, rfl, ?_⟩
  apply (clockUse_defined_iff igcHost stampingEth bareDevice _ rfl _).mpr
  left
  decide

def clocklessOption (key : String) : Option String :=
  if key = "net_igc.features" then some "10" else none

/-- Such a device finds the timestamps all the same. -/
theorem clockless_device : ∃ config d,
    deviceConfiguration cksumFlags clocklessOption igcPort = .ok config ∧
      makeDevice igcHost stampingEth config = .ok d ∧ d.clockHz = 0 ∧
      ∀ (m : Mbuf) (dynfield : UInt64), m.olFlags = 2 ^ 23 →
        d.bufferTimestamp m dynfield = some dynfield := by
  refine ⟨_, _, rfl, rfl, rfl, ?_⟩
  intro m dynfield hflags
  rw [Constructed.bufferTimestamp, Constructed.hasTimestamp, hflags]
  rfl

/-- With the features of the option there is no frequency, and a timestamp is divided by zero. -/
theorem clockless_divides : ∃ config d,
    deviceConfiguration cksumFlags clocklessOption igcPort = .ok config ∧
      makeDevice igcHost stampingEth config = .ok d ∧ d.clockHz = 0 ∧
      ¬ ClockUse.Defined d (.timestamp stampedMbuf 7 ⟨none, false, 5⟩) := by
  refine ⟨_, _, rfl, rfl, rfl, ?_⟩
  exact Bool.false_ne_true

/-- One Ping with the timestamp flag. -/
def stampedBurst : RxBurst where
  enqueued := 100
  heap := fun _ => { samplePing 7 with olFlags := 2 ^ 23 }
  dynfield := fun _ => 5
  buffers := [0]

/-- On that device a Ping that would get the first slot ends the call before its mbuf is freed. -/
theorem clockless_unaccounted : ∃ config d,
    deviceConfiguration cksumFlags clocklessOption igcPort = .ok config ∧
      makeDevice igcHost stampingEth config = .ok d ∧ d.clockHz = 0 ∧
      ¬ ∃ out, (Channel.create 1 1 d.clockHz true fun _ => ⟨0, 0, 0, 0⟩).enqueues
          [stampedBurst.call d] = some out ∧
        Accounted (.create 1 1 d.clockHz true fun _ => ⟨0, 0, 0, 0⟩) true [stampedBurst.call d]
          out := by
  refine ⟨_, _, rfl, rfl, rfl, ?_⟩
  rintro ⟨out, hout, -⟩
  cases hout

end Sockperf
end DpdkTools
