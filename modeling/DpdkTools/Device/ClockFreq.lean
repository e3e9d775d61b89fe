import DpdkTools.Sockperf.DeviceClock
import Mathlib.Tactic.IntervalCases

/-! The byte order of a device clock, `estimate_clock_freq` (`dpdkx/detail/utils.cpp`).

The clock is read twice, and the readings count as byte-swapped when their upper halves differ. In
byte-swapped readings these hold the low half of the counter, which a short advance always changes;
in native ones a carry into the upper half looks the same. -/
namespace DpdkTools
set_option autoImplicit false

/-! ## The code -/

/-- What the two readings meet: the answers of `rte_eth_read_clock`, the time stamp counter right
after each, and its frequency. -/
structure ClockSamples where
  devTicksBase : Option UInt64
  rtdsTicksBase : UInt64
  devTicks : Option UInt64
  rtdsTicks : UInt64
  tscHz : UInt64

/-- The estimate and `swap`; `none` is a division by zero. -/
def estimateClockFreq (swap : Bool) (s : ClockSamples) : Option (UInt64 × Bool) :=
  match s.devTicksBase, s.devTicks with
  | none, _ => some (0, swap)
  | some _, none => some (0, swap)
  | some devTicksBase, some devTicks =>
    let swap := devTicks >>> 32 != devTicksBase >>> 32
    let ticks := if swap then rteBswap64 devTicks else devTicks
    let base := if swap then rteBswap64 devTicksBase else devTicksBase
    let elapsed := s.rtdsTicks - s.rtdsTicksBase
    if elapsed = 0 then none else some (s.tscHz * (ticks - base) / elapsed, swap)

/-! ## Swapped bytes -/

/-- The number whose bytes are `e`, the lowest first. -/
def bytesLE (e : ℕ → ℕ) : ℕ :=
  e 0 + e 1 * 2 ^ 8 + e 2 * 2 ^ 16 + e 3 * 2 ^ 24 + e 4 * 2 ^ 32 + e 5 * 2 ^ 40 + e 6 * 2 ^ 48 +
    e 7 * 2 ^ 56

def byteAt (x : UInt64) (i : ℕ) : ℕ := x.toNat / 2 ^ (8 * i) % 256

theorem byteAt_lt (x : UInt64) (i : ℕ) : byteAt x i < 256 := Nat.mod_lt _ (by decide)

theorem bytesLE_byteAt (x : UInt64) : bytesLE (byteAt x) = x.toNat := by
  have hlt : x.toNat < 2 ^ 64 := x.toNat_lt
  simp only [bytesLE, byteAt]
  omega

theorem bytesLE_lt (e : ℕ → ℕ) (h : ∀ i, e i < 256) : bytesLE e < 2 ^ 64 := by
  have h0 := h 0; have h1 := h 1; have h2 := h 2; have h3 := h 3
  have h4 := h 4; have h5 := h 5; have h6 := h 6; have h7 := h 7
  simp only [bytesLE]
  omega

theorem bytesLE_byte (e : ℕ → ℕ) (h : ∀ i, e i < 256) (i : ℕ) (hi : i < 8) :
    bytesLE e / 2 ^ (8 * i) % 256 = e i := by
  have h0 := h 0; have h1 := h 1; have h2 := h 2; have h3 := h 3
  have h4 := h 4; have h5 := h 5; have h6 := h 6; have h7 := h 7
  rw [bytesLE]
  interval_cases i
  all_goals omega

theorem sum_range_eight (f : ℕ → ℕ) :
    ((List.range 8).map f).sum = f 0 + f 1 + f 2 + f 3 + f 4 + f 5 + f 6 + f 7 := by
  simp [List.range_succ, Nat.add_assoc]

theorem rteBswap64_toNat (x : UInt64) :
    (rteBswap64 x).toNat = bytesLE (fun i => byteAt x (7 - i)) := by
  have hsum : ((List.range 8).map fun i => byteAt x i * 2 ^ (8 * (7 - i))).sum =
      bytesLE (fun i => byteAt x (7 - i)) := by
    rw [sum_range_eight, bytesLE]
    simp only [Nat.reduceSub]
    omega
  have hlt := bytesLE_lt (fun i => byteAt x (7 - i)) (fun i => byteAt_lt x (7 - i))
  rw [rteBswap64, UInt64.toNat_ofNat']
  change ((List.range 8).map fun i => byteAt x i * 2 ^ (8 * (7 - i))).sum % 2 ^ 64 = _
  rw [hsum, Nat.mod_eq_of_lt hlt]

theorem byteAt_rteBswap64 (x : UInt64) (i : ℕ) (h : i < 8) :
    byteAt (rteBswap64 x) i = byteAt x (7 - i) := by
  rw [byteAt, rteBswap64_toNat]
  exact bytesLE_byte (fun i => byteAt x (7 - i)) (fun i => byteAt_lt x (7 - i)) i h

theorem rteBswap64_rteBswap64 (x : UInt64) : rteBswap64 (rteBswap64 x) = x := by
  apply UInt64.toNat_inj.mp
  rw [rteBswap64_toNat, ← bytesLE_byteAt x, bytesLE, bytesLE]
  rw [byteAt_rteBswap64 x 7 (by decide), byteAt_rteBswap64 x 6 (by decide),
    byteAt_rteBswap64 x 5 (by decide), byteAt_rteBswap64 x 4 (by decide),
    byteAt_rteBswap64 x 3 (by decide), byteAt_rteBswap64 x 2 (by decide),
    byteAt_rteBswap64 x 1 (by decide), byteAt_rteBswap64 x 0 (by decide)]

/-! ## Upper halves -/

theorem toNat_upper (x : UInt64) : (x >>> 32).toNat = x.toNat / 2 ^ 32 := by
  rw [UInt64.toNat_shiftRight]
  exact Nat.shiftRight_eq_div_pow x.toNat 32

theorem upper_eq_iff (x y : UInt64) :
    x >>> 32 = y >>> 32 ↔ x.toNat / 2 ^ 32 = y.toNat / 2 ^ 32 := by
  rw [← UInt64.toNat_inj, toNat_upper, toNat_upper]

theorem bytesLE_upper (e : ℕ → ℕ) (h : ∀ i, e i < 256) :
    bytesLE e / 2 ^ 32 = e 4 + e 5 * 2 ^ 8 + e 6 * 2 ^ 16 + e 7 * 2 ^ 24 := by
  have h0 := h 0; have h1 := h 1; have h2 := h 2; have h3 := h 3
  rw [bytesLE]
  omega

theorem bytesLE_lower (e : ℕ → ℕ) (h : ∀ i, e i < 256) :
    bytesLE e % 2 ^ 32 = e 0 + e 1 * 2 ^ 8 + e 2 * 2 ^ 16 + e 3 * 2 ^ 24 := by
  have h0 := h 0; have h1 := h 1; have h2 := h 2; have h3 := h 3
  rw [bytesLE]
  omega

/-- Swapped, the upper half is what the lower half was. -/
theorem upper_rteBswap64_eq_iff (x y : UInt64) :
    rteBswap64 x >>> 32 = rteBswap64 y >>> 32 ↔ x.toNat % 2 ^ 32 = y.toNat % 2 ^ 32 := by
  rw [upper_eq_iff, rteBswap64_toNat, rteBswap64_toNat,
    bytesLE_upper _ (fun i => byteAt_lt x (7 - i)), bytesLE_upper _ (fun i => byteAt_lt y (7 - i)),
    ← bytesLE_byteAt x, ← bytesLE_byteAt y, bytesLE_lower _ (byteAt_lt x),
    bytesLE_lower _ (byteAt_lt y)]
  simp only [Nat.reduceSub]
  have hx0 := byteAt_lt x 0; have hx1 := byteAt_lt x 1
  have hx2 := byteAt_lt x 2; have hx3 := byteAt_lt x 3
  have hy0 := byteAt_lt y 0; have hy1 := byteAt_lt y 1
  have hy2 := byteAt_lt y 2; have hy3 := byteAt_lt y 3
  constructor
  · intro h
    omega
  · intro h
    omega

/-! ## Readings of a counter -/

/-- What a device with the counter value `x` reports. -/
def reported (bswapped : Bool) (x : UInt64) : UInt64 := if bswapped then rteBswap64 x else x

/-- A device at `b` and then at `b + d`, with the time stamp counter at both moments. -/
def samples (bswapped : Bool) (b d rtdsTicksBase rtdsTicks tscHz : UInt64) : ClockSamples :=
  ⟨some (reported bswapped b), rtdsTicksBase, some (reported bswapped (b + d)), rtdsTicks, tscHz⟩

/-- The byte order is told right, and the estimate is the frequency of the counter. -/
def Detects (bswapped swap : Bool) (b d rtdsTicksBase rtdsTicks tscHz : UInt64) : Prop :=
  ∃ freq, estimateClockFreq swap (samples bswapped b d rtdsTicksBase rtdsTicks tscHz) =
      some (freq, bswapped) ∧
    (tscHz.toNat * d.toNat < 2 ^ 64 →
      freq.toNat = tscHz.toNat * d.toNat / (rtdsTicks - rtdsTicksBase).toNat)

/-- The upper halves of the readings differ exactly when a swap or a carry puts the advance there. -/
theorem reported_upper (bswapped : Bool) (b d : UInt64) (hd : 1 ≤ d.toNat) (hd' : d.toNat < 2 ^ 32)
    (hsum : b.toNat + d.toNat < 2 ^ 64) :
    (reported bswapped (b + d) >>> 32 != reported bswapped b >>> 32) =
      (bswapped || decide (2 ^ 32 ≤ b.toNat % 2 ^ 32 + d.toNat)) := by
  have hadd : (b + d).toNat = b.toNat + d.toNat := by
    rw [UInt64.toNat_add, Nat.mod_eq_of_lt hsum]
  rw [Bool.eq_iff_iff, bne_iff_ne, ne_eq]
  cases bswapped with
  | true =>
    simp only [reported, if_true, upper_rteBswap64_eq_iff, hadd, Bool.true_or, iff_true]
    omega
  | false =>
    simp only [reported, Bool.false_eq_true, if_false, upper_eq_iff, hadd, Bool.false_or,
      decide_eq_true_eq]
    omega

theorem reported_reported (bswapped : Bool) (x : UInt64) :
    (if bswapped then rteBswap64 (reported bswapped x) else reported bswapped x) = x := by
  cases bswapped with
  | true => exact rteBswap64_rteBswap64 x
  | false => rfl

theorem estimate_toNat (tscHz d elapsed : UInt64) (h : tscHz.toNat * d.toNat < 2 ^ 64) :
    (tscHz * d / elapsed).toNat = tscHz.toNat * d.toNat / elapsed.toNat := by
  rw [UInt64.toNat_div, UInt64.toNat_mul, Nat.mod_eq_of_lt h]

/-- Byte-swapped readings are always told, native ones exactly when the advance does not carry into
the upper half of the counter. -/
theorem estimateClockFreq_detects_iff (bswapped swap : Bool)
    (b d rtdsTicksBase rtdsTicks tscHz : UInt64) (hd : 1 ≤ d.toNat) (hd' : d.toNat < 2 ^ 32)
    (hsum : b.toNat + d.toNat < 2 ^ 64) (helapsed : rtdsTicks - rtdsTicksBase ≠ 0) :
    Detects bswapped swap b d rtdsTicksBase rtdsTicks tscHz ↔
      bswapped = true ∨ b.toNat % 2 ^ 32 + d.toNat < 2 ^ 32 := by
  have hupper := reported_upper bswapped b d hd hd' hsum
  have hright : (bswapped || decide (2 ^ 32 ≤ b.toNat % 2 ^ 32 + d.toNat)) = bswapped ↔
      bswapped = true ∨ b.toNat % 2 ^ 32 + d.toNat < 2 ^ 32 := by
    cases bswapped with
    | true => simp
    | false => simp
  rw [← hright]
  constructor
  · rintro ⟨freq, heq, _⟩
    simp only [estimateClockFreq, samples, hupper, helapsed, if_false, Option.some.injEq,
      Prod.mk.injEq] at heq
    exact heq.2
  · intro h
    refine ⟨tscHz * d / (rtdsTicks - rtdsTicksBase), ?_, estimate_toNat tscHz d _⟩
    have hdiff : b + d - b = d := by
      rw [UInt64.add_comm, UInt64.add_sub_cancel]
    simp only [estimateClockFreq, samples, hupper, h, reported_reported, helapsed, if_false, hdiff]

/-- A counter at 5 that advances by 100 on a machine of 1 GHz in 10 ticks. -/
theorem estimateClockFreq_five :
    Detects false false 5 100 0 10 1000000000 ∧ Detects true false 5 100 0 10 1000000000 := by
  constructor
  · exact (estimateClockFreq_detects_iff false false 5 100 0 10 1000000000 (by decide) (by decide)
      (by decide) (by decide)).mpr (Or.inr (by decide))
  · exact (estimateClockFreq_detects_iff true false 5 100 0 10 1000000000 (by decide) (by decide)
      (by decide) (by decide)).mpr (Or.inl rfl)

/-- One tick across the boundary: a native clock is taken for a byte-swapped one. -/
theorem estimateClockFreq_carry :
    ¬ Detects false false 0xFFFFFFFF 1 0 10 1000000000 ∧
      (estimateClockFreq false (samples false 0xFFFFFFFF 1 0 10 1000000000)).map Prod.snd =
        some true := by
  have hflag : (estimateClockFreq false (samples false 0xFFFFFFFF 1 0 10 1000000000)).map Prod.snd =
      some true := by decide
  refine ⟨?_, hflag⟩
  rintro ⟨freq, heq, _⟩
  rw [heq] at hflag
  exact absurd hflag (by simp)

end DpdkTools
