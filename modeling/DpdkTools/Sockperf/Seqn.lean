import Mathlib.Algebra.Ring.Nat
import Mathlib.Data.Nat.Bitwise

/-! Sequence numbers of the performance test (`sockperf/x.hpp`).

A packet carries one 64-bit number. Bit 63 marks warm-up packets; of the others the top byte is
the transmit queue and the rest counts the packets of that queue. -/
namespace DpdkTools.Sockperf
set_option autoImplicit false

abbrev SeqnT := UInt64

def warmupMask : SeqnT := (1 : UInt64) <<< 63

def isWarmup (seqn : SeqnT) : Bool := (seqn &&& warmupMask) != 0

def warmup (seqn : SeqnT) : SeqnT := seqn ||| warmupMask

def makeSeqn (queue : UInt8) (seqn : SeqnT) : SeqnT := (queue.toUInt64 <<< 56) ||| seqn

/-- `split_seqn`; the pair it makes is narrowed to the `std::uint8_t` of the result type. -/
def splitSeqn (seqn : SeqnT) : UInt8 × SeqnT := ((seqn >>> 56).toUInt8, seqn &&& 0xfffffff)

/-! ## The numbers behind the bit operations -/

theorem isWarmup_iff (seqn : SeqnT) : isWarmup seqn = true ↔ 2 ^ 63 ≤ seqn.toNat := by
  have hlt : seqn.toNat < 2 ^ 64 := seqn.toNat_lt
  have hmask : warmupMask.toNat = 2 ^ 63 := by decide
  have hbit : seqn.toNat.testBit 63 = decide (2 ^ 63 ≤ seqn.toNat) := by
    rw [Nat.testBit_eq_decide_div_mod_eq]
    apply decide_eq_decide.mpr
    omega
  rw [isWarmup, bne_iff_ne, ne_eq, ← UInt64.toNat_inj, UInt64.toNat_and, hmask,
    Nat.and_two_pow, hbit]
  simp

theorem isWarmup_warmup (seqn : SeqnT) : isWarmup (warmup seqn) = true := by
  have hmask : warmupMask.toNat = 2 ^ 63 := by decide
  rw [isWarmup_iff, warmup, UInt64.toNat_or, hmask]
  exact Nat.right_le_or

theorem makeSeqn_toNat (queue : UInt8) (seqn : SeqnT) (hs : seqn.toNat < 2 ^ 56) :
    (makeSeqn queue seqn).toNat = queue.toNat * 2 ^ 56 + seqn.toNat := by
  have hq : queue.toNat < 2 ^ 8 := queue.toNat_lt
  have hshift : (queue.toUInt64 <<< 56).toNat = queue.toNat <<< 56 := by
    rw [UInt64.toNat_shiftLeft, UInt8.toNat_toUInt64]
    change queue.toNat <<< 56 % 2 ^ 64 = queue.toNat <<< 56
    rw [Nat.shiftLeft_eq]
    omega
  rw [makeSeqn, UInt64.toNat_or, hshift, ← Nat.shiftLeft_add_eq_or_of_lt hs, Nat.shiftLeft_eq]

theorem splitSeqn_fst_toNat (seqn : SeqnT) : (splitSeqn seqn).1.toNat = seqn.toNat / 2 ^ 56 := by
  have hlt : seqn.toNat < 2 ^ 64 := seqn.toNat_lt
  rw [splitSeqn, UInt64.toNat_toUInt8, UInt64.toNat_shiftRight]
  change seqn.toNat >>> 56 % 2 ^ 8 = seqn.toNat / 2 ^ 56
  rw [Nat.shiftRight_eq_div_pow]
  omega

/-- The counter comes back modulo `2 ^ 28`: the mask has seven hexadecimal digits. -/
theorem splitSeqn_snd_toNat (seqn : SeqnT) : (splitSeqn seqn).2.toNat = seqn.toNat % 2 ^ 28 := by
  rw [splitSeqn, UInt64.toNat_and]
  exact Nat.and_two_pow_sub_one_eq_mod seqn.toNat 28

/-! ## What the encoding keeps -/

theorem makeSeqn_not_warmup (queue : UInt8) (seqn : SeqnT) (hq : queue < 128)
    (hs : seqn.toNat < 2 ^ 56) : isWarmup (makeSeqn queue seqn) = false := by
  have hq' : queue.toNat < 128 := hq
  rw [← Bool.not_eq_true, isWarmup_iff, makeSeqn_toNat queue seqn hs]
  omega

theorem makeSeqn_injective (queue queue' : UInt8) (seqn seqn' : SeqnT) (hs : seqn.toNat < 2 ^ 56)
    (hs' : seqn'.toNat < 2 ^ 56) (h : makeSeqn queue seqn = makeSeqn queue' seqn') :
    queue = queue' ∧ seqn = seqn' := by
  have hn := congrArg UInt64.toNat h
  rw [makeSeqn_toNat queue seqn hs, makeSeqn_toNat queue' seqn' hs'] at hn
  exact ⟨UInt8.toNat_inj.mp (by omega), UInt64.toNat_inj.mp (by omega)⟩

theorem splitSeqn_makeSeqn (queue : UInt8) (seqn : SeqnT) (hs : seqn.toNat < 2 ^ 56) :
    splitSeqn (makeSeqn queue seqn) = (queue, seqn) ↔ seqn.toNat < 2 ^ 28 := by
  have hfst := splitSeqn_fst_toNat (makeSeqn queue seqn)
  have hsnd := splitSeqn_snd_toNat (makeSeqn queue seqn)
  rw [makeSeqn_toNat queue seqn hs] at hfst hsnd
  rw [Prod.ext_iff, ← UInt8.toNat_inj, ← UInt64.toNat_inj, hfst, hsnd]
  constructor
  · intro h
    have := h.2
    dsimp only at this
    omega
  · intro h
    exact ⟨by dsimp only; omega, by dsimp only; omega⟩

/-- The number of a packet of queue `queue` survives the trip: it is no warm-up number, it is
decoded to what was encoded, and no other packet has it. -/
structure RoundTrips (queue : UInt8) (seqn : SeqnT) : Prop where
  not_warmup : isWarmup (makeSeqn queue seqn) = false
  split_eq : splitSeqn (makeSeqn queue seqn) = (queue, seqn)
  distinct : ∀ (queue' : UInt8) (seqn' : SeqnT), queue' < 128 → seqn'.toNat < 2 ^ 56 →
    makeSeqn queue' seqn' = makeSeqn queue seqn → (queue', seqn') = (queue, seqn)
  warmup_marked : isWarmup (warmup seqn) = true

/-- Of the 56 bits left to the counter only 28 come back. -/
theorem roundTrips_iff (queue : UInt8) (seqn : SeqnT) (hq : queue < 128)
    (hs : seqn.toNat < 2 ^ 56) : RoundTrips queue seqn ↔ seqn.toNat < 2 ^ 28 := by
  constructor
  · intro h
    exact (splitSeqn_makeSeqn queue seqn hs).mp h.split_eq
  · intro h
    refine ⟨makeSeqn_not_warmup queue seqn hq hs, (splitSeqn_makeSeqn queue seqn hs).mpr h, ?_,
      isWarmup_warmup seqn⟩
    intro queue' seqn' _ hs' heq
    obtain ⟨rfl, rfl⟩ := makeSeqn_injective queue' queue seqn' seqn hs' hs heq
    rfl

theorem roundTrips_iff_seven : RoundTrips 3 7 ∧ (7 : SeqnT).toNat < 2 ^ 28 :=
  ⟨(roundTrips_iff 3 7 (by decide) (by decide)).mpr (by decide), by decide⟩

/-- Packet `2 ^ 28 + 2` of queue 3 is decoded as packet 2. -/
theorem split_of_large_counter :
    splitSeqn (makeSeqn 3 0x10000002) = (3, 2) ∧ ¬ RoundTrips 3 0x10000002 := by
  have h : splitSeqn (makeSeqn 3 0x10000002) = (3, 2) := by decide
  refine ⟨h, ?_⟩
  intro hr
  exact absurd (h.symm.trans hr.split_eq) (by decide)

end DpdkTools.Sockperf
