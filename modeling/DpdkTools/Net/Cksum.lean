import DpdkTools.Lib.OnesComplement
import DpdkTools.Net.Mbuf
import Mathlib.Data.List.GetD

/-! Checksums of packets. `rte_raw_cksum` and `rte_ipv4_cksum` are functions of DPDK: what they
return is stated here, and the functions that call them take them as parameters. -/
namespace DpdkTools
open OnesComplement
set_option autoImplicit false

/-- `rte_raw_cksum`: the sum over a buffer, not complemented. -/
def IsRawCksum (rteRawCksum : (ℕ → UInt8) → ℕ → ℕ → UInt16) : Prop :=
  ∀ data off len, len < 2 ^ 16 → (rteRawCksum data off len).toNat = fold (sum data off len)

/-- `rte_ipv4_cksum`: the complement of the sum over the header, of the length written in it. -/
def IsIpv4Cksum (rteIpv4Cksum : (ℕ → UInt8) → ℕ → Be16) : Prop :=
  ∀ data off, (rteIpv4Cksum data off).toNat =
    65535 - fold (sum data off ((data off).toNat % 16 * 4))

def foldedSum (data : ℕ → UInt8) (off len : ℕ) : UInt16 := UInt16.ofNat (fold (sum data off len))

def headerCksum (data : ℕ → UInt8) (off : ℕ) : Be16 :=
  UInt16.ofNat (65535 - fold (sum data off ((data off).toNat % 16 * 4)))

theorem isRawCksum_foldedSum : IsRawCksum foldedSum := by
  intro data off len _
  have hle := fold_le (sum data off len)
  rw [foldedSum, UInt16.toNat_ofNat', Nat.mod_eq_of_lt (by omega)]

theorem isIpv4Cksum_headerCksum : IsIpv4Cksum headerCksum := by
  intro data off
  rw [headerCksum, UInt16.toNat_ofNat', Nat.mod_eq_of_lt (by omega)]

namespace Mbuf

def ipv4Cksum (m : Mbuf) : Be16 := loadBe16 m.data (m.l2Len + 10)

def HeaderVerifies (m : Mbuf) : Prop := Verifies m.data m.l2Len m.ipv4HdrLen

/-- The checksum is left to the NIC: both flags are set and the field is 0. -/
def CksumOffloaded (m : Mbuf) : Prop :=
  m.olFlags.testBit 54 = true ∧ m.olFlags.testBit 55 = true ∧ m.ipv4Cksum = 0

instance (m : Mbuf) : Decidable m.HeaderVerifies := inferInstanceAs (Decidable (Verifies _ _ _))

instance (m : Mbuf) : Decidable m.CksumOffloaded := inferInstanceAs (Decidable (_ ∧ _))

end Mbuf

/-! ## Words and loads -/

theorem loadBe16_toNat (data : ℕ → UInt8) (off : ℕ) : (loadBe16 data off).toNat = word data off := by
  have h0 : (data off).toNat < 2 ^ 8 := (data off).toNat_lt
  have h1 : (data (off + 1)).toNat < 2 ^ 8 := (data (off + 1)).toNat_lt
  rw [loadBe16, word, UInt16.toNat_ofNat', Nat.mod_eq_of_lt (by omega)]

theorem loadBe32_toNat (data : ℕ → UInt8) (off : ℕ) :
    (loadBe32 data off).toNat = word data off + word data (off + 2) * 2 ^ 16 := by
  have h0 : (data off).toNat < 2 ^ 8 := (data off).toNat_lt
  have h1 : (data (off + 1)).toNat < 2 ^ 8 := (data (off + 1)).toNat_lt
  have h2 : (data (off + 2)).toNat < 2 ^ 8 := (data (off + 2)).toNat_lt
  have h3 : (data (off + 3)).toNat < 2 ^ 8 := (data (off + 3)).toNat_lt
  rw [loadBe32, word, word, UInt32.toNat_ofNat']
  change _ = (data off).toNat + (data (off + 1)).toNat * 256 +
    ((data (off + 2)).toNat + (data (off + 3)).toNat * 256) * 2 ^ 16
  omega

/-- The sum of the two words of an address. -/
def addrSum (addr : Be32) : ℕ := addr.toNat % 2 ^ 16 + addr.toNat / 2 ^ 16

theorem addrSum_loadBe32 (data : ℕ → UInt8) (off : ℕ) :
    addrSum (loadBe32 data off) = word data off + word data (off + 2) := by
  have hlow : word data off < 2 ^ 16 := by
    rw [← loadBe16_toNat]
    exact UInt16.toNat_lt _
  rw [addrSum, loadBe32_toNat]
  omega

/-! ## Sums and stores -/

section Stores
variable (data : ℕ → UInt8) (off : ℕ)

theorem word_storeBe16 (x : Be16) : word (storeBe16 data off x) off = x.toNat := by
  rw [← loadBe16_toNat, loadBe16_storeBe16]

theorem storeBe32_congr (data' : ℕ → UInt8) (i : ℕ) (x : Be32) (h : data i = data' i) :
    storeBe32 data off x i = storeBe32 data' off x i := by
  simp only [storeBe32, storeBytes, h]

theorem sum_storeBytes_outside (pos n : ℕ) (bs : List UInt8)
    (h : off + n ≤ pos ∨ pos + bs.length ≤ off) :
    sum (storeBytes data pos bs) off n = sum data off n := by
  apply sum_congr
  intro i hlo hhi
  exact storeBytes_outside data pos i bs (by omega)

theorem sum_storeBe16 (i n : ℕ) (x : Be16) (h : 2 * i + 2 ≤ n) :
    sum (storeBe16 data (off + 2 * i) x) off n + word data (off + 2 * i) =
      sum data off n + x.toNat := by
  have hreplace := sum_replace data (storeBe16 data (off + 2 * i) x) off i n h (by
    intro j _ _ h0 h1
    exact (storeBytes_outside data (off + 2 * i) j _ (by simp; omega)).symm)
  rw [word_storeBe16] at hreplace
  exact hreplace

theorem storeBytes_append (bs bs' : List UInt8) :
    storeBytes data off (bs ++ bs') = storeBytes (storeBytes data off bs) (off + bs.length) bs' := by
  funext i
  simp only [storeBytes, List.length_append]
  by_cases hback : off + bs.length ≤ i ∧ i < off + bs.length + bs'.length
  · rw [if_pos hback, if_pos (by omega), List.getD_append_right _ _ _ _ (by omega),
      Nat.sub_add_eq]
  · rw [if_neg hback]
    by_cases hfront : off ≤ i ∧ i < off + bs.length
    · rw [if_pos hfront, if_pos (by omega), List.getD_append _ _ _ _ (by omega)]
    · rw [if_neg hfront, if_neg (by omega)]

theorem storeBe32_eq (x : Be32) :
    storeBe32 data off x = storeBe16 (storeBe16 data off (UInt16.ofNat x.toNat)) (off + 2)
      (UInt16.ofNat (x.toNat / 2 ^ 16)) := by
  have hbytes : ∀ n : ℕ, UInt8.ofNat (UInt16.ofNat n).toNat = UInt8.ofNat n ∧
      UInt8.ofNat ((UInt16.ofNat n).toNat / 2 ^ 8) = UInt8.ofNat (n / 2 ^ 8) := by
    intro n
    constructor
    · rw [← UInt8.toNat_inj, UInt8.toNat_ofNat', UInt8.toNat_ofNat', UInt16.toNat_ofNat']
      omega
    · rw [← UInt8.toNat_inj, UInt8.toNat_ofNat', UInt8.toNat_ofNat', UInt16.toNat_ofNat']
      omega
  obtain ⟨hlo0, hlo1⟩ := hbytes x.toNat
  obtain ⟨hhi0, hhi1⟩ := hbytes (x.toNat / 2 ^ 16)
  rw [storeBe16, storeBe16, hlo0, hlo1, hhi0, hhi1, Nat.div_div_eq_div_mul]
  exact storeBytes_append data off [UInt8.ofNat x.toNat, UInt8.ofNat (x.toNat / 2 ^ 8)]
    [UInt8.ofNat (x.toNat / 2 ^ 16), UInt8.ofNat (x.toNat / 2 ^ 24)]

theorem sum_storeBe32 (i n : ℕ) (x : Be32) (h : 2 * i + 4 ≤ n) :
    sum (storeBe32 data (off + 2 * i) x) off n + addrSum (loadBe32 data (off + 2 * i)) =
      sum data off n + addrSum x := by
  have hx : x.toNat < 2 ^ 32 := x.toNat_lt
  have hlow := sum_storeBe16 data off i n (UInt16.ofNat x.toNat) (by omega)
  have hhigh := sum_storeBe16 (storeBe16 data (off + 2 * i) (UInt16.ofNat x.toNat)) off (i + 1) n
    (UInt16.ofNat (x.toNat / 2 ^ 16)) (by omega)
  have hnext : word (storeBe16 data (off + 2 * i) (UInt16.ofNat x.toNat)) (off + 2 * i + 2) =
      word data (off + 2 * i + 2) := by
    rw [word, word, storeBe16_outside _ _ _ _ (by omega), storeBe16_outside _ _ _ _ (by omega)]
  rw [show off + 2 * (i + 1) = off + 2 * i + 2 by omega, hnext] at hhigh
  rw [UInt16.toNat_ofNat'] at hlow hhigh
  rw [storeBe32_eq, addrSum_loadBe32, addrSum]
  omega

end Stores

/-- A header whose checksum field was 0 verifies with the checksum that `rte_ipv4_cksum` returns. -/
theorem header_filled {rteIpv4Cksum : (ℕ → UInt8) → ℕ → Be16} (hck : IsIpv4Cksum rteIpv4Cksum)
    (data : ℕ → UInt8) (off len : ℕ) (hlen : (data off).toNat % 16 * 4 = len) (h12 : 12 ≤ len)
    (hzero : word data (off + 10) = 0) :
    Verifies (storeBe16 data (off + 10) (rteIpv4Cksum data off)) off len := by
  have hpos : 0 < sum data off len := by
    apply sum_pos data off len (by omega)
    intro hfirst
    rw [hfirst] at hlen
    have hlen' : 0 % 16 * 4 = len := hlen
    omega
  have hcomplement := hck data off
  have hstore : sum (storeBe16 data (off + 10) (rteIpv4Cksum data off)) off len +
      word data (off + 10) = sum data off len + (rteIpv4Cksum data off).toNat :=
    sum_storeBe16 data off 5 len (rteIpv4Cksum data off) (by omega)
  rw [hlen] at hcomplement
  rw [hzero, hcomplement] at hstore
  exact (verifies_fill_iff _ off len (sum data off len) 0 hpos hstore).mpr rfl

end DpdkTools
