import Mathlib.Algebra.Ring.Nat

/-! Integers as they lie in packets and as the host sees them.

The code keeps addresses, ports and ethertypes in network order (`rte_be16_t`, `rte_be32_t`)
and compares them unconverted. A value of these types is the integer a little-endian host loads,
so the conversions to host order are byte swaps. -/
namespace DpdkTools
set_option autoImplicit false

abbrev Be16 := UInt16

abbrev Be32 := UInt32

/-- `rte_be_to_cpu_16` on a little-endian host. -/
def rteBeToCpu16 (x : Be16) : UInt16 :=
  UInt16.ofNat (x.toNat % 256 * 256 + x.toNat / 256)

def rteBeToCpu32 (x : Be32) : UInt32 :=
  UInt32.ofNat (x.toNat % 256 * 2 ^ 24 + x.toNat / 2 ^ 8 % 256 * 2 ^ 16 +
    x.toNat / 2 ^ 16 % 256 * 2 ^ 8 + x.toNat / 2 ^ 24)

def rteBe16 (x : UInt16) : Be16 := rteBeToCpu16 x

/-- `RTE_IPV4(a, b, c, d)`, a host-order address. -/
def rteIpv4 (a b c d : ℕ) : UInt32 := UInt32.ofNat (a * 2 ^ 24 + b * 2 ^ 16 + c * 2 ^ 8 + d)

/-- `RTE_IS_IPV4_MCAST`, which takes a host-order address. -/
def rteIsIpv4Mcast (x : UInt32) : Bool :=
  rteIpv4 224 0 0 0 ≤ x && x ≤ rteIpv4 239 255 255 255

/-! ## Loads from a packet -/

/-- The two bytes at `off`, loaded as a `rte_be16_t`. -/
def loadBe16 (data : ℕ → UInt8) (off : ℕ) : Be16 :=
  UInt16.ofNat ((data off).toNat + (data (off + 1)).toNat * 256)

def loadBe32 (data : ℕ → UInt8) (off : ℕ) : Be32 :=
  UInt32.ofNat ((data off).toNat + (data (off + 1)).toNat * 2 ^ 8 +
    (data (off + 2)).toNat * 2 ^ 16 + (data (off + 3)).toNat * 2 ^ 24)

/-! ## Stores into a packet -/

def storeBytes (data : ℕ → UInt8) (off : ℕ) (bs : List UInt8) : ℕ → UInt8 :=
  fun i => if off ≤ i ∧ i < off + bs.length then bs.getD (i - off) 0 else data i

def storeBe16 (data : ℕ → UInt8) (off : ℕ) (x : Be16) : ℕ → UInt8 :=
  storeBytes data off [UInt8.ofNat x.toNat, UInt8.ofNat (x.toNat / 2 ^ 8)]

def storeBe32 (data : ℕ → UInt8) (off : ℕ) (x : Be32) : ℕ → UInt8 :=
  storeBytes data off [UInt8.ofNat x.toNat, UInt8.ofNat (x.toNat / 2 ^ 8),
    UInt8.ofNat (x.toNat / 2 ^ 16), UInt8.ofNat (x.toNat / 2 ^ 24)]

def loadBytes (data : ℕ → UInt8) (off len : ℕ) : List UInt8 :=
  (List.range len).map fun i => data (off + i)

def etherAddrCopy (data : ℕ → UInt8) (src dst : ℕ) : ℕ → UInt8 :=
  storeBytes data dst (loadBytes data src 6)

theorem storeBytes_outside (data : ℕ → UInt8) (off i : ℕ) (bs : List UInt8)
    (h : i < off ∨ off + bs.length ≤ i) : storeBytes data off bs i = data i := by
  rw [storeBytes, if_neg (by omega)]

theorem storeBe16_outside (data : ℕ → UInt8) (off i : ℕ) (x : Be16) (h : i < off ∨ off + 2 ≤ i) :
    storeBe16 data off x i = data i :=
  storeBytes_outside data off i _ h

theorem storeBe32_outside (data : ℕ → UInt8) (off i : ℕ) (x : Be32) (h : i < off ∨ off + 4 ≤ i) :
    storeBe32 data off x i = data i :=
  storeBytes_outside data off i _ h

theorem etherAddrCopy_outside (data : ℕ → UInt8) (src dst i : ℕ) (h : i < dst ∨ dst + 6 ≤ i) :
    etherAddrCopy data src dst i = data i := by
  apply storeBytes_outside
  rw [loadBytes, List.length_map, List.length_range]
  exact h

theorem loadBe16_congr (data data' : ℕ → UInt8) (off : ℕ) (h0 : data off = data' off)
    (h1 : data (off + 1) = data' (off + 1)) : loadBe16 data off = loadBe16 data' off := by
  rw [loadBe16, loadBe16, h0, h1]

theorem loadBe32_congr (data data' : ℕ → UInt8) (off : ℕ)
    (h : ∀ i < 4, data (off + i) = data' (off + i)) : loadBe32 data off = loadBe32 data' off := by
  have h0 : data off = data' off := h 0 (by decide)
  rw [loadBe32, loadBe32, h0, h 1 (by decide), h 2 (by decide), h 3 (by decide)]

theorem loadBe16_storeBe16 (data : ℕ → UInt8) (off : ℕ) (x : Be16) :
    loadBe16 (storeBe16 data off x) off = x := by
  have hx : x.toNat < 2 ^ 16 := x.toNat_lt
  have h0 : storeBe16 data off x off = UInt8.ofNat x.toNat := by
    simp [storeBe16, storeBytes]
  have h1 : storeBe16 data off x (off + 1) = UInt8.ofNat (x.toNat / 2 ^ 8) := by
    simp [storeBe16, storeBytes]
  rw [loadBe16, h0, h1, UInt8.toNat_ofNat', UInt8.toNat_ofNat', ← UInt16.toNat_inj,
    UInt16.toNat_ofNat']
  omega

theorem loadBe32_outside (data : ℕ → UInt8) (off pos : ℕ) (bs : List UInt8)
    (h : pos + 4 ≤ off ∨ off + bs.length ≤ pos) :
    loadBe32 (storeBytes data off bs) pos = loadBe32 data pos := by
  apply loadBe32_congr
  intro i hi
  exact storeBytes_outside data off (pos + i) bs (by omega)

theorem loadBytes_congr (data data' : ℕ → UInt8) (off len : ℕ)
    (h : ∀ i < len, data (off + i) = data' (off + i)) : loadBytes data off len = loadBytes data' off len := by
  apply List.map_congr_left
  intro i hi
  exact h i (List.mem_range.mp hi)

theorem byte_of_loadBytes {data : ℕ → UInt8} {off len : ℕ} {bs : List UInt8}
    (h : loadBytes data off len = bs) (i : ℕ) (hi : i < len) : data (off + i) = bs.getD i 0 := by
  subst h
  simp [loadBytes, hi]

theorem loadBytes_storeBytes (data : ℕ → UInt8) (off : ℕ) (bs : List UInt8) :
    loadBytes (storeBytes data off bs) off bs.length = bs := by
  apply List.ext_getElem
  · simp [loadBytes]
  · intro i _ hi
    simp [loadBytes, storeBytes, hi]

theorem loadBe32_storeBe32 (data : ℕ → UInt8) (off : ℕ) (x : Be32) :
    loadBe32 (storeBe32 data off x) off = x := by
  have hx : x.toNat < 2 ^ 32 := x.toNat_lt
  have hbyte : ∀ i < 4, storeBe32 data off x (off + i) = UInt8.ofNat (x.toNat / 2 ^ (8 * i)) := by
    intro i hi
    match i, hi with
    | 0, _ => simp [storeBe32, storeBytes]
    | 1, _ => simp [storeBe32, storeBytes]
    | 2, _ => simp [storeBe32, storeBytes]
    | 3, _ => simp [storeBe32, storeBytes]
  have h0 : storeBe32 data off x off = UInt8.ofNat (x.toNat / 2 ^ 0) := hbyte 0 (by decide)
  rw [loadBe32, h0, hbyte 1 (by decide), hbyte 2 (by decide), hbyte 3 (by decide),
    ← UInt32.toNat_inj, UInt32.toNat_ofNat']
  simp only [UInt8.toNat_ofNat']
  omega
theorem rteBeToCpu16_toNat (x : Be16) :
    (rteBeToCpu16 x).toNat = x.toNat % 256 * 256 + x.toNat / 256 := by
  have hx : x.toNat < 2 ^ 16 := x.toNat_lt
  rw [rteBeToCpu16, UInt16.toNat_ofNat', Nat.mod_eq_of_lt (by omega)]

theorem rteBeToCpu16_rteBe16 (x : UInt16) : rteBeToCpu16 (rteBe16 x) = x := by
  have hx : x.toNat < 2 ^ 16 := x.toNat_lt
  rw [rteBe16, ← UInt16.toNat_inj, rteBeToCpu16_toNat, rteBeToCpu16_toNat]
  omega

/-- `ip4_endpoint`: address and port, both in network order (`dpdkx/detail/dpdk_type.hpp`). -/
abbrev Ip4Endpoint := Be32 × Be16

end DpdkTools
