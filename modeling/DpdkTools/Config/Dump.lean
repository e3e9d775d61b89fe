import DpdkTools.Config.Layers

/-! Printing a configuration, the `operator<<` for described types (`dpdkx/config/io.cpp`).

It walks over the members as the loader does. All levels share the base of the stream and the counter
`prefix` of the thread, which tells how far lines are indented and stops the nesting at 0. Unsigned
integers of more than a byte are printed through `unsigned int`.

The stream has its other flags and its locale at their defaults. -/
namespace DpdkTools.Config
open Reflect
set_option autoImplicit false

/-! ## Streams -/

inductive Base where
  | dec
  | hex
  | oct
  deriving Repr, DecidableEq

def Base.radix : Base → ℕ
  | .dec => 10
  | .hex => 16
  | .oct => 8

/-- The flags of the stream and the thread's `prefix`. -/
structure Stream where
  base : Base
  indent : ℕ
  deriving Repr, DecidableEq

/-- The length of `prefixes`, with which `prefix` begins. -/
def prefixesLength : ℕ := 7

/-- What is written, with the member that it stands for. -/
inductive Piece (M : Type) where
  | text (cs : List Char)
  | leaf (field : M) (cs : List Char)
  deriving Repr, DecidableEq

section Walk
variable {M : Type}

def Piece.chars : Piece M → List Char
  | .text cs => cs
  | .leaf _ cs => cs

def render (ps : List (Piece M)) : String := String.ofList (ps.flatMap Piece.chars)

def tabs (indent : ℕ) : List Char := List.replicate (prefixesLength - indent) '\t'

def label (indent : ℕ) (name : String) : Piece M :=
  .text ('\n' :: tabs indent ++ name.toList ++ " : ".toList)

/-- The operator around the members of one record. -/
def printBraces (members : Stream → List (Piece M) × Stream) (out : Stream) :
    List (Piece M) × Stream :=
  if out.indent ≠ 0 then
    let r := members { out with indent := out.indent - 1 }
    (.text ['{'] :: r.1 ++ [.text ('\n' :: tabs (r.2.indent + 1) ++ ['}'])],
      ⟨out.base, r.2.indent + 1⟩)
  else ([.text ('\n' :: tabs out.indent ++ "\x7b...\x7d\n".toList)], out)

variable (putLeaf : M → Base → List Char × Base)

mutual

def printMember : Described M → Stream → List (Piece M) × Stream
  | .leaf name field, out =>
    ([label out.indent name, .leaf field (putLeaf field out.base).1],
      { out with base := (putLeaf field out.base).2 })
  | .record name members, out =>
    let r := printBraces (printMembers members) out
    (label out.indent name :: r.1, r.2)

def printMembers : List (Described M) → Stream → List (Piece M) × Stream
  | [], out => ([], out)
  | d :: ds, out =>
    let r := printMember d out
    let r' := printMembers ds r.2
    (r.1 ++ r'.1, r'.2)

end

/-! ## What a walk prints -/

/-- The texts that stand for members. -/
def shown (ps : List (Piece M)) : List (M × List Char) :=
  ps.filterMap fun p =>
    match p with
    | .text _ => none
    | .leaf field cs => some (field, cs)

mutual

def memberDepth : Described M → ℕ
  | .leaf _ _ => 0
  | .record _ members => depth members + 1

def depth : List (Described M) → ℕ
  | [] => 0
  | d :: ds => max (memberDepth d) (depth ds)

end

theorem shown_append (ps qs : List (Piece M)) : shown (ps ++ qs) = shown ps ++ shown qs :=
  List.filterMap_append

theorem printBraces_indent (members : Stream → List (Piece M) × Stream)
    (h : ∀ out, (members out).2.indent = out.indent) (out : Stream) :
    (printBraces members out).2 = out := by
  unfold printBraces
  split_ifs with hopen
  · have hinner := h { out with indent := out.indent - 1 }
    dsimp only at hinner ⊢
    rw [hinner, Nat.sub_add_cancel (Nat.pos_of_ne_zero hopen)]
  · rfl

theorem shown_printBraces (members : Stream → List (Piece M) × Stream) (out : Stream)
    (h : out.indent ≠ 0) :
    shown (printBraces members out).1 =
      shown (members { out with indent := out.indent - 1 }).1 := by
  rw [printBraces, if_pos h]
  dsimp only
  rw [List.cons_append, shown, List.filterMap_cons, List.filterMap_append]
  exact List.append_nil _

mutual

/-- Every level gives the indentation back as it got it. -/
theorem printMember_indent (d : Described M) (out : Stream) :
    (printMember putLeaf d out).2.indent = out.indent := by
  cases d with
  | leaf name field => rfl
  | record name members =>
    rw [printMember]
    exact congrArg Stream.indent
      (printBraces_indent _ (fun out' => printMembers_indent members out') out)

theorem printMembers_indent (ds : List (Described M)) (out : Stream) :
    (printMembers putLeaf ds out).2.indent = out.indent := by
  cases ds with
  | nil => rfl
  | cons d ds =>
    rw [printMembers]
    exact (printMembers_indent ds _).trans (printMember_indent d out)

end

mutual

/-- Where the nesting does not reach the end of the indentation, every leaf is printed, in order. -/
theorem shown_printMember (text : M → List Char) (htext : ∀ m base, (putLeaf m base).1 = text m)
    (d : Described M) (out : Stream) (h : memberDepth d ≤ out.indent) :
    shown (printMember putLeaf d out).1 = (memberLeaves d).map fun l => (l.2, text l.2) := by
  cases d with
  | leaf name field =>
    rw [printMember, memberLeaves, htext]
    rfl
  | record name members =>
    rw [memberDepth] at h
    have hopen : out.indent ≠ 0 := by omega
    have hinner := shown_printMembers text htext members { out with indent := out.indent - 1 }
      (by dsimp only; omega)
    rw [printMember, memberLeaves, List.map_map]
    dsimp only
    rw [label, shown, List.filterMap_cons]
    exact (shown_printBraces _ out hopen).trans hinner

theorem shown_printMembers (text : M → List Char) (htext : ∀ m base, (putLeaf m base).1 = text m)
    (ds : List (Described M)) (out : Stream) (h : depth ds ≤ out.indent) :
    shown (printMembers putLeaf ds out).1 = (leaves ds).map fun l => (l.2, text l.2) := by
  cases ds with
  | nil => rfl
  | cons d ds =>
    rw [depth] at h
    have hrest := shown_printMembers text htext ds (printMember putLeaf d out).2
      (by rw [printMember_indent]; omega)
    rw [printMembers, leaves, List.map_append]
    dsimp only
    rw [shown_append, shown_printMember text htext d out (by omega), hrest]

end

end Walk

/-! ## The configuration of a device -/

/-- The names of the set flags (`utils::flags::to_string`, with the table of each type). -/
structure FlagNames where
  rxOffloads : BitVec 64 → List Char
  txOffloads : BitVec 64 → List Char
  rxMetaFeatures : BitVec 64 → List Char

def putUnsigned (base : Base) (n : ℕ) : List Char := Nat.toDigits base.radix n

/-- The operators for sets of flags (`dpdkx/io.cpp`), which leave the stream at base 16. -/
def putFlags (names : BitVec 64 → List Char) (v : BitVec 64) : List Char × Base :=
  (putUnsigned .hex v.toNat ++ (if v = 0 then [] else ':' :: names v), .hex)

def putBitset (v : BitVec 64) : List Char :=
  (List.range 64).map fun i => if v.getLsbD (63 - i) then '1' else '0'

section Dump
variable (flags : FlagsParsers) (names : FlagNames) (dev : Device)

def putLeaf (m : Member) (base : Base) : List Char × Base :=
  match m.ioType with
  | .unsigned bits =>
    if 8 < bits then
      -- static_cast<unsigned int>
      let v := (dev.val m).toNat % 2 ^ 32
      if 10 ≤ (dev.val m).toNat then
        (putUnsigned .dec v ++ (" (0x".toList ++ putUnsigned .hex v ++ [')']), .hex)
      else (putUnsigned .dec v, .dec)
    else ([Char.ofNat (dev.val m).toNat], base)
  | .rxOffloads => putFlags names.rxOffloads ((dev.val m).setWidth 64)
  | .txOffloads => putFlags names.txOffloads ((dev.val m).setWidth 64)
  | .rxMetaFeatures => putFlags names.rxMetaFeatures ((dev.val m).setWidth 64)
  | .bitset => (putBitset ((dev.val m).setWidth 64), base)

def printDevice (out : Stream) : List (Piece Member) × Stream :=
  printBraces (printMembers (putLeaf names dev) describeDevice) out

/-- The decimal digits that a text begins with. -/
def shownDecimal (cs : List Char) : List Char := cs.takeWhile Char.isDigit

/-- A text shows the value of a leaf: in decimal, from 10 on in hexadecimal as well, and so that the
loader reads it back. -/
structure ShowsLeaf (l : List String × Member) (cs : List Char) : Prop where
  decimal : Numerals.decimal? (shownDecimal cs) = some (dev.val l.2).toNat
  small : (dev.val l.2).toNat < 10 → cs = shownDecimal cs
  hexadecimal : 10 ≤ (dev.val l.2).toNat → ∃ hex,
    cs = shownDecimal cs ++ (" (0x".toList ++ hex ++ [')']) ∧
      Numerals.value 16 Numerals.hexDigit hex = (dev.val l.2).toNat
  accepted : parseValue flags l.2 (String.ofList (shownDecimal cs)) = .ok (dev.val l.2)
  reloaded : ∀ (options : String → Option String) (path : String) (before after : Device),
    options (memberKey path l.1) = some (String.ofList (shownDecimal cs)) →
      before.loadValue flags options path = .ok after → after.val l.2 = dev.val l.2

/-- What printing on a stream with `prefix` at its beginning should do. -/
structure Dumped (base : Base) : Prop where
  printed : (shown (printDevice names dev ⟨base, prefixesLength⟩).1).map Prod.fst =
    (leaves describeDevice).map Prod.snd
  faithful : ∀ l ∈ leaves describeDevice, l.2.isUnsigned = true →
    ∀ cs, (l.2, cs) ∈ shown (printDevice names dev ⟨base, prefixesLength⟩).1 →
      ShowsLeaf flags dev l cs
  restored : (printDevice names dev ⟨base, prefixesLength⟩).2 = ⟨base, prefixesLength⟩

/-! ## The text of a leaf -/

theorem putLeaf_text (m : Member) (base : Base) :
    (putLeaf names dev m base).1 = (putLeaf names dev m .dec).1 := by
  unfold putLeaf
  cases m.ioType with
  | unsigned bits =>
    dsimp only
    split_ifs
    all_goals rfl
  | _ => rfl

theorem innerType_wide (m : Member) : 8 < innerType m.width ∧ m.width ≤ innerType m.width := by
  have hwidth : m.width = 8 ∨ 16 ≤ m.width := by
    unfold Member.width DevInfo.width Rxconf.width Txconf.width
    split
    all_goals try split
    all_goals try split
    all_goals simp
  unfold innerType
  split_ifs with h
  · omega
  · omega

/-- What stands for an unsigned leaf. -/
def unsignedText (n : ℕ) : List Char :=
  if 10 ≤ n then
    Nat.toDigits 10 (n % 2 ^ 32) ++ (" (0x".toList ++ Nat.toDigits 16 (n % 2 ^ 32) ++ [')'])
  else Nat.toDigits 10 (n % 2 ^ 32)

theorem putLeaf_unsigned (m : Member) (hu : m.isUnsigned = true) (base : Base) :
    (putLeaf names dev m base).1 = unsignedText (dev.val m).toNat := by
  rw [putLeaf, (isUnsigned_iff m).mp hu]
  dsimp only
  rw [if_pos (innerType_wide m).1, unsignedText]
  split_ifs
  all_goals rfl

theorem shownDecimal_unsignedText (n : ℕ) :
    shownDecimal (unsignedText n) = Nat.toDigits 10 (n % 2 ^ 32) := by
  have hdigits : ∀ c ∈ Nat.toDigits 10 (n % 2 ^ 32), c.isDigit = true := fun c hc =>
    Nat.isDigit_of_mem_toDigits (by decide) (by decide) hc
  unfold shownDecimal unsignedText
  split_ifs
  · rw [List.takeWhile_append_of_pos hdigits]
    exact List.append_nil _
  · exact List.takeWhile_eq_self_iff.mpr hdigits

theorem shown_printDevice (base : Base) :
    shown (printDevice names dev ⟨base, prefixesLength⟩).1 =
      (leaves describeDevice).map fun l => (l.2, (putLeaf names dev l.2 .dec).1) := by
  have hdepth : depth describeDevice = 3 := rfl
  rw [printDevice, shown_printBraces _ _ (by simp [prefixesLength])]
  exact shown_printMembers (putLeaf names dev) (fun m => (putLeaf names dev m .dec).1)
    (putLeaf_text names dev) describeDevice _ (hdepth.trans_le (Nat.le_add_left 3 3))

theorem mem_shown (l : List String × Member) (hl : l ∈ leaves describeDevice)
    (hu : l.2.isUnsigned = true) (base : Base) :
    (l.2, unsignedText (dev.val l.2).toNat) ∈
      shown (printDevice names dev ⟨base, prefixesLength⟩).1 := by
  rw [shown_printDevice, ← putLeaf_unsigned names dev l.2 hu .dec]
  exact List.mem_map.mpr ⟨l, hl, rfl⟩

/-- Of a larger value the decimal number is not the value any more. -/
theorem fits_of_dumped (base : Base) (h : Dumped flags names dev base) (l : List String × Member)
    (hl : l ∈ leaves describeDevice) (hu : l.2.isUnsigned = true) : (dev.val l.2).toNat < 2 ^ 32 := by
  have hdec := (h.faithful l hl hu _ (mem_shown names dev l hl hu base)).decimal
  rw [shownDecimal_unsignedText, Numerals.decimal?_toDigits] at hdec
  have hsame := Option.some.inj hdec
  omega

theorem showsLeaf_of_lt (l : List String × Member) (hl : l ∈ leaves describeDevice)
    (hu : l.2.isUnsigned = true) (hlt : (dev.val l.2).toNat < 2 ^ 32) :
    ShowsLeaf flags dev l (unsignedText (dev.val l.2).toNat) := by
  have hdec := shownDecimal_unsignedText (dev.val l.2).toNat
  rw [Nat.mod_eq_of_lt hlt] at hdec
  have hnumber : numberOf (String.ofList (Nat.toDigits 10 (dev.val l.2).toNat)) =
      some (dev.val l.2).toNat := by
    rw [numberOf, String.toList_ofList]
    exact Numerals.decimal?_toDigits _
  have haccepted : parseValue flags l.2 (String.ofList (Nat.toDigits 10 (dev.val l.2).toNat)) =
      .ok (dev.val l.2) := by
    have hfits : (dev.val l.2).toNat < 2 ^ innerType l.2.width :=
      (dev.val l.2).isLt.trans_le (Nat.pow_le_pow_right (by decide) (innerType_wide l.2).2)
    rw [parseValue_unsigned flags l.2 _ hu,
      (parseUnsigned_ok_iff _ _ (dev.val l.2).toNat).mpr ⟨hnumber, hfits⟩]
    change Except.ok (BitVec.ofNat l.2.width (dev.val l.2).toNat) = _
    rw [BitVec.ofNat_toNat, BitVec.setWidth_eq]
  refine ⟨?_, ?_, ?_, ?_, ?_⟩
  · rw [hdec]
    exact Numerals.decimal?_toDigits _
  · intro hsmall
    rw [hdec, unsignedText, if_neg (Nat.not_le.mpr hsmall), Nat.mod_eq_of_lt hlt]
  · intro hlarge
    refine ⟨Nat.toDigits 16 (dev.val l.2).toNat, ?_, Numerals.hexValue_toDigits _⟩
    rw [hdec, unsignedText, if_pos hlarge, Nat.mod_eq_of_lt hlt]
  · rw [hdec]
    exact haccepted
  · intro options path before after htext hload
    rw [hdec] at htext
    obtain ⟨val, rfl, hval⟩ := before.loadValue_ok flags options path after hload
    have hdenoted : denoted flags options (memberKey path l.1) l.2 = some (dev.val l.2) := by
      simp [denoted, readOption, htext, haccepted]
    change val l.2 = _
    rw [hval l hl, hdenoted, Option.getD_some]

/-- A configuration is printed faithfully exactly when every unsigned leaf fits in `unsigned int`. -/
theorem dumped_iff (base : Base) :
    Dumped flags names dev base ↔
      ∀ l ∈ leaves describeDevice, l.2.isUnsigned = true → (dev.val l.2).toNat < 2 ^ 32 := by
  have hshown := shown_printDevice names dev base
  constructor
  · intro h l hl hu
    exact fits_of_dumped flags names dev base h l hl hu
  · intro h
    refine ⟨?_, ?_, ?_⟩
    · rw [hshown, List.map_map]
      rfl
    · intro l hl hu cs hcs
      rw [hshown] at hcs
      obtain ⟨l', hl', heq⟩ := List.mem_map.mp hcs
      obtain ⟨hfield, rfl⟩ := Prod.mk.inj heq
      rw [hfield, putLeaf_unsigned names dev l.2 hu .dec]
      exact showsLeaf_of_lt flags dev l hl hu (h l hl hu)
    · exact printBraces_indent _ (printMembers_indent (putLeaf names dev) describeDevice) _

end Dump

/-! ## A fast clock -/

/-- No flag has a name. -/
def noNames : FlagNames := ⟨fun _ => [], fun _ => [], fun _ => []⟩

example : render (printMembers (putLeaf noNames igcDevice)
    [.record "default_rxportconf" (Portconf.describe fun m => .info (.defaultRxportconf m))]
      ⟨.dec, 5⟩).1 =
    "\n\t\tdefault_rxportconf : \x7b\n\t\t\tburst_size : 0\n\t\t\tring_size : 0\n\t\t\tnb_queues : 0\n\t\t\x7d" :=
  rfl

def fastClock : Config.Device := igcDevice.set .clockHz (BitVec.ofNat 64 10000000000)

/-- A clock of 10 GHz is printed as one of 1.4 GHz. -/
theorem fastClock_cut :
    ¬ Dumped cksumFlags noNames fastClock .dec ∧
      (Member.clockHz, "1410065408 (0x540be400)".toList) ∈
        shown (printDevice noNames fastClock ⟨.dec, prefixesLength⟩).1 := by
  have hdescribed : (["clock_hz"], Member.clockHz) ∈ leaves describeDevice := by decide
  have hvalue : (fastClock.val .clockHz).toNat = 10000000000 := by decide
  have hshown := mem_shown noNames fastClock (["clock_hz"], .clockHz) hdescribed (by decide) .dec
  dsimp only at hshown
  rw [hvalue] at hshown
  refine ⟨?_, hshown⟩
  intro h
  have hfits := fits_of_dumped cksumFlags noNames fastClock .dec h (["clock_hz"], .clockHz) hdescribed
    (by decide)
  dsimp only at hfits
  omega

end DpdkTools.Config
