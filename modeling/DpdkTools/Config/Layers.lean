import DpdkTools.Config.Offloads
import DpdkTools.Lib.Numerals

/-! The two layers of options of a device: the texts under the key of its driver, and over them the
texts under the key of its MAC address (`devices_configuration`, `load_value_as`).

Every text is read by the parser of the leaf's `io_type`. For a leaf of eight bits this is the parser
of `unsigned int`, and what it reads is cut down to eight bits. -/
namespace DpdkTools.Config
open Reflect
set_option autoImplicit false

/-! ## The two layers -/

section Layers
variable (flags : FlagsParsers) (options : String → Option String)

/-- The two calls of `load_value` and the readings of `features` beside them. -/
def Device.loadLayers (dev : Device) : Except LoadError Device := do
  let dev ← dev.loadKey flags options dev.driverName
  dev.loadKey flags options (deviceKey dev.macAddr)

/-- The field and its `io_type` are unsigned integers. -/
def Member.isUnsigned (m : Member) : Bool :=
  match m.ioType with
  | .unsigned _ => true
  | _ => false

/-- The decimal number that a text denotes in full. -/
def numberOf (text : String) : Option ℕ := Numerals.decimal? text.toList

/-- A text under one of the two keys of a leaf. -/
def Present (dev : Device) (l : List String × Member) (text : String) : Prop :=
  options (memberKey dev.driverName l.1) = some text ∨
    options (memberKey (deviceKey dev.macAddr) l.1) = some text

/-- A text that the leaf must not take: no decimal number in the range of an unsigned leaf; for the
other leaves, what their parsers refuse. -/
def Refused (m : Member) (text : String) : Prop :=
  if m.isUnsigned then ∀ n, numberOf text = some n → 2 ^ m.width ≤ n
  else ∃ failure, parseValue flags m text = .error failure

/-- The number that a leaf should hold after both layers. -/
def layeredNumber (dev : Device) (l : List String × Member) : Option ℕ :=
  match options (memberKey (deviceKey dev.macAddr) l.1), options (memberKey dev.driverName l.1) with
  | some text, _ => numberOf text
  | none, some text => numberOf text
  | none, none => some (dev.val l.2).toNat

/-- The layers lie over each other as they should, and a load throws exactly on texts that must not
be taken. -/
structure Layered (dev : Device) : Prop where
  values : ∀ dev', dev.loadLayers flags options = .ok dev' →
    ∀ l ∈ leaves describeDevice, l.2.isUnsigned = true →
      some (dev'.val l.2).toNat = layeredNumber options dev l
  throws : (∃ e, dev.loadLayers flags options = .error e) ↔
    ∃ l ∈ leaves describeDevice, ∃ text, Present options dev l text ∧ Refused flags l.2 text

/-- A number that `unsigned int` holds and a byte does not, for a leaf of one byte. -/
def Overlong (m : Member) (text : String) : Prop :=
  m.width = 8 ∧ ∃ n, numberOf text = some n ∧ 2 ^ 8 ≤ n ∧ n < 2 ^ 32

/-! ## One text -/

theorem parseUnsigned_ok_iff (bits : ℕ) (text : String) (n : ℕ) :
    parseUnsigned bits text = .ok n ↔ numberOf text = some n ∧ n < 2 ^ bits := by
  have hparse : parseUnsigned bits text =
      if text.toList.takeWhile Char.isDigit = [] ∨ 2 ^ bits ≤
          Numerals.value 10 Numerals.decDigit (text.toList.takeWhile Char.isDigit) then
        .error (.expectation 0)
      else if (text.toList.takeWhile Char.isDigit).length < text.toList.length then .error .incomplete
      else .ok (Numerals.value 10 Numerals.decDigit (text.toList.takeWhile Char.isDigit)) := rfl
  rw [hparse]
  constructor
  · intro h
    split_ifs at h with hfail hrest
    rw [not_or] at hfail
    obtain rfl := Except.ok.inj h
    exact ⟨Numerals.decimal?_of_takeWhile text.toList hfail.1 (Nat.not_lt.mp hrest),
      Nat.not_le.mp hfail.2⟩
  · rintro ⟨hnumber, hlt⟩
    obtain ⟨hself, hne, hvalue⟩ := Numerals.takeWhile_isDigit text.toList n hnumber
    rw [hself, hvalue, if_neg (by rw [not_or]; exact ⟨hne, Nat.not_le.mpr hlt⟩),
      if_neg (Nat.lt_irrefl _)]

theorem ioType_unsigned (m : Member) (bits : ℕ) (h : m.ioType = .unsigned bits) :
    bits = innerType m.width := by
  unfold Member.ioType at h
  split at h
  all_goals cases h
  rfl

theorem isUnsigned_iff (m : Member) : m.isUnsigned = true ↔ m.ioType = .unsigned (innerType m.width) := by
  unfold Member.isUnsigned
  cases h : m.ioType with
  | unsigned bits =>
    obtain rfl := ioType_unsigned m bits h
    exact iff_of_true rfl rfl
  | _ => exact iff_of_false (by simp) (by simp)

theorem isUnsigned_of_byte (m : Member) (h : m.width = 8) : m.isUnsigned = true := by
  rw [isUnsigned_iff]
  unfold Member.ioType
  split
  all_goals try cases h
  rfl

theorem parseValue_unsigned (m : Member) (text : String) (h : m.isUnsigned = true) :
    parseValue flags m text =
      (parseUnsigned (innerType m.width) text).map (BitVec.ofNat m.width) := by
  rw [parseValue, (isUnsigned_iff m).mp h]

theorem parseValue_error_iff (m : Member) (text : String) :
    (∃ failure, parseValue flags m text = .error failure) ↔
      Refused flags m text ∧ ¬ Overlong m text := by
  by_cases hu : m.isUnsigned = true
  · rw [parseValue_unsigned flags m text hu, Refused, if_pos hu]
    have hparse := parseUnsigned_ok_iff (innerType m.width) text
    have herror : (∃ failure, (parseUnsigned (innerType m.width) text).map (BitVec.ofNat m.width) =
        .error failure) ↔ ∀ n, numberOf text = some n → 2 ^ innerType m.width ≤ n := by
      cases hres : parseUnsigned (innerType m.width) text with
      | error failure =>
        refine iff_of_true ⟨failure, rfl⟩ ?_
        intro n hn
        by_contra hlt
        have hok := (hparse n).mpr ⟨hn, Nat.not_le.mp hlt⟩
        rw [hres] at hok
        cases hok
      | ok n =>
        obtain ⟨hn, hlt⟩ := (hparse n).mp hres
        refine iff_of_false ?_ (fun h => absurd (h n hn) (Nat.not_le.mpr hlt))
        rintro ⟨failure, h⟩
        cases h
    rw [herror]
    unfold Overlong innerType
    by_cases hbyte : m.width = 8
    · rw [if_pos hbyte, hbyte]
      constructor
      · intro h
        refine ⟨fun n hn => le_trans (by decide) (h n hn), ?_⟩
        rintro ⟨_, n, hn, _, hlt⟩
        exact absurd (h n hn) (Nat.not_le.mpr hlt)
      · rintro ⟨h, hshort⟩ n hn
        by_contra hlt
        exact hshort ⟨rfl, n, hn, h n hn, Nat.not_le.mp hlt⟩
    · rw [if_neg hbyte]
      exact ⟨fun h => ⟨h, fun hover => hbyte hover.1⟩, fun h => h.1⟩
  · have hwide : ¬ Overlong m text := by
      rintro ⟨hbyte, _⟩
      exact hu (isUnsigned_of_byte m hbyte)
    rw [Refused, if_neg hu]
    exact ⟨fun h => ⟨h, hwide⟩, fun h => h.1⟩

/-! ## All texts -/

/-- Every text under one key is accepted. -/
def Accepted (path : String) : Prop :=
  ∀ l ∈ leaves describeDevice, ∀ text, options (memberKey path l.1) = some text →
    ¬ ∃ failure, parseValue flags l.2 text = .error failure

theorem readOption_ok_iff (path : String) (m : Member) :
    (∃ r, readOption flags options path m = .ok r) ↔
      ∀ text, options path = some text → ¬ ∃ failure, parseValue flags m text = .error failure := by
  unfold readOption
  cases hopt : options path with
  | none => exact iff_of_true ⟨none, rfl⟩ (fun text h => by cases h)
  | some text =>
    cases hparse : parseValue flags m text with
    | ok v =>
      refine iff_of_true ⟨some v, by simp [hparse]⟩ ?_
      rintro text' h ⟨failure, hf⟩
      obtain rfl := Option.some.inj h
      rw [hparse] at hf
      cases hf
    | error failure =>
      refine iff_of_false ?_ (fun h => h text rfl ⟨failure, hparse⟩)
      rintro ⟨r, h⟩
      simp [hparse] at h

theorem features_described : (["features"], Member.features) ∈ leaves describeDevice := by
  simp [describeDevice, leaves, memberLeaves]

/-- The second reading of `features` meets the text that the walk has met. -/
theorem loadKey_ok_iff (path : String) (dev : Device) :
    (∃ dev', dev.loadKey flags options path = .ok dev') ↔ Accepted flags options path := by
  have hwalk := loadMembers_ok_iff (readOption flags options) describeDevice path dev.val
  simp only [readOption_ok_iff] at hwalk
  constructor
  · rintro ⟨dev', h⟩
    rw [Device.loadKey, bind_eq_ok] at h
    obtain ⟨mid, hmid, _⟩ := h
    rw [Device.loadValue, bind_eq_ok] at hmid
    obtain ⟨val, hval, _⟩ := hmid
    exact hwalk.mp ⟨val, hval⟩
  · intro h
    obtain ⟨val, hval⟩ := hwalk.mpr h
    have hkey : memberKey path ["features"] = path ++ ".features" := by
      change path ++ "." ++ "features" = path ++ ".features"
      rw [String.append_assoc]
      rfl
    have hread := (readOption_ok_iff flags options (memberKey path ["features"]) .features).mpr
      (h (["features"], .features) features_described)
    obtain ⟨r, hr⟩ := hread
    rw [hkey] at hr
    have hmid : dev.loadValue flags options path = .ok { dev with val := val } := by
      rw [Device.loadValue, hval]
      rfl
    have hfeatures : ∃ dev', ({ dev with val := val } : Config.Device).loadFeatures flags options path =
        .ok dev' := by
      cases r with
      | none => exact ⟨_, by rw [Device.loadFeatures, hr]; rfl⟩
      | some v => exact ⟨_, by rw [Device.loadFeatures, hr]; rfl⟩
    obtain ⟨dev', hdev'⟩ := hfeatures
    refine ⟨dev', ?_⟩
    rw [Device.loadKey, bind_eq_ok]
    exact ⟨_, hmid, hdev'⟩

theorem loadLayers_ok_iff (dev : Device) :
    (∃ dev', dev.loadLayers flags options = .ok dev') ↔
      Accepted flags options dev.driverName ∧ Accepted flags options (deviceKey dev.macAddr) := by
  constructor
  · rintro ⟨dev', h⟩
    rw [Device.loadLayers, bind_eq_ok] at h
    obtain ⟨mid, hmid, h⟩ := h
    obtain ⟨val, rfl, _⟩ := dev.loadKey_ok flags options _ mid hmid
    exact ⟨(loadKey_ok_iff flags options _ dev).mp ⟨_, hmid⟩,
      (loadKey_ok_iff flags options _ _).mp ⟨dev', h⟩⟩
  · rintro ⟨hdrv, hdev⟩
    obtain ⟨mid, hmid⟩ := (loadKey_ok_iff flags options dev.driverName dev).mpr hdrv
    obtain ⟨val, rfl, _⟩ := dev.loadKey_ok flags options _ mid hmid
    obtain ⟨dev', hdev'⟩ := (loadKey_ok_iff flags options (deviceKey dev.macAddr)
      { dev with val := val }).mpr hdev
    refine ⟨dev', ?_⟩
    rw [Device.loadLayers, bind_eq_ok]
    exact ⟨_, hmid, hdev'⟩

theorem loadLayers_error_iff (dev : Device) :
    (∃ e, dev.loadLayers flags options = .error e) ↔
      ∃ l ∈ leaves describeDevice, ∃ text, Present options dev l text ∧
        Refused flags l.2 text ∧ ¬ Overlong l.2 text := by
  have hsplit : (∃ e, dev.loadLayers flags options = .error e) ↔
      ¬ ∃ dev', dev.loadLayers flags options = .ok dev' := by
    cases h : dev.loadLayers flags options with
    | error e => exact iff_of_true ⟨e, rfl⟩ (by rintro ⟨_, h⟩; cases h)
    | ok dev' => exact iff_of_false (by rintro ⟨_, h⟩; cases h) (fun h => h ⟨dev', rfl⟩)
  rw [hsplit, loadLayers_ok_iff]
  constructor
  · intro h
    by_contra hnone
    apply h
    constructor
    · intro l hl text htext herror
      exact hnone ⟨l, hl, text, Or.inl htext, (parseValue_error_iff flags l.2 text).mp herror⟩
    · intro l hl text htext herror
      exact hnone ⟨l, hl, text, Or.inr htext, (parseValue_error_iff flags l.2 text).mp herror⟩
  · rintro ⟨l, hl, text, hpresent, hbad⟩ ⟨hdrv, hdev⟩
    have herror := (parseValue_error_iff flags l.2 text).mpr hbad
    rcases hpresent with htext | htext
    · exact hdrv l hl text htext herror
    · exact hdev l hl text htext herror

/-! ## The values -/

theorem denoted_none (path : String) (m : Member) (h : options path = none) :
    denoted flags options path m = none := by
  simp [denoted, readOption, h]

theorem denoted_number (path : String) (m : Member) (text : String) (hu : m.isUnsigned = true)
    (htext : options path = some text) (hok : ¬ ∃ failure, parseValue flags m text = .error failure)
    (hshort : ¬ Overlong m text) :
    ∃ v, denoted flags options path m = some v ∧ numberOf text = some v.toNat := by
  cases hparse : parseValue flags m text with
  | error failure => exact absurd ⟨failure, hparse⟩ hok
  | ok v =>
    refine ⟨v, by simp [denoted, readOption, htext, hparse], ?_⟩
    rw [parseValue_unsigned flags m text hu] at hparse
    cases hnumber : parseUnsigned (innerType m.width) text with
    | error failure => simp [hnumber, Except.map] at hparse
    | ok n =>
      obtain ⟨hn, hlt⟩ := (parseUnsigned_ok_iff _ _ _).mp hnumber
      have hfits : n < 2 ^ m.width := by
        by_cases hbyte : m.width = 8
        · rw [innerType, if_pos hbyte] at hlt
          rw [hbyte]
          by_contra hlong
          exact hshort ⟨hbyte, n, hn, Nat.not_lt.mp hlong, hlt⟩
        · rw [innerType, if_neg hbyte] at hlt
          exact hlt
      rw [hnumber] at hparse
      obtain rfl : BitVec.ofNat m.width n = v := Except.ok.inj hparse
      rw [hn, BitVec.toNat_ofNat, Nat.mod_eq_of_lt hfits]

theorem loadLayers_values (dev dev' : Device) (h : dev.loadLayers flags options = .ok dev')
    (hshort : ∀ l ∈ leaves describeDevice, ∀ text, Present options dev l text → ¬ Overlong l.2 text)
    (l : List String × Member) (hl : l ∈ leaves describeDevice) (hu : l.2.isUnsigned = true) :
    some (dev'.val l.2).toNat = layeredNumber options dev l := by
  obtain ⟨hdrv, hdev⟩ := (loadLayers_ok_iff flags options dev).mp ⟨dev', h⟩
  rw [Device.loadLayers, bind_eq_ok] at h
  obtain ⟨mid, hmid, h⟩ := h
  have hsame : mid.macAddr = dev.macAddr := by
    obtain ⟨val, rfl, _⟩ := dev.loadKey_ok flags options _ mid hmid
    rfl
  obtain ⟨val, rfl, hval⟩ := loadKeys_layered flags options dev mid dev' hmid (hsame ▸ h)
  have hne : l.2 ≠ .features := by
    intro he
    rw [he] at hu
    exact absurd hu (by decide)
  change some (val l.2).toNat = _
  rw [hval l hl hne, layered, layeredNumber]
  cases hdevText : options (memberKey (deviceKey dev.macAddr) l.1) with
  | some text =>
    obtain ⟨v, hv, hnumber⟩ := denoted_number flags options _ l.2 text hu hdevText
      (hdev l hl text hdevText) (hshort l hl text (Or.inr hdevText))
    rw [hv, Option.getD_some, ← hnumber]
  | none =>
    rw [denoted_none flags options _ l.2 hdevText, Option.getD_none]
    cases hdrvText : options (memberKey dev.driverName l.1) with
    | some text =>
      obtain ⟨v, hv, hnumber⟩ := denoted_number flags options _ l.2 text hu hdrvText
        (hdrv l hl text hdrvText) (hshort l hl text (Or.inl hdrvText))
      rw [hv, Option.getD_some, ← hnumber]
    | none => rw [denoted_none flags options _ l.2 hdrvText, Option.getD_none]

theorem refused_of_overlong (m : Member) (text : String) (hu : m.isUnsigned = true)
    (h : Overlong m text) : Refused flags m text := by
  obtain ⟨hbyte, n, hn, hlong, _⟩ := h
  rw [Refused, if_pos hu, hbyte]
  intro k hk
  obtain rfl := Option.some.inj (hn.symm.trans hk)
  exact hlong

/-- A round of `devices_configuration` between the answers of DPDK and the fixes. -/
theorem deviceConfiguration_layers (port : Port) (mac : List UInt8) (driverName : String)
    (info : (m : DevInfo) → BitVec m.width) (hmac : port.macaddrGet = some mac)
    (hinfo : port.devInfoGet = some (driverName, info)) :
    deviceConfiguration flags options port =
      (((⟨port.socketId, port.portId, mac, driverName, initialValue info⟩ :
        Config.Device).loadLayers flags options).mapError .load).map
          fun dev => dev.fixNbQueues.maskOffloads.negotiate port := by
  rw [deviceConfiguration, hmac, hinfo]
  dsimp only
  rw [Device.loadLayers]
  cases hdrv : Device.loadKey flags options driverName
      ⟨port.socketId, port.portId, mac, driverName, initialValue info⟩ with
  | error e => rfl
  | ok mid =>
    change Except.bind (Except.mapError _ (mid.loadKey flags options _)) _ =
      Except.map _ (Except.mapError _ (mid.loadKey flags options _))
    cases mid.loadKey flags options (deviceKey mid.macAddr) with
    | error e => rfl
    | ok dev' => rfl

/-- Options are layered as described exactly when no leaf of one byte has a text between 256 and the
largest `unsigned int`, or some other text ends the load. -/
theorem layered_iff (dev : Device) :
    Layered flags options dev ↔
      (∀ l ∈ leaves describeDevice, ∀ text, Present options dev l text → ¬ Overlong l.2 text) ∨
        ∃ l ∈ leaves describeDevice, ∃ text, Present options dev l text ∧
          Refused flags l.2 text ∧ ¬ Overlong l.2 text := by
  have herror := loadLayers_error_iff flags options dev
  constructor
  · intro h
    by_contra hneither
    rw [not_or] at hneither
    obtain ⟨hlong, hother⟩ := hneither
    apply hother
    rw [← herror]
    apply h.throws.mpr
    by_contra hnone
    apply hlong
    intro l hl text hpresent hover
    exact hnone ⟨l, hl, text, hpresent,
      refused_of_overlong flags l.2 text (isUnsigned_of_byte l.2 hover.1) hover⟩
  · rintro (hshort | hother)
    · refine ⟨fun dev' h => loadLayers_values flags options dev dev' h hshort, ?_⟩
      rw [herror]
      constructor
      · rintro ⟨l, hl, text, hpresent, hbad, _⟩
        exact ⟨l, hl, text, hpresent, hbad⟩
      · rintro ⟨l, hl, text, hpresent, hbad⟩
        exact ⟨l, hl, text, hpresent, hbad, hshort l hl text hpresent⟩
    · obtain ⟨e, he⟩ := herror.mpr hother
      refine ⟨?_, iff_of_true ⟨e, he⟩ ?_⟩
      · intro dev' h
        rw [he] at h
        cases h
      · obtain ⟨l, hl, text, hpresent, hbad, _⟩ := hother
        exact ⟨l, hl, text, hpresent, hbad⟩

end Layers

/-! ## A text for a flag -/

def dropEnOption (key : String) : Option String :=
  if key = "net_igc.info.default_rxconf.rx_drop_en" then some "300" else none

def igcDevice : Device := ⟨0, 0, [0, 1, 2, 3, 4, 5], "net_igc", initialValue igcInfo⟩

/-- 300 is taken for `rx_drop_en`, as 44. -/
theorem rx_drop_en_cut : ¬ Layered cksumFlags dropEnOption igcDevice ∧
    ∃ dev', igcDevice.loadLayers cksumFlags dropEnOption = .ok dev' ∧
      (dev'.val (.info (.defaultRxconf .rxDropEn))).toNat = 44 := by
  have hload : ∃ dev', igcDevice.loadLayers cksumFlags dropEnOption = .ok dev' ∧
      (dev'.val (.info (.defaultRxconf .rxDropEn))).toNat = 44 := ⟨_, rfl, rfl⟩
  refine ⟨?_, hload⟩
  intro h
  obtain ⟨dev', hdev', _⟩ := hload
  have hdescribed : (["info", "default_rxconf", "rx_drop_en"],
      Member.info (.defaultRxconf .rxDropEn)) ∈ leaves describeDevice := by decide
  have hrefused : Refused cksumFlags (.info (.defaultRxconf .rxDropEn)) "300" := by
    rw [Refused, if_pos (by decide)]
    intro n hn
    obtain rfl : 300 = n := Option.some.inj ((by decide : numberOf "300" = some 300).symm.trans hn)
    decide
  obtain ⟨e, he⟩ := h.throws.mpr ⟨_, hdescribed, "300", Or.inl (by decide), hrefused⟩
  rw [hdev'] at he
  cases he

end DpdkTools.Config
