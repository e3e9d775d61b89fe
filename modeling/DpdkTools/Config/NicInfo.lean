import Mathlib.Data.List.TakeWhile
import DpdkTools.Config.Device
import DpdkTools.Lib.Upserts

/-! The names and the ip addresses of NICs: `get_nic_info`, and what `devices_configuration` takes
from it for a device (`dpdkx/config/program_options.cpp`).

`utils::net::get_nic_info` comes from another repository: the NICs of the system are an input. -/
namespace DpdkTools.Config
open Upserts
set_option autoImplicit false

abbrev In6Addr := Vector UInt8 16

/-- `utils::net::nic_info`, as far as it is read. -/
structure NicInfo where
  name : String
  mac : List UInt8
  ipv4 : List (BitVec 32)
  ipv6 : List In6Addr
  deriving DecidableEq

/-- The options in the order of their keys. -/
abbrev VariablesMap := List (String × String)

/-- `rte_ether_unformat_addr`, and `inet_pton` for the two families. -/
structure AddressParsers where
  rteEtherUnformatAddr : String → Option (List UInt8)
  inetPton : String → Option (BitVec 32)
  inetPton6 : String → Option In6Addr

/-! ## Keys -/

/-- The text between `nic.` and the first dot behind it, where the rest of the key is `.ip`. -/
def nicOfKey (key : String) : Option String :=
  if "nic.".toList <+: key.toList then
    let rest := key.toList.drop "nic.".length
    if rest.dropWhile (· ≠ '.') = ".ip".toList then
      some (String.ofList (rest.takeWhile (· ≠ '.')))
    else none
  else none

theorem nicOfKey_eq_some_iff (key nic : String) :
    nicOfKey key = some nic ↔ key = "nic." ++ nic ++ ".ip" ∧ '.' ∉ nic.toList := by
  unfold nicOfKey
  dsimp only
  constructor
  · intro h
    split_ifs at h with hprefix hip
    obtain ⟨rest, hrest⟩ := hprefix
    have hdrop : key.toList.drop "nic.".length = rest := by
      rw [← hrest]
      exact List.drop_left
    rw [hdrop] at h hip
    cases h
    have hnic : (String.ofList (rest.takeWhile (· ≠ '.'))).toList = rest.takeWhile (· ≠ '.') :=
      String.toList_ofList
    refine ⟨?_, ?_⟩
    · apply String.toList_inj.mp
      rw [String.toList_append, String.toList_append, hnic, List.append_assoc, ← hip,
        List.takeWhile_append_dropWhile, hrest]
    · intro hdot
      rw [hnic] at hdot
      simpa using List.mem_takeWhile_imp hdot
  · rintro ⟨rfl, hdot⟩
    have hkey : ("nic." ++ nic ++ ".ip").toList =
        "nic.".toList ++ (nic.toList ++ ".ip".toList) := by
      rw [String.toList_append, String.toList_append, List.append_assoc]
    have hdrop : ("nic." ++ nic ++ ".ip").toList.drop "nic.".length =
        nic.toList ++ ".ip".toList := by
      rw [hkey]
      exact List.drop_left
    have hnic : ∀ c ∈ nic.toList, decide (c ≠ '.') = true := by
      intro c hc
      exact decide_eq_true (fun heq => hdot (heq ▸ hc))
    have hip : (nic.toList ++ ".ip".toList).dropWhile (· ≠ '.') = ".ip".toList := by
      rw [List.dropWhile_append_of_pos hnic]
      rfl
    have htake : (nic.toList ++ ".ip".toList).takeWhile (· ≠ '.') = nic.toList := by
      rw [List.takeWhile_append_of_pos hnic]
      exact List.append_nil _
    rw [if_pos (hkey ▸ List.prefix_append _ _), hdrop, if_pos hip, htake, String.ofList_toList]

example : nicOfKey "nic.02:AB.ip" = some "02:AB" := by decide
example : nicOfKey "nic.02:AB.ip6" = none := by decide

/-! ## The loop over the options -/

/-- What the options say of one NIC. -/
structure NicOptions where
  mac : List UInt8
  ipv4 : BitVec 32
  ipv6 : Option In6Addr
  name : Option String
  deriving DecidableEq

section Nics
variable (parsers : AddressParsers) (options : VariablesMap)

/-- One round of the loop, up to the search for the NIC; `none` where it goes on with the next key.
The other options of the NIC are read under the text of this key only. -/
def readNic (entry : String × String) : Option NicOptions :=
  (nicOfKey entry.1).bind fun nic =>
    (parsers.rteEtherUnformatAddr nic).bind fun mac =>
      (parsers.inetPton entry.2).map fun ipv4 =>
        { mac := mac
          ipv4 := ipv4
          ipv6 := (options.lookup ("nic." ++ nic ++ ".ip6")).bind parsers.inetPton6
          name := options.lookup ("nic." ++ nic ++ ".name") }

namespace NicOptions

def freshInfo (o : NicOptions) : NicInfo := { name := "", mac := o.mac, ipv4 := [], ipv6 := [] }

def assign (o : NicOptions) (info : NicInfo) : NicInfo where
  name := o.name.getD info.name
  mac := info.mac
  ipv4 := [o.ipv4]
  ipv6 := match o.ipv6 with
    | some address => [address]
    | none => info.ipv6

theorem mac_freshInfo (o : NicOptions) : o.freshInfo.mac = o.mac := rfl

theorem mac_assign (o : NicOptions) (info : NicInfo) : (o.assign info).mac = info.mac := rfl

def update (o : NicOptions) : Update NicInfo.mac where
  target := o.mac
  fresh := o.freshInfo
  change := o.assign
  key_fresh := o.mac_freshInfo
  key_change := o.mac_assign

end NicOptions

/-- `nicsInfo` is what `utils::net::get_nic_info` returns. -/
def getNicInfo (nicsInfo : List NicInfo) : List NicInfo :=
  options.foldl (fun nicsInfo entry =>
    match readNic parsers options entry with
    | some o => upsert o.update nicsInfo
    | none => nicsInfo) nicsInfo

/-! ## What a device takes from it -/

/-- The name and the addresses of a `config::device`. -/
structure Identity where
  id : String
  ip4Addr : BitVec 32
  ip6Addr : In6Addr
  deriving DecidableEq

def noIp6Addr : In6Addr := Vector.replicate 16 0

def nameOr (portId : BitVec 16) (name : String) : String :=
  if name = "" then toString portId.toNat else name

/-- The part of the loop of `devices_configuration` that looks the device up. -/
def identify (nicsInfo : List NicInfo) (mac : List UInt8) (portId : BitVec 16) : Identity :=
  match findKey NicInfo.mac mac nicsInfo with
  | some info =>
    { id := nameOr portId info.name
      ip4Addr := info.ipv4.headD 0
      ip6Addr := info.ipv6.headD noIp6Addr }
  | none => { id := nameOr portId "", ip4Addr := 0, ip6Addr := noIp6Addr }

/-! ## Lookups after the loop -/

/-- All that the options say, in the order of the keys. -/
def readNics : List NicOptions := options.filterMap (readNic parsers options)

theorem getNicInfo_eq_upserts (nicsInfo : List NicInfo) :
    getNicInfo parsers options nicsInfo =
      upserts ((readNics parsers options).map NicOptions.update) nicsInfo := by
  rw [upserts, readNics, List.foldl_map, List.foldl_filterMap, getNicInfo]
  congr 1
  funext nicsInfo entry
  cases readNic parsers options entry <;> rfl

/-- What the options say of the NIC with one MAC address, under any of its texts. -/
def nicOptions (mac : List UInt8) : List NicOptions :=
  (readNics parsers options).filter fun o => o.mac = mac

def assignFound (info : Option NicInfo) (o : NicOptions) : Option NicInfo := o.update.found info

theorem findKey_getNicInfo (nicsInfo : List NicInfo) (mac : List UInt8) :
    findKey NicInfo.mac mac (getNicInfo parsers options nicsInfo) =
      (nicOptions parsers options mac).foldl assignFound (findKey NicInfo.mac mac nicsInfo) := by
  rw [getNicInfo_eq_upserts, findKey_upserts, List.filter_map, List.foldl_map]
  rfl

/-- The NICs of the system stay in their order. Behind them stands each other MAC address that the
options give an ip address, once. -/
theorem macs_getNicInfo (nicsInfo : List NicInfo) :
    ∃ added, (getNicInfo parsers options nicsInfo).map NicInfo.mac =
        nicsInfo.map NicInfo.mac ++ added ∧ added.Nodup ∧
      ∀ mac, mac ∈ added ↔
        mac ∉ nicsInfo.map NicInfo.mac ∧ ∃ o ∈ readNics parsers options, o.mac = mac := by
  obtain ⟨added, hmacs, hnodup, hadded⟩ :=
    map_key_upserts ((readNics parsers options).map NicOptions.update) nicsInfo
  refine ⟨added, getNicInfo_eq_upserts parsers options nicsInfo ▸ hmacs, hnodup, ?_⟩
  intro mac
  rw [hadded]
  simp only [List.mem_map, exists_exists_and_eq_and]
  rfl

/-- The name that is found, or the empty one that the device starts with. -/
def foundName (info : Option NicInfo) : String := (info.map NicInfo.name).getD ""

def foundIp4 (info : Option NicInfo) : BitVec 32 := (info.bind (·.ipv4.head?)).getD 0

def foundIp6 (info : Option NicInfo) : In6Addr := (info.bind (·.ipv6.head?)).getD noIp6Addr

theorem identify_eq (nicsInfo : List NicInfo) (mac : List UInt8) (portId : BitVec 16) :
    identify nicsInfo mac portId =
      { id := nameOr portId (foundName (findKey NicInfo.mac mac nicsInfo))
        ip4Addr := foundIp4 (findKey NicInfo.mac mac nicsInfo)
        ip6Addr := foundIp6 (findKey NicInfo.mac mac nicsInfo) } := by
  unfold identify
  cases findKey NicInfo.mac mac nicsInfo with
  | none => rfl
  | some info => simp [foundName, foundIp4, foundIp6, List.headD_eq_head?_getD]

theorem foundName_assignFound (info : Option NicInfo) (o : NicOptions) :
    foundName (assignFound info o) = o.name.getD (foundName info) := by
  cases info <;> rfl

theorem foundIp4_assignFound (info : Option NicInfo) (o : NicOptions) :
    foundIp4 (assignFound info o) = (some o.ipv4).getD (foundIp4 info) := rfl

theorem foundIp6_assignFound (info : Option NicInfo) (o : NicOptions) :
    foundIp6 (assignFound info o) = o.ipv6.getD (foundIp6 info) := by
  obtain ⟨mac, ipv4, ipv6, name⟩ := o
  cases ipv6 with
  | some address => rfl
  | none => cases info <;> rfl

/-- A device has the last address and the last name that the options give to its MAC address, in the
order of the keys, whatever they say of other NICs; where they give none, those of the system. -/
theorem identify_getNicInfo (nicsInfo : List NicInfo) (mac : List UInt8) (portId : BitVec 16) :
    let given := nicOptions parsers options mac
    let found := findKey NicInfo.mac mac nicsInfo
    identify (getNicInfo parsers options nicsInfo) mac portId =
      { id := nameOr portId ((given.filterMap (·.name)).getLast?.getD (foundName found))
        ip4Addr := (given.map (·.ipv4)).getLast?.getD (foundIp4 found)
        ip6Addr := (given.filterMap (·.ipv6)).getLast?.getD (foundIp6 found) } := by
  intro given found
  have hname := foldl_given assignFound foundName NicOptions.name foundName_assignFound given found
  have hip4 := foldl_given assignFound foundIp4 (fun o => some o.ipv4) foundIp4_assignFound given
    found
  have hip6 := foldl_given assignFound foundIp6 NicOptions.ipv6 foundIp6_assignFound given found
  rw [List.filterMap_eq_map'] at hip4
  rw [identify_eq, findKey_getNicInfo, hname, hip4, hip6]

end Nics

end DpdkTools.Config
