import DpdkTools.Net.ByteOrder
import Mathlib.Data.List.Basic
import Mathlib.Data.List.Nodup
import Mathlib.Logic.Function.Basic

/-! The sink table of a device and the cached lookup of a receive job (`sinks_t`,
`rx_job::try_reload_sinks`, and the lambda `find_rx_channel` of `rx_job::process`).

A receive job holds a pointer to a table and the position of the entry it used last. The
position is trusted when the port there is the one asked for, so that it answers as a fresh
search does only while it names the first entry of its port (`Names`). -/
namespace DpdkTools
set_option autoImplicit false

abbrev ChannelPtr := ℕ
abbrev TablePtr := ℕ

/-- An element of `sinks_t`: the endpoint and the channel, `none` for the null pointer. -/
abbrev Sink := Ip4Endpoint × Option ChannelPtr

abbrev Sinks := List Sink

/-- The entry the device constructor puts into the first table. -/
def nullSink : Sink := ((0, 0), none)

/-- The position `find_sink` returns; the length of the table stands for its end. -/
def findSink (sinks : Sinks) (port : Be16) : ℕ := sinks.findIdx (fun s => s.1.2 == port)

def channelOf (sinks : Sinks) (port : Be16) : Option ChannelPtr :=
  sinks[findSink sinks port]?.bind Prod.snd

/-! ## Tables behind pointers -/

/-- The vectors that exist, the published pointer `sinks_`, and the next address of a new vector. -/
structure SinkStore where
  tables : TablePtr → Sinks
  sinks : TablePtr
  nextTable : TablePtr

namespace SinkStore

def initial : SinkStore := ⟨fun _ => [nullSink], 0, 1⟩

def table (s : SinkStore) : Sinks := s.tables s.sinks

@[simp] theorem table_initial : initial.table = [nullSink] := rfl

def publish (s : SinkStore) (sinks : Sinks) : SinkStore :=
  ⟨Function.update s.tables s.nextTable sinks, s.nextTable, s.nextTable + 1⟩

def eraseAt (s : SinkStore) (i : ℕ) : SinkStore :=
  { s with tables := Function.update s.tables s.sinks (s.table.eraseIdx i) }

@[simp] theorem table_publish (s : SinkStore) (sinks : Sinks) : (s.publish sinks).table = sinks := by
  simp [publish, table]

@[simp] theorem table_eraseAt (s : SinkStore) (i : ℕ) : (s.eraseAt i).table = s.table.eraseIdx i := by
  simp [eraseAt, table]

end SinkStore

/-! ## The members of `rx_job` around the table -/

structure SinkView where
  last : ℕ
  checkpoint : ℕ
  reloadCheckpoint : ℕ
  sinks : TablePtr
  deriving Repr, DecidableEq

namespace SinkView

/-- `try_reload_sinks`, with `published` the pointer `device_.sinks()` loads. -/
def tryReloadSinks (v : SinkView) (published : TablePtr) : SinkView × Bool :=
  if v.reloadCheckpoint ≤ v.checkpoint then
    if v.sinks ≠ published then ({ v with sinks := published, checkpoint := 0 }, true)
    else ({ v with checkpoint := 0 }, false)
  else (v, false)

/-- The search branch of `find_rx_channel`; `last_` has 16 bits. -/
def searchSinks (v : SinkView) (tables : TablePtr → Sinks) (port : Be16) : SinkView :=
  { v with
    last :=
      if findSink (tables v.sinks) port = (tables v.sinks).length then 0
      else findSink (tables v.sinks) port % 2 ^ 16 }

def lastChannel (v : SinkView) (tables : TablePtr → Sinks) : Option (SinkView × Option ChannelPtr) :=
  (tables v.sinks)[v.last]?.map fun s => (v, s.2)

/-- `find_rx_channel`; `none` when an index is outside the table. -/
def findRxChannel (v : SinkView) (tables : TablePtr → Sinks) (published : TablePtr)
    (ep : Ip4Endpoint) : Option (SinkView × Option ChannelPtr) :=
  match (tables v.sinks)[v.last]? with
  | none => none
  | some s =>
    if s.1.2 ≠ ep.2 then (v.searchSinks tables ep.2).lastChannel tables
    else if s.2 = none ∧ (v.tryReloadSinks published).2 = true then
      ((v.tryReloadSinks published).1.searchSinks tables ep.2).lastChannel tables
    else if s.2 = none then (v.tryReloadSinks published).1.lastChannel tables
    else v.lastChannel tables

/-- No reload can replace the table: it is the published one, or a reload is not due. -/
def Quiet (v : SinkView) (published : TablePtr) : Prop :=
  v.sinks = published ∨ v.checkpoint < v.reloadCheckpoint

theorem tryReloadSinks_quiet (v : SinkView) (published : TablePtr) :
    (v.tryReloadSinks published).1.Quiet published := by
  unfold tryReloadSinks Quiet
  split_ifs with h1 h2
  · exact Or.inl rfl
  · exact Or.inl (not_not.mp h2)
  · exact Or.inr (Nat.lt_of_not_le h1)

theorem tryReloadSinks_of_quiet (v : SinkView) (published : TablePtr) (h : v.Quiet published) :
    (v.tryReloadSinks published).2 = false ∧ (v.tryReloadSinks published).1.sinks = v.sinks ∧
      (v.tryReloadSinks published).1.last = v.last ∧
      (v.tryReloadSinks published).1.Quiet published := by
  have hq := v.tryReloadSinks_quiet published
  refine ⟨?_, ?_, ?_, hq⟩
  all_goals unfold tryReloadSinks
  all_goals split_ifs with h1 h2
  all_goals try rfl
  all_goals exact absurd h (by rintro (h | h); exacts [h2 h, absurd h1 (Nat.not_le_of_lt h)])

end SinkView

/-! ## Positions that may be trusted -/

/-- Position `i` holds the first entry of its port. -/
def Names (sinks : Sinks) (i : ℕ) : Prop := ∃ s, sinks[i]? = some s ∧ findSink sinks s.1.2 = i

def NullFirst (sinks : Sinks) : Prop := ∃ s, sinks[0]? = some s ∧ s.2 = none

theorem Names.lt {sinks : Sinks} {i : ℕ} (h : Names sinks i) : i < sinks.length := by
  obtain ⟨s, hs, _⟩ := h
  exact (List.getElem?_eq_some_iff.mp hs).1

theorem findSink_port {sinks : Sinks} {port : Be16} {s : Sink}
    (h : sinks[findSink sinks port]? = some s) : s.1.2 = port := by
  have := List.findIdx_of_getElem?_eq_some h
  simpa using this

theorem findSink_le (sinks : Sinks) (port : Be16) : findSink sinks port ≤ sinks.length :=
  List.findIdx_le_length

theorem names_findSink (sinks : Sinks) (port : Be16) (h : findSink sinks port < sinks.length) :
    Names sinks (findSink sinks port) := by
  refine ⟨sinks[findSink sinks port], List.getElem?_eq_getElem h, ?_⟩
  rw [findSink_port (List.getElem?_eq_getElem h)]

theorem names_zero (sinks : Sinks) (h : 0 < sinks.length) : Names sinks 0 := by
  cases sinks with
  | nil => exact absurd h (by simp)
  | cons s rest => exact ⟨s, rfl, by simp [findSink, List.findIdx_cons]⟩

theorem NullFirst.pos {sinks : Sinks} (h : NullFirst sinks) : 0 < sinks.length := by
  obtain ⟨s, hs, _⟩ := h
  exact (List.getElem?_eq_some_iff.mp hs).1

theorem channelOf_absent (sinks : Sinks) (port : Be16) (h : findSink sinks port = sinks.length) :
    channelOf sinks port = none := by
  simp [channelOf, h]

theorem channelOf_names (sinks : Sinks) (i : ℕ) (s : Sink) (hi : Names sinks i)
    (hs : sinks[i]? = some s) : channelOf sinks s.1.2 = s.2 := by
  obtain ⟨s', hs', hfind⟩ := hi
  obtain rfl : s = s' := by simpa [hs] using hs'
  rw [channelOf, hfind, hs]
  rfl

/-! ## Tables in which no port stands twice -/

def ports (sinks : Sinks) : List Be16 := sinks.map fun s => s.1.2

theorem findSink_of_mem (sinks : Sinks) (x : Sink) (hports : (ports sinks).Nodup) (hx : x ∈ sinks) :
    sinks[findSink sinks x.1.2]? = some x := by
  have hlt : findSink sinks x.1.2 < sinks.length :=
    List.findIdx_lt_length_of_exists ⟨x, hx, by simp⟩
  have hport : sinks[findSink sinks x.1.2].1.2 = x.1.2 := findSink_port (List.getElem?_eq_getElem hlt)
  rw [List.getElem?_eq_getElem hlt, Option.some.injEq]
  exact List.inj_on_of_nodup_map hports (List.getElem_mem hlt) hx hport

theorem mem_eraseIdx_ports (sinks : Sinks) (i : ℕ) (x y : Sink) (hports : (ports sinks).Nodup)
    (hi : sinks[i]? = some x) : y ∈ sinks.eraseIdx i ↔ y ∈ sinks ∧ y ≠ x := by
  have hnodup : sinks.Nodup := hports.of_map _
  have hlt : i < sinks.length := (List.getElem?_eq_some_iff.mp hi).1
  rw [List.mem_eraseIdx_iff_getElem?]
  constructor
  · rintro ⟨k, hk, hy⟩
    refine ⟨List.mem_of_getElem? hy, ?_⟩
    rintro rfl
    exact hk ((List.getElem?_inj hlt hnodup).mp (hi.trans hy.symm)).symm
  · rintro ⟨hy, hne⟩
    obtain ⟨k, hk⟩ := List.mem_iff_getElem?.mp hy
    refine ⟨k, ?_, hk⟩
    rintro rfl
    exact hne (Option.some.inj (hk.symm.trans hi))

namespace SinkView

@[simp] theorem searchSinks_sinks (v : SinkView) (tables : TablePtr → Sinks) (port : Be16) :
    (v.searchSinks tables port).sinks = v.sinks := rfl

theorem searchSinks_last (v : SinkView) (tables : TablePtr → Sinks) (port : Be16)
    (hlen : (tables v.sinks).length ≤ 2 ^ 16) :
    (v.searchSinks tables port).last =
      if findSink (tables v.sinks) port = (tables v.sinks).length then 0
      else findSink (tables v.sinks) port := by
  unfold searchSinks
  split_ifs with h
  · rfl
  · have := findSink_le (tables v.sinks) port
    exact Nat.mod_eq_of_lt (by omega)

theorem searchSinks_spec (v : SinkView) (tables : TablePtr → Sinks) (port : Be16)
    (hnull : NullFirst (tables v.sinks)) (hlen : (tables v.sinks).length ≤ 2 ^ 16) :
    Names (tables v.sinks) (v.searchSinks tables port).last ∧
      (v.searchSinks tables port).lastChannel tables =
        some (v.searchSinks tables port, channelOf (tables v.sinks) port) := by
  have hlast := v.searchSinks_last tables port hlen
  rw [lastChannel, searchSinks_sinks, hlast]
  split_ifs with h
  · obtain ⟨s, hs, hnone⟩ := hnull
    refine ⟨names_zero _ (NullFirst.pos ⟨s, hs, hnone⟩), ?_⟩
    rw [hs, channelOf_absent _ _ h, Option.map_some, hnone]
  · have hlt : findSink (tables v.sinks) port < (tables v.sinks).length :=
      lt_of_le_of_ne (findSink_le _ _) h
    refine ⟨names_findSink _ _ hlt, ?_⟩
    rw [channelOf, List.getElem?_eq_getElem hlt]
    rfl

/-- The cached lookup answers as a fresh search in the held table, and leaves a position that
names its entry. -/
theorem findRxChannel_spec (v : SinkView) (tables : TablePtr → Sinks) (published : TablePtr)
    (ep : Ip4Endpoint) (hq : v.Quiet published) (hn : Names (tables v.sinks) v.last)
    (hnull : NullFirst (tables v.sinks)) (hlen : (tables v.sinks).length ≤ 2 ^ 16) :
    ∃ v', v.findRxChannel tables published ep = some (v', channelOf (tables v.sinks) ep.2) ∧
      v'.sinks = v.sinks ∧ v'.Quiet published ∧ Names (tables v.sinks) v'.last := by
  obtain ⟨s, hs, hfirst⟩ := hn
  have hn : Names (tables v.sinks) v.last := ⟨s, hs, hfirst⟩
  obtain ⟨hfalse, hsinks, hlast, hquiet⟩ := v.tryReloadSinks_of_quiet published hq
  unfold findRxChannel
  rw [hs]
  by_cases hport : s.1.2 = ep.2
  · have hch : channelOf (tables v.sinks) ep.2 = s.2 := hport ▸ channelOf_names _ _ s hn hs
    by_cases hnone : s.2 = none
    · refine ⟨(v.tryReloadSinks published).1, ?_, hsinks, hquiet, hlast ▸ hn⟩
      simp [hport, hnone, hfalse, lastChannel, hsinks, hlast, hs, hch]
    · exact ⟨v, by simp [hport, hnone, lastChannel, hs, hch], rfl, hq, hn⟩
  · obtain ⟨hnames, hget⟩ := v.searchSinks_spec tables ep.2 hnull hlen
    exact ⟨v.searchSinks tables ep.2, by simpa [hport] using hget, rfl, hq, hnames⟩

theorem quiet_of_not_reloaded (v : SinkView) (published : TablePtr)
    (h : (v.tryReloadSinks published).2 = false) : v.Quiet published := by
  unfold tryReloadSinks at h
  split_ifs at h with h1 h2
  · exact Or.inl (not_not.mp h2)
  · exact Or.inr (Nat.lt_of_not_le h1)

theorem tryReloadSinks_sinks (v : SinkView) (published : TablePtr) :
    (v.tryReloadSinks published).1.last = v.last ∧
      ((v.tryReloadSinks published).1.sinks = v.sinks ∨
        ((v.tryReloadSinks published).1.sinks = published ∧ v.reloadCheckpoint ≤ v.checkpoint ∧
          v.sinks ≠ published)) := by
  unfold tryReloadSinks
  split_ifs with h1 h2
  · exact ⟨rfl, Or.inr ⟨rfl, h1, h2⟩⟩
  · exact ⟨rfl, Or.inl rfl⟩
  · exact ⟨rfl, Or.inl rfl⟩

/-- A reload in the middle of a lookup is followed by a search, so that the answer is that of a
fresh search in the table held at the end. -/
theorem findRxChannel_agrees (v : SinkView) (tables : TablePtr → Sinks) (published : TablePtr)
    (ep : Ip4Endpoint) (hn : Names (tables v.sinks) v.last)
    (hheld : NullFirst (tables v.sinks) ∧ (tables v.sinks).length ≤ 2 ^ 16)
    (hpub : NullFirst (tables published) ∧ (tables published).length ≤ 2 ^ 16) :
    ∃ v', v.findRxChannel tables published ep = some (v', channelOf (tables v'.sinks) ep.2) ∧
      (v'.sinks = v.sinks ∨ v'.sinks = published) ∧ Names (tables v'.sinks) v'.last := by
  cases hr : (v.tryReloadSinks published).2 with
  | false =>
    obtain ⟨v', hfind, hsinks, _, hnames⟩ := v.findRxChannel_spec tables published ep
      (v.quiet_of_not_reloaded published hr) hn hheld.1 hheld.2
    exact ⟨v', by rw [hfind, hsinks], Or.inl hsinks, by rw [hsinks]; exact hnames⟩
  | true =>
    obtain ⟨s, hs, hfirst⟩ := hn
    have hn : Names (tables v.sinks) v.last := ⟨s, hs, hfirst⟩
    unfold findRxChannel
    rw [hs]
    by_cases hport : s.1.2 = ep.2
    · by_cases hnone : s.2 = none
      · have hnew : (v.tryReloadSinks published).1.sinks = published := by
          unfold tryReloadSinks at hr ⊢
          split_ifs at hr ⊢
          rfl
        obtain ⟨hnames, hget⟩ := (v.tryReloadSinks published).1.searchSinks_spec tables ep.2
          (by rw [hnew]; exact hpub.1) (by rw [hnew]; exact hpub.2)
        refine ⟨(v.tryReloadSinks published).1.searchSinks tables ep.2, ?_, Or.inr hnew, hnames⟩
        simpa [hport, hnone, hr] using hget
      · have hch : channelOf (tables v.sinks) ep.2 = s.2 := hport ▸ channelOf_names _ _ s hn hs
        exact ⟨v, by simp [hport, hnone, lastChannel, hs, hch], Or.inl rfl, hn⟩
    · obtain ⟨hnames, hget⟩ := v.searchSinks_spec tables ep.2 hheld.1 hheld.2
      refine ⟨v.searchSinks tables ep.2, ?_, Or.inl rfl, hnames⟩
      simpa [hport] using hget

end SinkView

end DpdkTools
