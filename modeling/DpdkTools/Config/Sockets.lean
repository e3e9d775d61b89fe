import DpdkTools.Config.Offloads
import DpdkTools.Lib.Grouping
import Mathlib.Logic.Equiv.Basic

/-! The cores of a machine by socket, `socket_configuration` (`dpdkx/config/socket.cpp`).

All cores stand in one vector. A core is inserted behind the last one of its socket, found by adding
up the sizes of the sockets before it, or at the end with a new socket; afterwards the main core is
exchanged with the last one of its socket, and every socket gets a span of the vector. `none` is an
insertion behind the end of the vector. -/
namespace DpdkTools.Config
open Grouping
set_option autoImplicit false

abbrev Core := BitVec 32

/-! ## Placing the cores -/

structure CoreConfig where
  socketId : BitVec 32
  coresN : ℕ
  deriving Repr, DecidableEq

def insertAt (cores : List Core) (core : ℕ) (lcoreId : Core) : Option (List Core) :=
  if core ≤ cores.length then some (cores.take core ++ lcoreId :: cores.drop core) else none

/-- The inner loop from one socket on, with the position `core` in the vector. -/
def placeFrom (socketId : BitVec 32) (lcoreId : Core) :
    List CoreConfig → ℕ → List Core → Option (List CoreConfig × List Core)
  | [], _, cores => some ([⟨socketId, 1⟩], cores ++ [lcoreId])
  | socket :: sockets, core, cores =>
    let core := core + socket.coresN
    if socket.socketId = socketId then
      (insertAt cores core lcoreId).map fun cores =>
        ({ socket with coresN := socket.coresN + 1 } :: sockets, cores)
    else (placeFrom socketId lcoreId sockets core cores).map fun r => (socket :: r.1, r.2)

def place (socketOf : Core → BitVec 32) (s : List CoreConfig × List Core) (lcoreId : Core) :
    Option (List CoreConfig × List Core) :=
  placeFrom (socketOf lcoreId) lcoreId s.1 0 s.2

/-! ## The spans -/

structure Span where
  socketId : BitVec 32
  offset : ℕ
  coresN : ℕ
  deriving Repr, DecidableEq

/-- `config::sockets`; a span is kept as its bounds in `cores`. -/
structure Sockets where
  sockets : List Span
  cores : List Core
  deriving Repr, DecidableEq

def Sockets.coresOf (r : Sockets) (s : Span) : List Core := (r.cores.drop s.offset).take s.coresN

def swapAt (xs : List Core) (i j : ℕ) : List Core :=
  match xs[i]?, xs[j]? with
  | some x, some y => (xs.set i y).set j x
  | _, _ => xs

/-- The search ends in front of the last core of the socket. -/
def moveMainLast (mainCore : Core) (cores : List Core) (offset coresN : ℕ) : List Core :=
  match ((cores.drop offset).take (coresN - 1)).findIdx? (· = mainCore) with
  | some i => swapAt cores (offset + i) (offset + (coresN - 1))
  | none => cores

def layOut (mainCore : Core) (mainSocket : BitVec 32) :
    List CoreConfig → ℕ → List Core → List Span × List Core
  | [], _, cores => ([], cores)
  | socket :: sockets, offset, cores =>
    let cores :=
      if socket.socketId = mainSocket then moveMainLast mainCore cores offset socket.coresN else cores
    let r := layOut mainCore mainSocket sockets (offset + socket.coresN) cores
    (⟨socket.socketId, offset, socket.coresN⟩ :: r.1, r.2)

def socketConfiguration (socketOf : Core → BitVec 32) (lcores : List Core) (mainCore : Core) :
    Option Sockets :=
  (lcores.foldlM (place socketOf) ([], [])).map fun s =>
    let r := layOut mainCore (socketOf mainCore) s.1 0 s.2
    ⟨r.1, r.2⟩

/-! ## The vector is the groups in a row -/

abbrev CoreGroup := BitVec 32 × List Core

def CoreGroup.config (g : CoreGroup) : CoreConfig := ⟨g.1, g.2.length⟩

def inRow (gs : List CoreGroup) : List Core := gs.flatMap Prod.snd

theorem inRow_cons (g : CoreGroup) (gs : List CoreGroup) : inRow (g :: gs) = g.2 ++ inRow gs :=
  List.flatMap_cons

theorem insertAt_length (before after : List Core) (lcoreId : Core) :
    insertAt (before ++ after) before.length lcoreId = some (before ++ lcoreId :: after) := by
  rw [insertAt, if_pos (by simp), List.take_left, List.drop_left]

theorem placeFrom_groups (socketId : BitVec 32) (lcoreId : Core) (gs : List CoreGroup)
    (before : List Core) :
    placeFrom socketId lcoreId (gs.map CoreGroup.config) before.length (before ++ inRow gs) =
      some ((insertInto socketId lcoreId gs).map CoreGroup.config,
        before ++ inRow (insertInto socketId lcoreId gs)) := by
  induction gs generalizing before with
  | nil => simp [placeFrom, insertInto, inRow, CoreGroup.config]
  | cons g gs ih =>
    have hlen : before.length + (CoreGroup.config g).coresN = (before ++ g.2).length := by
      rw [List.length_append]
      rfl
    have hrow : before ++ inRow (g :: gs) = (before ++ g.2) ++ inRow gs := by
      rw [inRow_cons, List.append_assoc]
    rw [List.map_cons, placeFrom, hlen, hrow, insertInto]
    by_cases heq : g.1 = socketId
    · have heq' : (CoreGroup.config g).socketId = socketId := heq
      rw [if_pos heq', if_pos heq, insertAt_length, Option.map_some]
      simp [CoreGroup.config, inRow]
    · have heq' : (CoreGroup.config g).socketId ≠ socketId := heq
      rw [if_neg heq', if_neg heq, ih (before ++ g.2), Option.map_some]
      simp [inRow]

theorem foldlM_place (socketOf : Core → BitVec 32) (lcores : List Core) :
    lcores.foldlM (place socketOf) ([], []) =
      some ((groups socketOf lcores).map CoreGroup.config, inRow (groups socketOf lcores)) := by
  induction lcores using List.reverseRecOn with
  | nil => rfl
  | append_singleton lcores lcoreId ih =>
    have hplace := placeFrom_groups (socketOf lcoreId) lcoreId (groups socketOf lcores) []
    rw [List.foldlM_append, ih, groups_concat]
    simpa [place] using hplace

/-! ## The main core goes last -/

/-- What the search and the exchange do to the cores of one socket. -/
def withMainLast (mainCore : Core) (cores : List Core) : List Core :=
  moveMainLast mainCore cores 0 cores.length

theorem length_swapAt (xs : List Core) (i j : ℕ) : (swapAt xs i j).length = xs.length := by
  unfold swapAt
  split
  · rw [List.length_set, List.length_set]
  · rfl

theorem length_withMainLast (mainCore : Core) (cores : List Core) :
    (withMainLast mainCore cores).length = cores.length := by
  unfold withMainLast moveMainLast
  split
  · exact length_swapAt _ _ _
  · rfl

theorem swapAt_append (before g after : List Core) (i j : ℕ) (hi : i < g.length) (hj : j < g.length) :
    swapAt (before ++ (g ++ after)) (before.length + i) (before.length + j) =
      before ++ (swapAt g i j ++ after) := by
  have hgetI : (before ++ (g ++ after))[before.length + i]? = some g[i] := by
    rw [List.getElem?_append_right (Nat.le_add_right _ _), Nat.add_sub_cancel_left,
      List.getElem?_append_left hi, List.getElem?_eq_getElem hi]
  have hgetJ : (before ++ (g ++ after))[before.length + j]? = some g[j] := by
    rw [List.getElem?_append_right (Nat.le_add_right _ _), Nat.add_sub_cancel_left,
      List.getElem?_append_left hj, List.getElem?_eq_getElem hj]
  have hset : ∀ (l : List Core) (k : ℕ) (x : Core), k < l.length →
      (before ++ (l ++ after)).set (before.length + k) x = before ++ (l.set k x ++ after) := by
    intro l k x hk
    rw [List.set_append_right _ _ (Nat.le_add_right _ _), Nat.add_sub_cancel_left,
      List.set_append_left _ _ hk]
  rw [swapAt, hgetI, hgetJ, swapAt, List.getElem?_eq_getElem hi, List.getElem?_eq_getElem hj]
  dsimp only
  rw [hset g i g[j] hi, hset (g.set i g[j]) j g[i] (by rw [List.length_set]; exact hj)]

theorem moveMainLast_append (mainCore : Core) (before g after : List Core) :
    moveMainLast mainCore (before ++ (g ++ after)) before.length g.length =
      before ++ (withMainLast mainCore g ++ after) := by
  have htake : ((before ++ (g ++ after)).drop before.length).take (g.length - 1) =
      (g.drop 0).take (g.length - 1) := by
    rw [List.drop_left, List.drop_zero, List.take_append_of_le_length (by omega)]
  unfold withMainLast moveMainLast
  rw [htake]
  cases hfind : ((g.drop 0).take (g.length - 1)).findIdx? (· = mainCore) with
  | none => rfl
  | some i =>
    obtain ⟨hlt, _⟩ := List.findIdx?_eq_some_iff_getElem.mp hfind
    simp only [List.drop_zero, List.length_take] at hlt
    dsimp only
    rw [Nat.zero_add, Nat.zero_add]
    exact swapAt_append before g after i (g.length - 1) (by omega) (by omega)

theorem swapAt_eq_map (g : List Core) (hnodup : g.Nodup) (i j : ℕ) (hi : i < g.length)
    (hj : j < g.length) : swapAt g i j = g.map (Equiv.swap g[i] g[j]) := by
  rw [swapAt, List.getElem?_eq_getElem hi, List.getElem?_eq_getElem hj]
  dsimp only
  apply List.ext_getElem (by simp)
  intro k hk hk'
  have hkg : k < g.length := by simpa using hk
  rw [List.getElem_map, List.getElem_set, List.getElem_set]
  split_ifs with hjk hik
  · subst hjk
    rw [Equiv.swap_apply_right]
  · subst hik
    rw [Equiv.swap_apply_left]
  · have hneI : g[k] ≠ g[i] := fun e => hik ((hnodup.getElem_inj_iff.mp e).symm)
    have hneJ : g[k] ≠ g[j] := fun e => hjk ((hnodup.getElem_inj_iff.mp e).symm)
    rw [Equiv.swap_apply_of_ne_of_ne hneI hneJ]

/-- The main core and the last one change places, and all other cores keep theirs. -/
theorem withMainLast_eq (mainCore : Core) (g : List Core) (hnodup : g.Nodup) (hmem : mainCore ∈ g) :
    withMainLast mainCore g = g.map (Equiv.swap mainCore (g.getLastD mainCore)) := by
  have hne : g ≠ [] := List.ne_nil_of_mem hmem
  have hpos : 0 < g.length := List.length_pos_iff.mpr hne
  have hlast : g.getLastD mainCore = g[g.length - 1] := by
    rw [List.getLastD_eq_getLast?, List.getLast?_eq_getLast_of_ne_nil hne, Option.getD_some,
      List.getLast_eq_getElem]
  obtain ⟨k, hk, rfl⟩ := List.getElem_of_mem hmem
  unfold withMainLast moveMainLast
  cases hfind : ((g.drop 0).take (g.length - 1)).findIdx? (· = g[k]) with
  | none =>
    -- the main core is not in front of the last one, so it is the last one
    have hall := List.findIdx?_eq_none_iff.mp hfind
    have hk' : k = g.length - 1 := by
      by_contra hlt
      have hin : g[k] ∈ (g.drop 0).take (g.length - 1) := by
        rw [List.drop_zero, List.mem_take_iff_getElem]
        exact ⟨k, by omega, rfl⟩
      simpa using hall g[k] hin
    subst hk'
    rw [hlast, Equiv.swap_self]
    simp
  | some i =>
    obtain ⟨hi, hget, _⟩ := List.findIdx?_eq_some_iff_getElem.mp hfind
    simp only [List.drop_zero, List.length_take] at hi
    have hik : i = k := by
      simp only [List.drop_zero, List.getElem_take, decide_eq_true_eq] at hget
      exact hnodup.getElem_inj_iff.mp hget
    subst hik
    dsimp only
    rw [Nat.zero_add, Nat.zero_add, hlast]
    exact swapAt_eq_map g hnodup i (g.length - 1) hk (by omega)

theorem getLast?_withMainLast (mainCore : Core) (g : List Core) (hnodup : g.Nodup)
    (hmem : mainCore ∈ g) : (withMainLast mainCore g).getLast? = some mainCore := by
  have hne : g ≠ [] := List.ne_nil_of_mem hmem
  rw [withMainLast_eq mainCore g hnodup hmem, List.getLast?_map,
    List.getLast?_eq_getLast_of_ne_nil hne, Option.map_some, List.getLastD_eq_getLast?,
    List.getLast?_eq_getLast_of_ne_nil hne, Option.getD_some, Equiv.swap_apply_right]

/-! ## Spans of a row of groups -/

def spansFrom : ℕ → List CoreGroup → List Span
  | _, [] => []
  | offset, g :: gs => ⟨g.1, offset, g.2.length⟩ :: spansFrom (offset + g.2.length) gs

/-- The groups as the second loop leaves them. -/
def arranged (mainCore : Core) (mainSocket : BitVec 32) (g : CoreGroup) : CoreGroup :=
  (g.1, if g.1 = mainSocket then withMainLast mainCore g.2 else g.2)

theorem length_arranged (mainCore : Core) (mainSocket : BitVec 32) (g : CoreGroup) :
    (arranged mainCore mainSocket g).2.length = g.2.length := by
  unfold arranged
  dsimp only
  split_ifs
  · exact length_withMainLast mainCore g.2
  · rfl

theorem layOut_groups (mainCore : Core) (mainSocket : BitVec 32) (gs : List CoreGroup)
    (before : List Core) :
    layOut mainCore mainSocket (gs.map CoreGroup.config) before.length (before ++ inRow gs) =
      (spansFrom before.length (gs.map (arranged mainCore mainSocket)),
        before ++ inRow (gs.map (arranged mainCore mainSocket))) := by
  induction gs generalizing before with
  | nil => rfl
  | cons g gs ih =>
    have hmove : (if (CoreGroup.config g).socketId = mainSocket then
          moveMainLast mainCore (before ++ inRow (g :: gs)) before.length (CoreGroup.config g).coresN
        else before ++ inRow (g :: gs)) =
        (before ++ (arranged mainCore mainSocket g).2) ++ inRow gs := by
      rw [inRow_cons, arranged, List.append_assoc]
      by_cases hmain : g.1 = mainSocket
      · have hmain' : (CoreGroup.config g).socketId = mainSocket := hmain
        rw [if_pos hmain', if_pos hmain]
        exact moveMainLast_append mainCore before g.2 (inRow gs)
      · have hmain' : (CoreGroup.config g).socketId ≠ mainSocket := hmain
        rw [if_neg hmain', if_neg hmain]
    have hlen : before.length + (CoreGroup.config g).coresN =
        (before ++ (arranged mainCore mainSocket g).2).length := by
      rw [List.length_append, length_arranged]
      rfl
    rw [List.map_cons, layOut, hmove, hlen, ih, List.map_cons, spansFrom, inRow_cons,
      length_arranged, List.length_append, length_arranged, List.append_assoc]
    rfl

theorem socketConfiguration_groups (socketOf : Core → BitVec 32) (lcores : List Core)
    (mainCore : Core) :
    socketConfiguration socketOf lcores mainCore =
      some ⟨spansFrom 0 ((groups socketOf lcores).map (arranged mainCore (socketOf mainCore))),
        inRow ((groups socketOf lcores).map (arranged mainCore (socketOf mainCore)))⟩ := by
  have h := layOut_groups mainCore (socketOf mainCore) (groups socketOf lcores) []
  rw [List.nil_append, List.nil_append, List.length_nil] at h
  rw [socketConfiguration, foldlM_place, Option.map_some]
  dsimp only
  rw [h]

theorem spansFrom_socketId (gs : List CoreGroup) (offset : ℕ) :
    (spansFrom offset gs).map Span.socketId = gs.map Prod.fst := by
  induction gs generalizing offset with
  | nil => rfl
  | cons g gs ih => rw [spansFrom, List.map_cons, List.map_cons, ih]

theorem spansFrom_coresN (gs : List CoreGroup) (offset : ℕ) :
    (spansFrom offset gs).map Span.coresN = gs.map (fun g => g.2.length) := by
  induction gs generalizing offset with
  | nil => rfl
  | cons g gs ih => rw [spansFrom, List.map_cons, List.map_cons, ih]

/-- Every span begins where the sizes before it add up to. -/
theorem spansFrom_offset (gs : List CoreGroup) (offset i : ℕ)
    (h : i < (spansFrom offset gs).length) :
    (spansFrom offset gs)[i].offset =
      offset + (((spansFrom offset gs).take i).map Span.coresN).sum := by
  induction gs generalizing offset i with
  | nil => exact absurd h (Nat.not_lt_zero i)
  | cons g gs ih =>
    cases i with
    | zero => simp [spansFrom]
    | succ i =>
      have hi : i < (spansFrom (offset + g.2.length) gs).length := by simpa [spansFrom] using h
      have hrest := ih (offset + g.2.length) i hi
      simp only [spansFrom, List.getElem_cons_succ, List.take_succ_cons, List.map_cons,
        List.sum_cons]
      rw [hrest]
      omega

theorem spansFrom_cores (gs : List CoreGroup) (before : List Core) (s : Span)
    (hs : s ∈ spansFrom before.length gs) :
    ∃ g ∈ gs, s.socketId = g.1 ∧
      ((before ++ inRow gs).drop s.offset).take s.coresN = g.2 := by
  induction gs generalizing before with
  | nil => exact absurd hs List.not_mem_nil
  | cons g gs ih =>
    rw [spansFrom] at hs
    rcases List.mem_cons.mp hs with rfl | hrest
    · refine ⟨g, List.mem_cons_self, rfl, ?_⟩
      rw [List.drop_left, inRow_cons, List.take_left]
    · have hlen : before.length + g.2.length = (before ++ g.2).length := by
        rw [List.length_append]
      rw [hlen] at hrest
      obtain ⟨g', hg', hid, hcores⟩ := ih (before ++ g.2) hrest
      refine ⟨g', List.mem_cons_of_mem g hg', hid, ?_⟩
      rw [inRow_cons, ← List.append_assoc]
      exact hcores

theorem length_inRow (gs : List CoreGroup) :
    (inRow gs).length = (gs.map (fun g => g.2.length)).sum := by
  rw [inRow, List.length_flatMap]

/-! ## What the sockets are -/

/-- The lcores `lcores` by socket. -/
structure Grouped (socketOf : Core → BitVec 32) (lcores : List Core) (mainCore : Core)
    (r : Sockets) : Prop where
  sockets : r.sockets.map Span.socketId = (lcores.map socketOf).eraseDups
  consecutive : ∀ (i : ℕ) (h : i < r.sockets.length),
    r.sockets[i].offset = ((r.sockets.take i).map Span.coresN).sum
  disjoint : r.sockets.Pairwise (fun s t => s.offset + s.coresN ≤ t.offset)
  covers : (r.sockets.map Span.coresN).sum = r.cores.length
  cores : ∀ s ∈ r.sockets, s.socketId ≠ socketOf mainCore →
    r.coresOf s = lcores.filter (fun c => socketOf c = s.socketId)
  mainCores : ∀ s ∈ r.sockets, s.socketId = socketOf mainCore →
    r.coresOf s = (lcores.filter (fun c => socketOf c = s.socketId)).map
      (Equiv.swap mainCore ((lcores.filter (fun c => socketOf c = s.socketId)).getLastD mainCore))
  mainLast : ∀ s ∈ r.sockets, s.socketId = socketOf mainCore →
    (r.coresOf s).getLast? = some mainCore

theorem spansFrom_disjoint (gs : List CoreGroup) (offset : ℕ) :
    (spansFrom offset gs).Pairwise (fun s t => s.offset + s.coresN ≤ t.offset) ∧
      ∀ s ∈ spansFrom offset gs, offset ≤ s.offset := by
  induction gs generalizing offset with
  | nil => exact ⟨List.Pairwise.nil, fun s hs => absurd hs List.not_mem_nil⟩
  | cons g gs ih =>
    obtain ⟨hrest, hle⟩ := ih (offset + g.2.length)
    refine ⟨List.Pairwise.cons hle hrest, ?_⟩
    intro s hs
    rcases List.mem_cons.mp hs with rfl | hs
    · exact Nat.le_refl _
    · have := hle s hs
      omega

theorem socketConfiguration_grouped (socketOf : Core → BitVec 32) (lcores : List Core)
    (mainCore : Core) (hnodup : lcores.Nodup) (hmain : mainCore ∈ lcores) :
    ∃ r, socketConfiguration socketOf lcores mainCore = some r ∧
      Grouped socketOf lcores mainCore r := by
  refine ⟨_, socketConfiguration_groups socketOf lcores mainCore, ?_⟩
  generalize hgs : (groups socketOf lcores).map (arranged mainCore (socketOf mainCore)) = gs
  -- each span holds one of the arranged groups
  have hcores : ∀ s ∈ spansFrom 0 gs,
      Sockets.coresOf ⟨spansFrom 0 gs, inRow gs⟩ s =
        (arranged mainCore (socketOf mainCore) (s.socketId, group socketOf lcores s.socketId)).2 := by
    intro s hs
    obtain ⟨g, hg, hid, hspan⟩ := spansFrom_cores gs [] s hs
    rw [← hgs, groups, List.map_map] at hg
    obtain ⟨k, _, rfl⟩ := List.mem_map.mp hg
    obtain rfl : s.socketId = k := hid
    exact hspan
  have hsub : ∀ s : Span, (group socketOf lcores s.socketId).Nodup := by
    intro s
    exact hnodup.filter _
  have hmem : ∀ s : Span, s.socketId = socketOf mainCore →
      mainCore ∈ group socketOf lcores s.socketId := by
    intro s hid
    exact List.mem_filter.mpr ⟨hmain, by simpa using hid.symm⟩
  refine ⟨?_, ?_, (spansFrom_disjoint gs 0).1, ?_, ?_, ?_, ?_⟩
  · rw [spansFrom_socketId, ← hgs, groups, List.map_map, List.map_map]
    exact List.map_id _
  · intro i h
    have hoff := spansFrom_offset gs 0 i h
    rwa [Nat.zero_add] at hoff
  · rw [spansFrom_coresN, length_inRow]
  · intro s hs hid
    rw [hcores s hs, arranged]
    exact if_neg hid
  · intro s hs hid
    rw [hcores s hs, arranged, if_pos hid, withMainLast_eq mainCore _ (hsub s) (hmem s hid)]
    rfl
  · intro s hs hid
    rw [hcores s hs, arranged, if_pos hid]
    exact getLast?_withMainLast mainCore _ (hsub s) (hmem s hid)

/-- Six lcores on two sockets by turns, with main core 2. -/
theorem socketConfiguration_by_turns :
    ∃ r, socketConfiguration (fun c => c % 2) [0, 1, 2, 3, 4, 5] 2 = some r ∧
      Grouped (fun c => c % 2) [0, 1, 2, 3, 4, 5] 2 r :=
  socketConfiguration_grouped (fun c => c % 2) [0, 1, 2, 3, 4, 5] 2 (by decide) (by decide)

example : socketConfiguration (fun c => c % 2) [0, 1, 2, 3, 4, 5] 2 =
    some ⟨[⟨0, 0, 3⟩, ⟨1, 3, 3⟩], [0, 4, 2, 1, 3, 5]⟩ := by decide

/-! ## The order of the sockets -/

/-- The socket that `run` takes for a device on `socketId`: the device's own, or the first. -/
def Sockets.chosen (r : Sockets) (socketId : BitVec 32) : Option Span :=
  match r.sockets.find? (·.socketId = socketId) with
  | some s => some s
  | none => r.sockets.head?

/-- The list of sockets that `run` starts from. -/
def Sockets.toSockets (r : Sockets) : List Socket :=
  r.sockets.map fun s => ⟨s.socketId, r.coresOf s⟩

theorem chosen_toSockets (r : Sockets) (socketId : BitVec 32) (first : Socket) (rest : List Socket)
    (h : r.toSockets = first :: rest) :
    ∃ s, r.chosen socketId = some s ∧
      ((first :: rest).find? (·.socketId = socketId)).getD first = ⟨s.socketId, r.coresOf s⟩ := by
  have hfind : (first :: rest).find? (·.socketId = socketId) =
      (r.sockets.find? (·.socketId = socketId)).map fun s => ⟨s.socketId, r.coresOf s⟩ := by
    rw [← h, Sockets.toSockets, List.find?_map]
    rfl
  rw [hfind]
  unfold Sockets.chosen
  cases hs : r.sockets.find? (·.socketId = socketId) with
  | some s => exact ⟨s, rfl, rfl⟩
  | none =>
    cases hsockets : r.sockets with
    | nil => simp [Sockets.toSockets, hsockets] at h
    | cons s ss =>
      rw [Sockets.toSockets, hsockets] at h
      exact ⟨s, rfl, ((List.cons.inj h).1).symm⟩

/-- The closing assertion, and what the choice of `run` makes of it. -/
structure LargestFirst (r : Sockets) : Prop where
  sorted : (r.sockets.map Span.coresN).Pairwise (· ≥ ·)
  fallback : ∀ socketId s, (∀ t ∈ r.sockets, t.socketId ≠ socketId) →
    r.chosen socketId = some s → ∀ t ∈ r.sockets, t.coresN ≤ s.coresN

theorem largestFirst_iff (r : Sockets) :
    LargestFirst r ↔ (r.sockets.map Span.coresN).Pairwise (· ≥ ·) := by
  constructor
  · exact LargestFirst.sorted
  · intro h
    refine ⟨h, ?_⟩
    intro socketId s hother hchosen t ht
    have hfind : r.sockets.find? (·.socketId = socketId) = none := by
      rw [List.find?_eq_none]
      intro u hu
      simpa using hother u hu
    rw [Sockets.chosen, hfind] at hchosen
    dsimp only at hchosen
    cases hsockets : r.sockets with
    | nil => rw [hsockets] at ht; exact absurd ht List.not_mem_nil
    | cons u us =>
      rw [hsockets] at h hchosen ht
      obtain rfl : u = s := Option.some.inj hchosen
      rcases List.mem_cons.mp ht with rfl | hmem
      · exact Nat.le_refl _
      · rw [List.map_cons, List.pairwise_cons] at h
        exact h.1 t.coresN (List.mem_map_of_mem hmem)

theorem length_group (socketOf : Core → BitVec 32) (lcores : List Core) (k : BitVec 32) :
    (group socketOf lcores k).length = (lcores.map socketOf).count k := by
  rw [group, List.count, List.countP_map, List.countP_eq_length_filter]
  apply congrArg List.length
  apply List.filter_congr
  intro c _
  simp only [Function.comp_apply, beq_eq_decide]

/-- The sockets are in the asserted order exactly when no socket that occurs later among the lcores
has more of them than one that occurs earlier. -/
theorem socketConfiguration_largestFirst_iff (socketOf : Core → BitVec 32) (lcores : List Core)
    (mainCore : Core) :
    ∃ r, socketConfiguration socketOf lcores mainCore = some r ∧
      (LargestFirst r ↔ ∀ a ∈ lcores.map socketOf, ∀ b ∈ lcores.map socketOf,
        (lcores.map socketOf).idxOf a < (lcores.map socketOf).idxOf b →
          (lcores.map socketOf).count b ≤ (lcores.map socketOf).count a) := by
  refine ⟨_, socketConfiguration_groups socketOf lcores mainCore, ?_⟩
  have hsizes : (spansFrom 0 ((groups socketOf lcores).map
        (arranged mainCore (socketOf mainCore)))).map Span.coresN =
      (keys socketOf lcores).map (fun k => (lcores.map socketOf).count k) := by
    rw [spansFrom_coresN, groups, List.map_map, List.map_map]
    apply List.map_congr_left
    intro k _
    rw [Function.comp_apply, Function.comp_apply, length_arranged, length_group]
  have horder : (keys socketOf lcores).Pairwise
      (fun a b => (lcores.map socketOf).idxOf a < (lcores.map socketOf).idxOf b) :=
    eraseDups_pairwise_idxOf (lcores.map socketOf)
  rw [largestFirst_iff, hsizes, List.pairwise_map]
  constructor
  · intro h a ha b hb hlt
    -- of two sockets in the list, the one met first stands first
    by_contra hmore
    have hboth := h.and horder
    have hne : a ≠ b := by
      rintro rfl
      exact Nat.lt_irrefl _ hlt
    have hsym := List.Pairwise.forall_of_forall_of_flip (R := fun x y =>
      (lcores.map socketOf).idxOf x < (lcores.map socketOf).idxOf y →
        (lcores.map socketOf).count y ≤ (lcores.map socketOf).count x) (l := keys socketOf lcores)
      (fun x _ hx => absurd hx (Nat.lt_irrefl _)) (hboth.imp (fun hxy _ => hxy.1))
      (hboth.imp (fun hxy hlt' => absurd hlt' (Nat.lt_asymm hxy.2)))
    exact hmore (hsym (List.mem_eraseDups.mpr ha) (List.mem_eraseDups.mpr hb) hlt)
  · intro h
    apply horder.imp_of_mem
    intro a b ha hb hlt
    exact h a (List.mem_eraseDups.mp ha) b (List.mem_eraseDups.mp hb) hlt

/-- The first lcore alone on its socket and two on the other: the smaller socket comes first, and a
device on neither gets it. -/
theorem smaller_socket_first :
    ∃ r, socketConfiguration (fun c => if c = 0 then 0 else 1) [0, 1, 2] 0 = some r ∧
      ¬ LargestFirst r ∧ r.chosen 7 = some ⟨0, 0, 1⟩ ∧ r.sockets = [⟨0, 0, 1⟩, ⟨1, 1, 2⟩] := by
  refine ⟨⟨[⟨0, 0, 1⟩, ⟨1, 1, 2⟩], [0, 1, 2]⟩, by decide, ?_, by decide, rfl⟩
  intro h
  exact absurd h.sorted (by decide)

end DpdkTools.Config
