import Mathlib.Data.List.Nodup
import Mathlib.Logic.Function.Basic

/-! Records with reflected members, and loading them from keyed texts.

A description is a tree: a leaf is a field of the record, an inner node is a field that is itself a
record. The loader walks the tree with the key built up so far. `loadMembers_eq` flattens the walk
into one pass over the leaves; `loadMembers_value` says what every field holds after it. -/
namespace DpdkTools.Reflect
set_option autoImplicit false

theorem bind_eq_ok {ε α β : Type} (x : Except ε α) (f : α → Except ε β) (b : β) :
    (x >>= f) = .ok b ↔ ∃ a, x = .ok a ∧ f a = .ok b := by
  cases x with
  | error e =>
    constructor
    · intro h
      cases h
    · rintro ⟨a, ha, _⟩
      cases ha
  | ok a =>
    constructor
    · intro h
      exact ⟨a, rfl, h⟩
    · rintro ⟨a', ha, hf⟩
      cases ha
      exact hf

theorem mapError_eq_ok {ε ε' α : Type} (f : ε → ε') (x : Except ε α) (a : α)
    (h : x.mapError f = .ok a) : x = .ok a := by
  cases x with
  | error e => cases h
  | ok b =>
    cases h
    rfl

/-- A described member, over the fields `M` of the outermost record. -/
inductive Described (M : Type) where
  | leaf (name : String) (field : M)
  | record (name : String) (members : List (Described M))

section Walk
variable {M S ε : Type}

mutual

def loadMember (load : String → M → S → Except ε S) (path : String) :
    Described M → S → Except ε S
  | .leaf name field, s => load (path ++ "." ++ name) field s
  | .record name members, s => loadMembers load (path ++ "." ++ name) members s

def loadMembers (load : String → M → S → Except ε S) (path : String) :
    List (Described M) → S → Except ε S
  | [], s => .ok s
  | d :: ds, s => do
    let s ← loadMember load path d s
    loadMembers load path ds s

end

mutual

/-- The fields below a member, each with the names that lead to it. -/
def memberLeaves : Described M → List (List String × M)
  | .leaf name field => [([name], field)]
  | .record name members => (leaves members).map fun l => (name :: l.1, l.2)

def leaves : List (Described M) → List (List String × M)
  | [] => []
  | d :: ds => memberLeaves d ++ leaves ds

end

/-- The key of a field: its names after `path`, separated by dots. -/
def memberKey (path : String) (names : List String) : String :=
  names.foldl (fun key name => key ++ "." ++ name) path

mutual

theorem loadMember_eq (load : String → M → S → Except ε S) (path : String) (d : Described M)
    (s : S) : loadMember load path d s =
      (memberLeaves d).foldlM (fun s l => load (memberKey path l.1) l.2 s) s := by
  cases d with
  | leaf name field =>
    rw [loadMember, memberLeaves, List.foldlM_cons]
    simp only [List.foldlM_nil, bind_pure]
    rfl
  | record name members =>
    rw [loadMember, memberLeaves, List.foldlM_map]
    exact loadMembers_eq load (path ++ "." ++ name) members s

theorem loadMembers_eq (load : String → M → S → Except ε S) (path : String)
    (ds : List (Described M)) (s : S) : loadMembers load path ds s =
      (leaves ds).foldlM (fun s l => load (memberKey path l.1) l.2 s) s := by
  cases ds with
  | nil => rfl
  | cons d ds =>
    rw [loadMembers, leaves, List.foldlM_append, loadMember_eq load path d s]
    congr 1
    funext s'
    exact loadMembers_eq load path ds s'

end

end Walk

/-! ## Fields that are overwritten where a text is present -/

section Fields
variable {M ε : Type} [DecidableEq M] {V : M → Type}

/-- One field: `read` answers `none` where there is no text under the key. -/
def loadField (read : String → (m : M) → Except ε (Option (V m))) (key : String) (m : M)
    (vals : (m : M) → V m) : Except ε ((m : M) → V m) := do
  match ← read key m with
  | none => pure vals
  | some v => pure (Function.update vals m v)

variable (read : String → (m : M) → Except ε (Option (V m)))

theorem loadField_ok (key : String) (m : M) (vals vals' : (m : M) → V m)
    (h : loadField read key m vals = .ok vals') :
    ∃ r, read key m = .ok r ∧ vals' = Function.update vals m (r.getD (vals m)) := by
  rw [loadField, bind_eq_ok] at h
  obtain ⟨r, hr, h⟩ := h
  refine ⟨r, hr, ?_⟩
  cases r with
  | none =>
    cases h
    rw [Option.getD_none, Function.update_eq_self]
  | some v =>
    cases h
    rfl

theorem foldlM_loadField (key : List String → String) (ls : List (List String × M))
    (hnodup : (ls.map Prod.snd).Nodup) (vals vals' : (m : M) → V m)
    (h : ls.foldlM (fun s l => loadField read (key l.1) l.2 s) vals = .ok vals') :
    (∀ l ∈ ls, ∃ r, read (key l.1) l.2 = .ok r ∧ vals' l.2 = r.getD (vals l.2)) ∧
      ∀ m ∉ ls.map Prod.snd, vals' m = vals m := by
  induction ls generalizing vals with
  | nil =>
    cases h
    exact ⟨fun l hl => absurd hl List.not_mem_nil, fun _ _ => rfl⟩
  | cons l ls ih =>
    rw [List.map_cons, List.nodup_cons] at hnodup
    rw [List.foldlM_cons, bind_eq_ok] at h
    obtain ⟨mid, hl, h⟩ := h
    obtain ⟨r, hr, rfl⟩ := loadField_ok read _ _ _ _ hl
    obtain ⟨hin, hout⟩ := ih hnodup.2 _ h
    constructor
    · intro l' hl'
      rcases List.mem_cons.mp hl' with rfl | hl'
      · refine ⟨r, hr, ?_⟩
        rw [hout _ hnodup.1, Function.update_self]
      · obtain ⟨r', hr', hval⟩ := hin l' hl'
        have hne : l'.2 ≠ l.2 := fun he => hnodup.1 (he ▸ List.mem_map_of_mem hl')
        refine ⟨r', hr', ?_⟩
        rw [hval, Function.update_of_ne hne]
    · intro m hm
      rw [List.map_cons, List.mem_cons, not_or] at hm
      rw [hout m hm.2, Function.update_of_ne hm.1]

/-- After a successful load, a field holds the value of its own text, or is as it was. -/
theorem loadMembers_value (ds : List (Described M)) (hnodup : ((leaves ds).map Prod.snd).Nodup)
    (path : String) (vals vals' : (m : M) → V m)
    (h : loadMembers (loadField read) path ds vals = .ok vals') (l : List String × M)
    (hl : l ∈ leaves ds) :
    ∃ r, read (memberKey path l.1) l.2 = .ok r ∧ vals' l.2 = r.getD (vals l.2) := by
  rw [loadMembers_eq] at h
  exact (foldlM_loadField read (memberKey path) _ hnodup vals vals' h).1 l hl

/-- A load succeeds exactly when every text it meets is accepted; no text is met in vain. -/
theorem foldlM_loadField_ok_iff (key : List String → String) (ls : List (List String × M))
    (vals : (m : M) → V m) :
    (∃ vals', ls.foldlM (fun s l => loadField read (key l.1) l.2 s) vals = .ok vals') ↔
      ∀ l ∈ ls, ∃ r, read (key l.1) l.2 = .ok r := by
  induction ls generalizing vals with
  | nil => exact iff_of_true ⟨vals, rfl⟩ (fun l hl => absurd hl List.not_mem_nil)
  | cons l ls ih =>
    constructor
    · rintro ⟨vals', h⟩
      rw [List.foldlM_cons, bind_eq_ok] at h
      obtain ⟨mid, hl, h⟩ := h
      obtain ⟨r, hr, _⟩ := loadField_ok read _ _ _ _ hl
      have hrest := (ih mid).mp ⟨vals', h⟩
      intro l' hl'
      rcases List.mem_cons.mp hl' with rfl | hl'
      · exact ⟨r, hr⟩
      · exact hrest l' hl'
    · intro h
      obtain ⟨r, hr⟩ := h l List.mem_cons_self
      have hmid : ∃ mid, loadField read (key l.1) l.2 vals = .ok mid := by
        cases r with
        | none => exact ⟨vals, by rw [loadField, hr]; rfl⟩
        | some v => exact ⟨Function.update vals l.2 v, by rw [loadField, hr]; rfl⟩
      obtain ⟨mid, hmid⟩ := hmid
      obtain ⟨vals', hrest⟩ := (ih mid).mpr (fun l' hl' => h l' (List.mem_cons_of_mem l hl'))
      refine ⟨vals', ?_⟩
      rw [List.foldlM_cons, bind_eq_ok]
      exact ⟨mid, hmid, hrest⟩

theorem loadMembers_ok_iff (ds : List (Described M)) (path : String) (vals : (m : M) → V m) :
    (∃ vals', loadMembers (loadField read) path ds vals = .ok vals') ↔
      ∀ l ∈ leaves ds, ∃ r, read (memberKey path l.1) l.2 = .ok r := by
  rw [loadMembers_eq]
  exact foldlM_loadField_ok_iff read (memberKey path) (leaves ds) vals

end Fields

end DpdkTools.Reflect
