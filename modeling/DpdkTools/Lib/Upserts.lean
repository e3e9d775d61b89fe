import Mathlib.Data.List.Basic

/-! Lists of records that have a key, and updates that go to the first record of a key, or to a new
one behind the list where there is none. After a run of updates a lookup finds what the updates of
its key, in their order, make of what it found before. -/
namespace DpdkTools.Upserts
set_option autoImplicit false

section Updates
variable {α κ : Type} [DecidableEq κ] {key : α → κ}

/-- A change to the record of one key. It leaves the key as it is, and knows the record it starts
from where there is none. -/
structure Update (key : α → κ) where
  target : κ
  fresh : α
  change : α → α
  key_fresh : key fresh = target
  key_change : ∀ a, key (change a) = key a

/-- The first record of a key. -/
def findKey (key : α → κ) (k : κ) (l : List α) : Option α := l.find? fun a => key a = k

def upsert (u : Update key) : List α → List α
  | [] => [u.change u.fresh]
  | a :: l => if key a = u.target then u.change a :: l else a :: upsert u l

def upserts (us : List (Update key)) (l : List α) : List α := us.foldl (fun l u => upsert u l) l

/-- The update of a record that was looked up. -/
def Update.found (u : Update key) (a : Option α) : Option α := some (u.change (a.getD u.fresh))

theorem findKey_cons (k : κ) (a : α) (l : List α) :
    findKey key k (a :: l) = if key a = k then some a else findKey key k l := by
  rw [findKey, List.find?_cons]
  by_cases ha : key a = k
  · simp [ha]
  · simp [ha, findKey]

theorem findKey_upsert_same (u : Update key) (l : List α) :
    findKey key u.target (upsert u l) = u.found (findKey key u.target l) := by
  induction l with
  | nil =>
    rw [upsert, findKey_cons, if_pos ((u.key_change u.fresh).trans u.key_fresh)]
    rfl
  | cons a l ih =>
    by_cases ha : key a = u.target
    · rw [upsert, if_pos ha, findKey_cons, if_pos ((u.key_change a).trans ha), findKey_cons,
        if_pos ha]
      rfl
    · rw [upsert, if_neg ha, findKey_cons, if_neg ha, ih, findKey_cons, if_neg ha]

theorem findKey_upsert_other (u : Update key) (l : List α) (k : κ) (hk : u.target ≠ k) :
    findKey key k (upsert u l) = findKey key k l := by
  induction l with
  | nil =>
    have hne : key (u.change u.fresh) ≠ k := by rwa [u.key_change, u.key_fresh]
    rw [upsert, findKey_cons, if_neg hne]
  | cons a l ih =>
    by_cases ha : key a = u.target
    · have hold : key a ≠ k := by rwa [ha]
      have hnew : key (u.change a) ≠ k := by rwa [u.key_change]
      rw [upsert, if_pos ha, findKey_cons, if_neg hnew, findKey_cons, if_neg hold]
    · rw [upsert, if_neg ha, findKey_cons, findKey_cons, ih]

/-- The updates of the other keys do not matter. -/
theorem findKey_upserts (us : List (Update key)) (l : List α) (k : κ) :
    findKey key k (upserts us l) =
      (us.filter fun u => u.target = k).foldl (fun a u => u.found a) (findKey key k l) := by
  induction us generalizing l with
  | nil => rfl
  | cons u us ih =>
    have hrun : upserts (u :: us) l = upserts us (upsert u l) := rfl
    rw [hrun, ih, List.filter_cons]
    by_cases hu : u.target = k
    · subst hu
      rw [if_pos (by simp), findKey_upsert_same, List.foldl_cons]
    · rw [if_neg (by simpa using hu), findKey_upsert_other u l k hu]

theorem map_key_upsert (u : Update key) (l : List α) :
    (upsert u l).map key =
      if u.target ∈ l.map key then l.map key else l.map key ++ [u.target] := by
  induction l with
  | nil => simp [upsert, u.key_change, u.key_fresh]
  | cons a l ih =>
    by_cases ha : key a = u.target
    · rw [upsert, if_pos ha, if_pos (by simp [ha]), List.map_cons, List.map_cons, u.key_change]
    · rw [upsert, if_neg ha, List.map_cons, ih, List.map_cons]
      by_cases hmem : u.target ∈ l.map key
      · rw [if_pos hmem, if_pos (List.mem_cons_of_mem _ hmem)]
      · rw [if_neg hmem, if_neg (by simpa [Ne.symm ha] using hmem), List.cons_append]

/-- The records that were there stay in their order. Behind them stands each key that is updated and
was not there, once. -/
theorem map_key_upserts (us : List (Update key)) (l : List α) :
    ∃ added, (upserts us l).map key = l.map key ++ added ∧ added.Nodup ∧
      ∀ k, k ∈ added ↔ k ∉ l.map key ∧ ∃ u ∈ us, u.target = k := by
  induction us generalizing l with
  | nil => exact ⟨[], (List.append_nil _).symm, List.nodup_nil, by simp⟩
  | cons u us ih =>
    obtain ⟨added, hkeys, hnodup, hadded⟩ := ih (upsert u l)
    rw [map_key_upsert] at hkeys hadded
    have hrun : upserts (u :: us) l = upserts us (upsert u l) := rfl
    by_cases hmem : u.target ∈ l.map key
    · rw [if_pos hmem] at hkeys hadded
      refine ⟨added, hrun ▸ hkeys, hnodup, ?_⟩
      intro k
      rw [hadded, List.exists_mem_cons_iff]
      constructor
      · rintro ⟨hk, hu⟩
        exact ⟨hk, .inr hu⟩
      · rintro ⟨hk, rfl | hu⟩
        · exact absurd hmem hk
        · exact ⟨hk, hu⟩
    · rw [if_neg hmem] at hkeys hadded
      have hnot : u.target ∉ added := fun h => ((hadded _).mp h).1 (List.mem_append_right _ (by simp))
      refine ⟨u.target :: added, ?_, List.nodup_cons.mpr ⟨hnot, hnodup⟩, ?_⟩
      · rw [hrun, hkeys, List.append_assoc, List.singleton_append]
      · intro k
        rw [List.mem_cons, hadded, List.exists_mem_cons_iff, List.mem_append, List.mem_singleton]
        constructor
        · rintro (rfl | ⟨hk, hu⟩)
          · exact ⟨hmem, .inl rfl⟩
          · exact ⟨fun h => hk (.inl h), .inr hu⟩
        · rintro ⟨hk, rfl | hu⟩
          · exact .inl rfl
          · by_cases heq : k = u.target
            · exact .inl heq
            · exact .inr ⟨fun h => h.elim hk heq, hu⟩

end Updates

/-- A field that each step sets or keeps holds the last value given to it. -/
theorem foldl_given {σ ι β : Type} (step : σ → ι → σ) (field : σ → β) (given : ι → Option β)
    (h : ∀ s i, field (step s i) = (given i).getD (field s)) (is : List ι) (s : σ) :
    field (is.foldl step s) = (is.filterMap given).getLast?.getD (field s) := by
  induction is generalizing s with
  | nil => rfl
  | cons i is ih =>
    rw [List.foldl_cons, ih, h]
    cases hgiven : given i with
    | none => rw [List.filterMap_cons_none hgiven, Option.getD_none]
    | some v =>
      rw [List.filterMap_cons_some hgiven, List.getLast?_cons, Option.getD_some, Option.getD_some]

end DpdkTools.Upserts
