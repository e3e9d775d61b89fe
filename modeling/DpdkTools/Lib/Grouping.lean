import Mathlib.Data.List.Induction
import Mathlib.Data.List.Nodup

/-! Lists split by a key: the keys in the order in which they first occur, and for each of them its
elements in their own order. Adding an element at the end of the list adds it at the end of its
group, or starts a group behind all others. -/
namespace DpdkTools.Grouping
set_option autoImplicit false

section
variable {α κ : Type} [DecidableEq κ]

def keys (f : α → κ) (xs : List α) : List κ := (xs.map f).eraseDups

def group (f : α → κ) (xs : List α) (k : κ) : List α := xs.filter (fun x => f x = k)

def groups (f : α → κ) (xs : List α) : List (κ × List α) :=
  (keys f xs).map fun k => (k, group f xs k)

def insertInto (k : κ) (x : α) : List (κ × List α) → List (κ × List α)
  | [] => [(k, [x])]
  | g :: gs => if g.1 = k then (g.1, g.2 ++ [x]) :: gs else g :: insertInto k x gs

/-! ## Keys -/

theorem nodup_eraseDups (l : List κ) : l.eraseDups.Nodup := by
  induction h : l.length using Nat.strongRecOn generalizing l with
  | _ n ih =>
    cases l with
    | nil => exact List.nodup_nil
    | cons a as =>
      rw [List.eraseDups_cons, List.nodup_cons]
      constructor
      · intro hmem
        rw [List.mem_eraseDups] at hmem
        simpa using (List.mem_filter.mp hmem).2
      · apply ih (as.filter (fun b => !b == a)).length _ _ rfl
        have hle := List.length_filter_le (fun b => !b == a) as
        rw [← h, List.length_cons]
        omega

theorem eraseDups_concat (l : List κ) (a : κ) :
    (l ++ [a]).eraseDups = if a ∈ l then l.eraseDups else l.eraseDups ++ [a] := by
  rw [List.eraseDups_append]
  split_ifs with h
  · have hnone : [a].removeAll l = [] := by simp [List.removeAll, h]
    rw [hnone, List.eraseDups_nil, List.append_nil]
  · have hone : [a].removeAll l = [a] := by simp [List.removeAll, h]
    rw [hone]
    rfl

/-- The kept occurrence of a key is its first one. -/
theorem eraseDups_pairwise_idxOf (l : List κ) :
    l.eraseDups.Pairwise (fun a b => l.idxOf a < l.idxOf b) := by
  induction l using List.reverseRecOn with
  | nil => exact List.Pairwise.nil
  | append_singleton l a ih =>
    have hold : l.eraseDups.Pairwise (fun x y => (l ++ [a]).idxOf x < (l ++ [a]).idxOf y) := by
      apply List.Pairwise.imp_of_mem _ ih
      intro x y hx hy hlt
      rw [List.idxOf_append_of_mem (List.mem_eraseDups.mp hx),
        List.idxOf_append_of_mem (List.mem_eraseDups.mp hy)]
      exact hlt
    rw [eraseDups_concat]
    split_ifs with h
    · exact hold
    · rw [List.pairwise_append]
      refine ⟨hold, List.pairwise_singleton _ _, ?_⟩
      intro x hx y hy
      obtain rfl := List.mem_singleton.mp hy
      have hmem := List.mem_eraseDups.mp hx
      rw [List.idxOf_append_of_mem hmem, List.idxOf_append_of_notMem h]
      have hlt := List.idxOf_lt_length_of_mem hmem
      omega

/-! ## Groups -/

theorem group_concat (f : α → κ) (xs : List α) (x : α) (k : κ) :
    group f (xs ++ [x]) k = if f x = k then group f xs k ++ [x] else group f xs k := by
  rw [group, List.filter_append, group]
  split_ifs with h
  · simp [h]
  · simp [h]

theorem insertInto_of_notMem (k : κ) (x : α) (gs : List (κ × List α)) (h : k ∉ gs.map Prod.fst) :
    insertInto k x gs = gs ++ [(k, [x])] := by
  induction gs with
  | nil => rfl
  | cons g gs ih =>
    rw [List.map_cons, List.mem_cons, not_or] at h
    rw [insertInto, if_neg (fun e => h.1 e.symm), ih h.2, List.cons_append]

/-- Of distinct keys one group grows, the others stay. -/
theorem insertInto_map (k : κ) (x : α) (ks : List κ) (g : κ → List α) (hnodup : ks.Nodup)
    (hk : k ∈ ks) :
    insertInto k x (ks.map fun k' => (k', g k')) =
      ks.map fun k' => (k', if k = k' then g k' ++ [x] else g k') := by
  induction ks with
  | nil => exact absurd hk List.not_mem_nil
  | cons k' ks ih =>
    obtain ⟨hk', hks⟩ := List.nodup_cons.mp hnodup
    rw [List.map_cons, List.map_cons, insertInto]
    by_cases heq : k' = k
    · subst heq
      have hrest : ks.map (fun y => (y, if k' = y then g y ++ [x] else g y)) =
          ks.map fun y => (y, g y) := by
        apply List.map_congr_left
        intro y hy
        have hne : k' ≠ y := by
          rintro rfl
          exact hk' hy
        rw [if_neg hne]
      rw [if_pos rfl, if_pos rfl, hrest]
    · have hmem : k ∈ ks := by
        rcases List.mem_cons.mp hk with rfl | h
        · exact absurd rfl heq
        · exact h
      rw [if_neg heq, if_neg (fun e => heq e.symm), ih hks hmem]

theorem groups_concat (f : α → κ) (xs : List α) (x : α) :
    groups f (xs ++ [x]) = insertInto (f x) x (groups f xs) := by
  have hkeys : keys f (xs ++ [x]) = if f x ∈ xs.map f then keys f xs else keys f xs ++ [f x] := by
    rw [keys, List.map_append]
    exact eraseDups_concat (xs.map f) (f x)
  rw [groups, hkeys]
  simp only [group_concat]
  split_ifs with h
  · have hmem : f x ∈ keys f xs := List.mem_eraseDups.mpr h
    exact (insertInto_map (f x) x (keys f xs) (group f xs) (nodup_eraseDups _) hmem).symm
  · have hnew : f x ∉ keys f xs := fun hmem => h (List.mem_eraseDups.mp hmem)
    have hempty : group f xs (f x) = [] := by
      rw [group, List.filter_eq_nil_iff]
      intro y hy hfy
      exact h (List.mem_map.mpr ⟨y, hy, by simpa using hfy⟩)
    have hold : (keys f xs).map (fun k => (k, if f x = k then group f xs k ++ [x] else group f xs k)) =
        groups f xs := by
      apply List.map_congr_left
      intro k hk
      have hne : f x ≠ k := by
        rintro rfl
        exact hnew hk
      rw [if_neg hne]
    have hfst : f x ∉ (groups f xs).map Prod.fst := by
      rw [groups, List.map_map]
      intro hmem
      obtain ⟨k, hk, he⟩ := List.mem_map.mp hmem
      exact hnew (he ▸ hk)
    rw [List.map_append, hold, insertInto_of_notMem (f x) x _ hfst, List.map_singleton, if_pos rfl,
      hempty, List.nil_append]

end

end DpdkTools.Grouping
