import Mathlib.Data.List.Nodup
import Mathlib.Data.List.Perm.Basic

/-!
# Maps as lists of entries

The entries of a map, where the key is part of the entry.

* `lookup`, `delete`, `insert` : the operations. `perm_delete` : an entry that is found, and the others;
* `MapOrder` : an order in which the entries come.
-/

namespace Akita
open List

variable {α κ : Type} [DecidableEq κ] (key : α → κ)

namespace Keyed

def lookup (k : κ) (entries : List α) : Option α := entries.find? (key · = k)

def delete (k : κ) (entries : List α) : List α := entries.filter (key · ≠ k)

def insert (x : α) (entries : List α) : List α := x :: delete key (key x) entries

variable {key} {k : κ} {entries : List α}

variable {x : α}

theorem key_of_lookup (h : lookup key k entries = some x) : key x = k := by
  have hfound := find?_some h
  exact of_decide_eq_true hfound

theorem mem_of_lookup (h : lookup key k entries = some x) : x ∈ entries := mem_of_find?_eq_some h

theorem lookup_eq_none (h : lookup key k entries = none) : k ∉ entries.map key := by
  intro hmem
  obtain ⟨x, hx, rfl⟩ := mem_map.1 hmem
  exact find?_eq_none.1 h x hx (decide_eq_true rfl)

theorem not_mem_delete : k ∉ (delete key k entries).map key := by
  intro hmem
  obtain ⟨x, hx, hk⟩ := mem_map.1 hmem
  exact of_decide_eq_true (mem_filter.1 hx).2 hk

theorem delete_sublist : (delete key k entries).Sublist entries := filter_sublist

theorem delete_eq_self (h : k ∉ entries.map key) : delete key k entries = entries := by
  refine filter_eq_self.2 fun x hx => decide_eq_true ?_
  rintro rfl
  exact h (mem_map_of_mem hx)

theorem perm_delete (h : (entries.map key).Nodup) (hfind : lookup key k entries = some x) :
    entries.Perm (x :: delete key k entries) := by
  induction entries with
  | nil => cases hfind
  | cons y entries ih =>
    obtain ⟨hy, hrest⟩ := nodup_cons.1 h
    by_cases hk : key y = k
    · unfold lookup at hfind
      rw [find?_cons_of_pos (by simpa using hk)] at hfind
      obtain rfl := Option.some.inj hfind
      have hdelete : delete key k (y :: entries) = entries := by
        unfold delete
        rw [filter_cons_of_neg (by simpa using hk)]
        exact delete_eq_self (hk ▸ hy)
      rw [hdelete]
    · unfold lookup at hfind
      rw [find?_cons_of_neg (by simpa using hk)] at hfind
      have hdelete : delete key k (y :: entries) = y :: delete key k entries :=
        filter_cons_of_pos (by simpa using hk)
      rw [hdelete]
      exact ((ih hrest hfind).cons y).trans (.swap _ _ _)

/-- The entries with a key, of which there is at most one. -/
theorem filter_eq_toList (h : (entries.map key).Nodup) (k : κ) :
    entries.filter (key · = k) = (lookup key k entries).toList := by
  unfold lookup
  induction entries with
  | nil => rfl
  | cons x entries ih =>
    obtain ⟨hx, hrest⟩ := nodup_cons.1 h
    by_cases hk : key x = k
    · have hothers : entries.filter (key · = k) = [] := by
        refine filter_eq_nil_iff.2 fun y hy hyk => hx ?_
        rw [hk, ← of_decide_eq_true hyk]
        exact mem_map_of_mem hy
      rw [filter_cons_of_pos (by simpa using hk), find?_cons_of_pos (by simpa using hk), hothers]
      rfl
    · rw [filter_cons_of_neg (by simpa using hk), find?_cons_of_neg (by simpa using hk), ih hrest]

theorem lookup_eq_some (h : (entries.map key).Nodup) (hx : x ∈ entries) : lookup key (key x) entries = some x := by
  have hmem : x ∈ entries.filter (key · = key x) := mem_filter.2 ⟨hx, decide_eq_true rfl⟩
  rw [filter_eq_toList h] at hmem
  exact Option.mem_toList.1 hmem

theorem nodup_insert (h : (entries.map key).Nodup) (x : α) : ((insert key x entries).map key).Nodup :=
  nodup_cons.2 ⟨not_mem_delete, h.sublist (delete_sublist.map key)⟩

end Keyed

/-- An order in which the entries of a map come. -/
structure MapOrder (α : Type) where
  order : List α → List α
  perm : ∀ l, (order l).Perm l

end Akita
