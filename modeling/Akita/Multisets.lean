import Mathlib.Algebra.BigOperators.Group.List.Basic
import Mathlib.Algebra.Order.Group.Multiset
import Mathlib.Tactic.Abel

/-!
# Lists as multisets

What queues and tables of requests are when their order is forgotten.
-/

namespace Akita
open Function
open List hiding getElem?_eq_some_iff
open Multiset (add_cons card coe_add coe_eq_coe coe_nil cons_add cons_coe singleton_add)

variable {α : Type}

theorem coe_concat (l : List α) (x : α) : (↑(l ++ [x]) : Multiset α) = x ::ₘ ↑l := by
  rw [← coe_add, Multiset.coe_singleton, add_comm, singleton_add]

variable {l : List α} {x : α}

theorem mem_of_cons {m w : Multiset α} (h : m = x ::ₘ w) : ∀ y ∈ w, y ∈ m := fun _ hy => h ▸ Multiset.mem_cons_of_mem hy

/-- Erasing the first element that satisfies `p` takes one element out. -/
theorem coe_eraseP {p : α → Bool} (h : l.find? p = some x) :
    (↑l : Multiset α) = x ::ₘ ↑(l.eraseP p) := by
  induction l with
  | nil => simp at h
  | cons y _ ih =>
    by_cases hy : p y = true
    · rw [find?_cons_of_pos hy, Option.some.injEq] at h
      subst h
      rw [eraseP_cons_of_pos hy, cons_coe]
    · rw [find?_cons_of_neg hy] at h
      rw [eraseP_cons_of_neg hy, ← cons_coe, ← cons_coe, ih h, Multiset.cons_swap]

theorem length_eraseP {p : α → Bool} (h : l.find? p = some x) : (l.eraseP p).length + 1 = l.length := by
  have hcard := congrArg card (coe_eraseP h)
  rw [Multiset.card_cons] at hcard
  exact hcard.symm

theorem coe_eraseIdx {k : Nat} (h : l[k]? = some x) : (↑l : Multiset α) = x ::ₘ ↑(l.eraseIdx k) := by
  obtain ⟨hk, rfl⟩ := List.getElem?_eq_some_iff.mp h
  exact (coe_eq_coe.mpr (List.getElem_cons_eraseIdx_perm hk)).symm

theorem filterMap_concat {α β : Type} (f : α → Option β) (l : List α) (x : α) :
    (l ++ [x]).filterMap f = l.filterMap f ++ (f x).toList := by
  rw [filterMap_append]
  cases h : f x <;> simp [h]

/-- Elements that a filter sends to the same value are the same, if the values are distinct. -/
theorem eq_of_filterMap_nodup {α β : Type} {f : α → Option β} {l : List α} (h : (l.filterMap f).Nodup) {a b : α} {v : β}
    (ha : a ∈ l) (hb : b ∈ l) (hfa : f a = some v) (hfb : f b = some v) : a = b := by
  induction l with
  | nil => exact absurd ha not_mem_nil
  | cons x l ih =>
    have htail : (l.filterMap f).Nodup :=
      h.sublist ((sublist_cons_self x l).filterMap f)
    -- the value of the head does not come again
    have hhead : ∀ y ∈ l, f x = some v → f y ≠ some v := by
      intro y hy hx hfy
      rw [filterMap_cons_some hx] at h
      exact (nodup_cons.mp h).1 (mem_filterMap.mpr ⟨y, hy, hfy⟩)
    rcases mem_cons.mp ha with rfl | hal
    · rcases mem_cons.mp hb with rfl | hbl
      · rfl
      · exact absurd hfb (hhead b hbl hfa)
    · rcases mem_cons.mp hb with rfl | hbl
      · exact absurd hfa (hhead a hal hfb)
      · exact ih htail hal hbl

variable {ls : List (List α)} {i : Nat}

theorem coe_flatten_set (h : ls[i]? = some l) (l' : List α) :
    (↑(ls.set i l').flatten : Multiset α) + ↑l = ↑ls.flatten + ↑l' := by
  induction ls generalizing i with
  | nil => cases h
  | cons _ _ ih =>
    cases i with
    | zero =>
      cases h
      simp only [set_cons_zero, flatten_cons, ← coe_add]
      abel
    | succ =>
      simp only [set_cons_succ, flatten_cons, ← coe_add]
      rw [add_assoc, ih (by simpa using h), add_assoc]

theorem coe_flatten_set_remove {before after : List α} (h : ls[i]? = some (before ++ x :: after)) :
    (↑ls.flatten : Multiset α) = x ::ₘ ↑(ls.set i (before ++ after)).flatten := by
  have hset := coe_flatten_set h (before ++ after)
  have hx : (↑(before ++ x :: after) : Multiset α) = x ::ₘ ↑(before ++ after) := coe_eq_coe.2 perm_middle
  rw [hx, add_cons, ← cons_add, add_left_inj] at hset
  exact hset.symm

theorem coe_flatten_modify_concat (h : ls[i]? = some l) (x : α) :
    (↑(ls.modify i (· ++ [x])).flatten : Multiset α) = x ::ₘ ↑ls.flatten := by
  have hset := coe_flatten_set h (l ++ [x])
  rw [coe_concat, add_cons, ← cons_add, add_left_inj] at hset
  rwa [modify_eq_set_getElem?, h]

/-- One more element has a value. -/
theorem coe_filterMap_update {α β : Type} [DecidableEq α] {l : List α} (hnodup : l.Nodup) {a : α} (ha : a ∈ l)
    {f : α → Option β} (hf : f a = none) (x : Option β) :
    (↑(l.filterMap (update f a x)) : Multiset β) = ↑(l.filterMap f) + ↑x.toList := by
  induction l with
  | nil => cases ha
  | cons b l ih =>
    obtain ⟨hb, hnodup⟩ := nodup_cons.1 hnodup
    by_cases hba : b = a
    · subst hba
      have hsame : l.filterMap (update f b x) = l.filterMap f := by
        refine filterMap_congr fun c hc => update_of_ne ?_ ..
        rintro rfl
        exact hb hc
      cases x with
      | none => simp [hf, hsame]
      | some =>
        simp only [filterMap_cons, update_self, hf, hsame, Option.toList_some, ← cons_coe, coe_nil, Multiset.cons_zero]
        rw [add_comm, singleton_add]
    · have ih' := ih hnodup ((mem_cons.1 ha).resolve_left (Ne.symm hba))
      cases hfb : f b with
      | none => simp only [filterMap_cons, update_of_ne hba, hfb, ih']
      | some =>
        simp only [filterMap_cons, update_of_ne hba, hfb, ← cons_coe, ih', cons_add]

/-- The values are dealt out to two functions. -/
theorem coe_filterMap_split {α β : Type} {l : List α} {f g h : α → Option β}
    (hsplit : ∀ a ∈ l, (g a = f a ∧ h a = none) ∨ (g a = none ∧ h a = f a)) :
    (↑(l.filterMap f) : Multiset β) = ↑(l.filterMap g) + ↑(l.filterMap h) := by
  induction l with
  | nil => rfl
  | cons a _ ih =>
    have ih' := ih fun b hb => hsplit b (mem_cons_of_mem _ hb)
    rcases hsplit a (mem_cons_self ..) with ⟨hg, hh⟩ | ⟨hg, hh⟩
    · cases hf : f a with
      | none => simp only [filterMap_cons, hg, hh, hf, ih']
      | some => simp only [filterMap_cons, hg, hh, hf, ← cons_coe, ih', cons_add]
    · cases hf : f a with
      | none => simp only [filterMap_cons, hg, hh, hf, ih']
      | some => simp only [filterMap_cons, hg, hh, hf, ← cons_coe, ih', add_cons]

theorem sum_boole (p : α → Bool) (l : List α) : (l.map fun a => if p a then 1 else 0).sum = l.countP p := by
  induction l with
  | nil => rfl
  | cons _ _ ih => rw [map_cons, sum_cons, ih, countP_cons, Nat.add_comm]

/-- A relation is counted from either side. -/
theorem sum_countP_comm {α β : Type} (p : α → β → Bool) (l : List α) (l' : List β) :
    (l.map fun a => l'.countP (p a)).sum = (l'.map fun b => l.countP fun a => p a b).sum := by
  induction l with
  | nil => simp
  | cons _ _ ih =>
    simp only [map_cons, sum_cons, countP_cons, sum_map_add]
    rw [ih, sum_boole, Nat.add_comm]

end Akita
