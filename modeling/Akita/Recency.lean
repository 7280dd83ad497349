import Mathlib.Data.List.Basic
import Mathlib.Data.List.Induction

/-!
# Recency

Elements are visited one after the other, and each is placed by its last visit.

* `lastVisit visits a` : the number of the last visit of `a`, counted from one, and zero when there was none;
* `ByRecency visits l` : the elements of `l` are in the order of their last visits, the oldest first.
-/

namespace Akita
open List

variable {α : Type} [DecidableEq α]

/-- The number of the last visit of `a`. -/
def lastVisit (visits : List α) (a : α) : Nat := visits.length - visits.reverse.idxOf a

section lastVisit

variable {visits : List α} {a b : α}

theorem lastVisit_le (visits : List α) (a : α) : lastVisit visits a ≤ visits.length := Nat.sub_le ..

@[simp] theorem lastVisit_concat_self (visits : List α) (a : α) : lastVisit (visits ++ [a]) a = visits.length + 1 := by
  simp [lastVisit]

theorem lastVisit_concat_of_ne (h : a ≠ b) : lastVisit (visits ++ [b]) a = lastVisit visits a := by
  have hcons : (visits ++ [b]).reverse = b :: visits.reverse := reverse_concat ..
  rw [lastVisit, hcons, idxOf_cons_ne _ h.symm, length_append, lastVisit]
  exact Nat.add_sub_add_right ..

end lastVisit

/-- The elements are in the order of their last visits. -/
def ByRecency (visits : List α) (l : List α) : Prop := l.Pairwise fun a b => lastVisit visits a < lastVisit visits b

namespace ByRecency

variable {visits l : List α} {a b : α}

/-- The first one was visited before all others. -/
theorem lt_of_head (h : ByRecency visits (a :: l)) (hb : b ∈ l) : lastVisit visits a < lastVisit visits b :=
  (pairwise_cons.mp h).1 b hb

theorem tail (h : ByRecency visits (a :: l)) : ByRecency visits l := (pairwise_cons.mp h).2

theorem nodup (h : ByRecency visits l) : l.Nodup :=
  h.imp fun hlt => by
    rintro rfl
    exact Nat.lt_irrefl _ hlt

theorem visit (h : ByRecency visits l) (a : α) : ByRecency (visits ++ [a]) (l.erase a ++ [a]) := by
  have hne : ∀ x ∈ l.erase a, x ≠ a := fun x hx => (h.nodup.mem_erase_iff.mp hx).1
  apply pairwise_append.mpr
  refine ⟨?_, pairwise_singleton _ _, fun x hx y hy => ?_⟩
  · apply (List.Pairwise.sublist erase_sublist h).imp_of_mem
    intro x y hx hy hlt
    rw [lastVisit_concat_of_ne (hne x hx), lastVisit_concat_of_ne (hne y hy)]
    exact hlt
  · rw [mem_singleton.mp hy, lastVisit_concat_of_ne (hne x hx), lastVisit_concat_self]
    exact Nat.lt_succ_of_le (lastVisit_le visits x)

theorem of_nodup (h : l.Nodup) : ByRecency l l := by
  induction l using reverseRecOn with
  | nil => exact List.Pairwise.nil
  | append_singleton l a ih =>
    obtain ⟨hl, -, hdisjoint⟩ := nodup_append.mp h
    have ha : a ∉ l := fun ha => hdisjoint a ha a (mem_singleton_self a) rfl
    have hvisit := (ih hl).visit a
    rwa [erase_of_not_mem ha] at hvisit

/-- The first one of a kind was visited before the others of its kind. -/
theorem lt_of_find {p : α → Bool} (h : ByRecency visits l) (hfind : l.find? p = some a) (hb : b ∈ l) (hp : p b = true)
    (hne : b ≠ a) : lastVisit visits a < lastVisit visits b := by
  induction l with
  | nil => cases hb
  | cons x l ih =>
    rw [find?_cons] at hfind
    split at hfind
    · cases hfind
      exact h.lt_of_head ((mem_cons.mp hb).resolve_left hne)
    · next hx =>
      rcases mem_cons.mp hb with rfl | hb
      · rw [hp] at hx
        cases hx
      · exact ih h.tail hfind hb

end ByRecency

end Akita
