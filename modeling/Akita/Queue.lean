import Mathlib.Data.List.Infix

/-!
# Queues served again and again

A queue that is observed at every step of an infinite run, as what has left it and what waits in it.

* `Queue.Served` : elements join at the end and leave at the front, and again and again one leaves unless none waits;
* `Queue.Served.leaves` : every element that waits leaves;
* `eventually_forall` : what holds of each of finitely many elements from some step on holds of all from some step on.
-/

namespace Akita
open List

variable {α : Type}

theorem exists_ge_of_progress {d : Nat → Nat} {goal n : Nat} (hrise : ∀ i, n ≤ i → d i < goal → ∃ k, i ≤ k ∧ d i < d k) :
    ∃ k, n ≤ k ∧ goal ≤ d k := by
  induction hleft : goal - d n using Nat.strong_induction_on generalizing n with
  | _ _ ih =>
    by_cases hdone : goal ≤ d n
    · exact ⟨n, le_refl n, hdone⟩
    · obtain ⟨k, hk, _⟩ := hrise n (le_refl n) (by omega)
      obtain ⟨k', hk', hgoal⟩ := ih (goal - d k) (by omega) (fun i hi => hrise i (hk.trans hi)) rfl
      exact ⟨k', hk.trans hk', hgoal⟩

theorem prefix_of_le {f : Nat → List α} (hstep : ∀ n, f n <+: f (n + 1)) {n k : Nat} (h : n ≤ k) : f n <+: f k := by
  induction k, h using Nat.le_induction with
  | base => exact prefix_rfl
  | succ k _ ih => exact ih.trans (hstep k)

/-- A list of properties that each hold at some step, and then for good, hold together at some step. -/
theorem eventually_forall {P : α → Nat → Prop} (hmono : ∀ a n k, n ≤ k → P a n → P a k) (l : List α) (n : Nat)
    (h : ∀ a ∈ l, ∃ k, n ≤ k ∧ P a k) : ∃ k, n ≤ k ∧ ∀ a ∈ l, P a k := by
  induction l with
  | nil => exact ⟨n, le_refl n, forall_mem_nil _⟩
  | cons a _ ih =>
    obtain ⟨k, _, hl⟩ := ih fun b hb => h b (mem_cons_of_mem _ hb)
    obtain ⟨k', _, ha⟩ := h a mem_cons_self
    refine ⟨max k k', by omega, fun b hb => ?_⟩
    rcases mem_cons.mp hb with rfl | hb
    · exact hmono b k' _ (Nat.le_max_right k k') ha
    · exact hmono b k _ (Nat.le_max_left k k') (hl b hb)

namespace Queue

/-- Elements join at the end and leave at the front; at some later step one leaves, unless none waits then. -/
structure Served (out wait : Nat → List α) : Prop where
  leave : ∀ n, out n <+: out (n + 1)
  join : ∀ n, out n ++ wait n <+: out (n + 1) ++ wait (n + 1)
  serve : ∀ n, ∃ k, n ≤ k ∧ (wait k ≠ [] → (out k).length < (out (k + 1)).length)

namespace Served

variable {out wait : Nat → List α}

/-- All that has joined at one step has left at some later one. -/
theorem drains (h : Served out wait) (n : Nat) : ∃ k, n ≤ k ∧ out n ++ wait n <+: out k := by
  have hall : ∀ k, n ≤ k → out n ++ wait n <+: out k ++ wait k := fun k hk => prefix_of_le h.join hk
  have hrise : ∀ i, n ≤ i → (out i).length < (out n ++ wait n).length → ∃ k, i ≤ k ∧ (out i).length < (out k).length := by
    intro i hi hlt
    obtain ⟨k, hk, hserve⟩ := h.serve i
    have hle := (prefix_of_le h.leave hk).length_le
    refine ⟨k + 1, by omega, ?_⟩
    rcases Nat.lt_or_ge (out i).length (out k).length with hless | _
    · exact Nat.lt_of_lt_of_le hless (h.leave k).length_le
    · have hne : wait k ≠ [] := by
        intro hnil
        have hlen := (hall k (hi.trans hk)).length_le
        rw [hnil, append_nil] at hlen
        omega
      exact Nat.lt_of_le_of_lt hle (hserve hne)
  obtain ⟨k, hk, hgoal⟩ := exists_ge_of_progress (d := fun i => (out i).length) hrise
  exact ⟨k, hk, prefix_of_prefix_length_le (hall k hk) (prefix_append ..) hgoal⟩

theorem leaves (h : Served out wait) {n : Nat} {a : α} (ha : a ∈ out n ++ wait n) : ∃ k, n ≤ k ∧ a ∈ out k := by
  obtain ⟨k, hk, hout⟩ := h.drains n
  exact ⟨k, hk, hout.subset ha⟩

end Served

end Queue

end Akita
