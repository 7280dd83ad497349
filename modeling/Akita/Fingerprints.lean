import Mathlib.Algebra.BigOperators.Group.Finset.Basic
import Mathlib.Data.Fintype.Basic

/-!
# Tables of fingerprints

A filter keeps the fingerprints of a set of items in buckets; each fingerprint has a few home buckets, where it is looked up.

* `entries b` : what the buckets hold, each entry with the bucket it is in;
* `Mirrors home t m` : the table `t` holds the fingerprints `m`, each in one of its home buckets.
-/

namespace Akita
open Prod (mk snd)

variable {ι φ : Type}

/-! ## Entries -/

/-- What the buckets hold. -/
@[irreducible] def entries [Fintype ι] (b : ι → Multiset φ) : Multiset (ι × φ) := ∑ i, (b i).map (mk i)

section entries

variable [Fintype ι] {b b' : ι → Multiset φ} {i : ι} {f : φ}

theorem mem_entries {e : ι × φ} : e ∈ entries b ↔ e.2 ∈ b e.1 := by
  obtain ⟨_, _⟩ := e
  simp [entries, Multiset.mem_sum]

@[simp] theorem entries_empty : entries (fun _ : ι => (0 : Multiset φ)) = 0 := by
  simp [entries]

theorem entries_cons [DecidableEq ι] (hi : b' i = f ::ₘ b i) (hne : ∀ j ≠ i, b' j = b j) :
    entries b' = (i, f) ::ₘ entries b := by
  have hsplit : ∀ c : ι → Multiset φ, entries c = (c i).map (mk i) + ∑ j ∈ Finset.univ.erase i, (c j).map (mk j) := by
    intro c
    rw [entries]
    exact (Finset.add_sum_erase Finset.univ (fun j => (c j).map (mk j)) (Finset.mem_univ i)).symm
  have hrest : ∑ j ∈ Finset.univ.erase i, (b' j).map (mk j) = ∑ j ∈ Finset.univ.erase i, (b j).map (mk j) := by
    apply Finset.sum_congr rfl
    intro j hj
    rw [hne j (Finset.ne_of_mem_erase hj)]
  rw [hsplit b', hsplit b, hrest, hi, Multiset.map_cons, Multiset.cons_add]

end entries

/-! ## Mirrors -/

/-- The table holds the fingerprints `m`, each in one of its home buckets. -/
structure Mirrors (home : φ → ι → Prop) (t : Multiset (ι × φ)) (m : Multiset φ) : Prop where
  fingerprints : t.map snd = m
  atHome : ∀ e ∈ t, home e.2 e.1

namespace Mirrors

variable {home : φ → ι → Prop} {t t' : Multiset (ι × φ)} {m : Multiset φ} {i : ι} {f : φ}

theorem empty : Mirrors home 0 0 := ⟨Multiset.map_zero _, fun _ he => absurd he (Multiset.notMem_zero _)⟩

/-- A fingerprint put in one of its home buckets. -/
theorem insert (h : Mirrors home t m) (hi : home f i) : Mirrors home ((i, f) ::ₘ t) (f ::ₘ m) := by
  constructor
  · rw [Multiset.map_cons, h.fingerprints]
  · intro e he
    rcases Multiset.mem_cons.mp he with rfl | he
    · exact hi
    · exact h.atHome e he

/-- A fingerprint taken out of the bucket it is in. -/
theorem delete [DecidableEq φ] (h : Mirrors home t m) (ht : t = (i, f) ::ₘ t') : Mirrors home t' (m.erase f) := by
  subst ht
  constructor
  · rw [← h.fingerprints, Multiset.map_cons, Multiset.erase_cons_head]
  · intro e he
    exact h.atHome e (Multiset.mem_cons_of_mem he)

/-- A fingerprint of the set is found in one of its home buckets. -/
theorem exists_home (h : Mirrors home t m) (hf : f ∈ m) : ∃ i, home f i ∧ (i, f) ∈ t := by
  rw [← h.fingerprints, Multiset.mem_map] at hf
  obtain ⟨⟨i, _⟩, he, rfl⟩ := hf
  exact ⟨i, h.atHome _ he, he⟩

end Mirrors

end Akita
