import Akita.Recency
import Akita.Vm.Tlb.Set

/-!
# Replacement in the TLB sets

The sets of all TLBs choose the way to replace by `Evict` and `Visit`: `tlb`, `tlb_cf` and `tlb_gmmu` have the same two
functions, but that `Evict` of `tlb_gmmu` also returns the page of the way.

* `Calls n s visits pending` : calls on a set of `n` ways lead to `s`; `visits` are the ways visited so far, those of `NewSet`
  first, and `pending` is the way evicted and not visited since;
* `evicts_oldest` : the way evicted is the one whose last visit is the oldest.
-/

namespace Akita.Vm.Tlb
open Function List

/-- The calls on a set, each `Evict` followed by a `Visit` of the way before the next `Evict`. -/
inductive Calls (n : Nat) : SetImpl → List Nat → Option Nat → Prop
  | new {s : SetImpl} (h : SetImpl.new n = .ok s) : Calls n s (range n) none
  | evict {s s' : SetImpl} {visits : List Nat} {w : Nat} (h : Calls n s visits none) (hevict : s.evict = some (w, s')) :
      Calls n s' visits (some w)
  | visit {s s' : SetImpl} {visits : List Nat} {pending : Option Nat} {w : Nat} (h : Calls n s visits pending)
      (hvisit : s.visit w = .ok s') : Calls n s' (visits ++ [w]) (if pending = some w then none else pending)

/-- The counters of a set after the visits, and the order of its list. -/
structure Counted (n : Nat) (s : SetImpl) (visits : List Nat) : Prop where
  numWays : s.numWays = n
  visitCount : s.visitCount = visits.length
  lastVisit : ∀ w, (s.blocks w).lastVisit = lastVisit visits w
  byRecency : ByRecency visits s.visitList

/-- The list holds the ways that are not pending. -/
structure Recent (n : Nat) (s : SetImpl) (visits : List Nat) (pending : Option Nat) : Prop extends Counted n s visits where
  ways : (pending.toList ++ s.visitList).Perm (range n)

section
variable {n w : Nat} {s s' : SetImpl} {visits : List Nat} {pending : Option Nat}

theorem Counted.visit_eq (h : Counted n s visits) (hvisit : s.visit w = .ok s') : w < n ∧ s' = { s with
    visitList := s.visitList.erase w ++ [w]
    visitCount := s.visitCount + 1
    blocks := update s.blocks w { s.blocks w with lastVisit := s.visitCount + 1 } } := by
  unfold SetImpl.visit SetImpl.block at hvisit
  split at hvisit
  · next hw =>
    refine ⟨h.numWays ▸ hw, ?_⟩
    cases hvisit
    -- no way was visited later
    have hnone : ∀ x, ¬ s.visitCount + 1 <
        (update s.blocks w { s.blocks w with lastVisit := s.visitCount + 1 } x).lastVisit := by
      intro x
      by_cases hx : x = w
      · rw [hx, update_self]
        exact lt_irrefl _
      · have hle := lastVisit_le visits x
        rw [update_of_ne hx, h.lastVisit, h.visitCount]
        omega
    have hfind : SetImpl.searchLater { s with
        visitList := s.visitList.eraseP (· == w)
        visitCount := s.visitCount + 1
        blocks := update s.blocks w { s.blocks w with lastVisit := s.visitCount + 1 } } (s.visitCount + 1) =
          (s.visitList.eraseP (· == w)).length := by
      apply findIdx_eq_length_of_false
      intro x _
      exact decide_eq_false (hnone x)
    rw [hfind, insertIdx_length_self, erase_eq_eraseP']
  · cases hvisit

theorem Counted.visit (h : Counted n s visits) (hvisit : s.visit w = .ok s') : Counted n s' (visits ++ [w]) := by
  obtain ⟨-, rfl⟩ := h.visit_eq hvisit
  refine ⟨h.numWays, ?_, fun x => ?_, h.byRecency.visit w⟩
  · rw [length_append, ← h.visitCount]
    rfl
  · dsimp only
    by_cases hx : x = w
    · rw [hx, update_self, lastVisit_concat_self, h.visitCount]
    · rw [update_of_ne hx, lastVisit_concat_of_ne hx, h.lastVisit]

theorem Counted.visitAll {ws : List Nat} (h : Counted n s visits) (hall : SetImpl.visitAll ws s = .ok s') :
    Counted n s' (visits ++ ws) := by
  induction ws generalizing s visits with
  | nil =>
    cases hall
    rw [append_nil]
    exact h
  | cons w _ ih =>
    unfold SetImpl.visitAll at hall
    obtain ⟨_, hvisit, hall⟩ := eq_ok_of_bind hall
    rw [append_cons]
    exact ih (h.visit hvisit) hall

theorem Recent.new (h : SetImpl.new n = .ok s) : Recent n s (range n) none := by
  have hempty : Counted n { numWays := n } [] := ⟨rfl, rfl, fun _ => rfl, List.Pairwise.nil⟩
  obtain ⟨_, hnew, hrep⟩ := new_represents n
  rw [h, Except.ok.injEq] at hnew
  subst hnew
  exact ⟨hempty.visitAll h, hrep.visitList⟩

theorem Recent.evict (h : Recent n s visits none) (hevict : s.evict = some (w, s')) : Recent n s' visits (some w) := by
  unfold SetImpl.evict at hevict
  cases hlist : s.visitList with
  | nil =>
    rw [hlist] at hevict
    cases hevict
  | cons =>
    rw [hlist] at hevict
    cases hevict
    have hrecency := h.byRecency
    have hways := h.ways
    rw [hlist] at hrecency hways
    exact ⟨⟨h.numWays, h.visitCount, h.lastVisit, hrecency.tail⟩, hways⟩

theorem Recent.visit (h : Recent n s visits pending) (hvisit : s.visit w = .ok s') :
    Recent n s' (visits ++ [w]) (if pending = some w then none else pending) := by
  refine ⟨h.toCounted.visit hvisit, ?_⟩
  obtain ⟨hw, rfl⟩ := h.visit_eq hvisit
  have hmem : w ∈ pending.toList ++ s.visitList := h.ways.mem_iff.mpr (mem_range.mpr hw)
  by_cases hpending : pending = some w
  · -- the way evicted comes back
    subst hpending
    have hnot : w ∉ s.visitList := (nodup_cons.mp (h.ways.symm.nodup nodup_range)).1
    rw [if_pos rfl]
    dsimp only
    rw [erase_of_not_mem hnot]
    exact (perm_append_singleton w s.visitList).trans h.ways
  · have hin : w ∈ s.visitList := by
      rcases mem_append.mp hmem with hp | hp
      · exact absurd (Option.mem_toList.mp hp) hpending
      · exact hp
    rw [if_neg hpending]
    have hmoved : (s.visitList.erase w ++ [w]).Perm s.visitList :=
      (perm_append_singleton w _).trans (perm_cons_erase hin).symm
    exact (hmoved.append_left _).trans h.ways

theorem recent_of_calls (h : Calls n s visits pending) : Recent n s visits pending := by
  induction h with
  | new h => exact .new h
  | evict _ hevict ih => exact ih.evict hevict
  | visit _ hvisit ih => exact ih.visit hvisit

theorem Recent.evict_eq (h : Recent n s visits none) (hn : 0 < n) : ∃ w s', s.evict = some (w, s') ∧ w < n ∧
    ∀ w' < n, w' ≠ w → Akita.lastVisit visits w < Akita.lastVisit visits w' := by
  unfold SetImpl.evict
  cases hlist : s.visitList with
  | nil =>
    have hlen := h.ways.length_eq
    rw [hlist, length_range] at hlen
    exact absurd hlen (Nat.ne_of_lt hn)
  | cons w =>
    have hrecency := h.byRecency
    have hways := h.ways
    rw [hlist] at hrecency hways
    refine ⟨w, _, rfl, mem_range.mp (hways.mem_iff.mp mem_cons_self), fun w' hw' hne => ?_⟩
    rcases mem_cons.mp (hways.mem_iff.mpr (mem_range.mpr hw')) with heq | hmem
    · exact absurd heq hne
    · exact hrecency.lt_of_head hmem

end

/-- **Replacement is by least recent use.** After any calls on a set of at least one way, each `Evict` followed by a `Visit`
of its way before the next: the list, with the way that is still to be visited, holds every way once; a visit of a way
succeeds; and unless a way is still to be visited, `Evict` returns the way whose last visit is the oldest. -/
theorem evicts_oldest {n : Nat} (hn : 0 < n) {s : SetImpl} {visits : List Nat} {pending : Option Nat}
    (h : Calls n s visits pending) :
    (pending.toList ++ s.visitList).Perm (range n) ∧
    s.visitCount = visits.length ∧
    (∀ w < n, ∃ s', s.visit w = .ok s') ∧
    (pending = none → ∃ w s', s.evict = some (w, s') ∧ w < n ∧ ∀ w' < n, w' ≠ w →
      lastVisit visits w < lastVisit visits w') := by
  have hr := recent_of_calls h
  refine ⟨hr.ways, hr.visitCount, fun w hw => ?_, ?_⟩
  · obtain ⟨s', hvisit, -⟩ := visit_ok (hr.numWays ▸ hw : w < s.numWays)
    exact ⟨s', hvisit⟩
  · rintro rfl
    exact hr.evict_eq hn

/-- A set of three ways whose way 0 is visited again evicts way 1. -/
theorem evicts_oldest_visited : ∃ s w s', Calls 3 s [0, 1, 2, 0] none ∧ s.evict = some (w, s') ∧
    ∀ w' < 3, w' ≠ w → lastVisit [0, 1, 2, 0] w < lastVisit [0, 1, 2, 0] w' := by
  have h : ∃ s, Calls 3 s [0, 1, 2, 0] none := ⟨_, .visit (w := 0) (.new rfl) rfl⟩
  obtain ⟨s, h⟩ := h
  obtain ⟨-, -, -, hevict⟩ := evicts_oldest (by decide) h
  obtain ⟨w, s', heq, -, holdest⟩ := hevict rfl
  exact ⟨s, w, s', h, heq, holdest⟩

/-- A set without ways reports failure. -/
theorem nothing_to_evict : ∃ s, Calls 0 s [] none ∧ s.evict = none := ⟨_, .new rfl, rfl⟩

end Akita.Vm.Tlb
