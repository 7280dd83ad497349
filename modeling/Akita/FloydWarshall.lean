import Mathlib.Data.Fintype.EquivFin
import Mathlib.Order.WellFounded

/-!
# All pairs of best paths, with the first hop of each

`run m nodes t` is the Floyd-Warshall algorithm on a table of values and next hops, for any `Measure` of paths that only grows
when a path is extended.

* `step` : what a round of the algorithm does to the whole table at once; `round_eq_step` : the loops, which update the table
  in place, do the same;
* `Inv` : what holds of the table after each round. `Inv.step` : a round keeps it;
* `Follows` : the path that the next hops lead along;
* `exists_follows` : from each node to each node that it can reach, the next hops lead along a path without a cycle, and no
  other path is better.
-/

namespace Akita.FloydWarshall
open List Function

/-- An entry of the table: the value of the best path found, and its first hop. -/
structure Cell (W N : Type) where
  val : W
  next : Option N
deriving DecidableEq

abbrev Table (ι W N : Type) := ι → ι → Cell W N

variable {ι W N : Type}

/-! ## Following the next hops -/

section Follows

variable {via : N → ι} {t : Table ι W N} {i j : ι}

/-- The next hops lead from the node to `j`. -/
inductive Reach (via : N → ι) (t : Table ι W N) (j : ι) : ι → Prop
  | refl : Reach via t j j
  | next {i : ι} {r : N} (hne : i ≠ j) (hnext : (t i j).next = some r) (hrest : Reach via t j (via r)) : Reach via t j i

/-- The next hops lead from `i` to `j` along the nodes. -/
inductive Follows (via : N → ι) (t : Table ι W N) (j : ι) : ι → List ι → Prop
  | nil : Follows via t j j []
  | cons {i : ι} {r : N} {vs : List ι} (hne : i ≠ j) (hnext : (t i j).next = some r) (hrest : Follows via t j (via r) vs) :
      Follows via t j i (via r :: vs)

namespace Follows

theorem exists_of_reach (h : Reach via t j i) : ∃ vs, Follows via t j i vs := by
  induction h with
  | refl => exact ⟨[], .nil⟩
  | next hne hnext _ ih =>
    obtain ⟨_, hvs⟩ := ih
    exact ⟨_, .cons hne hnext hvs⟩

theorem unique {vs vs' : List ι} (h : Follows via t j i vs) (h' : Follows via t j i vs') : vs = vs' := by
  induction h generalizing vs' with
  | nil =>
    cases h' with
    | nil => rfl
    | cons hne => exact absurd rfl hne
  | cons hne hnext _ ih =>
    cases h' with
    | nil => exact absurd rfl hne
    | cons _ hnext' hrest' =>
      rw [hnext] at hnext'
      cases hnext'
      rw [ih hrest']

variable {vs : List ι}

theorem exists_of_mem (h : Follows via t j i vs) {u : ι} (hu : u ∈ i :: vs) :
    ∃ vs', Follows via t j u vs' ∧ vs'.length ≤ vs.length := by
  induction h with
  | nil =>
    rw [mem_singleton.1 hu]
    exact ⟨[], .nil, le_rfl⟩
  | cons hne hnext hrest ih =>
    rcases mem_cons.1 hu with rfl | hu
    · exact ⟨_, .cons hne hnext hrest, le_rfl⟩
    · obtain ⟨vs', hvs', hle⟩ := ih hu
      exact ⟨vs', hvs', hle.trans (Nat.le_succ _)⟩

/-- The path has no cycle: from a node that came back, it would be as long as its own rest. -/
theorem nodup (h : Follows via t j i vs) : (i :: vs).Nodup := by
  induction h with
  | nil => exact nodup_singleton _
  | cons hne hnext hrest ih =>
    refine nodup_cons.2 ⟨fun hmem => ?_, ih⟩
    obtain ⟨_, hvs', hle⟩ := hrest.exists_of_mem hmem
    rw [hvs'.unique (.cons hne hnext hrest)] at hle
    exact absurd hle (Nat.not_succ_le_self _)

theorem getLast_eq (h : Follows via t j i vs) : (i :: vs).getLast (cons_ne_nil i vs) = j := by
  induction h with
  | nil => rfl
  | cons _ _ _ => rwa [getLast_cons (cons_ne_nil _ _)]

end Follows

end Follows

/-! ## Measures of paths -/

/-- How paths are compared: a smaller value is better, and `op` gives the value of two paths that follow each other. -/
structure Measure (W : Type) [LinearOrder W] where
  zero : W
  op : W → W → W
  zero_le : ∀ a, zero ≤ a
  op_mono : ∀ {a a' b b'}, a ≤ a' → b ≤ b' → op a b ≤ op a' b'
  op_assoc : ∀ a b c, op (op a b) c = op a (op b c)
  zero_op : ∀ a, op zero a = a
  op_zero : ∀ a, op a zero = a

variable [LinearOrder W] (m : Measure W)

namespace Measure

theorem le_op_left (a b : W) : a ≤ m.op a b := by
  have h := m.op_mono (le_refl a) (m.zero_le b)
  rwa [m.op_zero] at h

theorem le_op_right (a b : W) : b ≤ m.op a b := by
  have h := m.op_mono (m.zero_le a) (le_refl b)
  rwa [m.zero_op] at h

end Measure

/-! ## The algorithm -/

section Algorithm

variable [DecidableEq ι]

/-- A better path from `i` to `j` through `k` starts with the first hop to `k`. -/
def relax (k i j : ι) (t : Table ι W N) : Table ι W N :=
  if m.op (t i k).val (t k j).val < (t i j).val then
    update t i (update (t i) j ⟨m.op (t i k).val (t k j).val, (t i k).next⟩)
  else t

def round (nodes : List ι) (k : ι) (t : Table ι W N) : Table ι W N :=
  nodes.foldl (fun t i => nodes.foldl (fun t j => relax m k i j t) t) t

def run (nodes : List ι) (t : Table ι W N) : Table ι W N := nodes.foldl (fun t k => round m nodes k t) t

end Algorithm

def Improved (t : Table ι W N) (k i j : ι) : Prop := m.op (t i k).val (t k j).val < (t i j).val

instance (t : Table ι W N) (k i j : ι) : Decidable (Improved m t k i j) := inferInstanceAs (Decidable (_ < _))

def step (k : ι) (t : Table ι W N) : Table ι W N := fun i j =>
  if Improved m t k i j then ⟨m.op (t i k).val (t k j).val, (t i k).next⟩ else t i j

section Step

variable {m} {t : Table ι W N} {k i j : ι}

theorem step_of_improved (h : Improved m t k i j) : step m k t i j = ⟨m.op (t i k).val (t k j).val, (t i k).next⟩ := if_pos h

theorem step_of_not_improved (h : ¬ Improved m t k i j) : step m k t i j = t i j := if_neg h

theorem step_le : (step m k t i j).val ≤ (t i j).val := by
  by_cases h : Improved m t k i j
  · rw [step_of_improved h]
    exact h.le
  · rw [step_of_not_improved h]

theorem step_le_op : (step m k t i j).val ≤ m.op (t i k).val (t k j).val := by
  by_cases h : Improved m t k i j
  · rw [step_of_improved h]
  · rw [step_of_not_improved h]
    exact not_lt.1 h

/-- The row and the column of `k` stay as they are. -/
theorem not_improved_row (hk : (t k k).val = m.zero) : ¬ Improved m t k k j := by
  unfold Improved
  rw [hk, m.zero_op]
  exact lt_irrefl _

theorem not_improved_col (hk : (t k k).val = m.zero) : ¬ Improved m t k i k := by
  unfold Improved
  rw [hk, m.op_zero]
  exact lt_irrefl _

theorem step_row (hk : (t k k).val = m.zero) : step m k t k j = t k j := step_of_not_improved (not_improved_row hk)

theorem step_col (hk : (t k k).val = m.zero) : step m k t i k = t i k := step_of_not_improved (not_improved_col hk)

end Step

/-! ## A round in place -/

section InPlace

variable [DecidableEq ι] {m} {t t' : Table ι W N} {k : ι}

/-- In the middle of a round each entry is as before the round or as after it. -/
def Between (m : Measure W) (k : ι) (t t' : Table ι W N) : Prop := ∀ i j, t' i j = t i j ∨ t' i j = step m k t i j

section
variable (hk : (t k k).val = m.zero) (h : Between m k t t')
include hk h

theorem relax_of_between (i j : ι) :
    relax m k i j t' = update t' i (update (t' i) j (step m k t i j)) := by
  have hik : t' i k = t i k := (h i k).elim id fun h => h.trans (step_col hk)
  have hkj : t' k j = t k j := (h k j).elim id fun h => h.trans (step_row hk)
  unfold relax
  rw [hik, hkj]
  have hself : ∀ c, t' i j = c → update t' i (update (t' i) j c) = t' := by
    rintro c rfl
    rw [update_eq_self, update_eq_self]
  by_cases himp : Improved m t k i j
  · have hstep := step_of_improved himp
    rcases h i j with hij | hij
    · rw [hij, if_pos (show _ < _ from himp), hstep]
    · rw [if_neg (by rw [hij, hstep]; exact lt_irrefl _), hself _ hij]
  · have hstep := step_of_not_improved himp
    have hij : t' i j = t i j := (h i j).elim id fun h => h.trans hstep
    rw [hij, if_neg (show ¬ _ < _ from himp), hstep, hself _ (hij.trans rfl)]

theorem relax_between (i j : ι) : Between m k t (relax m k i j t') := by
  intro x y
  rw [relax_of_between hk h]
  by_cases hx : x = i
  · subst hx
    rw [update_self]
    by_cases hy : y = j
    · subst hy
      exact Or.inr (update_self ..)
    · rw [update_of_ne hy]
      exact h x y
  · rw [update_of_ne hx]
    exact h x y

theorem relax_apply (i j : ι) : relax m k i j t' i j = step m k t i j := by
  rw [relax_of_between hk h, update_self, update_self]

theorem relax_done {i j x y : ι} (hdone : t' x y = step m k t x y) :
    relax m k i j t' x y = step m k t x y := by
  rw [relax_of_between hk h]
  by_cases hx : x = i
  · subst hx
    rw [update_self]
    by_cases hy : y = j
    · subst hy
      exact update_self ..
    · rw [update_of_ne hy, hdone]
  · rw [update_of_ne hx, hdone]

end

theorem foldl_relax (hk : (t k k).val = m.zero) (pairs : List (ι × ι)) (h : Between m k t t') :
    Between m k t (pairs.foldl (fun t p => relax m k p.1 p.2 t) t') ∧
      (∀ x y, t' x y = step m k t x y → pairs.foldl (fun t p => relax m k p.1 p.2 t) t' x y = step m k t x y) ∧
      ∀ p ∈ pairs, pairs.foldl (fun t p => relax m k p.1 p.2 t) t' p.1 p.2 = step m k t p.1 p.2 := by
  induction pairs generalizing t' with
  | nil => exact ⟨h, fun _ _ hdone => hdone, forall_mem_nil _⟩
  | cons q _ ih =>
    obtain ⟨hbetween, hkeep, hmem⟩ := ih (relax_between hk h q.1 q.2)
    refine ⟨hbetween, fun x y hdone => hkeep x y (relax_done hk h hdone), fun p hp => ?_⟩
    rcases mem_cons.1 hp with rfl | hp
    · exact hkeep _ _ (relax_apply hk h _ _)
    · exact hmem p hp

theorem round_eq_foldl (nodes : List ι) : round m nodes k t =
    (nodes.flatMap fun i => nodes.map fun j => (i, j)).foldl (fun t p => relax m k p.1 p.2 t) t := by
  unfold round
  rw [foldl_flatMap]
  congr 1
  funext t i
  rw [foldl_map]

/-- The loops of a round update every entry from the values before the round. -/
theorem round_eq_step {nodes : List ι} (hall : ∀ i, i ∈ nodes) (hk : (t k k).val = m.zero) :
    round m nodes k t = step m k t := by
  rw [round_eq_foldl]
  funext i j
  have hmem : (i, j) ∈ nodes.flatMap fun i => nodes.map fun j => (i, j) :=
    mem_flatMap.2 ⟨i, hall i, mem_map.2 ⟨j, hall j, rfl⟩⟩
  exact (foldl_relax hk _ fun _ _ => Or.inl rfl).2.2 (i, j) hmem

end InPlace

/-! ## What a round keeps -/

/-- A table with the first hops of `t₀`, where `far` is the value of no path. -/
structure Inv (m : Measure W) (via : N → ι) (far : W) (t₀ t : Table ι W N) : Prop where
  diag : ∀ i, (t i i).val = m.zero
  next_iff : ∀ {i j}, i ≠ j → ((t i j).next.isSome ↔ (t i j).val < far)
  le_far : ∀ i j, (t i j).val ≤ far
  le : ∀ i j, (t i j).val ≤ (t₀ i j).val
  /-- A next hop is a link, and the rest of the path is as good as promised. -/
  hop : ∀ {i j r}, i ≠ j → (t i j).next = some r →
    i ≠ via r ∧ (t₀ i (via r)).next = some r ∧ m.op (t₀ i (via r)).val (t (via r) j).val ≤ (t i j).val
  reach : ∀ {i j}, i ≠ j → (t i j).next.isSome → Reach via t j i

namespace Inv

variable {m} {via : N → ι} {far : W} {t₀ t : Table ι W N} {k i j : ι} {r : N}

section
variable (h : Inv m via far t₀ t)
include h

theorem val_via_le (hne : i ≠ j) (hnext : (t i j).next = some r) : (t (via r) j).val ≤ (t i j).val :=
  (m.le_op_right _ _).trans (h.hop hne hnext).2.2

theorem isSome_of_improved (himp : Improved m t k i j) :
    i ≠ k ∧ k ≠ j ∧ i ≠ j ∧ (t i k).next.isSome ∧ (t k j).next.isSome := by
  have hik : i ≠ k := by
    rintro rfl
    exact not_improved_row (h.diag _) himp
  have hkj : k ≠ j := by
    rintro rfl
    exact not_improved_col (h.diag _) himp
  have hij : i ≠ j := by
    rintro rfl
    have hlt : m.op (t i k).val (t k i).val < (t i i).val := himp
    rw [h.diag] at hlt
    exact absurd (m.zero_le _) (not_le.2 hlt)
  have hlt : m.op (t i k).val (t k j).val < far := lt_of_lt_of_le himp (h.le_far i j)
  refine ⟨hik, hkj, hij, (h.next_iff hik).2 ?_, (h.next_iff hkj).2 ?_⟩
  · exact lt_of_le_of_lt (m.le_op_left _ _) hlt
  · exact lt_of_le_of_lt (m.le_op_right _ _) hlt

theorem step_diag (i : ι) : (step m k t i i).val = m.zero := by
  rw [step_of_not_improved fun himp => (h.isSome_of_improved himp).2.2.1 rfl]
  exact h.diag i

theorem step_next_iff (hne : i ≠ j) :
    (step m k t i j).next.isSome ↔ (step m k t i j).val < far := by
  by_cases himp : Improved m t k i j
  · rw [step_of_improved himp]
    obtain ⟨-, -, -, hik, -⟩ := h.isSome_of_improved himp
    exact iff_of_true hik (lt_of_lt_of_le himp (h.le_far i j))
  · rw [step_of_not_improved himp]
    exact h.next_iff hne

theorem step_hop (hne : i ≠ j) (hnext : (step m k t i j).next = some r) :
    i ≠ via r ∧ (t₀ i (via r)).next = some r ∧
      m.op (t₀ i (via r)).val (step m k t (via r) j).val ≤ (step m k t i j).val := by
  by_cases himp : Improved m t k i j
  · rw [step_of_improved himp] at hnext ⊢
    obtain ⟨hik, -⟩ := h.isSome_of_improved himp
    obtain ⟨hvia, hlink, hle⟩ := h.hop hik hnext
    refine ⟨hvia, hlink, ?_⟩
    calc m.op (t₀ i (via r)).val (step m k t (via r) j).val
        ≤ m.op (t₀ i (via r)).val (m.op (t (via r) k).val (t k j).val) := m.op_mono (le_refl _) step_le_op
      _ = m.op (m.op (t₀ i (via r)).val (t (via r) k).val) (t k j).val := (m.op_assoc _ _ _).symm
      _ ≤ m.op (t i k).val (t k j).val := m.op_mono hle (le_refl _)
  · rw [step_of_not_improved himp] at hnext ⊢
    obtain ⟨hvia, hlink, hle⟩ := h.hop hne hnext
    exact ⟨hvia, hlink, (m.op_mono (le_refl _) step_le).trans hle⟩

theorem step_val_via_le (hne : i ≠ j) (hnext : (step m k t i j).next = some r) :
    (step m k t (via r) j).val ≤ (step m k t i j).val :=
  (m.le_op_right _ _).trans (h.step_hop hne hnext).2.2

/-- A node on an old path whose entry is not improved: the new next hops lead from it to `j`, when they do so from every node
with a smaller value than `b`. -/
theorem step_reach_of_not_improved {b : W}
    (ih : ∀ u, (step m k t u j).val < b → u ≠ j → (step m k t u j).next.isSome → Reach via (step m k t) j u) {u : ι}
    (hu : Reach via t j u) (himp : ¬ Improved m t k u j) (hb : (step m k t u j).val ≤ b) : Reach via (step m k t) j u := by
  induction hu with
  | refl => exact .refl
  | @next u r hne hnext _ ihrest =>
    have hstep := step_of_not_improved himp
    have hnext' : (step m k t u j).next = some r := by rw [hstep, hnext]
    refine .next hne hnext' ?_
    by_cases hvia : via r = j
    · rw [hvia]
      exact .refl
    · by_cases hviaimp : Improved m t k (via r) j
      · -- the value of the next node has become smaller than that of `u`
        apply ih _ _ hvia
        · rw [h.step_next_iff hvia]
          exact lt_of_le_of_lt (h.step_val_via_le hne hnext') ((h.step_next_iff hne).1 (by rw [hnext']; rfl))
        · calc (step m k t (via r) j).val < (t (via r) j).val := by
                rw [step_of_improved hviaimp]
                exact hviaimp
            _ ≤ (t u j).val := h.val_via_le hne hnext
            _ = (step m k t u j).val := by rw [hstep]
            _ ≤ b := hb
      · exact ihrest hviaimp ((h.step_val_via_le hne hnext').trans hb)

/-- A node whose entry is improved follows the path to `k` until the entry of a node is not improved. -/
theorem step_reach_of_improved {b : W}
    (ih : ∀ u, (step m k t u j).val < b → u ≠ j → (step m k t u j).next.isSome → Reach via (step m k t) j u) {u : ι}
    (hu : Reach via t k u) (himp : Improved m t k u j) (hb : (step m k t u j).val ≤ b) : Reach via (step m k t) j u := by
  induction hu with
  | refl => exact absurd himp (not_improved_row (h.diag k))
  | @next u r hne hnext _ ihrest =>
    obtain ⟨-, -, huj, -⟩ := h.isSome_of_improved himp
    have hnext' : (step m k t u j).next = some r := by rw [step_of_improved himp, hnext]
    refine .next huj hnext' ?_
    have hvb := (h.step_val_via_le huj hnext').trans hb
    by_cases hvia : via r = j
    · rw [hvia]
      exact .refl
    · by_cases hviaimp : Improved m t k (via r) j
      · exact ihrest hviaimp hvb
      · apply h.step_reach_of_not_improved ih _ hviaimp hvb
        apply h.reach hvia
        have hlt : (step m k t (via r) j).val < far :=
          lt_of_le_of_lt (h.step_val_via_le huj hnext') ((h.step_next_iff huj).1 (by rw [hnext']; rfl))
        rw [step_of_not_improved hviaimp] at hlt
        exact (h.next_iff hvia).2 hlt

/-- The new next hops lead to `j`: by induction on the values, which do not grow along the path. -/
theorem step_reach [Finite ι] (hne : i ≠ j) (hsome : (step m k t i j).next.isSome) :
    Reach via (step m k t) j i := by
  have hwf : WellFounded fun u v => (step m k t u j).val < (step m k t v j).val :=
    haveI : IsTrans ι fun u v => (step m k t u j).val < (step m k t v j).val := ⟨fun _ _ _ => lt_trans⟩
    haveI : Std.Irrefl fun u v => (step m k t u j).val < (step m k t v j).val := ⟨fun _ => lt_irrefl _⟩
    Finite.wellFounded_of_trans_of_irrefl _
  induction i using hwf.induction with
  | _ i ih =>
    by_cases himp : Improved m t k i j
    · exact h.step_reach_of_improved ih (h.reach (h.isSome_of_improved himp).1 (h.isSome_of_improved himp).2.2.2.1)
        himp le_rfl
    · have hstep := step_of_not_improved himp
      exact h.step_reach_of_not_improved ih (h.reach hne (by rwa [hstep] at hsome)) himp le_rfl

protected theorem step [Finite ι] (k : ι) : Inv m via far t₀ (step m k t) where
  diag := h.step_diag
  next_iff := h.step_next_iff
  le_far i j := step_le.trans (h.le_far i j)
  le i j := step_le.trans (h.le i j)
  hop := h.step_hop
  reach := h.step_reach

end

end Inv

/-- No path through `k` is better. -/
def Through (m : Measure W) (t : Table ι W N) (k : ι) : Prop := ∀ i j, (t i j).val ≤ m.op (t i k).val (t k j).val

section Through

variable {m} {t : Table ι W N} {k l : ι}

theorem through_step (hk : (t k k).val = m.zero) : Through m (step m k t) k := by
  intro i j
  rw [step_col hk, step_row hk]
  exact step_le_op

/-- A later round, through `l`, keeps this: a path through `k` and `l` is no better than the one through `l` alone. -/
theorem Through.step (h : Through m t k) : Through m (step m l t) k := by
  intro i j
  have hle : (FloydWarshall.step m l t i j).val ≤ m.op (t i l).val (t l j).val := step_le_op
  by_cases hik : Improved m t l i k
  · rw [step_of_improved hik]
    by_cases hkj : Improved m t l k j
    · rw [step_of_improved hkj]
      exact hle.trans (m.op_mono (m.le_op_left _ _) (m.le_op_right _ _))
    · rw [step_of_not_improved hkj, m.op_assoc]
      exact hle.trans (m.op_mono (le_refl _) (h l j))
  · rw [step_of_not_improved hik]
    by_cases hkj : Improved m t l k j
    · rw [step_of_improved hkj, ← m.op_assoc]
      exact hle.trans (m.op_mono (h i l) (le_refl _))
    · rw [step_of_not_improved hkj]
      exact step_le.trans (h i j)

end Through

/-! ## The paths -/

section Paths

variable {m} {via : N → ι} {far : W} {t₀ t : Table ι W N} {i j : ι}

variable {nodes : List ι}

theorem run_foldl [DecidableEq ι] [Finite ι] (hall : ∀ i, i ∈ nodes) (ks : List ι) (h : Inv m via far t₀ t) :
    Inv m via far t₀ (ks.foldl (fun t k => round m nodes k t) t) ∧
      (∀ k, Through m t k → Through m (ks.foldl (fun t k => round m nodes k t) t) k) ∧
      ∀ k ∈ ks, Through m (ks.foldl (fun t k => round m nodes k t) t) k := by
  induction ks generalizing t with
  | nil => exact ⟨h, fun _ hk => hk, forall_mem_nil _⟩
  | cons l _ ih =>
    rw [foldl_cons, round_eq_step hall (h.diag l)]
    obtain ⟨hinv, hkeep, hmem⟩ := ih (h.step l)
    refine ⟨hinv, fun k hk => hkeep k hk.step, fun k hk => ?_⟩
    rcases mem_cons.1 hk with rfl | hk
    · exact hkeep k (through_step (h.diag k))
    · exact hmem k hk

theorem Inv.run [DecidableEq ι] [Finite ι] (hall : ∀ i, i ∈ nodes) (h : Inv m via far t₀ t) :
    Inv m via far t₀ (run m nodes t) := (run_foldl hall nodes h).1

theorem through_run [DecidableEq ι] [Finite ι] (hall : ∀ i, i ∈ nodes) (h : Inv m via far t₀ t) (k : ι) :
    Through m (run m nodes t) k := (run_foldl hall nodes h).2.2 k (hall k)

/-- The value of a path from `i` along the nodes, by the links of `t₀`. -/
def cost (m : Measure W) (t₀ : Table ι W N) : ι → List ι → W
  | _, [] => m.zero
  | i, v :: vs => m.op (t₀ i v).val (cost m t₀ v vs)

theorem val_le_cost (h : Inv m via far t₀ t) (hthrough : ∀ k, Through m t k) (i : ι) (vs : List ι) :
    (t i ((i :: vs).getLast (cons_ne_nil i vs))).val ≤ cost m t₀ i vs := by
  induction vs generalizing i with
  | nil => exact (h.diag i).le
  | cons v vs ih =>
    rw [getLast_cons (cons_ne_nil v vs)]
    exact (hthrough v i _).trans (m.op_mono (h.le i v) (ih v))

theorem Follows.cost_le {vs : List ι} (hinv : Inv m via far t₀ t) (h : Follows via t j i vs) :
    cost m t₀ i vs ≤ (t i j).val := by
  induction h with
  | nil => exact m.zero_le _
  | cons hne hnext _ ih => exact (m.op_mono (le_refl _) ih).trans (hinv.hop hne hnext).2.2

/-- There is a link from the node to another one. -/
def Linked (t₀ : Table ι W N) (i v : ι) : Prop := i ≠ v ∧ (t₀ i v).next.isSome

theorem Follows.linked {vs : List ι} (hinv : Inv m via far t₀ t) (h : Follows via t j i vs) :
    (i :: vs).IsChain (Linked t₀) := by
  induction h with
  | nil => exact List.IsChain.singleton _
  | cons hne hnext _ ih =>
    obtain ⟨hvia, hlink, -⟩ := hinv.hop hne hnext
    exact isChain_cons_cons.2 ⟨⟨hvia, by rw [hlink]; rfl⟩, ih⟩

/-- A path with at most as many links as there are nodes is nearer than `far`. -/
def Bounded [Fintype ι] (m : Measure W) (far : W) (t₀ : Table ι W N) : Prop :=
  ∀ i vs, (i :: vs).IsChain (Linked t₀) → vs.length ≤ Fintype.card ι → cost m t₀ i vs < far

theorem isSome_of_linked [Fintype ι] (hinv : Inv m via far t₀ t) (hthrough : ∀ k, Through m t k) (hfar : Bounded m far t₀)
    (hlinked : Relation.ReflTransGen (Linked t₀) i j) (hne : i ≠ j) : (t i j).next.isSome := by
  induction hlinked using Relation.ReflTransGen.head_induction_on with
  | refl => exact absurd rfl hne
  | @head i v hiv _ ih =>
    have hpath : ∃ vs, Follows via t j v vs := by
      by_cases hvj : v = j
      · subst hvj
        exact ⟨[], .nil⟩
      · exact Follows.exists_of_reach (hinv.reach hvj (ih hvj))
    obtain ⟨vs, hvs⟩ := hpath
    have hlen : (v :: vs).length ≤ Fintype.card ι := hvs.nodup.length_le_card
    have hchain : (i :: v :: vs).IsChain (Linked t₀) := isChain_cons_cons.2 ⟨hiv, hvs.linked hinv⟩
    have hle := val_le_cost hinv hthrough i (v :: vs)
    rw [getLast_cons (cons_ne_nil v vs), hvs.getLast_eq] at hle
    exact (hinv.next_iff hne).2 (lt_of_le_of_lt hle (hfar i _ hchain hlen))

/-- The next hops lead from each node to each node that it can reach, along a path without a cycle, and no other path is
better. -/
theorem exists_follows [Fintype ι] (hinv : Inv m via far t₀ t) (hthrough : ∀ k, Through m t k) (hfar : Bounded m far t₀)
    (hlinked : Relation.ReflTransGen (Linked t₀) i j) :
    ∃ vs, Follows via t j i vs ∧ (i :: vs).Nodup ∧ (i :: vs).IsChain (Linked t₀) ∧
      ∀ vs', (i :: vs').getLast (cons_ne_nil i vs') = j → cost m t₀ i vs ≤ cost m t₀ i vs' := by
  have hpath : ∃ vs, Follows via t j i vs := by
    by_cases hne : i = j
    · subst hne
      exact ⟨[], .nil⟩
    · exact Follows.exists_of_reach (hinv.reach hne (isSome_of_linked hinv hthrough hfar hlinked hne))
  obtain ⟨vs, hvs⟩ := hpath
  refine ⟨vs, hvs, hvs.nodup, hvs.linked hinv, fun vs' hlast => ?_⟩
  have hle := val_le_cost hinv hthrough i vs'
  rw [hlast] at hle
  exact (hvs.cost_le hinv).trans hle

end Paths

end Akita.FloydWarshall
