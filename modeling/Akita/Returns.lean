import Mathlib.Tactic.Common

/-!
# What a computation returns

`Returns P r` : if `r` returns a value and does not panic, the value satisfies `P`; `Raises P r` : if `r` panics, the panic
satisfies `P`; `Succeeds P r` : `r` does not panic, and the value it returns satisfies `P`.
-/

namespace Akita
open List

variable {ε α β : Type}

variable {f : α → Except ε β}

theorem if_bnot_true [Decidable ((!true) = true)] (x y : α) : (if (!true) = true then x else y) = y := if_neg nofun

theorem if_bnot_false [Decidable ((!false) = true)] (x y : α) : (if (!false) = true then x else y) = x := if_pos rfl

theorem bind_ok (a : α) (f : α → Except ε β) : (Except.ok a >>= f) = f a := rfl

/-- A sequence returns only when its parts do. -/
theorem eq_ok_of_bind {r : Except ε α} {b : β} (h : (r >>= f) = .ok b) : ∃ a, r = .ok a ∧ f a = .ok b := by
  cases r with
  | error => cases h
  | ok a => exact ⟨a, rfl, h⟩

/-- What the steps of a fold preserve, the fold preserves. -/
theorem of_foldlM {P : α → Prop} {f : α → β → Except ε α} {l : List β} {a a' : α} (h : l.foldlM f a = .ok a') (ha : P a)
    (hstep : ∀ b, ∀ x ∈ l, ∀ b', P b → f b x = .ok b' → P b') : P a' := by
  induction l generalizing a with
  | nil =>
    cases h
    exact ha
  | cons x _ ih =>
    rw [foldlM_cons] at h
    obtain ⟨b, hb, hrest⟩ := eq_ok_of_bind h
    exact ih hrest (hstep a x (mem_cons_self ..) b ha hb) fun c y hy => hstep c y (mem_cons_of_mem _ hy)

theorem mapM_eq_ok {g : α → β} {l : List α} (h : ∀ x ∈ l, f x = .ok (g x)) : l.mapM f = .ok (l.map g) := by
  induction l with
  | nil => rfl
  | cons x _ ih =>
    rw [mapM_cons, h x mem_cons_self, ih fun y hy => h y (mem_cons_of_mem _ hy)]
    rfl

theorem exists_of_mapM {l : List α} {l' : List β} (h : l.mapM f = .ok l') {x : α} (hx : x ∈ l) : ∃ y, f x = .ok y := by
  induction l generalizing l' with
  | nil => cases hx
  | cons _ _ ih =>
    rw [mapM_cons] at h
    obtain ⟨y, hy, h⟩ := eq_ok_of_bind h
    obtain ⟨_, hys, -⟩ := eq_ok_of_bind h
    rcases mem_cons.1 hx with rfl | hx
    · exact ⟨y, hy⟩
    · exact ih hys hx

/-- A fold in which each step is guarded. -/
theorem foldlM_eq_ok_iff {P : β → Prop} {f : α → β → Except ε α} {g : α → β → α} {l : List β}
    (h : ∀ x ∈ l, ∀ a b, f a x = .ok b ↔ P x ∧ b = g a x) (a b : α) :
    l.foldlM f a = .ok b ↔ (∀ x ∈ l, P x) ∧ b = l.foldl g a := by
  induction l generalizing a with
  | nil =>
    constructor
    · intro hb
      cases hb
      exact ⟨forall_mem_nil _, rfl⟩
    · rintro ⟨-, rfl⟩
      rfl
  | cons x _ ih =>
    have hrest := ih fun y hy => h y (mem_cons_of_mem _ hy)
    rw [foldlM_cons, foldl_cons, forall_mem_cons]
    constructor
    · intro hb
      obtain ⟨a', ha', hb⟩ := eq_ok_of_bind hb
      obtain ⟨hx, rfl⟩ := (h x mem_cons_self a a').1 ha'
      obtain ⟨hl, rfl⟩ := (hrest _).1 hb
      exact ⟨⟨hx, hl⟩, rfl⟩
    · rintro ⟨⟨hx, hl⟩, rfl⟩
      rw [(h x mem_cons_self a _).2 ⟨hx, rfl⟩]
      exact (hrest _).2 ⟨hl, rfl⟩

def Returns (P : α → Prop) (r : Except ε α) : Prop := ∀ a, r = .ok a → P a

namespace Returns

variable {P : α → Prop} {r : Except ε α}

theorem ok {a : α} (h : P a) : Returns P (.ok a : Except ε α) := by
  intro b hb
  cases hb
  exact h

theorem error (e : ε) : Returns P (.error e : Except ε α) := by
  intro a ha
  cases ha

/-- What is returned after `r` may use what `r` returned. -/
theorem bind {f : α → Except ε β} {Q : β → Prop} (h : ∀ a, r = .ok a → Returns Q (f a)) : Returns Q (r >>= f) := by
  intro b hb
  cases r with
  | error => cases hb
  | ok a => exact h a rfl b hb

theorem mono {Q : α → Prop} (h : Returns P r) (hPQ : ∀ a, P a → Q a) : Returns Q r := fun a ha => hPQ a (h a ha)

end Returns

def Raises (P : ε → Prop) (r : Except ε α) : Prop := ∀ e, r = .error e → P e

namespace Raises

variable {P : ε → Prop} {r : Except ε α}

theorem ok (a : α) : Raises P (.ok a : Except ε α) := by
  intro e he
  cases he

theorem error {e : ε} (h : P e) : Raises P (.error e : Except ε α) := by
  intro e' he'
  cases he'
  exact h

theorem bind {f : α → Except ε β} (hr : Raises P r) (hf : ∀ a, r = .ok a → Raises P (f a)) : Raises P (r >>= f) := by
  intro e he
  cases r with
  | error => exact hr e (by cases he; rfl)
  | ok a => exact hf a rfl e he

theorem of_ok {a : α} (h : r = .ok a) : Raises P r := by
  rw [h]
  exact ok a

end Raises

def Succeeds (P : α → Prop) (r : Except ε α) : Prop := ∃ a, r = .ok a ∧ P a

namespace Succeeds

variable {P : α → Prop} {r : Except ε α}

variable {a : α}

theorem ok (h : P a) : Succeeds P (.ok a : Except ε α) := ⟨a, rfl, h⟩

/-- What is done after `r` may use what `r` returned. -/
theorem bind {f : α → Except ε β} {Q : β → Prop} (hr : Succeeds P r) (hf : ∀ a, P a → Succeeds Q (f a)) :
    Succeeds Q (r >>= f) := by
  obtain ⟨a, rfl, ha⟩ := hr
  exact hf a ha

theorem mono {Q : α → Prop} (h : Succeeds P r) (hPQ : ∀ a, P a → Q a) : Succeeds Q r := by
  obtain ⟨a, ha, hP⟩ := h
  exact ⟨a, ha, hPQ a hP⟩

/-- A fold succeeds when its steps do, and what they say of the elements handled so far holds of all in the end. -/
theorem foldlM {P : List β → α → Prop} {f : α → β → Except ε α} {l : List β} (h : P [] a)
    (hstep : ∀ pre x post b, l = pre ++ x :: post → P pre b → Succeeds (P (pre ++ [x])) (f b x)) :
    Succeeds (P l) (l.foldlM f a) := by
  have hrest : ∀ post pre b, l = pre ++ post → P pre b → Succeeds (P l) (post.foldlM f b) := by
    intro post
    induction post with
    | nil =>
      intro pre b hl hb
      rw [hl, append_nil]
      exact .ok hb
    | cons x post ih =>
      intro pre b hl hb
      rw [foldlM_cons]
      refine (hstep pre x post b hl hb).bind fun b' hb' => ih (pre ++ [x]) b' ?_ hb'
      rw [hl, append_assoc]
      rfl
  exact hrest l [] a rfl h

/-- A fold over elements that come once each. -/
theorem foldlM_nodup {P : List β → α → Prop} {f : α → β → Except ε α} {l : List β} (hnodup : l.Nodup) (h : P [] a)
    (hstep : ∀ pre x b, x ∈ l → x ∉ pre → P pre b → Succeeds (P (pre ++ [x])) (f b x)) : Succeeds (P l) (l.foldlM f a) := by
  refine foldlM h fun pre x post b hsplit hb => hstep pre x b ?_ ?_ hb
  · rw [hsplit]
    exact mem_append_right _ mem_cons_self
  · rw [hsplit] at hnodup
    exact fun hpre => (nodup_append.1 hnodup).2.2 x hpre x mem_cons_self rfl

/-- A computation that was evaluated. -/
theorem of_any {p : α → Bool} (h : r.toOption.any p = true) : Succeeds (fun a => p a = true) r := by
  cases r with
  | error => cases h
  | ok a => exact ⟨a, rfl, h⟩

end Succeeds

end Akita
