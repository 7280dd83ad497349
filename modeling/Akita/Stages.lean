import Akita.Returns

/-!
# Stages of a tick

A stage takes a state to whether it made progress and the state it leaves, or panics. A tick repeats its stages in a fixed
order; seen from outside it is a row of calls.

* `repeatStage f n` : `f` done `n` times;
* `calls exec ks` : the calls `ks` in a row, `calls_append`, `map_snd_bind`, `calls_loop`;
* `Splits P exec f ks` : while `P` holds, the stage `f` is the calls `ks`;
* `guarded G exec ks` : these calls while `G` holds before each, `guarded_induct`, `calls_induct`.
-/

namespace Akita
open Prod (snd)

variable {σ κ : Type}

abbrev Stage (σ : Type) := σ → Except String (Bool × σ)

/-- `for i := 0; i < n; i++ { madeProgress = f(s) || madeProgress }`. -/
def repeatStage (f : Stage σ) : Nat → Stage σ
  | 0, s => .ok (false, s)
  | n + 1, s => do
    let (progress, s) ← f s
    let (progress', s) ← repeatStage f n s
    return (progress || progress', s)

/-- The calls in a row. -/
def calls (exec : κ → Stage σ) : List κ → σ → Except String σ
  | [], s => .ok s
  | k :: ks, s => do
    let (_, s) ← exec k s
    calls exec ks s

theorem calls_append (exec : κ → Stage σ) (ks ls : List κ) (s : σ) :
    calls exec (ks ++ ls) s = (calls exec ks s >>= calls exec ls) := by
  induction ks generalizing s with
  | nil => rfl
  | cons _ _ ih =>
    simp only [List.cons_append, calls, bind_assoc]
    congr 1
    funext r
    exact ih r.2

/-- The stage keeps `P`. -/
def Keeps (P : σ → Prop) (f : Stage σ) : Prop := ∀ s r, P s → f s = .ok r → P r.2

variable {exec : κ → Stage σ} {s : σ}

/-- A stage that is the calls `ks`, followed by what is the calls `ls`. -/
theorem map_snd_bind {x : Except String (Bool × σ)} {f : Bool × σ → Except String (Bool × σ)} {ks ls : List κ}
    (hx : x.map snd = calls exec ks s) (hf : ∀ r, x = .ok r → (f r).map snd = calls exec ls r.2) :
    (x >>= f).map snd = calls exec (ks ++ ls) s := by
  rw [calls_append, ← hx]
  cases x with
  | error => rfl
  | ok r => exact hf r rfl

/-- A stage after which only progress is reported. -/
theorem map_snd_last {x : Except String (Bool × σ)} {g : Bool × σ → Except String (Bool × σ)} {y : Except String σ}
    (hx : x.map snd = y) (hg : ∀ r, (g r).map snd = .ok r.2) : (x >>= g).map snd = y := by
  rw [← hx]
  cases x with
  | error => rfl
  | ok r => exact hg r

theorem map_snd_exec (exec : κ → Stage σ) (k : κ) (s : σ) : (exec k s).map snd = calls exec [k] s := by
  rw [calls]
  cases exec k s <;> rfl

/-- A loop of one call for each item. -/
theorem calls_loop {ι : Type} {loop : σ → List ι → Except String (Bool × σ)} {k : ι → κ}
    (hnil : ∀ s, loop s [] = .ok (false, s))
    (hcons : ∀ s i is, loop s (i :: is) = do
      let (p, s) ← exec (k i) s
      let (p', s) ← loop s is
      return (p || p', s)) (is : List ι) (s : σ) : (loop s is).map snd = calls exec (is.map k) s := by
  induction is generalizing s with
  | nil =>
    rw [hnil]
    rfl
  | cons i is ih =>
    rw [hcons]
    exact map_snd_bind (map_snd_exec exec (k i) s) fun r _ => map_snd_last (ih r.2) fun _ => rfl

/-- Calls that do nothing. -/
theorem calls_idle {ks : List κ} (h : ∀ k ∈ ks, exec k s = .ok (false, s)) : calls exec ks s = .ok s := by
  induction ks with
  | nil => rfl
  | cons k _ ih =>
    rw [calls, h k List.mem_cons_self]
    exact ih fun l hl => h l (List.mem_cons_of_mem _ hl)

/-! ## Stages split into calls -/

/-- While `P` holds, the stage is the calls `ks` in a row, and `P` holds after it. -/
structure Splits (P : σ → Prop) (exec : κ → Stage σ) (f : Stage σ) (ks : List κ) : Prop where
  keeps : Keeps P f
  eq_calls : ∀ s, P s → (f s).map snd = calls exec ks s

namespace Splits
variable {P : σ → Prop} {f : Stage σ} {g : Bool × σ → Except String (Bool × σ)} {k : κ} {ks ls : List κ}

theorem call (hf : Keeps P f) (hk : ∀ s, P s → exec k s = f s) : Splits P exec f [k] :=
  ⟨hf, fun s hs => by rw [← hk s hs, map_snd_exec]⟩

theorem bind (hf : Splits P exec f ks) (hg : ∀ p, Splits P exec (fun s => g (p, s)) ls) :
    Splits P exec (fun s => f s >>= g) (ks ++ ls) := by
  refine ⟨fun s r hs h => ?_, fun s hs => map_snd_bind (hf.eq_calls s hs) fun r hr => ?_⟩
  · obtain ⟨x, hfs, h⟩ := eq_ok_of_bind h
    exact (hg x.1).keeps x.2 r (hf.keeps s x hs hfs) h
  · exact (hg r.1).eq_calls r.2 (hf.keeps s r hs hr)

theorem last (hf : Splits P exec f ks) (hg : ∀ r, (g r).map snd = .ok r.2) : Splits P exec (fun s => f s >>= g) ks := by
  refine ⟨fun s r hs h => ?_, fun s hs => map_snd_last (hf.eq_calls s hs) hg⟩
  obtain ⟨x, hfs, h⟩ := eq_ok_of_bind h
  have hx := hg x
  rw [h] at hx
  rw [Except.ok.inj hx]
  exact hf.keeps s x hs hfs

theorem times (hf : Splits P exec f ks) (n : Nat) : Splits P exec (repeatStage f n) (List.replicate n ks).flatten := by
  induction n with
  | zero =>
    refine ⟨fun s r hs h => ?_, fun _ _ => rfl⟩
    cases h
    exact hs
  | succ n ih =>
    rw [List.replicate_succ, List.flatten_cons]
    exact hf.bind fun p => ih.last fun _ => rfl

/-- A stage behind a gate, whose calls do nothing while the gate is closed. -/
theorem gated {closed : σ → Bool} {g : Bool → Stage σ} (hg : ∀ p, Splits (closed · = false) exec (g p) ks)
    (hclosed : ∀ s, closed s = true → ∀ k ∈ ks, exec k s = .ok (false, s)) (p : Bool) (s : σ) :
    (if closed s then .ok (p, s) else g p s).map snd = calls exec ks s := by
  cases hs : closed s with
  | true =>
    rw [calls_idle (hclosed s hs)]
    rfl
  | false => exact (hg p).eq_calls s hs

end Splits

/-! ## Guarded calls -/

/-- The calls in a row, if `G` holds before each of them and none panics. -/
def guarded (G : σ → κ → Prop) [∀ s k, Decidable (G s k)] (exec : κ → Stage σ) : List κ → σ → Option σ
  | [], s => some s
  | k :: ks, s =>
    if G s k then
      match exec k s with
      | .ok r => guarded G exec ks r.2
      | .error _ => none
    else none

section
variable {G : σ → κ → Prop} [∀ s k, Decidable (G s k)] {ks : List κ} {t : σ}

theorem guarded_cons {k : κ} (h : guarded G exec (k :: ks) s = some t) :
    G s k ∧ ∃ r, exec k s = .ok r ∧ guarded G exec ks r.2 = some t := by
  unfold guarded at h
  split at h
  next hG =>
    split at h
    next r hr => exact ⟨hG, r, hr, h⟩
    next => cases h
  next => cases h

/-- What a call keeps when `G` holds before it, guarded calls keep. -/
theorem guarded_induct {I : σ → List κ → Prop} (hcall : ∀ {s k ks r}, I s (k :: ks) → G s k → exec k s = .ok r → I r.2 ks)
    {l : List κ} (h : guarded G exec ks s = some t) (hs : I s (ks ++ l)) : I t l := by
  induction ks generalizing s with
  | nil =>
    cases h
    exact hs
  | cons k ks ih =>
    obtain ⟨hG, r, hr, h⟩ := guarded_cons h
    exact ih h (hcall hs hG hr)

end

/-- Calls that nothing is asked of. -/
theorem guarded_true {exec : κ → Stage σ} (ks : List κ) (s : σ) :
    guarded (fun _ _ => True) exec ks s = (calls exec ks s).toOption := by
  induction ks generalizing s with
  | nil => rfl
  | cons k ks ih =>
    rw [guarded, if_pos trivial, calls]
    cases exec k s with
    | error => rfl
    | ok r => exact ih r.2

/-- What a call keeps, the calls in a row keep. -/
theorem calls_induct {exec : κ → Stage σ} {I : σ → List κ → Prop}
    (hcall : ∀ {s k ks r}, I s (k :: ks) → exec k s = .ok r → I r.2 ks) {ks l : List κ} {s t : σ}
    (h : calls exec ks s = .ok t) (hs : I s (ks ++ l)) : I t l :=
  guarded_induct (G := fun _ _ => True) (fun hi _ => hcall hi) (by rw [guarded_true, h]; rfl) hs

end Akita
