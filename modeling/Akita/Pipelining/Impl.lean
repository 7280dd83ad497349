import Akita.Sim.Buffer
import Mathlib.Algebra.GroupWithZero.Nat

/-!
# Pipelines of any cycles per stage

`PipelineImpl width numStage cyclePerStage α` is `pipelining.pipelineImpl`. It carries the invariant of its lanes (`Spaced`) :
an element never has fewer cycles left than the one in the stage before it, so an element is held only by one that is held
itself, and the last one only by a full buffer.

* `pending` : the elements of a lane in the order they leave, each with the ticks it still needs when nothing holds it;
* `Aged` : what a tick does to one of them. `aged_tick` : it does so to every one, `room` : and holds none when the buffer is
  left with room;
* `tick_progress` : the tick reports whether anything changed;
* `accept_ok`, `pending_put` : an accepted element comes last in one lane and leaves the others as they were.
-/

namespace Akita.Pipelining
open Sim
open List hiding getElem?_eq_some_iff map_eq_map
open Prod (ext_iff fst mk snd)
open Option (getD_some map_eq_map map_some)

variable {width numStage cyclePerStage n : Nat} {α : Type}

/-- A stage: empty, or an element and the cycles left. -/
abbrev Stage (α : Type) := Option (α × Nat)

/-- One lane of `Tick`, from the last stage to the first. -/
def tickStages (cyclePerStage : Nat) : List (Stage α) → Buffer n α → Bool × List (Stage α) × Buffer n α
  | [], buf => (false, [], buf)
  | none :: rest, buf =>
    let (progress, rest, buf) := tickStages cyclePerStage rest buf
    (progress, none :: rest, buf)
  | some (elem, left + 1) :: rest, buf =>
    let (_, rest, buf) := tickStages cyclePerStage rest buf
    (true, some (elem, left) :: rest, buf)
  | some (elem, 0) :: rest, buf =>
    let (progress, rest, buf) := tickStages cyclePerStage rest buf
    match rest with
    | [] =>
      -- tryMoveToPostPipelineBuffer
      if buf.canPush then (true, [none], ⟨buf.elements ++ [elem]⟩) else (progress, [some (elem, 0)], buf)
    | none :: rest =>
      -- tryMoveToNextStage
      (true, none :: some (elem, cyclePerStage - 1) :: rest, buf)
    | some next :: rest => (progress, some (elem, 0) :: some next :: rest, buf)

section
variable (rest : List (Stage α)) (buf : Buffer n α) (elem : α)

theorem tickStages_nil : tickStages cyclePerStage ([] : List (Stage α)) buf = (false, [], buf) := rfl

theorem tickStages_none : tickStages cyclePerStage (none :: rest) buf =
    ((tickStages cyclePerStage rest buf).1, none :: (tickStages cyclePerStage rest buf).2.1,
      (tickStages cyclePerStage rest buf).2.2) := rfl

theorem tickStages_succ (left : Nat) : tickStages cyclePerStage (some (elem, left + 1) :: rest) buf =
    (true, some (elem, left) :: (tickStages cyclePerStage rest buf).2.1, (tickStages cyclePerStage rest buf).2.2) := rfl

theorem tickStages_zero : tickStages cyclePerStage (some (elem, 0) :: rest) buf =
    match tickStages cyclePerStage rest buf with
    | (progress, rest, buf) =>
      match rest with
      | [] => if buf.canPush then (true, [none], ⟨buf.elements ++ [elem]⟩) else (progress, [some (elem, 0)], buf)
      | none :: rest => (true, none :: some (elem, cyclePerStage - 1) :: rest, buf)
      | some next :: rest => (progress, some (elem, 0) :: some next :: rest, buf) := rfl

end

/-- The lanes of `Tick`, from the first to the last. -/
def tickAll (cyclePerStage : Nat) : List (List (Stage α)) → Buffer n α → Bool × List (List (Stage α)) × Buffer n α
  | [], buf => (false, [], buf)
  | lane :: lanes, buf =>
    let (progress, lane, buf) := tickStages cyclePerStage lane buf
    let (progress', lanes, buf) := tickAll cyclePerStage lanes buf
    (progress || progress', lane :: lanes, buf)

section
variable (lane : List (Stage α)) (lanes : List (List (Stage α))) (buf : Buffer n α)

theorem tickAll_nil : tickAll cyclePerStage ([] : List (List (Stage α))) buf = (false, [], buf) := rfl

theorem tickAll_cons : tickAll cyclePerStage (lane :: lanes) buf =
    ((tickStages cyclePerStage lane buf).1 || (tickAll cyclePerStage lanes (tickStages cyclePerStage lane buf).2.2).1,
      (tickStages cyclePerStage lane buf).2.1 :: (tickAll cyclePerStage lanes (tickStages cyclePerStage lane buf).2.2).2.1,
      (tickAll cyclePerStage lanes (tickStages cyclePerStage lane buf).2.2).2.2) := rfl

end

/-- Every element has at most `cyclePerStage - 1` cycles left, and no fewer than an element in the next stage. -/
def Spaced (cyclePerStage : Nat) : List (Stage α) → Prop
  | [] => True
  | none :: rest => Spaced cyclePerStage rest
  | some (_, left) :: rest =>
    left ≤ cyclePerStage - 1 ∧ (∀ next left', rest.head? = some (some (next, left')) → left' ≤ left) ∧
      Spaced cyclePerStage rest

theorem spaced_new (width numStage : Nat) :
    ∀ lane ∈ replicate width (replicate numStage (none : Stage α)), Spaced cyclePerStage lane := by
  intro lane hlane
  rw [eq_of_mem_replicate hlane]
  clear hlane
  induction numStage with
  | zero => trivial
  | succ _ ih => exact ih

/-! ## What a tick does to a lane -/

/-- The elements of a lane in the order they leave, with the ticks each still needs. -/
def pending (cyclePerStage : Nat) : List (Stage α) → List (α × Nat)
  | [] => []
  | none :: rest => pending cyclePerStage rest
  | some (elem, left) :: rest => pending cyclePerStage rest ++ [(elem, rest.length * max cyclePerStage 1 + left + 1)]

theorem pending_replicate_none (k : Nat) : pending cyclePerStage (replicate k (none : Stage α)) = [] := by
  induction k with
  | zero => rfl
  | succ _ ih => exact ih

theorem pending_pos {lane : List (Stage α)} {a : α × Nat} (h : a ∈ pending cyclePerStage lane) : 1 ≤ a.2 := by
  induction lane with
  | nil => cases h
  | cons s _ ih =>
    rcases s with _ | ⟨_, _⟩
    · exact ih h
    · rcases mem_append.mp h with hrest | hlast
      · exact ih hrest
      · rw [mem_singleton.mp hlast]
        exact Nat.le_add_left ..

/-- A tick brings an element one tick closer to the buffer, or, with the buffer full in the end, it holds it. -/
def Aged (full : Prop) (a b : α × Nat) : Prop := b.1 = a.1 ∧ (b.2 + 1 = a.2 ∨ full ∧ b.2 = a.2)

theorem Aged.mono {full full' : Prop} {a b : α × Nat} (h : Aged full a b) (hf : full → full') : Aged full' a b := by
  refine ⟨h.1, ?_⟩
  rcases h.2 with h2 | ⟨hfull, h2⟩
  · exact .inl h2
  · exact .inr ⟨hf hfull, h2⟩

/-- The elements keep their order: those that leave come first. -/
theorem fst_of_aged {full : Prop} {as : List (α × Nat)} {out : List α} {bs : List (α × Nat)}
    (h : List.Forall₂ (Aged full) as (out.map (·, 0) ++ bs)) : as.map fst = out ++ bs.map fst := by
  have hmap : as.map fst = (out.map (·, 0) ++ bs).map fst := by
    generalize out.map (·, 0) ++ bs = cs at h
    induction h with
    | nil => rfl
    | cons hab _ ih => rw [map_cons, map_cons, ih, hab.1]
  rw [hmap, map_append, map_map]
  congr 1
  exact map_id out

variable (cyclePerStage) in
@[simp] theorem length_tickStages (lane : List (Stage α)) (buf : Buffer n α) :
    (tickStages cyclePerStage lane buf).2.1.length = lane.length := by
  induction lane with
  | nil => rfl
  | cons s rest ih =>
    rcases s with _ | ⟨_, _ | _⟩
    · simpa [tickStages_none] using ih
    · rw [tickStages_zero]
      generalize tickStages cyclePerStage rest buf = r at ih ⊢
      obtain ⟨_, rest', buf'⟩ := r
      rcases rest' with _ | ⟨_ | _, _⟩
      · have hrest : rest = [] := length_eq_zero_iff.mp ih.symm
        by_cases h : buf'.canPush = true
        · simp [h, hrest]
        · simp [h, hrest]
      · simpa using ih
      · simpa using ih
    · simpa [tickStages_succ] using ih

theorem head_tickStages {lane : List (Stage α)} {buf : Buffer n α} {elem : α} {left : Nat}
    (h : (tickStages cyclePerStage lane buf).2.1.head? = some (some (elem, left))) :
    lane.head? = some (some (elem, left + 1)) ∨ left = 0 ∧ lane.head? = some (some (elem, 0)) := by
  cases lane with
  | nil => simp [tickStages_nil] at h
  | cons s rest =>
    rcases s with _ | ⟨_, _ | _⟩
    · simp [tickStages_none] at h
    · rw [tickStages_zero] at h
      generalize tickStages cyclePerStage rest buf = r at h
      obtain ⟨_, rest', buf'⟩ := r
      rcases rest' with _ | ⟨_ | _, _⟩
      · by_cases hb : buf'.canPush = true
        · simp [hb] at h
        · simp only [hb, Bool.false_eq_true, if_false, head?_cons, Option.some.injEq, mk.injEq] at h
          obtain ⟨rfl, rfl⟩ := h
          exact .inr ⟨rfl, rfl⟩
      · simp at h
      · simp only [head?_cons, Option.some.injEq, mk.injEq] at h
        obtain ⟨rfl, rfl⟩ := h
        exact .inr ⟨rfl, rfl⟩
    · simp only [tickStages_succ, head?_cons, Option.some.injEq, mk.injEq] at h
      obtain ⟨rfl, rfl⟩ := h
      exact .inl rfl

theorem head_free {rest : List (Stage α)} (buf : Buffer n α) {elem : α} (hs : Spaced cyclePerStage (some (elem, 0) :: rest))
    (hroom : (tickStages cyclePerStage (some (elem, 0) :: rest) buf).2.2.canPush = true) :
    (tickStages cyclePerStage (some (elem, 0) :: rest) buf).2.1.head? = some none := by
  induction rest generalizing elem with
  | nil =>
    rw [tickStages_zero, tickStages_nil] at hroom ⊢
    by_cases hb : buf.canPush = true
    · simp [hb]
    · simp [hb] at hroom
  | cons s rest ih =>
    have hhead : (tickStages cyclePerStage (s :: rest) buf).2.2.canPush = true →
        (tickStages cyclePerStage (s :: rest) buf).2.1.head? = some none := by
      intro hroom'
      rcases s with _ | ⟨next, left⟩
      · rw [tickStages_none]
        rfl
      · have hle : left ≤ 0 := hs.2.1 next left rfl
        obtain rfl : left = 0 := by omega
        exact ih hs.2.2 hroom'
    have hlen := length_tickStages cyclePerStage (s :: rest) buf
    rw [tickStages_zero] at hroom ⊢
    generalize tickStages cyclePerStage (s :: rest) buf = r at hroom hhead hlen ⊢
    obtain ⟨_, rest', _⟩ := r
    rcases rest' with _ | ⟨_ | _, _⟩
    · simp at hlen
    · rfl
    · have hc := hhead hroom
      simp at hc

theorem Spaced.le {rest : List (Stage α)} {elem : α} {left : Nat} (h : Spaced cyclePerStage rest)
    (hhead : rest.head? = some (some (elem, left))) : left ≤ cyclePerStage - 1 := by
  cases rest with
  | nil => simp at hhead
  | cons =>
    simp only [head?_cons, Option.some.injEq] at hhead
    subst hhead
    exact h.1

theorem spaced_tickStages {lane : List (Stage α)} (h : Spaced cyclePerStage lane) (buf : Buffer n α) :
    Spaced cyclePerStage (tickStages cyclePerStage lane buf).2.1 := by
  induction lane with
  | nil => trivial
  | cons s rest ih =>
    rcases s with _ | ⟨_, _ | _⟩
    · exact ih h
    · have hrest := ih h.2.2
      have hhead : ∀ next left', (tickStages cyclePerStage rest buf).2.1.head? = some (some (next, left')) → left' ≤ 0 := by
        intro next left' hn
        rcases head_tickStages hn with hold | ⟨h0, -⟩
        · have := h.2.1 next (left' + 1) hold
          omega
        · omega
      rw [tickStages_zero]
      generalize tickStages cyclePerStage rest buf = r at hrest hhead ⊢
      obtain ⟨_, rest', buf'⟩ := r
      rcases rest' with _ | ⟨_ | next, rest'⟩
      · by_cases hb : buf'.canPush = true
        · simp [hb, Spaced]
        · simp [hb, Spaced]
      · have hnext : Spaced cyclePerStage rest' := hrest
        exact ⟨le_refl _, fun next left' hn => hnext.le hn, hnext⟩
      · exact ⟨Nat.zero_le _, hhead, hrest⟩
    · refine ⟨by have := h.1; omega, fun next left' hn => ?_, ih h.2.2⟩
      rcases head_tickStages hn with hold | ⟨_, -⟩
      · have := h.2.1 next (left' + 1) hold
        omega
      · omega

/-- A tick brings every element of a lane one tick closer to the buffer; those that are held are so with the buffer full. -/
theorem aged_tickStages {lane : List (Stage α)} (h : Spaced cyclePerStage lane) (buf : Buffer n α) :
    ∃ out : List α, (tickStages cyclePerStage lane buf).2.2.elements = buf.elements ++ out ∧
      List.Forall₂ (Aged ((tickStages cyclePerStage lane buf).2.2.canPush = false)) (pending cyclePerStage lane)
        (out.map (·, 0) ++ pending cyclePerStage (tickStages cyclePerStage lane buf).2.1) := by
  induction lane with
  | nil => exact ⟨[], by simp [tickStages_nil], by simp [tickStages_nil, pending]⟩
  | cons s rest ih =>
    rcases s with _ | ⟨elem, _ | _⟩
    · exact ih h
    · obtain ⟨out, hout, haged⟩ := ih h.2.2
      have hlen := length_tickStages cyclePerStage rest buf
      have hfree := head_free buf h
      rw [tickStages_zero] at hfree ⊢
      generalize tickStages cyclePerStage rest buf = r at hlen hout haged hfree ⊢
      obtain ⟨_, rest', buf'⟩ := r
      rcases rest' with _ | ⟨_ | _, rest'⟩
      · obtain rfl : rest = [] := length_eq_zero_iff.mp hlen.symm
        have hnil : out = [] := by simpa [pending] using haged
        subst hnil
        by_cases hb : buf'.canPush = true
        · refine ⟨[elem], by simp_all, ?_⟩
          simp [hb, pending, Aged]
        · refine ⟨[], by simp_all, ?_⟩
          simp [hb, pending, Aged]
      · refine ⟨out, hout, ?_⟩
        rw [pending, pending, pending, ← append_assoc]
        refine rel_append haged (.cons ⟨rfl, .inl ?_⟩ .nil)
        have hrest : rest.length = rest'.length + 1 := hlen.symm
        rw [hrest, Nat.add_mul]
        omega
      · refine ⟨out, hout, ?_⟩
        rw [pending, pending, ← append_assoc]
        refine rel_append haged (.cons ⟨rfl, .inr ⟨?_, ?_⟩⟩ .nil)
        · by_contra hroom
          have hn := hfree (by simpa using hroom)
          simp at hn
        · rw [← hlen]
    · obtain ⟨out, hout, haged⟩ := ih h.2.2
      refine ⟨out, hout, ?_⟩
      rw [tickStages_succ]
      rw [pending, pending, ← append_assoc, length_tickStages]
      exact rel_append haged (.cons ⟨rfl, .inl (by omega)⟩ .nil)

/-- The ticks the elements of a lane still need, taken together. -/
def work (cyclePerStage : Nat) (lane : List (Stage α)) : Nat := ((pending cyclePerStage lane).map snd).sum

@[simp] theorem work_nil : work cyclePerStage ([] : List (Stage α)) = 0 := rfl

@[simp] theorem work_none (rest : List (Stage α)) : work cyclePerStage (none :: rest) = work cyclePerStage rest := rfl

@[simp] theorem work_some (elem : α) (left : Nat) (rest : List (Stage α)) : work cyclePerStage (some (elem, left) :: rest) =
    work cyclePerStage rest + (rest.length * max cyclePerStage 1 + left + 1) := by
  simp [work, pending]

variable (cyclePerStage) in
theorem work_tickStages (lane : List (Stage α)) (buf : Buffer n α) :
    work cyclePerStage (tickStages cyclePerStage lane buf).2.1 + (tickStages cyclePerStage lane buf).1.toNat ≤
      work cyclePerStage lane := by
  induction lane with
  | nil => exact le_refl _
  | cons s rest ih =>
    have hlen := length_tickStages cyclePerStage rest buf
    rcases s with _ | ⟨_, _ | left⟩
    · exact ih
    · rw [tickStages_zero]
      generalize tickStages cyclePerStage rest buf = r at ih hlen ⊢
      obtain ⟨progress, rest', buf'⟩ := r
      rcases rest' with _ | ⟨_ | ⟨_, _⟩, rest'⟩
      · obtain rfl : rest = [] := length_eq_zero_iff.mp hlen.symm
        by_cases hb : buf'.canPush = true
        · simp [hb]
        · simp only [hb, Bool.false_eq_true, if_false, work_some, work_nil, length_nil] at ih ⊢
          omega
      · have hrest : rest.length = rest'.length + 1 := hlen.symm
        simp only [work_none, work_some, Bool.toNat_true] at ih ⊢
        rw [hrest, Nat.add_mul]
        omega
      · have hrest : rest.length = rest'.length + 1 := hlen.symm
        simp only [work_some, length_cons] at ih ⊢
        rw [hrest]
        omega
    · rw [tickStages_succ]
      generalize tickStages cyclePerStage rest buf = r at ih hlen ⊢
      obtain ⟨_, _, _⟩ := r
      simp only [work_some, hlen, Bool.toNat_true] at ih ⊢
      omega

theorem tickStages_of_false {lane : List (Stage α)} {buf : Buffer n α} (h : (tickStages cyclePerStage lane buf).1 = false) :
    (tickStages cyclePerStage lane buf).2 = (lane, buf) := by
  induction lane with
  | nil => rfl
  | cons s rest ih =>
    rcases s with _ | ⟨_, _ | _⟩
    · rw [tickStages_none, ih h]
    · rw [tickStages_zero] at h ⊢
      generalize tickStages cyclePerStage rest buf = r at ih h ⊢
      obtain ⟨_, rest', buf'⟩ := r
      rcases rest' with _ | ⟨_ | _, _⟩
      · by_cases hb : buf'.canPush = true
        · simp [hb] at h
        · simp only [hb, Bool.false_eq_true, if_false] at h ⊢
          have hrest := ih h
          simp only [mk.injEq] at hrest
          rw [← hrest.1, ← hrest.2]
      · cases h
      · have hrest := ih h
        simp only [mk.injEq] at hrest
        rw [← hrest.1, ← hrest.2]
    · cases h

theorem room_tickStages {lane : List (Stage α)} {buf : Buffer n α} (h : buf.elements.length ≤ n) :
    (tickStages cyclePerStage lane buf).2.2.elements.length ≤ n := by
  induction lane with
  | nil => exact h
  | cons s rest ih =>
    rcases s with _ | ⟨_, _ | _⟩
    · exact ih
    · rw [tickStages_zero]
      generalize tickStages cyclePerStage rest buf = r at ih ⊢
      obtain ⟨_, rest', buf'⟩ := r
      rcases rest' with _ | ⟨_ | _, _⟩
      · by_cases hb : buf'.canPush = true
        · simp only [hb, if_true, length_append, length_singleton]
          exact Nat.succ_le_of_lt (of_decide_eq_true hb)
        · simpa [hb] using ih
      · exact ih
      · exact ih
    · exact ih

/-! ## The lanes -/

variable (cyclePerStage) in
@[simp] theorem length_tickAll (lanes : List (List (Stage α))) (buf : Buffer n α) :
    (tickAll cyclePerStage lanes buf).2.1.length = lanes.length := by
  induction lanes generalizing buf with
  | nil => rfl
  | cons _ _ ih => simp [tickAll_cons, ih]

theorem of_mem_tickAll {P : List (Stage α) → Prop} {lanes : List (List (Stage α))} (h : ∀ lane ∈ lanes, P lane)
    (hstep : ∀ lane (buf : Buffer n α), P lane → P (tickStages cyclePerStage lane buf).2.1) (buf : Buffer n α) :
    ∀ lane ∈ (tickAll cyclePerStage lanes buf).2.1, P lane := by
  induction lanes generalizing buf with
  | nil => simp [tickAll_nil]
  | cons lane _ ih =>
    simp only [tickAll_cons, mem_cons, forall_eq_or_imp]
    exact ⟨hstep lane buf (h lane mem_cons_self), ih (fun l hl => h l (mem_cons_of_mem _ hl)) _⟩

theorem aged_tickAll {lanes : List (List (Stage α))} (h : ∀ lane ∈ lanes, Spaced cyclePerStage lane) (buf : Buffer n α) :
    ∃ outs : List (List α), (tickAll cyclePerStage lanes buf).2.2.elements = buf.elements ++ outs.flatten ∧
      ∀ l, List.Forall₂ (Aged ((tickAll cyclePerStage lanes buf).2.2.canPush = false))
        (pending cyclePerStage (lanes.getD l []))
        ((outs.getD l []).map (·, 0) ++ pending cyclePerStage ((tickAll cyclePerStage lanes buf).2.1.getD l [])) := by
  induction lanes generalizing buf with
  | nil => exact ⟨[], by simp [tickAll_nil], fun l => by simp [tickAll_nil, pending]⟩
  | cons lane _ ih =>
    obtain ⟨out, hout, haged⟩ := aged_tickStages (h lane mem_cons_self) buf
    obtain ⟨outs, houts, hageds⟩ := ih (fun l hl => h l (mem_cons_of_mem _ hl)) (tickStages cyclePerStage lane buf).2.2
    refine ⟨out :: outs, ?_, fun l => ?_⟩
    · simp only [tickAll_cons, houts, hout, flatten_cons, append_assoc]
    · cases l with
      | zero =>
        refine haged.imp fun a b hab => hab.mono fun hfull => ?_
        simp only [tickAll_cons, Buffer.canPush, houts, decide_eq_false_iff_not, not_lt, length_append] at hfull ⊢
        omega
      | succ l => simpa [tickAll_cons] using hageds l

theorem room_tickAll {lanes : List (List (Stage α))} {buf : Buffer n α} (h : buf.elements.length ≤ n) :
    (tickAll cyclePerStage lanes buf).2.2.elements.length ≤ n := by
  induction lanes generalizing buf with
  | nil => exact h
  | cons _ _ ih => exact ih (room_tickStages h)

theorem perm_tickAll {lanes : List (List (Stage α))} (h : ∀ lane ∈ lanes, Spaced cyclePerStage lane) (buf : Buffer n α) :
    (((tickAll cyclePerStage lanes buf).2.1.flatMap (pending cyclePerStage)).map fst ++
      (tickAll cyclePerStage lanes buf).2.2.elements).Perm
        ((lanes.flatMap (pending cyclePerStage)).map fst ++ buf.elements) := by
  induction lanes generalizing buf with
  | nil => simp [tickAll_nil]
  | cons lane _ ih =>
    obtain ⟨_, hout, haged⟩ := aged_tickStages (h lane mem_cons_self) buf
    have hlane := fst_of_aged haged
    have hlanes := ih (fun l hl => h l (mem_cons_of_mem _ hl)) (tickStages cyclePerStage lane buf).2.2
    rw [hout] at hlanes
    simp only [tickAll_cons, flatMap_cons, map_append, append_assoc, hlane]
    refine (List.Perm.append_left _ hlanes).trans ?_
    rw [← Multiset.coe_eq_coe]
    simp only [← Multiset.coe_add]
    ac_rfl

def allWork (cyclePerStage : Nat) (lanes : List (List (Stage α))) : Nat := (lanes.map (work cyclePerStage)).sum

variable (cyclePerStage) in
theorem work_tickAll (lanes : List (List (Stage α))) (buf : Buffer n α) :
    allWork cyclePerStage (tickAll cyclePerStage lanes buf).2.1 + (tickAll cyclePerStage lanes buf).1.toNat ≤
      allWork cyclePerStage lanes := by
  induction lanes generalizing buf with
  | nil => exact le_refl _
  | cons lane lanes ih =>
    have hlane := work_tickStages cyclePerStage lane buf
    rw [tickAll_cons]
    generalize tickStages cyclePerStage lane buf = r at hlane ⊢
    obtain ⟨progress, _, buf'⟩ := r
    have hlanes := ih buf'
    dsimp only
    generalize tickAll cyclePerStage lanes buf' = r' at hlanes ⊢
    obtain ⟨progress', _, _⟩ := r'
    have hor : (progress || progress').toNat ≤ progress.toNat + progress'.toNat := by
      cases progress <;> cases progress' <;> decide
    simp only [allWork, map_cons, sum_cons] at hlane hlanes ⊢
    omega

theorem tickAll_of_false {lanes : List (List (Stage α))} {buf : Buffer n α}
    (h : (tickAll cyclePerStage lanes buf).1 = false) : (tickAll cyclePerStage lanes buf).2 = (lanes, buf) := by
  induction lanes generalizing buf with
  | nil => rfl
  | cons _ _ ih =>
    simp only [tickAll_cons, Bool.or_eq_false_iff] at h ⊢
    have hlane := tickStages_of_false h.1
    have hlanes := ih h.2
    simp only [hlane, ext_iff] at hlanes ⊢
    simp only [hlanes, and_self]

/-! ## Pipelines -/

/-- An element enters a lane whose first stage is free. -/
def enter (cyclePerStage : Nat) (elem : α) : List (Stage α) → List (Stage α)
  | none :: rest => some (elem, cyclePerStage - 1) :: rest
  | lane => lane

@[simp] theorem length_enter (elem : α) (lane : List (Stage α)) : (enter cyclePerStage elem lane).length = lane.length := by
  unfold enter
  split <;> rfl

theorem spaced_enter {lane : List (Stage α)} (elem : α) (h : Spaced cyclePerStage lane) :
    Spaced cyclePerStage (enter cyclePerStage elem lane) := by
  unfold enter
  split
  · next rest =>
    have hrest : Spaced cyclePerStage rest := h
    exact ⟨le_refl _, fun next left hn => hrest.le hn, hrest⟩
  · exact h

theorem of_mem_modify {P : List (Stage α) → Prop} {lanes : List (List (Stage α))} {f : List (Stage α) → List (Stage α)}
    {l : Nat} (h : ∀ lane ∈ lanes, P lane) (hstep : ∀ lane, P lane → P (f lane)) : ∀ lane ∈ lanes.modify l f, P lane := by
  intro lane hlane
  obtain ⟨i, hi⟩ := mem_iff_getElem?.mp hlane
  rw [getElem?_modify] at hi
  cases hold : lanes[i]? with
  | none => simp [hold] at hi
  | some old =>
    have hP := h old (mem_of_getElem? hold)
    simp only [hold, map_eq_map, map_some, Option.some.injEq] at hi
    subst hi
    split
    · exact hstep old hP
    · exact hP

/-- The first stage of a lane is free. -/
def laneFree (lane : List (Stage α)) : Bool :=
  match lane with
  | none :: _ => true
  | _ => false

/-- `pipelining.pipelineImpl`, without its name and the buffer it fills. -/
structure PipelineImpl (width numStage cyclePerStage : Nat) (α : Type) where
  stages : List (List (Stage α)) := replicate width (replicate numStage none)
  length_stages : stages.length = width := by simp
  length_lane : ∀ lane ∈ stages, lane.length = numStage := by simp
  spaced : ∀ lane ∈ stages, Spaced cyclePerStage lane := by exact spaced_new _ _
deriving DecidableEq

namespace PipelineImpl

variable (p : PipelineImpl width numStage cyclePerStage α)

/-- The pipeline after a tick. -/
def moved (buf : Buffer n α) : PipelineImpl width numStage cyclePerStage α where
  stages := (tickAll cyclePerStage p.stages buf).2.1
  length_stages := by rw [length_tickAll, p.length_stages]
  length_lane := of_mem_tickAll p.length_lane (fun lane buf h => by rw [length_tickStages, h]) buf
  spaced := of_mem_tickAll p.spaced (fun _ buf h => spaced_tickStages h buf) buf

def tick (buf : Buffer n α) : Bool × PipelineImpl width numStage cyclePerStage α × Buffer n α :=
  let (progress, _, buf') := tickAll cyclePerStage p.stages buf
  (progress, p.moved buf, buf')

def canAccept (buf : Buffer n α) : Bool :=
  if numStage = 0 then buf.canPush else p.stages.any laneFree

/-- The first lane whose first stage is free. -/
def freeLane : Option Nat := p.stages.findIdx? laneFree

def put (lane : Nat) (elem : α) : PipelineImpl width numStage cyclePerStage α where
  stages := p.stages.modify lane (enter cyclePerStage elem)
  length_stages := by rw [length_modify, p.length_stages]
  length_lane := of_mem_modify p.length_lane fun lane h => by rw [length_enter, h]
  spaced := of_mem_modify p.spaced fun _ h => spaced_enter elem h

def accept (buf : Buffer n α) (elem : α) : Except String (PipelineImpl width numStage cyclePerStage α × Buffer n α) :=
  if numStage = 0 then (buf.push elem).map (p, ·)
  else
    match p.freeLane with
    | none => .error "pipeline is not free. Use can push before pushing."
    | some lane => .ok (p.put lane elem, buf)

/-- The elements of one lane in the order they leave, each with the ticks it still needs. -/
def lane (l : Nat) : List (α × Nat) := pending cyclePerStage (p.stages.getD l [])

def pending : List (α × Nat) := p.stages.flatMap (Pipelining.pending cyclePerStage)

/-- The ticks the elements still need, taken together. -/
def work : Nat := (p.pending.map snd).sum

/-- What is in a stage of a lane. -/
def slot (l i : Nat) : Stage α := (p.stages.getD l []).getD i none

variable {p} {buf : Buffer n α}

theorem mem_pending {a : α × Nat} : a ∈ p.pending ↔ ∃ l, a ∈ p.lane l := by
  unfold pending lane
  rw [mem_flatMap]
  constructor
  · rintro ⟨lane, hlane, ha⟩
    obtain ⟨l, hl⟩ := mem_iff_getElem?.mp hlane
    exact ⟨l, by rwa [getD_eq_getElem?_getD, hl]⟩
  · rintro ⟨l, ha⟩
    rw [getD_eq_getElem?_getD] at ha
    cases hl : p.stages[l]? with
    | none => simp [hl, Pipelining.pending] at ha
    | some lane => exact ⟨lane, mem_of_getElem? hl, by simpa [hl] using ha⟩

@[simp] theorem lane_new (l : Nat) : ({} : PipelineImpl width numStage cyclePerStage α).lane l = [] := by
  unfold lane
  rw [getD_eq_getElem?_getD]
  cases hl : (replicate width (replicate numStage (none : Stage α)))[l]? with
  | none => rfl
  | some =>
    rw [eq_of_mem_replicate (mem_of_getElem? hl)]
    exact pending_replicate_none numStage

@[simp] theorem pending_new : ({} : PipelineImpl width numStage cyclePerStage α).pending = [] := by
  rw [eq_nil_iff_forall_not_mem]
  intro a ha
  obtain ⟨_, hl⟩ := mem_pending.mp ha
  rw [lane_new] at hl
  cases hl

variable (p) in
theorem work_eq : p.work = allWork cyclePerStage p.stages := by
  unfold work pending allWork
  induction p.stages with
  | nil => rfl
  | cons _ _ ih =>
    rw [flatMap_cons, map_append, sum_append, ih]
    rfl

variable (p) in
/-- The elements that leave in a tick, lane by lane, and what becomes of the others. -/
theorem aged_tick (buf : Buffer n α) : ∃ outs : List (List α), (p.tick buf).2.2.elements = buf.elements ++ outs.flatten ∧
      ∀ l, List.Forall₂ (Aged ((p.tick buf).2.2.canPush = false)) (p.lane l)
        ((outs.getD l []).map (·, 0) ++ (p.tick buf).2.1.lane l) :=
  aged_tickAll p.spaced buf

variable (p) in
theorem room_tick (h : buf.elements.length ≤ n) : (p.tick buf).2.2.elements.length ≤ n := room_tickAll h

theorem pos_of_mem_lane {l : Nat} {a : α × Nat} (h : a ∈ p.lane l) : 1 ≤ a.2 := pending_pos h

theorem work_eq_zero : p.work = 0 ↔ p.pending = [] := by
  unfold work
  rw [List.sum_eq_zero_iff_forall_eq_nat]
  constructor
  · intro h
    rw [eq_nil_iff_forall_not_mem]
    intro a ha
    obtain ⟨_, hl⟩ := mem_pending.mp ha
    have hpos := pos_of_mem_lane hl
    have hzero := h a.2 (mem_map_of_mem ha)
    omega
  · intro h
    rw [h]
    intro k hk
    cases hk

variable (p) in
/-- A tick that reports progress leaves less to do. -/
theorem work_tick (buf : Buffer n α) : (p.tick buf).2.1.work + (p.tick buf).1.toNat ≤ p.work := by
  rw [work_eq, work_eq]
  exact work_tickAll cyclePerStage p.stages buf

theorem ext_stages {p q : PipelineImpl width numStage cyclePerStage α} (h : p.stages = q.stages) : p = q := by
  obtain ⟨_, _, _, _⟩ := p
  obtain ⟨_, _, _, _⟩ := q
  cases h
  rfl

theorem tick_of_false (h : (p.tick buf).1 = false) : (p.tick buf).2 = (p, buf) := by
  have hall : (tickAll cyclePerStage p.stages buf).2 = (p.stages, buf) := tickAll_of_false h
  rw [ext_iff] at hall ⊢
  exact ⟨ext_stages hall.1, hall.2⟩

variable (p) in
/-- `Tick` reports progress exactly when it changed something. -/
theorem tick_progress (buf : Buffer n α) : (p.tick buf).1 = true ↔ (p.tick buf).2 ≠ (p, buf) := by
  constructor
  · intro h heq
    have hwork := work_tick p buf
    rw [h, heq, Bool.toNat_true] at hwork
    exact Nat.not_succ_le_self p.work hwork
  · intro h
    by_contra hfalse
    exact h (tick_of_false (by simpa using hfalse))

/-- While the buffer has room and the pipeline has an element, something moves. -/
theorem tick_of_room (hroom : buf.canPush = true) (hp : p.pending ≠ []) : (p.tick buf).1 = true := by
  by_contra hfalse
  obtain ⟨outs, hout, haged⟩ := p.aged_tick buf
  rw [tick_of_false (by simpa using hfalse)] at hout haged
  obtain ⟨_, ha⟩ := exists_mem_of_ne_nil _ hp
  obtain ⟨l, hl⟩ := mem_pending.mp ha
  have hnil : outs.flatten = [] := by simpa using hout
  have hlane : outs.getD l [] = [] := by
    rw [flatten_eq_nil_iff] at hnil
    rw [getD_eq_getElem?_getD]
    cases hl : outs[l]? with
    | none => rfl
    | some out => exact hnil out (mem_of_getElem? hl)
  have hself := haged l
  rw [hlane, map_nil, nil_append] at hself
  generalize p.lane l = lane at hl hself
  cases hself with
  | nil => cases hl
  | cons hab =>
    rcases hab.2 with _ | ⟨hfull, -⟩
    · omega
    · rw [hroom] at hfull
      cases hfull

variable (p) in
/-- A tick neither loses nor repeats an element of the pipeline and its buffer. -/
theorem items_tick (buf : Buffer n α) :
    ((p.tick buf).2.1.pending.map fst ++ (p.tick buf).2.2.elements).Perm (p.pending.map fst ++ buf.elements) :=
  perm_tickAll p.spaced buf

/-! ### Accepting an element -/

theorem freeLane_eq {l : Nat} (h : p.freeLane = some l) : ∃ rest, p.stages[l]? = some (none :: rest) := by
  unfold freeLane at h
  rw [findIdx?_eq_some_iff_getElem] at h
  obtain ⟨hl, hfree, -⟩ := h
  rw [getElem?_eq_getElem hl]
  generalize p.stages[l] = lane at hfree
  rcases lane with _ | ⟨_ | _, rest⟩
  · cases hfree
  · exact ⟨rest, rfl⟩
  · cases hfree

theorem freeLane_of_canAccept (h : p.canAccept buf = true) (hstage : numStage ≠ 0) : ∃ l, p.freeLane = some l := by
  unfold canAccept at h
  rw [if_neg hstage, any_eq_true] at h
  obtain ⟨lane, hlane, hfree⟩ := h
  unfold freeLane
  cases hidx : p.stages.findIdx? laneFree with
  | none =>
    rw [findIdx?_eq_none_iff] at hidx
    rw [hidx lane hlane] at hfree
    cases hfree
  | some l => exact ⟨l, rfl⟩

variable (p) in
theorem lane_of_no_stage (hstage : numStage = 0) (l : Nat) : p.lane l = [] := by
  unfold lane
  rw [getD_eq_getElem?_getD]
  cases hl : p.stages[l]? with
  | none => rfl
  | some lane =>
    have hlen := p.length_lane lane (mem_of_getElem? hl)
    rw [hstage, length_eq_zero_iff] at hlen
    rw [hlen]
    rfl

variable (p) in
theorem not_free_of_no_stage (hstage : numStage = 0) : p.freeLane = none := by
  unfold freeLane
  rw [findIdx?_eq_none_iff]
  intro lane hlane
  have hlen := p.length_lane lane hlane
  rw [hstage, length_eq_zero_iff] at hlen
  rw [hlen]
  rfl

theorem accept_cases {elem : α} {p' : PipelineImpl width numStage cyclePerStage α} {buf' : Buffer n α}
    (h : p.accept buf elem = .ok (p', buf')) :
    (numStage = 0 ∧ p' = p ∧ buf.canPush = true ∧ buf' = ⟨buf.elements ++ [elem]⟩) ∨
    (numStage ≠ 0 ∧ (∃ l, p.freeLane = some l ∧ p' = p.put l elem) ∧ buf' = buf) := by
  unfold accept at h
  by_cases hstage : numStage = 0
  · rw [if_pos hstage] at h
    by_cases hb : buf.canPush = true
    · rw [Buffer.push_of_canPush hb] at h
      cases h
      exact .inl ⟨hstage, rfl, hb, rfl⟩
    · simp only [Buffer.canPush, decide_eq_true_eq, not_lt] at hb
      rw [Buffer.push, if_pos hb] at h
      cases h
  · rw [if_neg hstage] at h
    cases hlane : p.freeLane with
    | none =>
      rw [hlane] at h
      cases h
    | some l =>
      rw [hlane] at h
      cases h
      exact .inr ⟨hstage, ⟨l, rfl, rfl⟩, rfl⟩

theorem accept_ok (h : p.canAccept buf = true) (elem : α) : ∃ r, p.accept buf elem = .ok r := by
  unfold accept
  by_cases hstage : numStage = 0
  · unfold canAccept at h
    rw [if_pos hstage] at h
    rw [if_pos hstage, Buffer.push_of_canPush h]
    exact ⟨_, rfl⟩
  · obtain ⟨_, hl⟩ := freeLane_of_canAccept h hstage
    rw [if_neg hstage, hl]
    exact ⟨_, rfl⟩

theorem lane_put {l : Nat} (h : p.freeLane = some l) (elem : α) (k : Nat) :
    (p.put l elem).lane k = p.lane k ++ if k = l then [(elem, numStage * max cyclePerStage 1)] else [] := by
  obtain ⟨rest, hrest⟩ := freeLane_eq h
  have hlen := p.length_lane _ (mem_of_getElem? hrest)
  unfold lane put
  rw [getD_eq_getElem?_getD, getD_eq_getElem?_getD, getElem?_modify]
  by_cases hk : k = l
  · subst hk
    have hstage : numStage = rest.length + 1 := by simpa using hlen.symm
    simp only [hrest, if_true, map_eq_map, map_some, getD_some, enter, Pipelining.pending, hstage, Nat.add_mul]
    congr 3
    omega
  · simp [hk, Ne.symm hk]

theorem pending_put {l : Nat} (h : p.freeLane = some l) (elem : α) :
    (p.put l elem).pending.Perm (p.pending ++ [(elem, numStage * max cyclePerStage 1)]) := by
  have hlane := lane_put h elem l
  obtain ⟨_, hrest⟩ := freeLane_eq h
  obtain ⟨hl, _⟩ := List.getElem?_eq_some_iff.mp hrest
  have hold : p.stages = p.stages.take l ++ p.stages[l] :: p.stages.drop (l + 1) := by
    rw [List.getElem_cons_drop, List.take_append_drop]
  unfold lane put at hlane
  rw [if_pos rfl, getD_eq_getElem?_getD, getD_eq_getElem?_getD, getElem?_modify, getElem?_eq_getElem hl] at hlane
  simp only [if_true, map_eq_map, map_some, getD_some] at hlane
  change ((p.stages.modify l (enter cyclePerStage elem)).flatMap _).Perm (p.stages.flatMap _ ++ _)
  rw [modify_eq_take_cons_drop hl]
  conv_rhs => rw [hold]
  rw [flatMap_append, flatMap_append, flatMap_cons, flatMap_cons, hlane, append_assoc, append_assoc, append_assoc]
  exact List.Perm.append_left _ (List.Perm.append_left _ perm_append_comm)

theorem work_put {l : Nat} (h : p.freeLane = some l) (elem : α) :
    (p.put l elem).work = p.work + numStage * max cyclePerStage 1 := by
  have hsum := ((pending_put h elem).map snd).sum_eq
  rwa [map_append, sum_append, map_singleton, sum_singleton] at hsum

theorem slot_put {l : Nat} (h : p.freeLane = some l) (elem : α) {k i : Nat} {x : α × Nat} (hx : p.slot k i = some x) :
    (p.put l elem).slot k i = some x := by
  obtain ⟨_, hrest⟩ := freeLane_eq h
  unfold slot at hx ⊢
  change ((p.stages.modify l (enter cyclePerStage elem)).getD k []).getD i none = some x
  rw [p.stages.getD_eq_getElem?_getD] at hx
  rw [(p.stages.modify l (enter cyclePerStage elem)).getD_eq_getElem?_getD, getElem?_modify]
  by_cases hk : l = k
  · subst hk
    rw [hrest] at hx
    rw [hrest]
    simp only [if_true, map_eq_map, map_some, getD_some, enter] at hx ⊢
    cases i with
    | zero => cases hx
    | succ => exact hx
  · simpa [hk] using hx

/-! ### One lane

A pipeline of one lane, or without stages, keeps all its elements in the order of their acceptance. -/

theorem stages_of_single (hw : width ≤ 1) : p.stages = [] ∨ ∃ lane, p.stages = [lane] := by
  have hlen := p.length_stages
  rcases hs : p.stages with _ | ⟨lane, _ | ⟨_, _⟩⟩
  · exact .inl rfl
  · exact .inr ⟨lane, rfl⟩
  · rw [hs, length_cons, length_cons] at hlen
    omega

variable (p) in
theorem pending_eq_lane (hw : width ≤ 1 ∨ numStage = 0) : p.pending = p.lane 0 := by
  rcases hw with hw | hstage
  · unfold pending lane
    rcases p.stages_of_single hw with hs | ⟨_, hs⟩
    · rw [hs]
      rfl
    · rw [hs, flatMap_cons, flatMap_nil, append_nil]
      rfl
  · rw [p.lane_of_no_stage hstage, eq_nil_iff_forall_not_mem]
    intro a ha
    obtain ⟨_, hl⟩ := mem_pending.mp ha
    rw [p.lane_of_no_stage hstage] at hl
    cases hl

variable (p) in
theorem lane_of_pos (hw : width ≤ 1 ∨ numStage = 0) {l : Nat} (hl : 0 < l) : p.lane l = [] := by
  rcases hw with _ | hstage
  · unfold lane
    have hlen := p.length_stages
    rw [getD_eq_getElem?_getD, getElem?_eq_none (by omega)]
    rfl
  · exact p.lane_of_no_stage hstage l

variable (p) in
theorem aged_tick_single (hw : width ≤ 1 ∨ numStage = 0) (buf : Buffer n α) :
    ∃ out : List α, (p.tick buf).2.2.elements = buf.elements ++ out ∧
      List.Forall₂ (Aged ((p.tick buf).2.2.canPush = false)) p.pending (out.map (·, 0) ++ (p.tick buf).2.1.pending) := by
  obtain ⟨outs, hout, haged⟩ := p.aged_tick buf
  have hflat : outs.flatten = outs.getD 0 [] := by
    cases outs with
    | nil => rfl
    | cons _ outs =>
      have hnil : outs.flatten = [] := by
        rw [flatten_eq_nil_iff]
        intro out' hout'
        obtain ⟨i, hi⟩ := mem_iff_getElem?.mp hout'
        have hlane := fst_of_aged (haged (i + 1))
        rw [p.lane_of_pos hw (Nat.succ_pos i), getD_eq_getElem?_getD, getElem?_cons_succ, hi] at hlane
        exact (append_eq_nil_iff.mp hlane.symm).1
      rw [flatten_cons, hnil, append_nil]
      rfl
  refine ⟨outs.getD 0 [], by rw [hout, hflat], ?_⟩
  rw [p.pending_eq_lane hw, (p.tick buf).2.1.pending_eq_lane hw]
  exact haged 0

theorem pending_put_single (hw : width ≤ 1 ∨ numStage = 0) {l : Nat} (h : p.freeLane = some l) (elem : α) :
    (p.put l elem).pending = p.pending ++ [(elem, numStage * max cyclePerStage 1)] := by
  have hl : 0 = l := by
    rcases hw with hw | hstage
    · obtain ⟨_, hrest⟩ := freeLane_eq h
      obtain ⟨_, -⟩ := List.getElem?_eq_some_iff.mp hrest
      have hlen := p.length_stages
      omega
    · rw [p.not_free_of_no_stage hstage] at h
      cases h
  rw [(p.put l elem).pending_eq_lane hw, p.pending_eq_lane hw, lane_put h, if_pos hl]

theorem canAccept_of_empty (hw : 1 ≤ width ∨ numStage = 0) (hp : p.pending = []) (hroom : buf.canPush = true) :
    p.canAccept buf = true := by
  unfold canAccept
  by_cases hstage : numStage = 0
  · rw [if_pos hstage, hroom]
  · rw [if_neg hstage, any_eq_true]
    have hlen := p.length_stages
    obtain ⟨lane, hlane⟩ := exists_mem_of_length_pos (l := p.stages) (by omega)
    have hnil : Pipelining.pending cyclePerStage lane = [] := by
      rw [eq_nil_iff_forall_not_mem] at hp ⊢
      exact fun a ha => hp a (mem_flatMap.mpr ⟨lane, hlane, ha⟩)
    refine ⟨lane, hlane, ?_⟩
    rcases lane with _ | ⟨_ | _, _⟩
    · have hlen := p.length_lane _ hlane
      exact absurd hlen.symm hstage
    · rfl
    · simp [Pipelining.pending] at hnil

end PipelineImpl

end Akita.Pipelining
