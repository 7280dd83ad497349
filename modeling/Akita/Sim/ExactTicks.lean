import Akita.Sim.Ticker

/-!
# Exact ticks

The functions of `sim.Freq` against the ticks of the frequency. `ThisTick` and `NextTick` round the number of cycles to tenths
first.

* `thisTick_iff`, `nextTick_iff` : the times for which they give the right tick;
* `Exact` : what all the functions should give; `exact_iff` : the times of which this is true.
-/

namespace Akita.Sim

/-- The tick is the earliest one that is not before `now`. -/
def Freq.IsThisTick (f : Freq) (now t : ℚ) : Prop := IsLeast {t | f.OnCycle t ∧ now ≤ t} t

/-- The tick is the earliest one after `now`. -/
def Freq.IsNextTick (f : Freq) (now t : ℚ) : Prop := IsLeast {t | f.OnCycle t ∧ now < t} t

namespace Freq

variable {f : Freq} {now t : ℚ}

theorem isThisTick_ceil (hf : 0 < f) (now : ℚ) : f.IsThisTick now (⌈now * f⌉ / f) := by
  refine ⟨⟨⟨_, rfl⟩, ?_⟩, ?_⟩
  · rw [le_div_iff₀ hf]
    exact Int.le_ceil _
  · rintro _ ⟨⟨m, rfl⟩, hm⟩
    rw [le_div_iff₀ hf] at hm
    rw [div_le_div_iff_of_pos_right hf]
    exact_mod_cast Int.ceil_le.2 hm

theorem isNextTick_floor (hf : 0 < f) (now : ℚ) : f.IsNextTick now ((⌊now * f⌋ + 1 : ℤ) / f) := by
  refine ⟨⟨⟨_, rfl⟩, ?_⟩, ?_⟩
  · rw [lt_div_iff₀ hf]
    push_cast
    exact Int.lt_floor_add_one _
  · rintro _ ⟨⟨m, rfl⟩, hm⟩
    rw [lt_div_iff₀ hf] at hm
    rw [div_le_div_iff_of_pos_right hf]
    exact_mod_cast Int.floor_lt.2 hm

theorem isThisTick_iff (hf : 0 < f) (m : ℤ) : f.IsThisTick now (m / f) ↔ m = ⌈now * f⌉ := by
  constructor
  · intro h
    have heq := h.unique (isThisTick_ceil hf now)
    rw [div_left_inj' hf.ne'] at heq
    exact_mod_cast heq
  · rintro rfl
    exact isThisTick_ceil hf now

theorem isNextTick_iff (hf : 0 < f) (m : ℤ) : f.IsNextTick now (m / f) ↔ m = ⌊now * f⌋ + 1 := by
  constructor
  · intro h
    have heq := h.unique (isNextTick_floor hf now)
    rw [div_left_inj' hf.ne'] at heq
    exact_mod_cast heq
  · rintro rfl
    exact isNextTick_floor hf now

theorem mathRound_bounds (hf : 0 < f) (hnow : 0 ≤ now) :
    10 * (now * f) - 1 / 2 < mathRound (now * 10 * f) ∧ (mathRound (now * 10 * f) : ℚ) ≤ 10 * (now * f) + 1 / 2 := by
  have hpos : 0 ≤ now * 10 * f := by positivity
  rw [mathRound, if_pos hpos]
  have hle := Int.floor_le (now * 10 * f + 1 / 2)
  have hlt := Int.lt_floor_add_one (now * 10 * f + 1 / 2)
  constructor <;> linarith

/-- `ThisTick` is right on a tick, and from a twentieth of a cycle after it on. -/
theorem thisTick_iff (hf : 0 < f) (hnow : 0 ≤ now) :
    f.IsThisTick now (f.thisTick now) ↔ Int.fract (now * f) = 0 ∨ 1 / 20 ≤ Int.fract (now * f) := by
  obtain ⟨hlow, hhigh⟩ := mathRound_bounds hf hnow
  have hfract := Int.floor_add_fract (now * f)
  have hnonneg := Int.fract_nonneg (now * f)
  have hlt := Int.fract_lt_one (now * f)
  generalize hr : mathRound (now * 10 * f) = r at hlow hhigh
  rw [thisTick, hr, isThisTick_iff hf]
  generalize Int.fract (now * f) = φ at *
  generalize ⌊now * f⌋ = k at *
  rcases eq_or_lt_of_le hnonneg with hzero | hpos
  · have hx : now * f = k := by linarith
    rw [hx] at hlow hhigh ⊢
    have hten : r = 10 * k := by
      have h1 : 10 * k - 1 < r := by
        have : ((10 * k - 1 : ℤ) : ℚ) < r := by push_cast; linarith
        exact_mod_cast this
      have h2 : r < 10 * k + 1 := by
        have : (r : ℚ) < (10 * k + 1 : ℤ) := by push_cast; linarith
        exact_mod_cast this
      omega
    rw [hten, Int.ceil_intCast]
    refine ⟨fun _ => .inl hzero.symm, fun _ => ?_⟩
    rw [show ((10 * k : ℤ) : ℚ) / 10 = k by push_cast; ring, Int.ceil_intCast]
  · have hceil : ⌈now * f⌉ = k + 1 := by
      rw [Int.ceil_eq_iff]
      push_cast
      constructor <;> linarith
    rw [hceil]
    constructor
    · intro h
      refine .inr ?_
      by_contra hsmall
      -- the tenths are rounded down to the tick before
      have hr' : r ≤ 10 * k := by
        have : (r : ℚ) < (10 * k + 1 : ℤ) := by push_cast; linarith
        have hlt' : r < 10 * k + 1 := by exact_mod_cast this
        omega
      have hle : ⌈(r : ℚ) / 10⌉ ≤ k := by
        rw [Int.ceil_le, div_le_iff₀ (by norm_num)]
        have : (r : ℚ) ≤ (10 * k : ℤ) := by exact_mod_cast hr'
        push_cast at this
        linarith
      omega
    · rintro (hzero | hbig)
      · exact absurd hzero hpos.ne'
      · have h1 : 10 * k < r := by
          have : ((10 * k : ℤ) : ℚ) < r := by push_cast; linarith
          exact_mod_cast this
        have h2 : r ≤ 10 * k + 10 := by
          have : (r : ℚ) < (10 * k + 11 : ℤ) := by push_cast; linarith
          have hlt' : r < 10 * k + 11 := by exact_mod_cast this
          omega
        have h1' : ((10 * k : ℤ) : ℚ) < r := by exact_mod_cast h1
        have h2' : (r : ℚ) ≤ (10 * k + 10 : ℤ) := by exact_mod_cast h2
        push_cast at h1' h2'
        rw [Int.ceil_eq_iff]
        push_cast
        constructor <;> linarith

/-- `NextTick` is right until a twentieth of a cycle before the tick. -/
theorem nextTick_iff (hf : 0 < f) (hnow : 0 ≤ now) : f.IsNextTick now (f.nextTick now) ↔ Int.fract (now * f) < 19 / 20 := by
  obtain ⟨hlow, hhigh⟩ := mathRound_bounds hf hnow
  have hfract := Int.floor_add_fract (now * f)
  have hnonneg := Int.fract_nonneg (now * f)
  generalize hr : mathRound (now * 10 * f) = r at hlow hhigh
  have hcast : f.nextTick now = ((⌊(r : ℚ) / 10⌋ + 1 : ℤ) : ℚ) / f := by
    rw [nextTick, hr]
    push_cast
    rfl
  rw [hcast, isNextTick_iff hf, add_left_inj]
  generalize Int.fract (now * f) = φ at *
  generalize ⌊now * f⌋ = k at *
  have h1 : 10 * k ≤ r := by
    have : ((10 * k - 1 : ℤ) : ℚ) < r := by push_cast; linarith
    have hlt' : 10 * k - 1 < r := by exact_mod_cast this
    omega
  constructor
  · intro h
    by_contra hbig
    have hr' : 10 * k + 10 ≤ r := by
      have : ((10 * k + 9 : ℤ) : ℚ) < r := by push_cast; linarith
      have hlt' : 10 * k + 9 < r := by exact_mod_cast this
      omega
    have hle : k + 1 ≤ ⌊(r : ℚ) / 10⌋ := by
      rw [Int.le_floor, le_div_iff₀ (by norm_num)]
      have : ((10 * k + 10 : ℤ) : ℚ) ≤ r := by exact_mod_cast hr'
      push_cast at this ⊢
      linarith
    omega
  · intro hsmall
    have h2 : r ≤ 10 * k + 9 := by
      have : (r : ℚ) < (10 * k + 10 : ℤ) := by push_cast; linarith
      have hlt' : r < 10 * k + 10 := by exact_mod_cast this
      omega
    have h1' : ((10 * k : ℤ) : ℚ) ≤ r := by exact_mod_cast h1
    have h2' : (r : ℚ) ≤ (10 * k + 9 : ℤ) := by exact_mod_cast h2
    push_cast at h1' h2'
    rw [Int.floor_eq_iff]
    constructor <;> linarith

theorem nCyclesLater_eq (hf : 0 < f) (hnow : 0 ≤ now) (n : Nat) : f.nCyclesLater n now = f.thisTick now + n / f := by
  have hpos : 0 ≤ now * 10 * f := by positivity
  have htenths : (now + n / f) * 10 * f = now * 10 * f + ((10 * n : ℤ) : ℚ) := by
    push_cast
    field_simp
  have hround : mathRound (now * 10 * f + ((10 * n : ℤ) : ℚ)) = mathRound (now * 10 * f) + 10 * n := by
    have hsum : 0 ≤ now * 10 * f + ((10 * n : ℤ) : ℚ) := by
      push_cast
      positivity
    rw [mathRound, mathRound, if_pos hpos, if_pos hsum, add_right_comm, Int.floor_add_intCast]
  have hceil : ((mathRound (now * 10 * f) + 10 * n : ℤ) : ℚ) / 10 = (mathRound (now * 10 * f) : ℚ) / 10 + ((n : ℤ) : ℚ) := by
    push_cast
    ring
  rw [nCyclesLater, thisTick, thisTick, htenths, hround, hceil, Int.ceil_add_intCast]
  push_cast
  ring

theorem noEarlierThan_eq (hf : 0 < f) (now : ℚ) : f.noEarlierThan now = ⌈now * f⌉ / f := by
  have hcount : now / (1 / f) = now * f := by
    field_simp
  rw [noEarlierThan, period, hcount]
  ring

/-- What the functions should give at a time, and what `TickLater` should do then: the next tick is the earliest one after the
time, unless there is one at that tick or later already. -/
structure Exact (f : Freq) (now : ℚ) : Prop where
  thisTick : f.IsThisTick now (f.thisTick now)
  nextTick : f.IsNextTick now (f.nextTick now)
  noEarlierThan : f.noEarlierThan now = f.thisTick now
  nCyclesLater : ∀ n, f.nCyclesLater n now = f.thisTick now + n / f
  future : now ≤ f.thisTick now ∧ now ≤ f.nextTick now ∧ now ≤ f.noEarlierThan now ∧ ∀ n, now ≤ f.nCyclesLater n now
  tickLater : ∀ {ι : Type} [DecidableEq ι] {ts : Tickers ι} {s s' : Clock ts} {x : ι}, ts.freq x = f →
    s.tickLater x now = .ok s' →
    ∃ t, f.IsNextTick now t ∧ s'.nextTickTime x = max (s.nextTickTime x) t

theorem nextTickTime_tickLater {ι : Type} [DecidableEq ι] {ts : Tickers ι} {s s' : Clock ts} {x : ι}
    (h : s.tickLater x now = .ok s') : s'.nextTickTime x = max (s.nextTickTime x) ((ts.freq x).nextTick now) := by
  rcases Clock.tickAt_eq_ok h with ⟨hle, rfl⟩ | ⟨hlt, -, _, -, rfl⟩
  · exact (max_eq_left hle).symm
  · rw [max_eq_right hlt.le]
    exact Function.update_self ..

/-- All of them are exact on the ticks, and off the ticks where it is at least a twentieth of a cycle from the tick before and
more than one to the next tick. -/
theorem exact_iff (hf : 0 < f) (hnow : 0 ≤ now) :
    f.Exact now ↔ Int.fract (now * f) = 0 ∨ (1 / 20 ≤ Int.fract (now * f) ∧ Int.fract (now * f) < 19 / 20) := by
  constructor
  · intro h
    rcases (thisTick_iff hf hnow).1 h.thisTick with hzero | hbig
    · exact .inl hzero
    · exact .inr ⟨hbig, (nextTick_iff hf hnow).1 h.nextTick⟩
  · intro h
    have hthis : f.IsThisTick now (f.thisTick now) := (thisTick_iff hf hnow).2 (h.imp_right And.left)
    have hnext : f.IsNextTick now (f.nextTick now) := by
      refine (nextTick_iff hf hnow).2 ?_
      rcases h with hzero | ⟨-, hsmall⟩
      · rw [hzero]
        norm_num
      · exact hsmall
    have heq : f.noEarlierThan now = f.thisTick now := by
      rw [noEarlierThan_eq hf]
      exact (isThisTick_ceil hf now).unique hthis
    have hle : now ≤ f.thisTick now := hthis.1.2
    refine ⟨hthis, hnext, heq, nCyclesLater_eq hf hnow, ⟨hle, (lt_nextTick hf now).le, heq ▸ hle, fun n => ?_⟩, ?_⟩
    · rw [nCyclesLater_eq hf hnow]
      have hcycles : 0 ≤ (n : ℚ) / f := by positivity
      linarith
    · rintro ι _ ts s s' x rfl htick
      exact ⟨_, hnext, nextTickTime_tickLater htick⟩

/-- At 1 GHz, a tenth of a cycle after a tick. -/
theorem exact_iff_tenth : Freq.Exact (10 ^ 9) (1021 / 10 ^ 10) ↔ Int.fract ((1021 / 10 ^ 10) * (10 ^ 9) : ℚ) = 0 ∨
    (1 / 20 ≤ Int.fract ((1021 / 10 ^ 10) * (10 ^ 9) : ℚ) ∧ Int.fract ((1021 / 10 ^ 10) * (10 ^ 9) : ℚ) < 19 / 20) :=
  exact_iff (by norm_num) (by norm_num)

/-- At 1 Hz, a hundredth of a second after a tick `ThisTick` is in the past, and a hundredth before a tick `NextTick` skips
it. -/
theorem not_exact : Freq.thisTick 1 (101 / 100) = 1 ∧ ¬ Freq.Exact 1 (101 / 100) ∧
    Freq.nextTick 1 (199 / 100) = 3 ∧ ¬ Freq.Exact 1 (199 / 100) := by
  have hthis : Freq.thisTick 1 (101 / 100) = 1 := by
    norm_num [thisTick, mathRound]
  have hnext : Freq.nextTick 1 (199 / 100) = 3 := by
    norm_num [nextTick, mathRound]
  refine ⟨hthis, fun h => ?_, hnext, fun h => ?_⟩
  · have hle := h.future.1
    rw [hthis] at hle
    norm_num at hle
  · have hle := h.nextTick.2 (show (2 : ℚ) ∈ {t | Freq.OnCycle 1 t ∧ 199 / 100 < t} from ⟨⟨2, by norm_num⟩, by norm_num⟩)
    rw [hnext] at hle
    norm_num at hle

end Freq

end Akita.Sim
