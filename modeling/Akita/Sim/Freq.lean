import Mathlib.Data.Rat.Floor

/-!
# Frequencies

`sim.Freq` with exact times: a time is a rational number of seconds, a frequency a rational number of ticks per second.
-/

namespace Akita.Sim

/-- `math.Round`: half a unit goes away from zero. -/
def mathRound (x : ℚ) : ℤ := if 0 ≤ x then ⌊x + 1 / 2⌋ else ⌈x - 1 / 2⌉

abbrev Freq := ℚ

namespace Freq

def thisTick (f : Freq) (now : ℚ) : ℚ := ⌈(mathRound (now * 10 * f) : ℚ) / 10⌉ / f

def nextTick (f : Freq) (now : ℚ) : ℚ := (⌊(mathRound (now * 10 * f) : ℚ) / 10⌋ + 1) / f

def nCyclesLater (f : Freq) (n : Nat) (now : ℚ) : ℚ := f.thisTick (now + n / f)

/-- `Period`, for a frequency that is not 0. -/
def period (f : Freq) : ℚ := 1 / f

def noEarlierThan (f : Freq) (t : ℚ) : ℚ := ⌈t / f.period⌉ * f.period

end Freq

theorem le_mathRound (x : ℚ) : x - 1 / 2 ≤ mathRound x := by
  unfold mathRound
  split
  · have := Int.lt_floor_add_one (x + 1 / 2)
    linarith
  · exact Int.le_ceil _

theorem div_ten_le (n : ℤ) : ((n : ℚ) + 1) / 10 ≤ ⌊(n : ℚ) / 10⌋ + 1 := by
  have hfloor : ⌊(n : ℚ) / 10⌋ = n / 10 := by
    have := Rat.floor_intCast_div_natCast n 10
    simpa using this
  rw [hfloor]
  have hint : n + 1 ≤ (n / 10 + 1) * 10 := by omega
  have hcast : (n : ℚ) + 1 ≤ ((n / 10 : ℤ) + 1) * 10 := by exact_mod_cast hint
  linarith

variable {f : Freq}

theorem Freq.lt_nextTick (hf : 0 < f) (now : ℚ) : now < f.nextTick now := by
  have hround := le_mathRound (now * 10 * f)
  have hfloor := div_ten_le (mathRound (now * 10 * f))
  rw [Freq.nextTick, lt_div_iff₀ hf]
  linarith

theorem mathRound_intCast (n : ℤ) : mathRound n = n := by
  unfold mathRound
  split
  · rw [Int.floor_eq_iff]
    constructor <;> linarith
  · rw [Int.ceil_eq_iff]
    constructor <;> linarith

/-- A time at the start of a cycle. -/
def Freq.OnCycle (f : Freq) (time : ℚ) : Prop := ∃ n : ℤ, time = n / f

theorem Freq.onCycle_nextTick (f : Freq) (now : ℚ) : f.OnCycle (f.nextTick now) :=
  ⟨⌊(mathRound (now * 10 * f) : ℚ) / 10⌋ + 1, by rw [Freq.nextTick, Int.cast_add, Int.cast_one]⟩

theorem Freq.nCyclesLater_onCycle (hf : 0 < f) (n : Nat) (m : ℤ) : f.nCyclesLater n (m / f) = (m + n) / f := by
  have htenths : (m / f + n / f) * 10 * f = ((10 * (m + n) : ℤ) : ℚ) := by
    push_cast
    field_simp
  have hten : ((10 * (m + n) : ℤ) : ℚ) / 10 = ((m + n : ℤ) : ℚ) := by
    push_cast
    field_simp
  rw [Freq.nCyclesLater, Freq.thisTick, htenths, mathRound_intCast, hten, Int.ceil_intCast]
  push_cast
  rfl

theorem Freq.le_nCyclesLater (hf : 0 < f) (n : Nat) {now : ℚ} (h : f.OnCycle now) : now ≤ f.nCyclesLater n now := by
  obtain ⟨m, rfl⟩ := h
  rw [Freq.nCyclesLater_onCycle hf, div_le_div_iff_of_pos_right hf]
  linarith [Nat.cast_nonneg (α := ℚ) n]

end Akita.Sim
