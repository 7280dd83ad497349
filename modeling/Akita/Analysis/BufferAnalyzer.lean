import Akita.Analysis.Periods
import Akita.Maps

/-!
# Buffer analyzers

`analysis.BufferAnalyzer`, a hook that averages the level of a buffer.

* `BufferAnalyzer.func` : what the hook does with a new level;
* `close` : one round of the loop in `summarize`;
* `durations`, `levels` : what the map of durations adds up to.
-/

namespace Akita.Analysis.Buffers
open Keyed (lookup)

structure LevelDuration where
  level : ℕ
  duration : ℚ

/-- A logged level; the value is `none` where `0 / 0` would be. -/
structure LevelEntry where
  startTime : ℚ
  endTime : ℚ
  location : String
  what : String
  entryType : String
  value : Option ℚ
  unit : String

/-- `logged` is what it has given to its logger. -/
structure BufferAnalyzer where
  buf : String
  usePeriod : Bool
  period : ℚ
  lastTime : ℚ := 0
  lastBufLevel : ℕ := 0
  bufLevelToDuration : List LevelDuration := []
  logged : List LevelEntry := []

namespace BufferAnalyzer

def periodStartTime (b : BufferAnalyzer) (t : ℚ) : ℚ := ⌊t / b.period⌋ * b.period

def periodEndTime (b : BufferAnalyzer) (t : ℚ) : ℚ := b.periodStartTime t + b.period

/-- The level times the duration, over the entries of the map. -/
def levels (entries : List LevelDuration) : ℚ := (entries.map fun e => (e.level : ℚ) * e.duration).sum

def durations (entries : List LevelDuration) : ℚ := (entries.map LevelDuration.duration).sum

def summarizePeriod (it : MapOrder LevelDuration) (b : BufferAnalyzer) (now periodStartTime periodEndTime : ℚ) :
    BufferAnalyzer :=
  let sumLevel := levels (it.order b.bufLevelToDuration)
  let sumDuration := durations (it.order b.bufLevelToDuration)
  let summarizeEndTime := min periodEndTime now
  let remainingTime := if summarizeEndTime > b.lastTime then summarizeEndTime - b.lastTime else 0
  let sumLevel := sumLevel + b.lastBufLevel * remainingTime
  let sumDuration := sumDuration + remainingTime
  let avgLevel := if sumDuration = 0 then none else some (sumLevel / sumDuration)
  if avgLevel = some 0 then b
  else
    let entry : LevelEntry :=
      { startTime := periodStartTime, endTime := periodEndTime, location := b.buf, what := "Level", entryType := "Buffer",
        value := avgLevel, unit := "" }
    { b with logged := b.logged ++ [entry] }

/-- A round of the loop: a period is over. -/
def close (it : MapOrder LevelDuration) (b : BufferAnalyzer) (now periodStartTime periodEndTime : ℚ) : BufferAnalyzer :=
  { b.summarizePeriod it now periodStartTime periodEndTime with bufLevelToDuration := [], lastTime := periodEndTime }

def summarizeLoop (it : MapOrder LevelDuration) (now : ℚ) : ℕ → BufferAnalyzer → ℚ → ℚ → BufferAnalyzer
  | 0, b, _, _ => b
  | n + 1, b, periodStartTime, periodEndTime =>
    if periodEndTime < now then
      summarizeLoop it now n (b.close it now periodStartTime periodEndTime) periodEndTime (periodEndTime + b.period)
    else b

def summarize (it : MapOrder LevelDuration) (b : BufferAnalyzer) (now : ℚ) : BufferAnalyzer :=
  if !b.usePeriod then b.summarizePeriod it now 0 now
  else
    let rounds := (⌊now / b.period⌋ - ⌊b.lastTime / b.period⌋).toNat
    summarizeLoop it now rounds b (b.periodStartTime b.lastTime) (b.periodEndTime b.lastTime)

def resetPeriod (b : BufferAnalyzer) (now : ℚ) : BufferAnalyzer :=
  { b with bufLevelToDuration := [], lastTime := b.periodStartTime now }

def addDuration (level : ℕ) (duration : ℚ) (entries : List LevelDuration) : List LevelDuration :=
  let entry := (lookup LevelDuration.level level entries).getD { level, duration := 0 }
  Keyed.insert LevelDuration.level { entry with duration := entry.duration + duration } entries

/-- The last level lasts until `now`. -/
def elapse (b : BufferAnalyzer) (now : ℚ) : BufferAnalyzer :=
  { b with bufLevelToDuration := addDuration b.lastBufLevel (now - b.lastTime) b.bufLevelToDuration, lastTime := now }

def func (it : MapOrder LevelDuration) (b : BufferAnalyzer) (now : ℚ) (currLevel : ℕ) : BufferAnalyzer :=
  let b := if b.usePeriod ∧ now > b.periodEndTime b.lastTime then (b.summarize it now).resetPeriod now else b
  { b.elapse now with lastBufLevel := currLevel }

/-- The changes of the level, on a new analyzer. -/
def run (it : MapOrder LevelDuration) (buf : String) (period : ℚ) (changes : List (ℚ × ℕ)) : BufferAnalyzer :=
  changes.foldl (fun b c => b.func it c.1 c.2) { buf, usePeriod := true, period }

/-! ## The map of durations -/

theorem levels_perm {l l' : List LevelDuration} (h : l.Perm l') : levels l = levels l' := (h.map _).sum_eq

theorem durations_perm {l l' : List LevelDuration} (h : l.Perm l') : durations l = durations l' := (h.map _).sum_eq

theorem addDuration_ok {entries : List LevelDuration} (h : (entries.map LevelDuration.level).Nodup)
    (level : ℕ) (duration : ℚ) :
    ((addDuration level duration entries).map LevelDuration.level).Nodup ∧
      levels (addDuration level duration entries) = levels entries + level * duration ∧
      durations (addDuration level duration entries) = durations entries + duration := by
  refine ⟨Keyed.nodup_insert h _, ?_⟩
  have hfound : ∃ entry : LevelDuration, (lookup LevelDuration.level level entries).getD { level, duration := 0 } = entry ∧
      entry.level = level ∧
      levels entries = level * entry.duration + levels (Keyed.delete LevelDuration.level level entries) ∧
      durations entries = entry.duration + durations (Keyed.delete LevelDuration.level level entries) := by
    cases hfind : lookup LevelDuration.level level entries with
    | none =>
      refine ⟨_, rfl, rfl, ?_⟩
      rw [Keyed.delete_eq_self (Keyed.lookup_eq_none hfind)]
      simp
    | some entry =>
      have hlevel := Keyed.key_of_lookup hfind
      have hperm := Keyed.perm_delete h hfind
      refine ⟨entry, rfl, hlevel, ?_, durations_perm hperm⟩
      rw [levels_perm hperm, ← hlevel]
      rfl
  obtain ⟨entry, hget, hlevel, hlevels, hdurations⟩ := hfound
  have hinsert : addDuration level duration entries =
      { entry with duration := entry.duration + duration } :: Keyed.delete LevelDuration.level level entries := by
    unfold addDuration Keyed.insert
    rw [hget]
    show _ :: Keyed.delete LevelDuration.level entry.level entries = _
    rw [hlevel]
  rw [hinsert, hlevels, hdurations]
  constructor
  · show (entry.level : ℚ) * (entry.duration + duration) + levels _ = _
    rw [hlevel]
    ring
  · show entry.duration + duration + durations _ = _
    ring

end BufferAnalyzer

end Akita.Analysis.Buffers
