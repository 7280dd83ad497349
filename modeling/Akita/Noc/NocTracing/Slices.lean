import Akita.Noc.NocTracing.MeshInfo

/-!
# The slices of a task

* `discretize_eq` : the slice of a time, which is reported as inexact even on a boundary;
* `not_recorded` : the slice after the last one of a task is recorded, too.
-/

namespace Akita.Noc.NocTracing
open List

variable {task : Tracing.Task ℚ}

/-- The task overlaps the slice `k`. -/
def Overlaps (task : Tracing.Task ℚ) (k : ℕ) : Prop :=
  ∃ t, k * timeSliceUnit ≤ t ∧ t < (k + 1) * timeSliceUnit ∧ task.startTime ≤ t ∧ t ≤ task.endTime

/-- One record of the edge and one of the mesh for each slice that the task overlaps, and for no other, which are counted as
messages of its type, if it is listed, and of no other listed type. -/
structure Recorded (task : Tracing.Task ℚ) (rs : List MeshTraceRecord) : Prop where
  once : ∀ k, Overlaps task k → ∀ global, rs.countP (fun r => r.isGlobalRecord = global ∧ r.timeSlice = k) = 1
  overlaps : ∀ r ∈ rs, Overlaps task r.timeSlice
  type : ∀ r ∈ rs, meshMsgTypesToTraceList[r.msgTypeID]? =
    meshMsgTypesToTraceList.find? (· = String.ofList (task.kind.toList.drop 5))

theorem timeSliceUnit_pos : 0 < timeSliceUnit := by norm_num [timeSliceUnit]

theorem discretizeLoop_eq {n : ℕ} {time : ℚ} (hle : n * timeSliceUnit ≤ time) (idx : ℤ) :
    discretizeLoop (n + 1) time idx = (time - (n + 1) * timeSliceUnit, idx + n + 1) := by
  have hunit := timeSliceUnit_pos
  induction n generalizing time idx with
  | zero =>
    rw [Nat.cast_zero, zero_mul] at hle
    rw [discretizeLoop, if_pos hle, discretizeLoop]
    simp
  | succ n ih =>
    push_cast at hle
    have hpos : time ≥ 0 := le_trans (by positivity) hle
    rw [discretizeLoop, if_pos hpos, ih (by linarith)]
    ext1
    · push_cast
      ring
    · push_cast
      ring

theorem discretize_eq {time : ℚ} (h : 0 ≤ time) : discretize time = (⌊time / timeSliceUnit⌋₊ % 2 ^ 64, true) := by
  have hunit := timeSliceUnit_pos
  have hle : ⌊time / timeSliceUnit⌋₊ * timeSliceUnit ≤ time := (le_div_iff₀ hunit).mp (Nat.floor_le (by positivity))
  have hlt := Nat.lt_floor_add_one (time / timeSliceUnit)
  rw [div_lt_iff₀ hunit] at hlt
  unfold discretize rounds
  rw [discretizeLoop_eq hle]
  ext1
  · dsimp only
    omega
  · exact decide_eq_true (by linarith)

theorem overlaps_floor (hle : task.startTime ≤ task.endTime) (hstart : 0 ≤ task.startTime) :
    Overlaps task ⌊task.endTime / timeSliceUnit⌋₊ ∧ ¬ Overlaps task (⌊task.endTime / timeSliceUnit⌋₊ + 1) := by
  have hunit := timeSliceUnit_pos
  have hend := hstart.trans hle
  have hlt := Nat.lt_floor_add_one (task.endTime / timeSliceUnit)
  rw [div_lt_iff₀ hunit] at hlt
  refine ⟨⟨task.endTime, (le_div_iff₀ hunit).mp (Nat.floor_le (by positivity)), hlt, hle, le_refl _⟩, ?_⟩
  rintro ⟨t, hge, -, -, hend⟩
  push_cast at hge
  linarith

/-- **The records are never exactly those of the slices** that a task overlaps. -/
theorem not_recorded (hstart : 0 ≤ task.startTime) (hle : task.startTime ≤ task.endTime) :
    ¬ ∃ rs, records task = .ok rs ∧ Recorded task rs := by
  rintro ⟨rs, hrs, hrec⟩
  obtain ⟨hlast, hnext⟩ := overlaps_floor hle hstart
  have hone := hrec.once _ hlast false
  obtain ⟨r, hr, hslice⟩ := countP_pos_iff.mp (hone ▸ Nat.one_pos)
  replace hslice := (of_decide_eq_true hslice).2
  unfold records at hrs
  rw [discretize_eq hstart, discretize_eq (hstart.trans hle)] at hrs
  split at hrs
  · cases hrs
    cases hr
  · obtain ⟨⟨src, dst⟩, -, hrs⟩ := eq_ok_of_bind hrs
    dsimp only at hrs
    split at hrs
    · cases hrs
    cases hrs
    rw [if_pos rfl] at hr hrec
    obtain ⟨k, hk, hr⟩ := mem_flatMap.mp hr
    have hk' : k = ⌊task.endTime / timeSliceUnit⌋₊ := by
      rw [← hslice]
      simp only [mem_cons, not_mem_nil, or_false] at hr
      rcases hr with rfl | rfl <;> rfl
    rw [mem_range'_1] at hk
    -- the counter does not wrap around here, so the next slice is recorded
    refine hnext (hrec.overlaps _ (mem_flatMap.mpr ⟨_, (mem_range'_1 (m := ⌊task.endTime / timeSliceUnit⌋₊ + 1)).mpr ?_,
      mem_cons_self⟩))
    omega

/-- A task in the slice 0, whose messages are counted as `*cache.FlushReq`. -/
def idle : Tracing.Task ℚ :=
  { id := "1", parentID := "", kind := "flit.*sim.Req", what := "flit_through_channel",
    location := "G.SW[0][0][0].R.G.SW[0][1][0].L", startTime := 0, endTime := 0 }

theorem not_recorded_idle : ¬ ∃ rs, records idle = .ok rs ∧ Recorded idle rs := not_recorded le_rfl le_rfl

theorem records_idle : ¬ Overlaps idle 1 ∧ records idle = .ok [
    { timeSlice := 0, srcTile := ⟨0, 0, 0⟩, dstTile := ⟨0, 1, 0⟩, msgTypeID := 0 },
    { timeSlice := 0, isGlobalRecord := true, msgTypeID := 0 },
    { timeSlice := 1, srcTile := ⟨0, 0, 0⟩, dstTile := ⟨0, 1, 0⟩, msgTypeID := 0 },
    { timeSlice := 1, isGlobalRecord := true, msgTypeID := 0 }] := by
  refine ⟨?_, by decide +kernel⟩
  rintro ⟨t, hge, -, -, hend⟩
  norm_num [timeSliceUnit, idle] at hge hend
  linarith

end Akita.Noc.NocTracing
