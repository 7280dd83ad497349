import Akita.Sim.Freq
import Akita.Sim.SerialEngine

/-!
# Tick schedulers

The `sim.TickScheduler`s of a system under one serial engine. All events of the engine are ticks.

* `Clock` : the engine, the `nextTickTime` of each scheduler, and the ticks that ran;
* `Clock.Valid` : a scheduler whose `nextTickTime` is ahead has a tick pending there, and no tick is scheduled twice;
* `Clock.Fresh`, `Clock.Settled` : the two phases of a time. First the primary events run, and no secondary tick of that time
  has run; once one has, no primary event of that time is left.
-/

namespace Akita.Sim
open List Function
open SerialEngine (schedule_eq_ok)

/-- The frequencies of the schedulers, and which of them tick by secondary events. -/
structure Tickers (ι : Type) where
  freq : ι → Freq
  secondary : ι → Bool
  freq_pos : ∀ x, 0 < freq x

variable {ι : Type}

structure Clock (ts : Tickers ι) where
  engine : SerialEngine ℚ ι := { time := 0 }
  nextTickTime : ι → ℚ := fun _ => -1
  ran : List (ι × ℚ) := []

namespace Clock

variable {ts : Tickers ι}

/-- The engine takes the next tick. -/
def advance (s : Clock ts) : Except String (ι × ℚ × Clock ts) := do
  let (evt, engine) ← s.engine.advance
  return (evt.handler, evt.time, { s with engine, ran := s.ran ++ [(evt.handler, evt.time)] })

section

variable [DecidableEq ι]

/-- A tick at a time, unless there is one at that time or later. -/
def tickAt (s : Clock ts) (x : ι) (time : ℚ) : Except String (Clock ts) :=
  if s.nextTickTime x ≥ time then .ok s
  else do
    let engine ← s.engine.schedule { time, handler := x, secondary := ts.secondary x }
    return { s with engine, nextTickTime := update s.nextTickTime x time }

def tickNow (s : Clock ts) (x : ι) (now : ℚ) : Except String (Clock ts) := s.tickAt x now

def tickLater (s : Clock ts) (x : ι) (now : ℚ) : Except String (Clock ts) := s.tickAt x ((ts.freq x).nextTick now)

end

/-- A tick is pending. -/
def Pending (s : Clock ts) (x : ι) : Prop := ∃ e ∈ s.engine.pending, e.handler = x

/-- The ticks that ran and those that are pending. -/
def ticks (s : Clock ts) : List (ι × ℚ) := s.ran ++ s.engine.pending.map fun e => (e.handler, e.time)

structure Valid (s : Clock ts) : Prop where
  engine : s.engine.Valid
  secondary : ∀ e ∈ s.engine.pending, e.secondary = ts.secondary e.handler
  next : ∀ x, s.engine.time < s.nextTickTime x → ∃ e ∈ s.engine.pending, e.handler = x ∧ e.time = s.nextTickTime x
  last : ∀ p ∈ s.ticks, p.2 ≤ s.nextTickTime p.1
  once : s.ticks.Nodup

/-- No secondary tick of this time has run. -/
def Fresh (s : Clock ts) : Prop := ∀ x, ts.secondary x = true → s.engine.time ≤ s.nextTickTime x → s.Pending x

/-- No primary event of this time is left. -/
def Settled (s : Clock ts) : Prop := ∀ e ∈ s.engine.pending, e.secondary = false → s.engine.time < e.time

/-- What scheduling keeps. -/
structure Keeps (s s' : Clock ts) : Prop where
  valid : s.Valid → s'.Valid
  time : s'.engine.time = s.engine.time
  ran : s'.ran = s.ran
  pending : ∀ x, s.Pending x → s'.Pending x
  fresh : s.Fresh → s'.Fresh
  settled : s.Settled → s'.Settled

variable {s s' t : Clock ts} {x : ι} {time now : ℚ}

theorem Keeps.refl (s : Clock ts) : Keeps s s := ⟨id, rfl, rfl, fun _ h => h, id, id⟩

theorem Keeps.trans (h : Keeps s s') (h' : Keeps s' t) : Keeps s t where
  valid hv := h'.valid (h.valid hv)
  time := h'.time.trans h.time
  ran := h'.ran.trans h.ran
  pending x hx := h'.pending x (h.pending x hx)
  fresh hf := h'.fresh (h.fresh hf)
  settled hs := h'.settled (h.settled hs)

section Scheduling

variable [DecidableEq ι]

theorem tickAt_eq_ok (h : s.tickAt x time = .ok s') : (time ≤ s.nextTickTime x ∧ s' = s) ∨
    (s.nextTickTime x < time ∧ s.engine.time ≤ time ∧
      ∃ engine, s.engine.schedule { time, handler := x, secondary := ts.secondary x } =
      .ok engine ∧ s' = { s with engine, nextTickTime := update s.nextTickTime x time }) := by
  unfold tickAt at h
  split at h
  case isTrue hge =>
    cases h
    exact .inl ⟨hge, rfl⟩
  case isFalse hlt =>
    obtain ⟨engine, he, h⟩ := eq_ok_of_bind h
    cases h
    exact .inr ⟨not_le.1 hlt, (schedule_eq_ok he).1, engine, he, rfl⟩

theorem Valid.schedule {engine : SerialEngine ℚ ι} (hv : s.Valid) (hlt : s.nextTickTime x < time)
    (he : s.engine.schedule { time, handler := x, secondary := ts.secondary x } = .ok engine) :
    @Valid ι ts { s with engine, nextTickTime := update s.nextTickTime x time } := by
  obtain ⟨-, htime, hperm, -⟩ := schedule_eq_ok he
  have hticks : (s.ran ++ engine.pending.map fun e => (e.handler, e.time)).Perm ((x, time) :: s.ticks) :=
    ((hperm.map _).append_left s.ran).trans perm_middle
  have hle : ∀ y, s.nextTickTime y ≤ update s.nextTickTime x time y := by
    intro y
    by_cases hy : y = x
    · subst hy
      rw [update_self]
      exact le_of_lt hlt
    · rw [update_of_ne hy]
  refine ⟨hv.engine.schedule he, fun e hmem => ?_, fun y hy => ?_, fun p hp => ?_, ?_⟩
  · rcases mem_cons.1 (hperm.mem_iff.1 hmem) with rfl | hmem
    · rfl
    · exact hv.secondary e hmem
  · by_cases hyx : y = x
    · subst hyx
      exact ⟨_, hperm.mem_iff.2 (mem_cons_self ..), rfl, by simp⟩
    · have hlt' : s.engine.time < s.nextTickTime y := by simpa [htime, update_of_ne hyx] using hy
      obtain ⟨e, hmem, hye, htime⟩ := hv.next y hlt'
      exact ⟨e, hperm.mem_iff.2 (mem_cons_of_mem _ hmem), hye, htime.trans (update_of_ne hyx ..).symm⟩
  · rcases mem_cons.1 (hticks.mem_iff.1 hp) with rfl | hp
    · simp
    · exact le_trans (hv.last p hp) (hle p.1)
  · refine hticks.nodup_iff.2 (nodup_cons.2 ⟨fun hmem => ?_, hv.once⟩)
    exact absurd (hv.last _ hmem) (not_le.2 hlt)

theorem Valid.tickAt (hv : s.Valid) (h : s.tickAt x time = .ok s') : s'.Valid := by
  rcases tickAt_eq_ok h with ⟨-, rfl⟩ | ⟨hlt, -, _, he, rfl⟩
  · exact hv
  · exact hv.schedule hlt he

theorem Keeps.tickAt (h : s.tickAt x time = .ok s') (hprimary : s.engine.time < time ∨ ts.secondary x = true) :
    Keeps s s' := by
  have hvalid := fun hv : s.Valid => hv.tickAt h
  rcases tickAt_eq_ok h with ⟨-, rfl⟩ | ⟨-, -, engine, he, rfl⟩
  · exact Keeps.refl s'
  obtain ⟨-, htime, hperm, -⟩ := schedule_eq_ok he
  have hpending : ∀ y, s.Pending y → @Pending ι ts { s with engine, nextTickTime := update s.nextTickTime x time } y := by
    rintro y ⟨e, hmem, hy⟩
    exact ⟨e, hperm.mem_iff.2 (mem_cons_of_mem _ hmem), hy⟩
  refine ⟨hvalid, htime, rfl, hpending, fun hf y hy hle => ?_, fun hs e hmem hprim => ?_⟩
  · by_cases hyx : y = x
    · exact ⟨_, hperm.mem_iff.2 (mem_cons_self ..), hyx.symm⟩
    · refine hpending y (hf y hy ?_)
      simpa [htime, update_of_ne hyx] using hle
  · rw [show engine.time = s.engine.time from htime]
    rcases mem_cons.1 (hperm.mem_iff.1 hmem) with rfl | hmem
    · rcases hprimary with hlater | hsec
      · exact hlater
      · rw [hsec] at hprim
        cases hprim
    · exact hs e hmem hprim

theorem nextTickTime_tickAt (h : s.tickAt x time = .ok s') {y : ι} (hy : y ≠ x) : s'.nextTickTime y = s.nextTickTime y := by
  rcases tickAt_eq_ok h with ⟨-, rfl⟩ | ⟨-, -, _, _, rfl⟩
  · rfl
  · exact update_of_ne hy ..

theorem time_tickAt (h : s.tickAt x time = .ok s') : s'.engine.time = s.engine.time := by
  rcases tickAt_eq_ok h with ⟨-, rfl⟩ | ⟨-, -, _, he, rfl⟩
  · rfl
  · exact (schedule_eq_ok he).2.1

theorem Keeps.tickLater (h : s.tickLater x s.engine.time = .ok s') : Keeps s s' :=
  Keeps.tickAt h (.inl (Freq.lt_nextTick (ts.freq_pos x) _))

theorem Keeps.tickNow (h : s.tickNow x now = .ok s') (hx : ts.secondary x = true) : Keeps s s' := Keeps.tickAt h (.inr hx)

theorem pending_tickLater (hv : s.Valid) (h : s.tickLater x s.engine.time = .ok s') : s'.Pending x := by
  have hlater := Freq.lt_nextTick (ts.freq_pos x) s.engine.time
  rcases tickAt_eq_ok h with ⟨hle, rfl⟩ | ⟨-, -, _, he, rfl⟩
  · obtain ⟨e, hmem, hx, -⟩ := hv.next x (lt_of_lt_of_le hlater hle)
    exact ⟨e, hmem, hx⟩
  · obtain ⟨-, -, hperm, -⟩ := schedule_eq_ok he
    exact ⟨_, hperm.mem_iff.2 (mem_cons_self ..), rfl⟩

/-- After `TickNow` of a secondary ticker a tick is pending, while none of this time has run. -/
theorem pending_tickNow (hf : s.Fresh) (hx : ts.secondary x = true) (h : s.tickNow x s.engine.time = .ok s') :
    s'.Pending x := by
  rcases tickAt_eq_ok h with ⟨hle, rfl⟩ | ⟨-, -, _, he, rfl⟩
  · exact hf x hx hle
  · obtain ⟨-, -, hperm, -⟩ := schedule_eq_ok he
    exact ⟨_, hperm.mem_iff.2 (mem_cons_self ..), rfl⟩

end Scheduling

/-! ## The next tick -/

/-- The next tick `x` is taken, and the time is now its time. -/
structure Takes (s s' : Clock ts) (x : ι) (now : ℚ) : Prop where
  valid : s'.Valid
  time : s'.engine.time = now
  pending : ∀ y, y ≠ x → s.Pending y → s'.Pending y
  fresh : ts.secondary x = false → (s.Fresh ∨ s.Settled) → s'.Fresh
  settled : ts.secondary x = true → s'.Settled

theorem Takes.advance (hv : s.Valid) (h : s.advance = .ok (x, now, s')) : Takes s s' x now := by
  obtain ⟨⟨evt, engine⟩, hadvance, h⟩ := eq_ok_of_bind h
  cases h
  obtain ⟨e, htakes, rfl⟩ := SerialEngine.advance_eq_ok hv.engine hadvance
  have hsecondary := hv.secondary evt htakes.mem
  have hle : s.engine.time ≤ evt.time := hv.engine.future evt htakes.mem
  have hmem : ∀ u ∈ e.pending, u ∈ s.engine.pending := fun u hu => htakes.perm.mem_iff.2 (mem_cons_of_mem _ hu)
  have hticks : (s.ran ++ [(evt.handler, evt.time)] ++ e.pending.map fun e => (e.handler, e.time)).Perm s.ticks := by
    rw [append_assoc]
    exact (htakes.perm.map fun e => (e.handler, e.time)).symm.append_left s.ran
  have hpending : ∀ y, y ≠ evt.handler → s.Pending y → ∃ u ∈ e.pending, u.handler = y := by
    rintro y hy ⟨u, hu, rfl⟩
    rcases mem_cons.1 (htakes.perm.mem_iff.1 hu) with rfl | hu
    · exact absurd rfl hy
    · exact ⟨u, hu, rfl⟩
  refine ⟨⟨hv.engine.takes htakes, fun u hu => hv.secondary u (hmem u hu), fun y hy => ?_, fun p hp => ?_, ?_⟩, rfl, hpending,
    fun hx hphase y hy hley => ?_, fun hx u hu hprim => ?_⟩
  · -- the tick that is taken is not the one ahead
    have hy' : evt.time < s.nextTickTime y := hy
    obtain ⟨u, hu, huy, htime⟩ := hv.next y (lt_of_le_of_lt hle hy')
    rcases mem_cons.1 (htakes.perm.mem_iff.1 hu) with rfl | hu
    · exact absurd hy' (not_lt.2 (le_of_eq htime.symm))
    · exact ⟨u, hu, huy, htime⟩
  · exact hv.last p (hticks.mem_iff.1 hp)
  · exact hticks.nodup_iff.2 hv.once
  · have hyx : y ≠ evt.handler := by
      rintro rfl
      rw [hy] at hx
      cases hx
    refine hpending y hyx ?_
    rcases lt_or_eq_of_le hle with hlt | heq
    · obtain ⟨u, hu, huy, -⟩ := hv.next y (lt_of_lt_of_le hlt hley)
      exact ⟨u, hu, huy⟩
    · rcases hphase with hf | hs
      · exact hf y hy (heq ▸ hley)
      · exact absurd heq (ne_of_lt (hs evt htakes.mem (hsecondary.trans hx)))
  · exact htakes.primary_first hv.engine (hsecondary.trans hx) u (hmem u hu) hprim

theorem Valid.once_ran (hv : s.Valid) : s.ran.Nodup := (nodup_append.1 hv.once).1

theorem Valid.start : Valid ({} : Clock ts) where
  engine := SerialEngine.Valid.new 0
  secondary e he := absurd he not_mem_nil
  next x hx := by
    have hx' : (0 : ℚ) < -1 := hx
    linarith
  last p hp := absurd hp not_mem_nil
  once := nodup_nil

end Clock

end Akita.Sim
