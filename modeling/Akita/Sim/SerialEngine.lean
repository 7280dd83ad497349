import Akita.Heap
import Akita.Returns
import Mathlib.Order.Nat

/-!
# The serial engine

`SerialEngine` of `sim/serialengine.go`, with the queues of `sim/eventqueue.go`. Times are from any linear order, the handlers
are whatever schedules a list of events for the event it is given.

* `Run t₀ initial history e` : `e` is the engine after the events of `history`;
* `run_correct` : the handled and the pending events are the scheduled ones, each was handled at its own time, in order, and a
  secondary event only when no primary event of its time or before was pending.
-/

namespace Akita.Sim
open List

/-- `Event`, with what its handler makes of it. -/
structure Event (τ η : Type) where
  time : τ
  handler : η
  secondary : Bool := false
deriving DecidableEq

variable {τ η : Type} [LinearOrder τ]

abbrev EventQueueImpl (τ η : Type) [LinearOrder τ] := Heap (α := Event τ η) Event.time

structure SerialEngine (τ η : Type) [LinearOrder τ] where
  time : τ
  queue : EventQueueImpl τ η := Heap.empty _
  secondaryQueue : EventQueueImpl τ η := Heap.empty _

/-- `EventQueueImpl.Pop`. -/
def popQueue (q : EventQueueImpl τ η) : Except String (Event τ η × EventQueueImpl τ η) :=
  match q.pop with
  | some (evt, q) => .ok (evt, q)
  | none => .error "index out of range"

/-- `EventQueueImpl.Peek`. -/
def peekQueue (q : EventQueueImpl τ η) : Except String (Event τ η) :=
  match q.peek with
  | some evt => .ok evt
  | none => .error "index out of range"

namespace SerialEngine

def schedule (e : SerialEngine τ η) (evt : Event τ η) : Except String (SerialEngine τ η) :=
  if evt.time < e.time then .error "scheduling an event earlier than current time"
  else if evt.secondary then .ok { e with secondaryQueue := e.secondaryQueue.insert evt }
  else .ok { e with queue := e.queue.insert evt }

/-- The calls of `Schedule` that a handler makes, in order. -/
def scheduleAll (e : SerialEngine τ η) (evts : List (Event τ η)) : Except String (SerialEngine τ η) := evts.foldlM schedule e

def noMoreEvent (e : SerialEngine τ η) : Bool := e.queue.elems.length = 0 && e.secondaryQueue.elems.length = 0

def nextEvent (e : SerialEngine τ η) : Except String (Event τ η × SerialEngine τ η) :=
  if e.queue.elems.length = 0 then do
    let (evt, q) ← popQueue e.secondaryQueue
    return (evt, { e with secondaryQueue := q })
  else if e.secondaryQueue.elems.length = 0 then do
    let (evt, q) ← popQueue e.queue
    return (evt, { e with queue := q })
  else do
    let primaryEvt ← peekQueue e.queue
    let secondaryEvt ← peekQueue e.secondaryQueue
    if primaryEvt.time ≤ secondaryEvt.time then
      let (_, q) ← popQueue e.queue
      return (primaryEvt, { e with queue := q })
    else
      let (_, q) ← popQueue e.secondaryQueue
      return (secondaryEvt, { e with secondaryQueue := q })

/-- `Run` takes the next event and moves to its time. -/
def advance (e : SerialEngine τ η) : Except String (Event τ η × SerialEngine τ η) := do
  let (evt, e) ← e.nextEvent
  if evt.time < e.time then throw "cannot run event in the past"
  return (evt, { e with time := evt.time })

/-- One turn of the loop of `Run`, nothing when there is no more event. `handle` gives the events the handler schedules. -/
def runOnce (e : SerialEngine τ η) (handle : Event τ η → List (Event τ η)) :
    Except String (Option (Event τ η × SerialEngine τ η)) :=
  if e.noMoreEvent then .ok none
  else do
    let (evt, e) ← e.advance
    let e ← scheduleAll e (handle evt)
    return some (evt, e)

/-- The events in the two queues. -/
def pending (e : SerialEngine τ η) : List (Event τ η) := e.queue.elems ++ e.secondaryQueue.elems

/-! ## Queues -/

/-- Each queue holds its own class of events, none of them in the past. -/
structure Valid (e : SerialEngine τ η) : Prop where
  primary : ∀ x ∈ e.queue.elems, x.secondary = false
  secondary : ∀ x ∈ e.secondaryQueue.elems, x.secondary = true
  future : ∀ x ∈ e.pending, e.time ≤ x.time

variable {q : EventQueueImpl τ η}

theorem pop_of_ne_nil (h : ¬ q.elems.length = 0) :
    ∃ evt q', q.pop = some (evt, q') := by
  cases hpop : q.pop with
  | none => exact absurd (length_eq_zero_iff.2 (Heap.pop_eq_none.1 hpop)) h
  | some p => exact ⟨p.1, p.2, rfl⟩

/-- The event taken is one of the earliest, a primary one when there is one at its time. -/
structure Takes (e : SerialEngine τ η) (evt : Event τ η) (e' : SerialEngine τ η) : Prop where
  time : e'.time = e.time
  perm : e.pending.Perm (evt :: e'.pending)
  queue : ∀ x ∈ e'.queue.elems, x ∈ e.queue.elems
  secondaryQueue : ∀ x ∈ e'.secondaryQueue.elems, x ∈ e.secondaryQueue.elems
  earliest : ∀ x ∈ e.pending, evt.time ≤ x.time
  first : evt ∈ e.queue.elems ∨ (evt ∈ e.secondaryQueue.elems ∧ ∀ x ∈ e.queue.elems, evt.time < x.time)

theorem takes_primary {e : SerialEngine τ η} {evt : Event τ η} (hpop : e.queue.pop = some (evt, q))
    (hsecondary : ∀ x ∈ e.secondaryQueue.elems, evt.time ≤ x.time) : e.Takes evt { e with queue := q } := by
  obtain ⟨-, hperm, hmin⟩ := Heap.pop_spec hpop
  refine ⟨rfl, ?_, fun x hx => hperm.mem_iff.2 (mem_cons_of_mem _ hx), fun _ hx => hx, ?_, ?_⟩
  · exact hperm.append_right _
  · intro x hx
    rcases mem_append.1 hx with hx | hx
    · exact hmin x hx
    · exact hsecondary x hx
  · exact .inl (hperm.mem_iff.2 (mem_cons_self ..))

theorem takes_secondary {e : SerialEngine τ η} {evt : Event τ η} (hpop : e.secondaryQueue.pop = some (evt, q))
    (hprimary : ∀ x ∈ e.queue.elems, evt.time < x.time) : e.Takes evt { e with secondaryQueue := q } := by
  obtain ⟨-, hperm, hmin⟩ := Heap.pop_spec hpop
  refine ⟨rfl, ?_, fun _ hx => hx, fun x hx => hperm.mem_iff.2 (mem_cons_of_mem _ hx), ?_, ?_⟩
  · exact (hperm.append_left _).trans perm_middle
  · intro x hx
    rcases mem_append.1 hx with hx | hx
    · exact le_of_lt (hprimary x hx)
    · exact hmin x hx
  · exact .inr ⟨hperm.mem_iff.2 (mem_cons_self ..), hprimary⟩

theorem nextEvent_takes {e : SerialEngine τ η} (h : e.noMoreEvent = false) :
    ∃ evt e', e.nextEvent = .ok (evt, e') ∧ e.Takes evt e' := by
  unfold nextEvent
  by_cases hq : e.queue.elems.length = 0
  · have hnil := length_eq_zero_iff.1 hq
    have hs : ¬ e.secondaryQueue.elems.length = 0 := by simpa [noMoreEvent, hq] using h
    obtain ⟨evt, q, hpop⟩ := pop_of_ne_nil hs
    refine ⟨evt, _, by rw [if_pos hq, popQueue, hpop]; rfl, takes_secondary hpop ?_⟩
    simp [hnil]
  · obtain ⟨p, q, hp⟩ := pop_of_ne_nil hq
    by_cases hs : e.secondaryQueue.elems.length = 0
    · have hnil := length_eq_zero_iff.1 hs
      refine ⟨p, _, by rw [if_neg hq, if_pos hs, popQueue, hp]; rfl, takes_primary hp ?_⟩
      simp [hnil]
    · obtain ⟨s, r, hr⟩ := pop_of_ne_nil hs
      obtain ⟨hpeekp, _, hminp⟩ := Heap.pop_spec hp
      obtain ⟨hpeeks, _, hmins⟩ := Heap.pop_spec hr
      rw [if_neg hq, if_neg hs, peekQueue, hpeekp, peekQueue, hpeeks, popQueue, hp, popQueue, hr]
      by_cases hle : p.time ≤ s.time
      · refine ⟨p, { e with queue :=
                              q }, by simp [bind, Except.bind, hle, pure, Except.pure], takes_primary hp fun x hx => ?_⟩
        exact le_trans hle (hmins x hx)
      · refine ⟨s, { e with secondaryQueue := r }, by simp [bind, Except.bind, hle, pure, Except.pure],
          takes_secondary hr fun x hx => ?_⟩
        exact lt_of_lt_of_le (not_le.1 hle) (hminp x hx)

/-! ## Schedule -/

variable {e e' : SerialEngine τ η} {evt : Event τ η} {evts : List (Event τ η)}

theorem schedule_eq_ok (h : e.schedule evt = .ok e') :
    e.time ≤ evt.time ∧ e'.time = e.time ∧ e'.pending.Perm (evt :: e.pending) ∧
    (∀ x ∈ e'.queue.elems, x = evt ∧ evt.secondary = false ∨ x ∈ e.queue.elems) ∧
    ∀ x ∈ e'.secondaryQueue.elems, x = evt ∧ evt.secondary = true ∨ x ∈ e.secondaryQueue.elems := by
  unfold schedule at h
  split at h
  case isTrue => cases h
  case isFalse hlt =>
    refine ⟨not_lt.1 hlt, ?_⟩
    split at h
    case isTrue hs =>
      cases h
      refine ⟨rfl, ((Heap.elems_insert ..).append_left _).trans perm_middle, fun x hx => .inr hx, fun x hx => ?_⟩
      exact (Heap.mem_insert.1 hx).imp_left fun h => ⟨h, hs⟩
    case isFalse hs =>
      cases h
      refine ⟨rfl, (Heap.elems_insert ..).append_right _, fun x hx => ?_, fun x hx => .inr hx⟩
      exact (Heap.mem_insert.1 hx).imp_left fun h => ⟨h, by simpa using hs⟩

theorem Valid.schedule (hv : e.Valid) (h : e.schedule evt = .ok e') : e'.Valid := by
  obtain ⟨hle, htime, hperm, hprimary, hsecondary⟩ := schedule_eq_ok h
  refine ⟨fun x hx => ?_, fun x hx => ?_, fun x hx => ?_⟩
  · rcases hprimary x hx with ⟨rfl, hs⟩ | hx
    · exact hs
    · exact hv.primary x hx
  · rcases hsecondary x hx with ⟨rfl, hs⟩ | hx
    · exact hs
    · exact hv.secondary x hx
  · rw [htime]
    rcases mem_cons.1 (hperm.mem_iff.1 hx) with rfl | hx
    · exact hle
    · exact hv.future x hx

theorem schedule_ok (h : e.time ≤ evt.time) : ∃ e', e.schedule evt = .ok e' := by
  unfold schedule
  rw [if_neg (not_lt.2 h)]
  split
  · exact ⟨_, rfl⟩
  · exact ⟨_, rfl⟩

theorem scheduleAll_cons_eq_ok (h : e.scheduleAll (evt :: evts) = .ok e') :
    ∃ e₁, e.schedule evt = .ok e₁ ∧ e₁.scheduleAll evts = .ok e' := by
  unfold scheduleAll at h
  rw [foldlM_cons] at h
  cases hs : e.schedule evt with
  | error =>
    rw [hs] at h
    cases h
  | ok e₁ =>
    rw [hs] at h
    exact ⟨e₁, rfl, h⟩

theorem Valid.scheduleAll (hv : e.Valid) (h : e.scheduleAll evts = .ok e') :
    e'.Valid ∧ e'.time = e.time ∧ e'.pending.Perm (e.pending ++ evts) := by
  induction evts generalizing e with
  | nil =>
    cases h
    exact ⟨hv, rfl, by rw [append_nil]⟩
  | cons _ evts ih =>
    obtain ⟨_, hs, hrest⟩ := scheduleAll_cons_eq_ok h
    obtain ⟨-, htime, hperm, -⟩ := schedule_eq_ok hs
    obtain ⟨hv', htime', hperm'⟩ := ih (hv.schedule hs) hrest
    refine ⟨hv', htime'.trans htime, hperm'.trans ?_⟩
    exact (hperm.append_right evts).trans perm_middle.symm

theorem scheduleAll_ok (h : ∀ x ∈ evts, e.time ≤ x.time) : ∃ e', e.scheduleAll evts = .ok e' := by
  induction evts generalizing e with
  | nil => exact ⟨e, rfl⟩
  | cons evt _ ih =>
    obtain ⟨e₁, hs⟩ := schedule_ok (h evt (mem_cons_self ..))
    have htime := (schedule_eq_ok hs).2.1
    obtain ⟨e', hrest⟩ := @ih e₁ fun x hx => htime ▸ h x (mem_cons_of_mem _ hx)
    exact ⟨e', by rw [scheduleAll, foldlM_cons, hs]; exact hrest⟩

/-! ## The loop -/

theorem Valid.new (t₀ : τ) : Valid ({ time := t₀ } : SerialEngine τ η) where
  primary _ hx := absurd hx not_mem_nil
  secondary _ hx := absurd hx not_mem_nil
  future _ hx := absurd hx not_mem_nil

/-- After an event is taken and the time is set to its time, no pending event is in the past. -/
theorem Valid.takes (hv : e.Valid) (h : e.Takes evt e') : Valid { e' with time := evt.time } where
  primary x hx := hv.primary x (h.queue x hx)
  secondary x hx := hv.secondary x (h.secondaryQueue x hx)
  future x hx := h.earliest x (h.perm.mem_iff.2 (mem_cons_of_mem _ hx))

theorem Takes.mem (h : e.Takes evt e') : evt ∈ e.pending := h.perm.mem_iff.2 (mem_cons_self ..)

/-- A secondary event is taken only before all primary events of its time. -/
theorem Takes.primary_first (hv : e.Valid) (h : e.Takes evt e') (hs : evt.secondary = true) :
    ∀ p ∈ e.pending, p.secondary = false → evt.time < p.time := by
  intro p hp hprimary
  rcases h.first with hmem | ⟨-, hfirst⟩
  · have := hv.primary evt hmem
    rw [hs] at this
    cases this
  · rcases mem_append.1 hp with hp | hp
    · exact hfirst p hp
    · have := hv.secondary p hp
      rw [hprimary] at this
      cases this

theorem advance_eq (hv : e.Valid) (hmore : e.noMoreEvent = false) :
    ∃ evt e₁, e.Takes evt e₁ ∧ e.advance = .ok (evt, { e₁ with time := evt.time }) := by
  obtain ⟨evt, e₁, hnext, htakes⟩ := nextEvent_takes hmore
  refine ⟨evt, e₁, htakes, ?_⟩
  have hpast : ¬ evt.time < e₁.time := by
    rw [htakes.time]
    exact not_lt.2 (hv.future evt htakes.mem)
  simp only [advance, hnext, bind, Except.bind, hpast, if_false, pure, Except.pure]

theorem advance_eq_ok (hv : e.Valid) (h : e.advance = .ok (evt, e')) :
    ∃ e₁, e.Takes evt e₁ ∧ e' = { e₁ with time := evt.time } := by
  cases hmore : e.noMoreEvent with
  | false =>
    obtain ⟨_, e₁, htakes, heq⟩ := advance_eq hv hmore
    rw [heq] at h
    cases h
    exact ⟨e₁, htakes, rfl⟩
  | true =>
    simp only [noMoreEvent, Bool.and_eq_true, decide_eq_true_eq, length_eq_zero_iff] at hmore
    have hpop : e.secondaryQueue.pop = none := Heap.pop_eq_none.2 hmore.2
    simp [advance, nextEvent, hmore.1, popQueue, hpop, bind, Except.bind] at h

variable {handle : Event τ η → List (Event τ η)}

theorem runOnce_eq (hv : e.Valid) (hmore : e.noMoreEvent = false) :
    ∃ evt e₁, e.Takes evt e₁ ∧
      e.runOnce handle = (scheduleAll { e₁ with time := evt.time } (handle evt)).map fun e' => some (evt, e') := by
  obtain ⟨evt, e₁, htakes, hadvance⟩ := advance_eq hv hmore
  refine ⟨evt, e₁, htakes, ?_⟩
  simp only [runOnce, hmore, hadvance, bind, Except.bind, if_false, Bool.false_eq_true, pure, Except.pure]
  cases scheduleAll { e₁ with time := evt.time } (handle evt) <;> rfl

theorem runOnce_eq_ok (hv : e.Valid) (h : e.runOnce handle = .ok (some (evt, e'))) :
    ∃ e₁, e.Takes evt e₁ ∧ scheduleAll { e₁ with time := evt.time } (handle evt) = .ok e' := by
  have hmore : e.noMoreEvent = false := by
    cases hmore : e.noMoreEvent with
    | false => rfl
    | true =>
      rw [runOnce, hmore, if_pos rfl] at h
      cases h
  obtain ⟨x, e₁, htakes, heq⟩ := @runOnce_eq τ η _ e handle hv hmore
  rw [heq] at h
  obtain ⟨_, hs, h⟩ := eq_ok_of_bind h
  cases h
  exact ⟨e₁, htakes, hs⟩

/-! ## Runs -/

/-- An event that was handled: the engine before it, the time its handler read, and what the handler scheduled. -/
structure Handled (τ η : Type) [LinearOrder τ] where
  engine : SerialEngine τ η
  event : Event τ η
  now : τ
  scheduled : List (Event τ η)

/-- `e` is the engine after the events of the history, from the initial events on. Each event may have a handler of its
own. -/
inductive Run (t₀ : τ) (initial : List (Event τ η)) : List (Handled τ η) → SerialEngine τ η → Prop
  | start {e : SerialEngine τ η} (h : scheduleAll { time := t₀ } initial = .ok e) : Run t₀ initial [] e
  | step {history : List (Handled τ η)} {e e' : SerialEngine τ η} {evt : Event τ η} {handle : Event τ η → List (Event τ η)}
      (hrun : Run t₀ initial history e) (h : e.runOnce handle = .ok (some (evt, e'))) :
      Run t₀ initial (history ++ [⟨e, evt, e'.time, handle evt⟩]) e'

/-- The semantics of a run: no scheduled event is lost or handled twice (`once`, `all`), each is handled at its own time, in
nondecreasing time order, a secondary event only when no primary event of its time or before is pending, and the loop goes on
while an event is pending. -/
structure Correct (initial : List (Event τ η)) (history : List (Handled τ η)) (e : SerialEngine τ η) : Prop where
  once : (history.map Handled.event ++ e.pending).Perm (initial ++ history.flatMap Handled.scheduled)
  all : e.noMoreEvent = true → (history.map Handled.event).Perm (initial ++ history.flatMap Handled.scheduled)
  ownTime : ∀ x ∈ history, x.now = x.event.time
  ordered : (history.map Handled.now).Pairwise (· ≤ ·)
  primaryFirst : ∀ x ∈ history, x.event.secondary = true → ∀ p ∈ x.engine.pending, p.secondary = false → x.event.time < p.time
  continues : e.noMoreEvent = false → ∀ handle : Event τ η → List (Event τ η), (∀ evt, ∀ x ∈ handle evt, evt.time ≤ x.time) →
    ∃ evt e', e.runOnce handle = .ok (some (evt, e'))

theorem pending_of_noMoreEvent (h : e.noMoreEvent = true) : e.pending = [] := by
  simp only [noMoreEvent, Bool.and_eq_true, decide_eq_true_eq, length_eq_zero_iff] at h
  rw [pending, h.1, h.2, nil_append]

/-- Every event handled so far was handled at its time, not after the time of the engine. -/
structure Past (initial : List (Event τ η)) (history : List (Handled τ η)) (e : SerialEngine τ η) : Prop where
  valid : e.Valid
  once : (history.map Handled.event ++ e.pending).Perm (initial ++ history.flatMap Handled.scheduled)
  ownTime : ∀ x ∈ history, x.now = x.event.time
  le_time : ∀ x ∈ history, x.now ≤ e.time
  ordered : (history.map Handled.now).Pairwise (· ≤ ·)
  primaryFirst : ∀ x ∈ history, x.event.secondary = true → ∀ p ∈ x.engine.pending, p.secondary = false → x.event.time < p.time

variable {initial : List (Event τ η)}

theorem Past.start {t₀ : τ} (h : scheduleAll { time := t₀ } initial = .ok e) : Past initial [] e := by
  obtain ⟨hv, -, hperm⟩ := (Valid.new t₀).scheduleAll h
  refine ⟨hv, ?_, by simp, by simp, by simp, by simp⟩
  simpa [pending] using hperm

theorem Past.step {history : List (Handled τ η)} (hp : Past initial history e) (h : e.runOnce handle = .ok (some (evt, e'))) :
    Past initial (history ++ [⟨e, evt, e'.time, handle evt⟩]) e' := by
  obtain ⟨e₁, htakes, hschedule⟩ := runOnce_eq_ok hp.valid h
  obtain ⟨hv, htime, hperm⟩ := (hp.valid.takes htakes).scheduleAll hschedule
  have htime' : e'.time = evt.time := htime
  have hle : e.time ≤ e'.time := htime' ▸ hp.valid.future evt htakes.mem
  refine ⟨hv, ?_, ?_, ?_, ?_, ?_⟩
  case refine_1 =>
    simp only [map_append, map_cons, map_nil, flatMap_append, flatMap_cons, flatMap_nil, append_nil]
    calc
      (history.map Handled.event ++ [evt] ++ e'.pending).Perm
        (history.map Handled.event ++ [evt] ++ (e₁.pending ++ handle evt)) :=
          hperm.append_left _
      _ = history.map Handled.event ++ (evt :: e₁.pending) ++ handle evt := by simp
      List.Perm _ (history.map Handled.event ++ e.pending ++ handle evt) := (htakes.perm.symm.append_left _).append_right _
      List.Perm _ (initial ++ history.flatMap Handled.scheduled ++ handle evt) := hp.once.append_right _
      _ = initial ++ (history.flatMap Handled.scheduled ++ handle evt) := append_assoc ..
  case refine_2 =>
    exact forall_mem_append.mpr ⟨hp.ownTime, forall_mem_singleton.mpr htime'⟩
  case refine_3 =>
    intro x hx
    rcases mem_append.1 hx with hx | hx
    · exact le_trans (hp.le_time x hx) hle
    · rw [mem_singleton.1 hx]
  case refine_4 =>
    rw [map_append, pairwise_append]
    refine ⟨hp.ordered, pairwise_singleton .., fun t ht u hu => ?_⟩
    obtain ⟨x, hx, rfl⟩ := mem_map.1 ht
    rw [map_singleton, mem_singleton] at hu
    rw [hu]
    exact le_trans (hp.le_time x hx) hle
  case refine_5 =>
    exact forall_mem_append.mpr ⟨hp.primaryFirst, forall_mem_singleton.mpr (htakes.primary_first hp.valid)⟩

theorem Run.past {t₀ : τ} {history : List (Handled τ η)} (h : Run t₀ initial history e) :
    Past initial history e := by
  induction h with
  | start h => exact Past.start h
  | step _ h ih => exact ih.step h

/-- Every run of the serial engine is correct. -/
theorem run_correct {t₀ : τ} {initial : List (Event τ η)} {history : List (Handled τ η)} (h : Run t₀ initial history e) :
    Correct initial history e := by
  have hp := h.past
  refine ⟨hp.once, fun hmore => ?_, hp.ownTime, hp.ordered, hp.primaryFirst, fun hmore handle hhandle => ?_⟩
  · have := hp.once
    rwa [pending_of_noMoreEvent hmore, append_nil] at this
  · obtain ⟨evt, e₁, -, heq⟩ := @runOnce_eq τ η _ e handle hp.valid hmore
    obtain ⟨e', he'⟩ := @scheduleAll_ok τ η _ { e₁ with time := evt.time } (handle evt) (hhandle evt)
    exact ⟨evt, e', by rw [heq, he']; rfl⟩

/-- A secondary and a primary event at time 1, the primary one first and scheduling another. -/
theorem run_correct_two : ∃ (history : List (Handled Nat Nat)) (e : SerialEngine Nat Nat),
    (history.map Handled.event = [⟨1, 7, false⟩, ⟨1, 8, false⟩] ∧ e.pending = [⟨1, 6, true⟩]) ∧
      Correct [⟨1, 6, true⟩, ⟨1, 7, false⟩] history e := by
  obtain ⟨_, h₀⟩ : ∃ e, scheduleAll ({ time := 0 } : SerialEngine Nat Nat) [⟨1, 6, true⟩, ⟨1, 7, false⟩] = .ok e := ⟨_, rfl⟩
  have hrun := Run.start h₀
  cases h₀
  have hrun₁ := hrun.step (show runOnce _ (fun _ => [⟨1, 8, false⟩]) = _ from rfl)
  have hrun₂ := hrun₁.step (show runOnce _ (fun _ => []) = _ from rfl)
  exact ⟨_, _, ⟨rfl, rfl⟩, run_correct hrun₂⟩

end SerialEngine

end Akita.Sim
