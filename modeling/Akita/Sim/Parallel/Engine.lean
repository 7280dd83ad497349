import Akita.Multisets
import Akita.Sim.SerialEngine
import Mathlib.Data.List.Range

/-!
# The parallel engine

`ParallelEngine` of `sim/parallelengine.go` as a step relation: the main loop, the goroutine of each event, and the two
channels that hand out the queues. `maxTime` is `math.MaxFloat64`.

The state has a history beside the fields of the code: the events scheduled and executed so far, each with the number of
rounds started when it was scheduled, and the rounds.
-/

namespace Akita.Sim
open Function
open List hiding getElem?_eq_some_iff
open Multiset (coe_add coe_nil coe_singleton cons_coe singleton_add)

variable {τ η : Type}

/-- An event with the number of rounds that had started when it was scheduled. -/
structure Scheduled (τ η : Type) where
  event : Event τ η
  born : Nat
deriving DecidableEq

namespace Scheduled

def time (x : Scheduled τ η) : τ := x.event.time
def secondary (x : Scheduled τ η) : Bool := x.event.secondary

end Scheduled

/-- `queues` and `queueChan`, or their secondary counterparts. The channel holds the indices of the queues. -/
structure QueueGroup (τ η : Type) [LinearOrder τ] where
  queues : List (Heap (α := Scheduled τ η) Scheduled.time)
  chan : List Nat

/-- The goroutine of an event: started, in its handler, and there in a call of `Schedule` with queue `q` in hand, before and
after it pushed the new event. -/
inductive Worker (τ η : Type)
  | spawned (x : Scheduled τ η)
  | running (x : Scheduled τ η)
  | holding (x : Scheduled τ η) (q : Nat) (new : Scheduled τ η)
  | pushed (x : Scheduled τ η) (q : Nat) (new : Scheduled τ η)

/-- Where `Run` is: not called, before `hasMoreEvents`, in `emptyQueueChan` with `k` queues received, in
`runEventsUntilConflict` at queue `i` (and in `Wait` behind the last queue). -/
inductive MainLoop
  | stopped
  | idle
  | emptying (k : Nat)
  | draining (i : Nat)
  | panicked (e : String)
deriving DecidableEq

/-- A round, with the events that were pending when it started. -/
structure Round (τ η : Type) where
  time : τ
  secondary : Bool
  pending : List (Scheduled τ η)

/-- An event whose handler was called, and in which round. -/
structure Executed (τ η : Type) where
  event : Scheduled τ η
  round : Nat
  now : τ

structure ParallelEngine (τ η : Type) [LinearOrder τ] where
  now : τ
  runningSecondaryEvents : Bool := false
  /-- The primary queues at `false`, the secondary queues at `true`. -/
  group : Bool → QueueGroup τ η
  main : MainLoop := .stopped
  workers : List (Worker τ η) := []
  scheduled : List (Scheduled τ η) := []
  executed : List (Executed τ η) := []
  rounds : List (Round τ η) := []

variable [LinearOrder τ]

namespace QueueGroup

/-- All events of the group. -/
def queued (g : QueueGroup τ η) : List (Scheduled τ η) := g.queues.flatMap Heap.elems

def setQueue (g : QueueGroup τ η) (i : Nat) (q : Heap (α := Scheduled τ η) Scheduled.time) : QueueGroup τ η :=
  { g with queues := g.queues.set i q }

/-- `earliestTimeInQueueGroup`. -/
def earliestTime (maxTime : τ) (g : QueueGroup τ η) : τ :=
  g.queues.foldl (fun earliestTime q =>
    match q.peek with
    | none => earliestTime
    | some x => if x.time < earliestTime then x.time else earliestTime) maxTime

end QueueGroup

namespace Worker

/-- The events of a goroutine that were not executed: its own before it starts, the new one before it is pushed. -/
def pending : Worker τ η → List (Scheduled τ η)
  | spawned x => [x]
  | holding _ _ new => [new]
  | _ => []

/-- The queue of the class a goroutine has in hand. -/
def held (secondary : Bool) : Worker τ η → Option Nat
  | holding _ q new | pushed _ q new => if new.secondary = secondary then some q else none
  | _ => none

end Worker

namespace ParallelEngine

/-- `NewParallelEngine`, with `n` queues of each class. -/
def new (n : Nat) (now : τ) : ParallelEngine τ η where
  now := now
  group := fun _ => { queues := replicate n (Heap.empty _), chan := range n }

def setGroup (e : ParallelEngine τ η) (b : Bool) (g : QueueGroup τ η) : ParallelEngine τ η :=
  { e with group := update e.group b g }

/-- The events that wait to be executed. -/
def pending (e : ParallelEngine τ η) : List (Scheduled τ η) :=
  (e.group false).queued ++ (e.group true).queued ++ e.workers.flatMap Worker.pending

def hasMoreEvents (e : ParallelEngine τ η) : Bool :=
  (e.group false).queues.any (0 < ·.elems.length) || (e.group true).queues.any (0 < ·.elems.length)

def determineWhatToRun (maxTime : τ) (e : ParallelEngine τ η) : ParallelEngine τ η :=
  let primaryTime := (e.group false).earliestTime maxTime
  let secondaryTime := (e.group true).earliestTime maxTime
  if primaryTime ≤ secondaryTime then { e with runningSecondaryEvents := false, now := primaryTime }
  else { e with runningSecondaryEvents := true, now := secondaryTime }

/-- The queues of the round. -/
def active (e : ParallelEngine τ η) : QueueGroup τ η := e.group e.runningSecondaryEvents

/-- One atomic step of the main loop, of a goroutine, or of a caller that schedules while `Run` is not called. -/
inductive Step (maxTime : τ) : ParallelEngine τ η → ParallelEngine τ η → Prop
  | schedule {e : ParallelEngine τ η} {evt : Event τ η} {i : Nat} {rest : List Nat} {q : Heap Scheduled.time}
      (hmain : e.main = .stopped) (hnow : e.now ≤ evt.time) (hchan : (e.group evt.secondary).chan = i :: rest)
      (hq : (e.group evt.secondary).queues[i]? = some q) :
      Step maxTime e { e.setGroup evt.secondary
        { queues := (e.group evt.secondary).queues.set i (q.insert ⟨evt, e.rounds.length⟩), chan := rest ++ [i] } with
          scheduled := e.scheduled ++ [⟨evt, e.rounds.length⟩] }
  | run {e : ParallelEngine τ η} (hmain : e.main = .stopped) : Step maxTime e { e with main := .idle }
  | return {e : ParallelEngine τ η} (hmain : e.main = .idle) (hmore : e.hasMoreEvents = false) :
      Step maxTime e { e with main := .stopped }
  | round {e : ParallelEngine τ η} (hmain : e.main = .idle) (hmore : e.hasMoreEvents = true) :
      Step maxTime e { e.determineWhatToRun maxTime with
        main := .emptying 0
        rounds := e.rounds ++
          [⟨(e.determineWhatToRun maxTime).now, (e.determineWhatToRun maxTime).runningSecondaryEvents, e.pending⟩] }
  | empty {e : ParallelEngine τ η} {k i : Nat} {rest : List Nat} (hmain : e.main = .emptying k)
      (hk : k < e.active.queues.length) (hchan : e.active.chan = i :: rest) :
      Step maxTime e { e.setGroup e.runningSecondaryEvents { e.active with chan := rest } with main := .emptying (k + 1) }
  | emptied {e : ParallelEngine τ η} (hmain : e.main = .emptying e.active.queues.length) :
      Step maxTime e { e with main := .draining 0 }
  | spawn {e : ParallelEngine τ η} {i : Nat} {q q' : Heap Scheduled.time} {x : Scheduled τ η} (hmain : e.main = .draining i)
      (hq : e.active.queues[i]? = some q) (hpop : q.pop = some (x, q')) (htime : x.time = e.now) :
      Step maxTime e { e.setGroup e.runningSecondaryEvents (e.active.setQueue i q') with
        workers := e.workers ++ [.spawned x] }
  | past {e : ParallelEngine τ η} {i : Nat} {q : Heap Scheduled.time} {x : Scheduled τ η} (hmain : e.main = .draining i)
      (hq : e.active.queues[i]? = some q) (hpeek : q.peek = some x) (htime : x.time < e.now) :
      Step maxTime e { e with main := .panicked "cannot run event in the past" }
  | next {e : ParallelEngine τ η} {i : Nat} {q : Heap Scheduled.time} (hmain : e.main = .draining i)
      (hq : e.active.queues[i]? = some q) (hpeek : ∀ x ∈ q.peek, e.now < x.time) :
      Step maxTime e { e.setGroup e.runningSecondaryEvents { e.active with chan := e.active.chan ++ [i] } with
        main := .draining (i + 1) }
  | wait {e : ParallelEngine τ η} (hmain : e.main = .draining e.active.queues.length) (hworkers : e.workers = []) :
      Step maxTime e { e with main := .idle }
  | begin {e : ParallelEngine τ η} {l r : List (Worker τ η)} {x : Scheduled τ η} (hworkers : e.workers = l ++ .spawned x :: r)
      (htime : ¬ x.time < e.now) :
      Step maxTime e { e with
        workers := l ++ .running x :: r
        executed := e.executed ++ [⟨x, e.rounds.length - 1, e.now⟩] }
  | beginPast {e : ParallelEngine τ η} {l r : List (Worker τ η)} {x : Scheduled τ η}
      (hworkers : e.workers = l ++ .spawned x :: r)
      (htime : x.time < e.now) : Step maxTime e { e with main := .panicked "running event in the past" }
  | take {e : ParallelEngine τ η} {l r : List (Worker τ η)} {x : Scheduled τ η} {evt : Event τ η} {i : Nat} {rest : List Nat}
      (hworkers : e.workers = l ++ .running x :: r) (hnow : e.now ≤ evt.time)
      (hchan : (e.group evt.secondary).chan = i :: rest) :
      Step maxTime e { e.setGroup evt.secondary { e.group evt.secondary with chan := rest } with
        workers := l ++ .holding x i ⟨evt, e.rounds.length⟩ :: r
        scheduled := e.scheduled ++ [⟨evt, e.rounds.length⟩] }
  | push {e : ParallelEngine τ η} {l r : List (Worker τ η)} {x new : Scheduled τ η} {i : Nat} {q : Heap Scheduled.time}
      (hworkers : e.workers = l ++ .holding x i new :: r) (hq : (e.group new.secondary).queues[i]? = some q) :
      Step maxTime e { e.setGroup new.secondary ((e.group new.secondary).setQueue i (q.insert new)) with
        workers := l ++ .pushed x i new :: r }
  | give {e : ParallelEngine τ η} {l r : List (Worker τ η)} {x new : Scheduled τ η} {i : Nat}
      (hworkers : e.workers = l ++ .pushed x i new :: r) :
      Step maxTime e { e.setGroup new.secondary { e.group new.secondary with chan := (e.group new.secondary).chan ++ [i] }
                         with
        workers := l ++ .running x :: r }
  | finish {e : ParallelEngine τ η} {l r : List (Worker τ η)} {x : Scheduled τ η}
      (hworkers : e.workers = l ++ .running x :: r) : Step maxTime e { e with workers := l ++ r }

/-! ## What a step does to the events -/

variable {g : QueueGroup τ η}

variable {i : Nat}

theorem QueueGroup.coe_setQueue {q : Heap (α := Scheduled τ η) Scheduled.time} (hq : g.queues[i]? = some q)
    (q' : Heap Scheduled.time) : (↑(g.setQueue i q').queued : Multiset (Scheduled τ η)) + ↑q.elems =
      ↑g.queued + ↑q'.elems := by
  obtain ⟨hi, rfl⟩ := List.getElem?_eq_some_iff.1 hq
  have hset : (g.setQueue i q').queues = g.queues.take i ++ q' :: g.queues.drop (i + 1) :=
    List.set_eq_take_append_cons_drop .. |>.trans (if_pos hi)
  have hsplit : g.queues = g.queues.take i ++ g.queues[i] :: g.queues.drop (i + 1) := by
    rw [getElem_cons_drop, take_append_drop]
  have hold : g.queued = (g.queues.take i).flatMap Heap.elems ++
      (g.queues[i].elems ++ (g.queues.drop (i + 1)).flatMap Heap.elems) := by
    unfold QueueGroup.queued
    conv_lhs => rw [hsplit]
    rw [flatMap_append, flatMap_cons]
  rw [hold, QueueGroup.queued, hset, flatMap_append, flatMap_cons]
  simp only [← coe_add]
  abel

theorem QueueGroup.coe_insert {q : Heap (α := Scheduled τ η) Scheduled.time} (hq : g.queues[i]? = some q)
    (x : Scheduled τ η) : (↑(g.setQueue i (q.insert x)).queued : Multiset (Scheduled τ η)) = x ::ₘ ↑g.queued := by
  have hset := coe_setQueue hq (q.insert x)
  rw [Multiset.coe_eq_coe.2 (q.elems_insert x), ← cons_coe, ← singleton_add, ← add_assoc] at hset
  rw [add_right_cancel hset, add_comm, singleton_add]

theorem QueueGroup.coe_pop {q q' : Heap (α := Scheduled τ η) Scheduled.time} {x : Scheduled τ η}
    (hq : g.queues[i]? = some q) (hpop : q.pop = some (x, q')) :
    (↑g.queued : Multiset (Scheduled τ η)) = x ::ₘ ↑(g.setQueue i q').queued := by
  have hset := coe_setQueue hq q'
  rw [Multiset.coe_eq_coe.2 (Heap.pop_spec hpop).2.1, ← cons_coe, ← singleton_add, ← add_assoc] at hset
  rw [← add_right_cancel hset, add_comm, singleton_add]

omit [LinearOrder τ] in
theorem coe_workers (l r : List (Worker τ η)) (w : Worker τ η) :
    (↑((l ++ w :: r).flatMap Worker.pending) : Multiset (Scheduled τ η)) = ↑w.pending +
      ↑((l ++ r).flatMap Worker.pending) := by
  simp only [flatMap_append, flatMap_cons, ← coe_add]
  abel

variable {e e' : ParallelEngine τ η}

theorem coe_pending {b : Bool} (hgroup : e'.group = update e.group b g) :
    (↑e'.pending : Multiset (Scheduled τ η)) + ↑(e.group b).queued + ↑(e.workers.flatMap Worker.pending) =
      ↑e.pending + ↑g.queued + ↑(e'.workers.flatMap Worker.pending) := by
  simp only [pending, ← coe_add]
  cases b with
  | false | true =>
    rw [hgroup, update_self, update_of_ne (by simp)]
    abel

/-- A step within a round, or between rounds: `news` are scheduled and `execs` executed. -/
structure Quiet (e e' : ParallelEngine τ η) (news : List (Scheduled τ η)) (execs : List (Executed τ η)) : Prop where
  now : e'.now = e.now
  rounds : e'.rounds = e.rounds
  running : e'.runningSecondaryEvents = e.runningSecondaryEvents
  scheduled : e'.scheduled = e.scheduled ++ news
  executed : e'.executed = e.executed ++ execs
  balance : (↑e'.pending : Multiset (Scheduled τ η)) + ↑(execs.map Executed.event) = ↑e.pending + ↑news
  new : ∀ x ∈ news, e.now ≤ x.time ∧ x.born = e.rounds.length
  exec : ∀ y ∈ execs, .spawned y.event ∈ e.workers ∧ y.round = e.rounds.length - 1 ∧ y.now = e.now

/-- The state after `determineWhatToRun`. -/
def startRound (maxTime : τ) (e : ParallelEngine τ η) : ParallelEngine τ η :=
  { e.determineWhatToRun maxTime with
    main := .emptying 0
    rounds := e.rounds ++
      [⟨(e.determineWhatToRun maxTime).now, (e.determineWhatToRun maxTime).runningSecondaryEvents, e.pending⟩] }

theorem Quiet.of_group {b : Bool} {news : List (Scheduled τ η)} {execs : List (Executed τ η)} (hnow : e'.now = e.now)
    (hrounds : e'.rounds = e.rounds) (hrunning : e'.runningSecondaryEvents = e.runningSecondaryEvents)
    (hscheduled : e'.scheduled = e.scheduled ++ news) (hexecuted : e'.executed = e.executed ++ execs)
    (hgroup : e'.group = update e.group b g)
    (hqueued : (↑g.queued : Multiset (Scheduled τ η)) + ↑(e'.workers.flatMap Worker.pending) + ↑(execs.map Executed.event) =
      ↑(e.group b).queued + ↑(e.workers.flatMap Worker.pending) + ↑news)
    (hnew : ∀ x ∈ news, e.now ≤ x.time ∧ x.born = e.rounds.length)
    (hexec : ∀ y ∈ execs, .spawned y.event ∈ e.workers ∧ y.round = e.rounds.length - 1 ∧ y.now = e.now) :
    Quiet e e' news execs := by
  refine ⟨hnow, hrounds, hrunning, hscheduled, hexecuted, ?_, hnew, hexec⟩
  have h := coe_pending hgroup
  rw [add_assoc, add_assoc] at h
  apply add_right_cancel (b := (↑(e.group b).queued : Multiset (Scheduled τ η)) + ↑(e.workers.flatMap Worker.pending))
  calc
    (↑e'.pending : Multiset (Scheduled τ η)) + ↑(execs.map Executed.event) +
      (↑(e.group b).queued + ↑(e.workers.flatMap Worker.pending))
      = ↑e'.pending + (↑(e.group b).queued + ↑(e.workers.flatMap Worker.pending)) + ↑(execs.map Executed.event) :=
        add_right_comm ..
    _ = ↑e.pending + (↑g.queued + ↑(e'.workers.flatMap Worker.pending) + ↑(execs.map Executed.event)) := by rw [h, add_assoc]
    _ = ↑e.pending + (↑(e.group b).queued + ↑(e.workers.flatMap Worker.pending) + ↑news) := by rw [hqueued]
    _ = ↑e.pending + ↑news + (↑(e.group b).queued + ↑(e.workers.flatMap Worker.pending)) := by abel

theorem Quiet.of_main (e : ParallelEngine τ η) (main : MainLoop) : Quiet e { e with main } [] [] :=
  Quiet.of_group (b := false) rfl rfl rfl (append_nil _).symm (append_nil _).symm (update_eq_self ..).symm rfl
    (by simp) (by simp)

/-- Only `round` starts a round. -/
theorem Step.quiet_or_round {maxTime : τ} (h : Step maxTime e e') :
    (∃ news execs, Quiet e e' news execs) ∨ (e.main = .idle ∧ e.hasMoreEvents = true ∧ e' = e.startRound maxTime) := by
  have hnil : ∀ {α : Type} (l : List α), l = l ++ [] := fun l => (append_nil l).symm
  cases h with
  | round hmain hmore => exact .inr ⟨hmain, hmore, rfl⟩
  | run => exact .inl ⟨_, _, Quiet.of_main e _⟩
  | «return» => exact .inl ⟨_, _, Quiet.of_main e _⟩
  | emptied | past | wait | beginPast => exact .inl ⟨_, _, Quiet.of_main e _⟩
  | empty | next => exact .inl ⟨_, _, Quiet.of_group rfl rfl rfl (hnil _) (hnil _) rfl rfl (by simp) (by simp)⟩
  | @schedule evt _ _ _ hmain hnow hchan hq =>
    refine .inl ⟨_, _, Quiet.of_group rfl rfl rfl rfl (hnil _) rfl ?_ ?_ (by simp)⟩
    · have hinsert := QueueGroup.coe_insert hq ⟨evt, e.rounds.length⟩
      simp only [QueueGroup.setQueue, QueueGroup.queued] at hinsert ⊢
      rw [hinsert, ← singleton_add]
      simp only [map_nil, coe_nil, coe_singleton]
      abel
    · intro x hx
      rw [mem_singleton.1 hx]
      exact ⟨hnow, rfl⟩
  | spawn _ hq hpop =>
    refine .inl ⟨_, _, Quiet.of_group rfl rfl rfl (hnil _) (hnil _) rfl ?_ (by simp) (by simp)⟩
    rw [show (e.group e.runningSecondaryEvents) = e.active from rfl, QueueGroup.coe_pop hq hpop, flatMap_append, ← coe_add]
    simp only [flatMap_cons, flatMap_nil, Worker.pending, append_nil, ← singleton_add, coe_singleton]
    abel
  | begin hworkers =>
    refine .inl ⟨_, _, Quiet.of_group (b := false) rfl rfl rfl (hnil _) rfl (update_eq_self ..).symm ?_ (by simp) ?_⟩
    · rw [hworkers, coe_workers, coe_workers]
      simp only [Worker.pending, map_cons, map_nil, coe_nil, coe_singleton]
      abel
    · intro y hy
      rw [mem_singleton.1 hy, hworkers]
      exact ⟨by simp, rfl, rfl⟩
  | take hworkers hnow =>
    refine .inl ⟨_, _, Quiet.of_group rfl rfl rfl rfl (hnil _) rfl ?_ ?_ (by simp)⟩
    · rw [hworkers, coe_workers, coe_workers]
      simp only [Worker.pending, QueueGroup.queued, map_nil, coe_nil, coe_singleton]
      abel
    · intro x hx
      rw [mem_singleton.1 hx]
      exact ⟨hnow, rfl⟩
  | push hworkers hq =>
    refine .inl ⟨_, _, Quiet.of_group rfl rfl rfl (hnil _) (hnil _) rfl ?_ (by simp) (by simp)⟩
    rw [QueueGroup.coe_insert hq, hworkers, coe_workers, coe_workers]
    simp only [Worker.pending, coe_nil, zero_add, coe_singleton, ← singleton_add]
    abel
  | give hworkers =>
    refine .inl ⟨_, _, Quiet.of_group rfl rfl rfl (hnil _) (hnil _) rfl ?_ (by simp) (by simp)⟩
    rw [hworkers, coe_workers, coe_workers]
    rfl
  | finish hworkers =>
    refine .inl ⟨_, _, Quiet.of_group (b := false) rfl rfl rfl (hnil _) (hnil _) (update_eq_self ..).symm
      ?_ (by simp) (by simp)⟩
    rw [hworkers, coe_workers]
    simp [Worker.pending]

end ParallelEngine

end Akita.Sim
