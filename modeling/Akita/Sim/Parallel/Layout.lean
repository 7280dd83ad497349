import Akita.Sim.Parallel.Engine

/-!
# The queues of the parallel engine

* `determineWhatToRun_le`, `determineWhatToRun_mem` : the time of a round is the earliest of the pending events;
* `Fresh` : no pending event is in the past;
* `Layout` : where the queues are in each phase of the main loop, and which events they may hold.
-/

namespace Akita.Sim
open Option hiding any any_eq_false
open Function
open Scheduled (secondary time)
open List hiding getElem?_eq_some_iff

variable {τ η : Type} [LinearOrder τ] {maxTime : τ}

/-! ## The earliest time -/

namespace QueueGroup

theorem mem_queued {g : QueueGroup τ η} {x : Scheduled τ η} :
    x ∈ g.queued ↔ ∃ (i : Nat) (q : Heap time), g.queues[i]? = some q ∧ x ∈ q.elems := by
  rw [queued, mem_flatMap]
  constructor
  · rintro ⟨q, hq, hx⟩
    obtain ⟨i, hi⟩ := mem_iff_getElem?.1 hq
    exact ⟨i, q, hi, hx⟩
  · rintro ⟨i, q, hi, hx⟩
    exact ⟨q, mem_of_getElem? hi, hx⟩

/-- The loop of `earliestTimeInQueueGroup`: a lower bound of what it has seen, and one of it. -/
theorem earliestTime_foldl (qs : List (Heap (α := Scheduled τ η) time)) (t : τ) :
    let r := qs.foldl (fun earliestTime q =>
      match q.peek with
      | none => earliestTime
      | some x => if x.time < earliestTime then x.time else earliestTime) t
    r ≤ t ∧ (∀ q ∈ qs, ∀ x ∈ q.elems, r ≤ x.time) ∧ (r = t ∨ ∃ q ∈ qs, ∃ x ∈ q.elems, x.time = r) := by
  induction qs generalizing t with
  | nil => simp
  | cons q _ ih =>
    simp only [foldl_cons]
    cases hpeek : q.peek with
    | none =>
      obtain ⟨hle, hall, hmem⟩ := ih t
      refine ⟨hle, ?_, hmem.imp_right fun ⟨q', hq', h⟩ => ⟨q', mem_cons_of_mem _ hq', h⟩⟩
      intro q' hq' x hx
      rcases mem_cons.1 hq' with rfl | hq'
      · rw [Heap.peek_eq_none.1 hpeek] at hx
        cases hx
      · exact hall q' hq' x hx
    | some y =>
      simp only
      by_cases hlt : y.time < t
      · rw [if_pos hlt]
        obtain ⟨hle, hall, hmem⟩ := ih y.time
        refine ⟨le_trans hle (le_of_lt hlt), ?_, ?_⟩
        · intro q' hq' x hx
          rcases mem_cons.1 hq' with rfl | hq'
          · exact le_trans hle (Heap.peek_le hpeek x hx)
          · exact hall q' hq' x hx
        · right
          rcases hmem with heq | ⟨q', hq', h⟩
          · exact ⟨q, mem_cons_self .., y, Heap.mem_of_peek hpeek, heq.symm⟩
          · exact ⟨q', mem_cons_of_mem _ hq', h⟩
      · rw [if_neg hlt]
        obtain ⟨hle, hall, hmem⟩ := ih t
        refine ⟨hle, ?_, hmem.imp_right fun ⟨q', hq', h⟩ => ⟨q', mem_cons_of_mem _ hq', h⟩⟩
        intro q' hq' x hx
        rcases mem_cons.1 hq' with rfl | hq'
        · exact le_trans hle (le_trans (not_lt.1 hlt) (Heap.peek_le hpeek x hx))
        · exact hall q' hq' x hx

theorem earliestTime_le_max (g : QueueGroup τ η) : g.earliestTime maxTime ≤ maxTime := (earliestTime_foldl g.queues maxTime).1

theorem earliestTime_le {g : QueueGroup τ η} {x : Scheduled τ η} (hx : x ∈ g.queued) : g.earliestTime maxTime ≤ x.time := by
  obtain ⟨q, hq, hx⟩ := mem_flatMap.1 hx
  exact (earliestTime_foldl g.queues maxTime).2.1 q hq x hx

theorem earliestTime_mem (maxTime : τ) (g : QueueGroup τ η) :
    g.earliestTime maxTime = maxTime ∨ ∃ x ∈ g.queued, x.time = g.earliestTime maxTime := by
  refine (earliestTime_foldl g.queues maxTime).2.2.imp_right ?_
  rintro ⟨q, hq, x, hx, h⟩
  exact ⟨x, mem_flatMap.2 ⟨q, hq, hx⟩, h⟩

end QueueGroup

namespace ParallelEngine

variable {e e' : ParallelEngine τ η}

variable {x : Scheduled τ η}

theorem mem_pending : x ∈ e.pending ↔ (∃ b, x ∈ (e.group b).queued) ∨ ∃ w ∈ e.workers, x ∈ w.pending := by
  simp only [pending, mem_append, mem_flatMap, Bool.exists_bool]

theorem hasMoreEvents_eq_false : e.hasMoreEvents = false ↔ ∀ b, (e.group b).queued = [] := by
  simp only [hasMoreEvents, Bool.or_eq_false_iff, any_eq_false, decide_eq_true_eq, not_lt, Nat.le_zero, length_eq_zero_iff,
    QueueGroup.queued, flatMap_eq_nil_iff, Bool.forall_bool]

/-! ## Where the queues are -/

/-- The queues of a class that goroutines have in hand. -/
def held (e : ParallelEngine τ η) (b : Bool) : List Nat := e.workers.filterMap (Worker.held b)

/-- Between rounds: no goroutine, all queues in their channels, and of the class of the last round only events scheduled in it
are left at its time. -/
structure Resting (e : ParallelEngine τ η) : Prop where
  workers : e.workers = []
  tokens : ∀ b, (e.group b).chan.Perm (range (e.group b).queues.length)
  settled : ∀ x ∈ e.active.queued, x.time ≤ e.now → x.born = e.rounds.length

/-- `k` queues of the round were received. -/
structure Emptying (e : ParallelEngine τ η) (k : Nat) : Prop where
  workers : e.workers = []
  tokens : ∀ b, b ≠ e.runningSecondaryEvents → (e.group b).chan.Perm (range (e.group b).queues.length)
  received : e.active.chan.length + k = e.active.queues.length
  old : ∀ x ∈ e.active.queued, x.born < e.rounds.length

/-- The first `i` queues of the round were drained and given back. -/
structure Draining (e : ParallelEngine τ η) (i : Nat) : Prop where
  le : i ≤ e.active.queues.length
  tokens : ∀ b, ((e.group b).chan ++ e.held b).Perm
    (range (if b = e.runningSecondaryEvents then i else (e.group b).queues.length))
  old : ∀ (j : Nat) (q : Heap time), i ≤ j → e.active.queues[j]? = some q → ∀ x ∈ q.elems, x.born < e.rounds.length
  drained : ∀ (j : Nat) (q : Heap time), j < i → e.active.queues[j]? = some q → ∀ x ∈ q.elems, x.time ≤ e.now →
    x.born = e.rounds.length

/-- The phase of the main loop. -/
def Phase (e : ParallelEngine τ η) : Prop :=
  match e.main with
  | .stopped | .idle => e.Resting
  | .emptying k => e.Emptying k
  | .draining i => e.Draining i
  | .panicked _ => False

/-- Each group holds its own class, and each goroutine an event of the round. -/
structure Layout (e : ParallelEngine τ η) : Prop where
  own : ∀ b, ∀ x ∈ (e.group b).queued, x.secondary = b
  spawned : ∀ x, .spawned x ∈ e.workers → x.time = e.now ∧ x.secondary = e.runningSecondaryEvents ∧ x.born < e.rounds.length
  holding : ∀ x i new, .holding x i new ∈ e.workers → new.born = e.rounds.length
  phase : e.Phase

/-! ## Times and rounds of the pending events -/

/-- No pending event is in the past, and none was scheduled in a round to come. -/
structure Fresh (e : ParallelEngine τ η) : Prop where
  future : ∀ x ∈ e.pending, e.now ≤ x.time
  born : ∀ x ∈ e.pending, x.born ≤ e.rounds.length

theorem Quiet.mem_pending {news : List (Scheduled τ η)} {execs : List (Executed τ η)} (h : Quiet e e' news execs)
    (hx : x ∈ e'.pending) : x ∈ e.pending ∨ x ∈ news := by
  have hmem : x ∈ (↑e'.pending : Multiset (Scheduled τ η)) + ↑(execs.map Executed.event) := Multiset.mem_add.2 (.inl hx)
  rw [h.balance, Multiset.mem_add] at hmem
  exact hmem

theorem Fresh.quiet (hf : Fresh e) {news : List (Scheduled τ η)} {execs : List (Executed τ η)} (h : Quiet e e' news execs) :
    Fresh e' where
  future x hx := by
    rw [h.now]
    rcases h.mem_pending hx with hx | hx
    · exact hf.future x hx
    · exact (h.new x hx).1
  born x hx := by
    rw [h.rounds]
    rcases h.mem_pending hx with hx | hx
    · exact hf.born x hx
    · exact (h.new x hx).2.le

theorem determineWhatToRun_le (hworkers : e.workers = []) (hx : x ∈ e.pending) :
    (e.determineWhatToRun maxTime).now ≤ x.time := by
  have hqueued : x ∈ (e.group false).queued ∨ x ∈ (e.group true).queued := by
    simpa [pending, hworkers] using hx
  unfold determineWhatToRun
  simp only
  by_cases hle : (e.group false).earliestTime maxTime ≤ (e.group true).earliestTime maxTime
  · rw [if_pos hle]
    rcases hqueued with hx | hx
    · exact QueueGroup.earliestTime_le hx
    · exact le_trans hle (QueueGroup.earliestTime_le hx)
  · rw [if_neg hle]
    rcases hqueued with hx | hx
    · exact le_trans (le_of_lt (not_le.1 hle)) (QueueGroup.earliestTime_le hx)
    · exact QueueGroup.earliestTime_le hx

/-- A round of secondary events comes before all primary events. -/
theorem determineWhatToRun_first (h : (e.determineWhatToRun maxTime).runningSecondaryEvents = true)
    (hx : x ∈ (e.group false).queued) : (e.determineWhatToRun maxTime).now < x.time := by
  unfold determineWhatToRun at h ⊢
  simp only at h ⊢
  by_cases hle : (e.group false).earliestTime maxTime ≤ (e.group true).earliestTime maxTime
  · rw [if_pos hle] at h
    cases h
  · rw [if_neg hle]
    exact lt_of_lt_of_le (not_le.1 hle) (QueueGroup.earliestTime_le hx)

/-- `Run` can reach the time of the event: `maxTime` also stands for an empty group of queues. -/
def Runnable (maxTime : τ) (x : Scheduled τ η) : Prop := if x.secondary then x.time < maxTime else x.time ≤ maxTime

theorem determineWhatToRun_mem (hmore : e.hasMoreEvents = true) (hown : ∀ b, ∀ x ∈ (e.group b).queued, x.secondary = b)
    (hrun : ∀ b, ∀ x ∈ (e.group b).queued, Runnable maxTime x) :
    ∃ x ∈ (e.group (e.determineWhatToRun maxTime).runningSecondaryEvents).queued, x.time =
      (e.determineWhatToRun maxTime).now := by
  have hprimary : ∀ x ∈ (e.group false).queued, x.time ≤ maxTime := by
    intro x hx
    simpa [Runnable, hown false x hx] using hrun false x hx
  have hsecondary : ∀ x ∈ (e.group true).queued, x.time < maxTime := by
    intro x hx
    simpa [Runnable, hown true x hx] using hrun true x hx
  unfold determineWhatToRun
  simp only
  by_cases hle : (e.group false).earliestTime maxTime ≤ (e.group true).earliestTime maxTime
  · rw [if_pos hle]
    simp only
    rcases (e.group false).earliestTime_mem maxTime with hmax | hmem
    · -- no primary event is earlier than `maxTime`; there is one, for a secondary event would be
      cases hq : (e.group false).queued with
      | cons x =>
        have hx : x ∈ (e.group false).queued := hq ▸ mem_cons_self ..
        exact ⟨x, mem_cons_self .., le_antisymm ((hprimary x hx).trans_eq hmax.symm) (QueueGroup.earliestTime_le hx)⟩
      | nil =>
        cases hs : (e.group true).queued with
        | cons x _ =>
          have hx : x ∈ (e.group true).queued := hs ▸ mem_cons_self ..
          have hlt : (e.group true).earliestTime maxTime < maxTime :=
            lt_of_le_of_lt (QueueGroup.earliestTime_le hx) (hsecondary x hx)
          exact absurd (lt_of_le_of_lt (hmax.symm.trans_le hle) hlt) (lt_irrefl _)
        | nil =>
          have hnone : e.hasMoreEvents = false := hasMoreEvents_eq_false.2 (Bool.forall_bool.2 ⟨hq, hs⟩)
          rw [hmore] at hnone
          cases hnone
    · exact hmem
  · rw [if_neg hle]
    simp only
    rcases (e.group true).earliestTime_mem maxTime with hmax | hmem
    · rw [hmax] at hle
      exact absurd (e.group false).earliestTime_le_max hle
    · exact hmem

theorem pending_startRound : (e.startRound maxTime).pending = e.pending := by
  unfold startRound determineWhatToRun
  simp only
  split <;> rfl

theorem Fresh.startRound (hf : Fresh e) (hworkers : e.workers = []) : Fresh (e.startRound maxTime) where
  future x hx := by
    rw [pending_startRound] at hx
    exact determineWhatToRun_le hworkers hx
  born x hx := by
    rw [pending_startRound] at hx
    have hle := hf.born x hx
    have hlen : (e.startRound maxTime).rounds.length = e.rounds.length + 1 := length_append
    omega

/-! ## The layout is kept -/

omit [LinearOrder τ] in
theorem held_cons_perm (l r : List (Worker τ η)) (w : Worker τ η) (b : Bool) :
    ((l ++ w :: r).filterMap (Worker.held b)).Perm ((w.held b).toList ++ (l ++ r).filterMap (Worker.held b)) := by
  rw [filterMap_append, filterMap_append]
  cases hw : w.held b with
  | none =>
    rw [filterMap_cons_none hw]
    exact List.Perm.refl _
  | some =>
    rw [filterMap_cons_some hw]
    exact perm_middle

variable {g : QueueGroup τ η} {b : Bool}

theorem own_update (hown : ∀ b, ∀ x ∈ (e.group b).queued, x.secondary = b)
    (hg : ∀ x ∈ g.queued, x ∈ (e.group b).queued ∨ x.secondary = b) :
    ∀ c, ∀ x ∈ (update e.group b g c).queued, x.secondary = c := by
  intro c x hx
  by_cases hc : c = b
  · subst hc
    rw [update_self] at hx
    exact (hg x hx).elim (hown c x) id
  · rw [update_of_ne hc] at hx
    exact hown c x hx

variable {i : Nat}

theorem mem_setQueue {q' : Heap (α := Scheduled τ η) time}
    (hx : x ∈ (g.setQueue i q').queued) : x ∈ g.queued ∨ x ∈ q'.elems := by
  obtain ⟨q, hq, hx⟩ := mem_flatMap.1 hx
  rcases mem_or_eq_of_mem_set hq with hq | heq
  · exact .inl (mem_flatMap.2 ⟨q, hq, hx⟩)
  · exact .inr (heq ▸ hx)

theorem mem_queued_of_getElem? {q : Heap (α := Scheduled τ η) time}
    (hq : g.queues[i]? = some q) (hx : x ∈ q.elems) : x ∈ g.queued := QueueGroup.mem_queued.2 ⟨i, q, hq, hx⟩

theorem Layout.resting (h : Layout e) (hmain : e.main = .stopped ∨ e.main = .idle) : e.Resting := by
  have := h.phase
  rcases hmain with hmain | hmain
  · rwa [Phase, hmain] at this
  · rwa [Phase, hmain] at this

theorem Layout.emptying (h : Layout e) {k : Nat} (hmain : e.main = .emptying k) : e.Emptying k := by
  have := h.phase
  rwa [Phase, hmain] at this

theorem Layout.draining (h : Layout e) (hmain : e.main = .draining i) : e.Draining i := by
  have := h.phase
  rwa [Phase, hmain] at this

theorem Layout.draining_of_worker (h : Layout e) {w : Worker τ η} (hw : w ∈ e.workers) :
    ∃ i, e.main = .draining i ∧ e.Draining i := by
  have hphase := h.phase
  have hne : e.workers ≠ [] := ne_nil_of_mem hw
  cases hmain : e.main with
  | stopped => exact absurd (h.resting (.inl hmain)).workers hne
  | idle => exact absurd (h.resting (.inr hmain)).workers hne
  | emptying => exact absurd (h.emptying hmain).workers hne
  | draining i => exact ⟨i, rfl, h.draining hmain⟩
  | panicked =>
    rw [Phase, hmain] at hphase
    exact hphase.elim

/-- A change of one group and of the goroutines while the queues are drained: no queue is lost, and a queue gets new events
only after it was drained. -/
theorem Draining.change (h : e.Draining i) (hnow : e'.now = e.now)
    (hrounds : e'.rounds = e.rounds) (hrunning : e'.runningSecondaryEvents = e.runningSecondaryEvents)
    (hgroup : e'.group = update e.group b g) (hlen : g.queues.length = (e.group b).queues.length)
    (htokens : (g.chan ++ e'.held b).Perm ((e.group b).chan ++ e.held b)) (hheld : ∀ c, c ≠ b → (e'.held c).Perm (e.held c))
    (hqueues : ∀ (j : Nat) (q' : Heap time), g.queues[j]? = some q' → ∃ q, (e.group b).queues[j]? = some q ∧
      ∀ x ∈ q'.elems, x ∈ q.elems ∨ (x.born = e.rounds.length ∧ (b = e.runningSecondaryEvents → j < i))) : e'.Draining i := by
  have hlength : ∀ c, (e'.group c).queues.length = (e.group c).queues.length := by
    intro c
    rw [hgroup]
    by_cases hc : c = b
    · subst hc
      rw [update_self, hlen]
    · rw [update_of_ne hc]
  have hactive : ∀ (j : Nat) (q' : Heap time), e'.active.queues[j]? = some q' → ∃ q, e.active.queues[j]? = some q ∧
      ∀ x ∈ q'.elems, x ∈ q.elems ∨ (x.born = e.rounds.length ∧ j < i) := by
    intro j q' hq'
    rw [active, hrunning, hgroup] at hq'
    by_cases hc : e.runningSecondaryEvents = b
    · rw [hc, update_self] at hq'
      obtain ⟨q, hq, hx⟩ := hqueues j q' hq'
      exact ⟨q, by rwa [active, hc], fun x hx' => (hx x hx').imp_right fun ⟨hborn, hj⟩ => ⟨hborn, hj hc.symm⟩⟩
    · rw [update_of_ne hc] at hq'
      exact ⟨q', hq', fun x hx => .inl hx⟩
  refine ⟨?_, ?_, ?_, ?_⟩
  case refine_1 =>
    rw [active, hrunning, hlength]
    exact h.le
  case refine_2 =>
    intro c
    rw [hlength, hrunning]
    refine List.Perm.trans ?_ (h.tokens c)
    rw [hgroup]
    by_cases hc : c = b
    · subst hc
      rw [update_self]
      exact htokens
    · rw [update_of_ne hc]
      exact (hheld c hc).append_left _
  case refine_3 =>
    intro j q' hj hq' x hx
    obtain ⟨q, hq, hall⟩ := hactive j q' hq'
    rw [hrounds]
    rcases hall x hx with hx | ⟨-, _⟩
    · exact h.old j q hj hq x hx
    · omega
  case refine_4 =>
    intro j q' hj hq' x hx htime
    obtain ⟨q, hq, hall⟩ := hactive j q' hq'
    rw [hrounds]
    rcases hall x hx with hx | ⟨hborn, -⟩
    · exact h.drained j q hj hq x hx (hnow ▸ htime)
    · exact hborn

variable {l r : List (Worker τ η)}

omit [LinearOrder τ] in
theorem mem_replace {v w w' : Worker τ η} (h : v ∈ l ++ w' :: r) : v = w' ∨ v ∈ l ++ w :: r := by
  simp only [mem_append, mem_cons] at h ⊢
  tauto

theorem Draining.change_workers (h : e.Draining i) (hnow : e'.now = e.now) (hrounds : e'.rounds = e.rounds)
    (hrunning : e'.runningSecondaryEvents = e.runningSecondaryEvents) (hgroup : e'.group = e.group)
    (hheld : ∀ b, (e'.held b).Perm (e.held b)) : e'.Draining i := by
  refine h.change (b := false) (g := e.group false) hnow hrounds hrunning (hgroup.trans (update_eq_self ..).symm) rfl
    ((hheld false).append_left _) (fun c _ => hheld c) fun j q hq => ⟨q, hq, fun x hx => .inl hx⟩

/-- A goroutine changes and holds the queues it held. -/
theorem held_replace {w w' : Worker τ η} (hworkers : e.workers = l ++ w :: r)
    (hworkers' : e'.workers = l ++ w' :: r) (hw : w'.held b = w.held b) : (e'.held b).Perm (e.held b) := by
  rw [held, held, hworkers, hworkers']
  exact (held_cons_perm l r w' b).trans (hw ▸ (held_cons_perm l r w b).symm)

theorem Layout.begin (h : Layout e) (hworkers : e.workers = l ++ .spawned x :: r)
    (execs : List (Executed τ η)) : Layout { e with workers := l ++ .running x :: r, executed := execs } := by
  obtain ⟨_, hmain, hd⟩ := h.draining_of_worker (w := .spawned x) (by simp [hworkers])
  refine ⟨h.own, fun y hy => h.spawned y ?_, fun y j new hy => h.holding y j new ?_, ?_⟩
  · rw [hworkers]
    exact (mem_replace hy).resolve_left (by simp)
  · rw [hworkers]
    exact (mem_replace hy).resolve_left (by simp)
  · rw [Phase]
    simp only [hmain]
    exact hd.change_workers rfl rfl rfl rfl fun b => held_replace hworkers rfl rfl

theorem Layout.finish (h : Layout e) (hworkers : e.workers = l ++ .running x :: r) :
    Layout { e with workers := l ++ r } := by
  obtain ⟨_, hmain, hd⟩ := h.draining_of_worker (w := .running x) (by simp [hworkers])
  have hsub : ∀ w, w ∈ l ++ r → w ∈ e.workers := by
    intro w hw
    rw [hworkers]
    simp only [mem_append, mem_cons] at hw ⊢
    tauto
  refine ⟨h.own, fun y hy => h.spawned y (hsub _ hy), fun y j new hy => h.holding y j new (hsub _ hy), ?_⟩
  rw [Phase]
  simp only [hmain]
  refine hd.change_workers rfl rfl rfl rfl fun b => ?_
  simp only [held, hworkers]
  exact (held_cons_perm l r (.running x) b).symm

theorem Layout.take (h : Layout e) {evt : Event τ η} {rest : List Nat} (hworkers : e.workers = l ++ .running x :: r)
    (hchan : (e.group evt.secondary).chan = i :: rest) (scheduled : List (Scheduled τ η)) :
    Layout { e.setGroup evt.secondary { e.group evt.secondary with chan := rest } with
      workers := l ++ .holding x i ⟨evt, e.rounds.length⟩ :: r
      scheduled } := by
  obtain ⟨_, hmain, hd⟩ := h.draining_of_worker (w := .running x) (by simp [hworkers])
  refine ⟨own_update h.own fun _ hx => .inl hx, fun y hy => h.spawned y ?_, fun y j new hy => ?_, ?_⟩
  · rw [hworkers]
    exact (mem_replace hy).resolve_left (by simp)
  · rcases mem_replace (w := .running x) hy with heq | hmem
    · cases heq
      rfl
    · exact h.holding y j new (hworkers ▸ hmem)
  · rw [Phase]
    simp only [setGroup, hmain]
    refine hd.change rfl rfl rfl rfl rfl ?_ ?_ fun j q hq => ⟨q, hq, fun x hx => .inl hx⟩
    · simp only [held, hworkers, hchan]
      have h1 := held_cons_perm l r (.holding x i ⟨evt, e.rounds.length⟩) evt.secondary
      have h2 := held_cons_perm l r (.running x) evt.secondary
      simp only [Worker.held, secondary, if_true, toList_some, toList_none, nil_append] at h1 h2
      calc (rest ++ _).Perm (rest ++ ([i] ++ (l ++ r).filterMap (Worker.held evt.secondary))) := h1.append_left _
        List.Perm _ (i :: (rest ++ (l ++ r).filterMap (Worker.held evt.secondary))) := perm_middle
        List.Perm _ _ := (h2.symm.append_left _).cons i
    · intro c hc
      refine held_replace hworkers rfl ?_
      simp [Worker.held, secondary, Ne.symm hc]

theorem Layout.give (h : Layout e) {x new : Scheduled τ η} (hworkers : e.workers = l ++ .pushed x i new :: r) :
    Layout { e.setGroup new.secondary { e.group new.secondary with chan := (e.group new.secondary).chan ++ [i] } with
      workers := l ++ .running x :: r } := by
  obtain ⟨_, hmain, hd⟩ := h.draining_of_worker (w := .pushed x i new) (by simp [hworkers])
  refine ⟨own_update h.own fun _ hx => .inl hx, fun y hy => h.spawned y ?_, fun y j new' hy => h.holding y j new' ?_, ?_⟩
  · rw [hworkers]
    exact (mem_replace hy).resolve_left (by simp)
  · rw [hworkers]
    exact (mem_replace hy).resolve_left (by simp)
  · rw [Phase]
    simp only [setGroup, hmain]
    refine hd.change rfl rfl rfl rfl rfl ?_ ?_ fun j q hq => ⟨q, hq, fun x hx => .inl hx⟩
    · simp only [held, hworkers]
      have h1 := held_cons_perm l r (.pushed x i new) new.secondary
      have h2 := held_cons_perm l r (.running x) new.secondary
      simp only [Worker.held, if_true, toList_some, toList_none, nil_append] at h1 h2
      rw [append_assoc]
      exact ((h2.append_left [i]).trans h1.symm).append_left _
    · intro c hc
      refine held_replace hworkers rfl ?_
      simp [Worker.held, Ne.symm hc]

/-- A queue in hand was given back by the main loop before. -/
theorem Draining.lt_of_held {i j : Nat} (h : e.Draining i) (hj : j ∈ e.held b) :
    j < (e.group b).queues.length ∧ (b = e.runningSecondaryEvents → j < i) := by
  have hmem := (h.tokens b).mem_iff.1 (mem_append_right _ hj)
  rw [mem_range] at hmem
  by_cases hb : b = e.runningSecondaryEvents
  · rw [if_pos hb] at hmem
    have hle := h.le
    rw [active, ← hb] at hle
    exact ⟨lt_of_lt_of_le hmem hle, fun _ => hmem⟩
  · rw [if_neg hb] at hmem
    exact ⟨hmem, fun h => absurd h hb⟩

theorem mem_held {w : Worker τ η} (hw : w ∈ e.workers) (hheld : w.held b = some i) : i ∈ e.held b :=
  mem_filterMap.2 ⟨w, hw, hheld⟩

section
variable (h : Layout e)
include h

theorem Layout.push {x new : Scheduled τ η} {q : Heap time}
    (hworkers : e.workers = l ++ .holding x i new :: r) (hq : (e.group new.secondary).queues[i]? = some q) :
    Layout { e.setGroup new.secondary ((e.group new.secondary).setQueue i (q.insert new)) with
      workers := l ++ .pushed x i new :: r } := by
  obtain ⟨_, hmain, hd⟩ := h.draining_of_worker (w := .holding x i new) (by simp [hworkers])
  have hborn := h.holding x i new (by simp [hworkers])
  have hmem : i ∈ e.held new.secondary := mem_held (w := .holding x i new) (by simp [hworkers]) (by simp [Worker.held])
  have hlt := hd.lt_of_held hmem
  refine ⟨own_update h.own fun y hy => ?_, fun y hy => h.spawned y ?_, fun y j new' hy => h.holding y j new' ?_, ?_⟩
  · rcases mem_setQueue hy with hy | hy
    · exact .inl hy
    · rcases Heap.mem_insert.1 hy with rfl | hy
      · exact .inr rfl
      · exact .inl (mem_queued_of_getElem? hq hy)
  · rw [hworkers]
    exact (mem_replace hy).resolve_left (by simp)
  · rw [hworkers]
    exact (mem_replace hy).resolve_left (by simp)
  · rw [Phase]
    simp only [setGroup, hmain]
    have hheld : ∀ c, (((l ++ .pushed x i new :: r).filterMap (Worker.held c)).Perm (e.held c)) :=
      fun c => by
        rw [held, hworkers]
        exact (held_cons_perm l r _ c).trans (held_cons_perm l r (.holding x i new) c).symm
    refine hd.change rfl rfl rfl rfl (length_set ..) ((hheld _).append_left _) (fun c _ => hheld c) fun j q' hq' => ?_
    rw [QueueGroup.setQueue] at hq'
    by_cases hj : j = i
    · subst hj
      rw [getElem?_set_self hlt.1, some.injEq] at hq'
      refine ⟨q, hq, fun y hy => ?_⟩
      rw [← hq', Heap.mem_insert] at hy
      rcases hy with rfl | hy
      · exact .inr ⟨hborn, hlt.2⟩
      · exact .inl hy
    · rw [getElem?_set_ne (Ne.symm hj)] at hq'
      exact ⟨q', hq', fun y hy => .inl hy⟩

theorem Layout.spawn {q q' : Heap time} (hmain : e.main = .draining i)
    (hq : e.active.queues[i]? = some q) (hpop : q.pop = some (x, q')) (htime : x.time = e.now) :
    Layout { e.setGroup e.runningSecondaryEvents (e.active.setQueue i q') with workers := e.workers ++ [.spawned x] } := by
  have hd := h.draining hmain
  have hperm := (Heap.pop_spec hpop).2.1
  have hx : x ∈ q.elems := hperm.mem_iff.2 (mem_cons_self ..)
  have hheld : ∀ c, ((e.workers ++ [Worker.spawned x]).filterMap (Worker.held c)).Perm (e.held c) := fun c => by
    rw [held, filterMap_append]
    exact List.Perm.of_eq (append_nil _)
  refine ⟨own_update h.own fun y hy => ?_, fun y hy => ?_, fun y j new hy => ?_, ?_⟩
  · rcases mem_setQueue hy with hy | hy
    · exact .inl hy
    · exact .inl (mem_queued_of_getElem? hq (hperm.mem_iff.2 (mem_cons_of_mem _ hy)))
  · rcases mem_append.1 hy with hy | hy
    · exact h.spawned y hy
    · cases mem_singleton.1 hy
      exact ⟨htime, h.own _ x (mem_queued_of_getElem? hq hx), hd.old i q (Nat.le_refl _) hq x hx⟩
  · rcases mem_append.1 hy with hy | hy
    · exact h.holding y j new hy
    · cases mem_singleton.1 hy
  · rw [Phase]
    simp only [setGroup, hmain]
    refine hd.change rfl rfl rfl rfl (length_set ..) ((hheld _).append_left _) (fun c _ => hheld c) fun j p hp => ?_
    rw [QueueGroup.setQueue] at hp
    by_cases hj : j = i
    · subst hj
      have hlt := (List.getElem?_eq_some_iff.1 hq).1
      rw [getElem?_set_self hlt, some.injEq] at hp
      exact ⟨q, hq, fun y hy => .inl (hperm.mem_iff.2 (mem_cons_of_mem _ (hp ▸ hy)))⟩
    · rw [getElem?_set_ne (Ne.symm hj)] at hp
      exact ⟨p, hp, fun y hy => .inl hy⟩

theorem Layout.next {q : Heap time} (hmain : e.main = .draining i) (hq : e.active.queues[i]? = some q)
    (hpeek : ∀ x ∈ q.peek, e.now < x.time) :
    Layout { e.setGroup e.runningSecondaryEvents { e.active with chan := e.active.chan ++ [i] } with
      main := .draining (i + 1) } := by
  have hd := h.draining hmain
  refine ⟨own_update h.own fun _ hx => .inl hx, h.spawned, h.holding, ?_⟩
  have hqueues : ∀ (j : Nat) (p : Heap time),
      (update e.group e.runningSecondaryEvents { e.active with chan := e.active.chan ++ [i] }
        e.runningSecondaryEvents).queues[j]? =
        some p → e.active.queues[j]? = some p := by
    intro j p hp
    rwa [update_self] at hp
  refine ⟨?_, ?_, ?_, ?_⟩
  case refine_1 =>
    have hlt := (List.getElem?_eq_some_iff.1 hq).1
    simp only [active, setGroup, update_self]
    exact hlt
  case refine_2 =>
    intro c
    have htokens := h.draining hmain |>.tokens c
    by_cases hc : c = e.runningSecondaryEvents
    · subst hc
      simp only [setGroup, update_self, if_true, range_succ] at htokens ⊢
      calc
        (e.active.chan ++ [i] ++ e.held e.runningSecondaryEvents).Perm
          (e.active.chan ++ e.held e.runningSecondaryEvents ++ [i]) := by
            rw [append_assoc, append_assoc]
            exact perm_append_comm.append_left _
        List.Perm _ (range i ++ [i]) := htokens.append_right _
    · simpa only [setGroup, held, update_of_ne hc, if_neg hc] using htokens
  case refine_3 =>
    intro j p hj hp
    exact hd.old j p (by omega) (hqueues j p hp)
  case refine_4 =>
    intro j p hj hp x hx htime
    have hp' := hqueues j p hp
    by_cases hji : j = i
    · -- all that is left in the queue comes later
      subst hji
      rw [hq, some.injEq] at hp'
      subst hp'
      cases hfirst : q.peek with
      | none =>
        rw [Heap.peek_eq_none.1 hfirst] at hx
        cases hx
      | some y =>
        have hlt := lt_of_lt_of_le (hpeek y hfirst) (Heap.peek_le hfirst x hx)
        exact absurd htime (not_le.2 hlt)
    · exact hd.drained j p (by omega) hp' x hx htime

theorem Layout.wait (hmain : e.main = .draining e.active.queues.length) (hworkers : e.workers = []) :
    Layout { e with main := .idle } := by
  have hd := h.draining hmain
  refine ⟨h.own, h.spawned, h.holding, hworkers, fun b => ?_, fun x hx htime => ?_⟩
  · have htokens := hd.tokens b
    simp only [held, hworkers, filterMap_nil, append_nil] at htokens
    refine htokens.trans ?_
    split
    case isTrue hb =>
      subst hb
      exact List.Perm.refl _
    case isFalse => exact List.Perm.refl _
  · obtain ⟨j, q, hq, hx⟩ := QueueGroup.mem_queued.1 hx
    exact hd.drained j q (List.getElem?_eq_some_iff.1 hq).1 hq x hx htime

theorem Layout.empty {k i : Nat} {rest : List Nat} (hmain : e.main = .emptying k) (hchan : e.active.chan = i :: rest) :
    Layout { e.setGroup e.runningSecondaryEvents { e.active with chan := rest } with main := .emptying (k + 1) } := by
  have hem := h.emptying hmain
  refine ⟨own_update h.own fun _ hx => .inl hx, h.spawned, h.holding, hem.workers, fun b hb => ?_, ?_, fun x hx => ?_⟩
  · have hb' : b ≠ e.runningSecondaryEvents := hb
    simp only [setGroup, update_of_ne hb']
    exact hem.tokens b hb'
  · have hreceived := hem.received
    rw [hchan, length_cons] at hreceived
    simp only [active, setGroup, update_self] at hreceived ⊢
    omega
  · simp only [active, setGroup, update_self] at hx
    exact hem.old x hx

theorem Layout.emptied (hmain : e.main = .emptying e.active.queues.length) : Layout { e with main := .draining 0 } := by
  have hem := h.emptying hmain
  refine ⟨h.own, h.spawned, h.holding, Nat.zero_le _, fun b => ?_, fun j q _ hq x hx => ?_,
    fun j _ hj => absurd hj (Nat.not_lt_zero j)⟩
  · simp only [held, hem.workers, filterMap_nil, append_nil]
    by_cases hb : b = e.runningSecondaryEvents
    · subst hb
      have hreceived := hem.received
      rw [if_pos rfl, range_zero]
      exact List.Perm.of_eq (eq_nil_of_length_eq_zero (show e.active.chan.length = 0 by omega))
    · rw [if_neg hb]
      exact hem.tokens b hb
  · exact hem.old x (mem_queued_of_getElem? hq hx)

theorem Layout.startRound (hf : Fresh e) (hmain : e.main = .idle) : Layout (e.startRound maxTime) := by
  have hr := h.resting (.inr hmain)
  have hgroup : (e.startRound maxTime).group = e.group := by
    unfold ParallelEngine.startRound determineWhatToRun
    simp only
    split <;> rfl
  have hworkers : (e.startRound maxTime).workers = [] := by
    unfold ParallelEngine.startRound determineWhatToRun
    simp only
    split <;> exact hr.workers
  have hlen : (e.startRound maxTime).rounds.length = e.rounds.length + 1 := length_append
  refine ⟨fun b => hgroup ▸ h.own b, fun x hx => ?_, fun x i new hx => ?_, hworkers, fun b _ => hgroup ▸ hr.tokens b, ?_,
    fun x hx => ?_⟩
  · rw [hworkers] at hx
    cases hx
  · rw [hworkers] at hx
    cases hx
  · rw [active, hgroup, (hr.tokens _).length_eq, length_range, Nat.add_zero]
  · rw [active, hgroup] at hx
    have hle := hf.born x (mem_pending.2 (.inl ⟨_, hx⟩))
    rw [hlen]
    omega

theorem Layout.schedule {evt : Event τ η} {rest : List Nat} {q : Heap time} (hmain : e.main = .stopped)
    (hchan : (e.group evt.secondary).chan = i :: rest) (hq : (e.group evt.secondary).queues[i]? = some q)
    (scheduled : List (Scheduled τ η)) :
    Layout { e.setGroup evt.secondary
      { queues := (e.group evt.secondary).queues.set i (q.insert ⟨evt, e.rounds.length⟩), chan := rest ++ [i] }
        with scheduled } := by
  have hr := h.resting (.inl hmain)
  have hnew : ∀ x ∈ QueueGroup.queued
      { queues := (e.group evt.secondary).queues.set i (q.insert ⟨evt, e.rounds.length⟩), chan := rest ++ [i] },
      x ∈ (e.group evt.secondary).queued ∨ x = ⟨evt, e.rounds.length⟩ := by
    intro x hx
    rcases mem_setQueue (g := e.group evt.secondary) hx with hx | hx
    · exact .inl hx
    · rcases Heap.mem_insert.1 hx with rfl | hx
      · exact .inr rfl
      · exact .inl (mem_queued_of_getElem? hq hx)
  refine ⟨own_update h.own fun x hx => (hnew x hx).imp_right fun heq => by rw [heq]; rfl, h.spawned, h.holding, ?_⟩
  rw [Phase]
  simp only [setGroup, hmain]
  refine ⟨hr.workers, fun b => ?_, fun x hx htime => ?_⟩
  · by_cases hb : b = evt.secondary
    · subst hb
      have htokens := hr.tokens evt.secondary
      rw [hchan] at htokens
      simp only [update_self, length_set]
      exact (perm_append_singleton i rest).trans htokens
    · simp only [update_of_ne hb]
      exact hr.tokens b
  · simp only [active] at hx
    by_cases hb : e.runningSecondaryEvents = evt.secondary
    · rw [hb, update_self] at hx
      rcases hnew x hx with hx | rfl
      · exact hr.settled x (by rwa [active, hb]) htime
      · rfl
    · rw [update_of_ne hb] at hx
      exact hr.settled x hx htime

theorem Layout.rest (hr : e.Resting) {main : MainLoop} (hmain : main = .stopped ∨ main = .idle) :
    Layout { e with main } := by
  refine ⟨h.own, h.spawned, h.holding, ?_⟩
  rcases hmain with rfl | rfl
  · exact ⟨hr.workers, hr.tokens, hr.settled⟩
  · exact ⟨hr.workers, hr.tokens, hr.settled⟩

theorem Layout.step (hf : Fresh e) (hstep : Step maxTime e e') : Layout e' := by
  cases hstep with
  | schedule hmain _ hchan hq => exact h.schedule hmain hchan hq _
  | run hmain => exact h.rest (h.resting (.inl hmain)) (.inr rfl)
  | «return» hmain hmore => exact h.rest (h.resting (.inr hmain)) (.inl rfl)
  | round hmain => exact h.startRound hf hmain
  | empty hmain _ hchan => exact h.empty hmain hchan
  | emptied hmain => exact h.emptied hmain
  | spawn hmain hq hpop htime => exact h.spawn hmain hq hpop htime
  | past _ hq hpeek htime =>
    have hx := mem_queued_of_getElem? hq (Heap.mem_of_peek hpeek)
    exact absurd htime (not_lt.2 (hf.future _ (mem_pending.2 (.inl ⟨_, hx⟩))))
  | next hmain hq hpeek => exact h.next hmain hq hpeek
  | wait hmain hworkers => exact h.wait hmain hworkers
  | begin hworkers => exact h.begin hworkers _
  | beginPast hworkers htime => exact absurd htime (not_lt.2 (h.spawned _ (by simp [hworkers])).1.ge)
  | take hworkers _ hchan => exact h.take hworkers hchan _
  | push hworkers hq => exact h.push hworkers hq
  | give hworkers => exact h.give hworkers
  | finish hworkers => exact h.finish hworkers

end

end ParallelEngine

end Akita.Sim
