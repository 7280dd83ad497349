import Akita.Sim.Parallel.Layout

/-!
# Rounds of the parallel engine

* `Chronicle` : the rounds and the executed events so far;
* `parallel_correct` : what holds in every state a run reaches;
* `never_runs` : a secondary event at `maxTime`.
-/

namespace Akita.Sim
open Option Function
open List hiding getElem?_eq_some_iff
open Multiset (coe_add coe_eq_coe filter_add filter_eq_nil mem_coe)
open Executed (event)

variable {τ η : Type} [LinearOrder τ] {maxTime : τ}

/-- The events of a round: those pending at its start that have its time and its class. -/
def Round.events (r : Round τ η) : List (Scheduled τ η) :=
  r.pending.filter fun x => x.time = r.time ∧ x.secondary = r.secondary

namespace ParallelEngine

variable {e e' : ParallelEngine τ η}

/-- The events executed in round `k`. -/
def executedIn (e : ParallelEngine τ η) (k : Nat) : List (Scheduled τ η) := (e.executed.filter (·.round = k)).map event

/-- The rounds and the executed events so far. -/
structure Chronicle (e : ParallelEngine τ η) : Prop where
  once : (↑(e.executed.map event) : Multiset (Scheduled τ η)) + ↑e.pending = ↑e.scheduled
  times : ∀ r ∈ e.rounds, r.time ≤ e.now
  ordered : (e.rounds.map Round.time).Pairwise (· ≤ ·)
  first : ∀ r ∈ e.rounds, r.secondary = true → ∀ x ∈ r.pending, x.secondary = false → r.time < x.time
  nonempty : ∀ r ∈ e.rounds, r.events ≠ []
  runs : ∀ y ∈ e.executed, ∃ r, e.rounds[y.round]? = some r ∧ y.now = r.time ∧ y.event.time = r.time ∧
    y.event.secondary = r.secondary ∧ y.event.born ≤ y.round
  past : ∀ k r, e.rounds[k]? = some r → k + 1 < e.rounds.length → (e.executedIn k).Perm r.events
  last : ∀ r, e.rounds[e.rounds.length - 1]? = some r → r.time = e.now ∧ r.secondary = e.runningSecondaryEvents ∧
    (∀ x ∈ r.pending, x.born < e.rounds.length) ∧ ∃ news : List (Scheduled τ η), (∀ x ∈ news, x.born = e.rounds.length) ∧
      (↑(e.executedIn (e.rounds.length - 1)) : Multiset (Scheduled τ η)) + ↑e.pending = ↑r.pending + ↑news

theorem executedIn_append {k : Nat} {execs : List (Executed τ η)} (h : e'.executed = e.executed ++ execs) :
    e'.executedIn k = e.executedIn k ++ (execs.filter (·.round = k)).map event := by
  rw [executedIn, h, filter_append, map_append]
  rfl

theorem Chronicle.quiet (hc : Chronicle e) (hl : Layout e) {news : List (Scheduled τ η)} {execs : List (Executed τ η)}
    (h : Quiet e e' news execs) : Chronicle e' := by
  have hround : ∀ y ∈ execs, y.round = e.rounds.length - 1 ∧ 0 < e.rounds.length := by
    intro y hy
    have hborn := (hl.spawned _ (h.exec y hy).1).2.2
    exact ⟨(h.exec y hy).2.1, by omega⟩
  refine ⟨?_, ?_, ?_, ?_, ?_, ?_, ?_, ?_⟩
  case refine_1 =>
    rw [h.executed, h.scheduled, map_append, ← coe_add, ← coe_add, ← hc.once, add_assoc, add_assoc, ← h.balance,
      add_comm (↑(execs.map event) : Multiset (Scheduled τ η))]
  case refine_2 =>
    rw [h.rounds, h.now]
    exact hc.times
  case refine_3 =>
    rw [h.rounds]
    exact hc.ordered
  case refine_4 =>
    rw [h.rounds]
    exact hc.first
  case refine_5 =>
    rw [h.rounds]
    exact hc.nonempty
  case refine_6 =>
    intro y hy
    rw [h.executed] at hy
    rw [h.rounds]
    rcases mem_append.1 hy with hy | hy
    · exact hc.runs y hy
    · obtain ⟨hmem, hk, hnow⟩ := h.exec y hy
      obtain ⟨htime, hsecondary, hborn⟩ := hl.spawned _ hmem
      have hlast := getElem?_eq_getElem (show e.rounds.length - 1 < e.rounds.length by omega)
      obtain ⟨hr, hs, -⟩ := hc.last _ hlast
      refine ⟨_, by rw [hk, hlast], hnow.trans hr.symm, htime.trans hr.symm, hsecondary.trans hs.symm, ?_⟩
      omega
  case refine_7 =>
    intro k r hk hlt
    rw [h.rounds] at hk hlt
    rw [executedIn_append h.executed]
    have hnone : execs.filter (·.round = k) = [] := by
      rw [filter_eq_nil_iff]
      intro y hy
      have := hround y hy
      simp only [decide_eq_true_eq]
      omega
    rw [hnone, map_nil, append_nil]
    exact hc.past k r hk hlt
  case refine_8 =>
    intro r hr
    rw [h.rounds] at hr ⊢
    obtain ⟨htime, hsecondary, hborn, news', hnews', hbalance⟩ := hc.last r hr
    refine ⟨htime.trans h.now.symm, hsecondary.trans h.running.symm, hborn, news' ++ news, ?_, ?_⟩
    · intro x hx
      rcases mem_append.1 hx with hx | hx
      · exact hnews' x hx
      · exact (h.new x hx).2
    · have hall : execs.filter (·.round = e.rounds.length - 1) = execs := by
        rw [filter_eq_self]
        intro y hy
        simpa using (hround y hy).1
      rw [executedIn_append h.executed, hall, ← coe_add, ← coe_add, ← add_assoc, ← hbalance, add_assoc, add_assoc,
        ← h.balance, add_comm (↑(execs.map event) : Multiset (Scheduled τ η))]

/-- Between rounds, the last round has executed its events and no other. -/
theorem Chronicle.complete (hc : Chronicle e) (hl : Layout e) (hr : Resting e) {r : Round τ η}
    (hlast : e.rounds[e.rounds.length - 1]? = some r) : (e.executedIn (e.rounds.length - 1)).Perm r.events := by
  obtain ⟨htime, hsecondary, hborn, news, hnews, hbalance⟩ := hc.last r hlast
  have hlen := (List.getElem?_eq_some_iff.1 hlast).1
  have hfilter := congrArg (Multiset.filter fun x => x.born < e.rounds.length ∧ x.time = r.time ∧ x.secondary = r.secondary)
    hbalance
  rw [filter_add, filter_add] at hfilter
  have hexecuted : Multiset.filter (fun x => x.born < e.rounds.length ∧ x.time = r.time ∧ x.secondary = r.secondary)
      (↑(e.executedIn (e.rounds.length - 1)) : Multiset (Scheduled τ η)) = ↑(e.executedIn (e.rounds.length - 1)) := by
    rw [Multiset.filter_eq_self]
    intro x hx
    obtain ⟨y, hy, rfl⟩ := mem_map.1 (mem_coe.1 hx)
    obtain ⟨hy, hk⟩ := mem_filter.1 hy
    rw [decide_eq_true_eq] at hk
    obtain ⟨_, hr', -, htime', hsecondary', _⟩ := hc.runs y hy
    rw [hk, hlast, some.injEq] at hr'
    subst hr'
    exact ⟨by omega, htime', hsecondary'⟩
  have hpending : Multiset.filter (fun x => x.born < e.rounds.length ∧ x.time = r.time ∧ x.secondary = r.secondary)
      (↑e.pending : Multiset (Scheduled τ η)) = 0 := by
    rw [filter_eq_nil]
    rintro x hx ⟨hb, ht, hs⟩
    rcases mem_pending.1 (mem_coe.1 hx) with ⟨b, hx⟩ | ⟨_, hw, -⟩
    · have hb' : b = e.runningSecondaryEvents := by rw [← hl.own b x hx, hs, hsecondary]
      have := hr.settled x (by rwa [active, ← hb']) (ht.trans htime).le
      omega
    · rw [hr.workers] at hw
      cases hw
  have hnew : Multiset.filter (fun x => x.born < e.rounds.length ∧ x.time = r.time ∧ x.secondary = r.secondary)
      (↑news : Multiset (Scheduled τ η)) = 0 := by
    rw [filter_eq_nil]
    rintro x hx ⟨hb, -⟩
    have := hnews x hx
    omega
  have hold : Multiset.filter (fun x => x.born < e.rounds.length ∧ x.time = r.time ∧ x.secondary = r.secondary)
      (↑r.pending : Multiset (Scheduled τ η)) = ↑r.events := by
    rw [Multiset.filter_coe, Round.events]
    congr 1
    apply filter_congr
    intro x hx
    simp [hborn x hx]
  rw [hexecuted, hpending, hnew, hold, add_zero, add_zero] at hfilter
  exact coe_eq_coe.1 hfilter

theorem Chronicle.mem_scheduled (hc : Chronicle e) {x : Scheduled τ η} (hx : x ∈ e.pending) : x ∈ e.scheduled := by
  have hmem : x ∈ (↑(e.executed.map event) : Multiset (Scheduled τ η)) + ↑e.pending := Multiset.mem_add.2 (.inr hx)
  rwa [hc.once] at hmem

theorem Chronicle.startRound (hc : Chronicle e) (hl : Layout e) (hf : Fresh e) (hmain : e.main = .idle)
    (hmore : e.hasMoreEvents = true) (hrun : ∀ x ∈ e.scheduled, Runnable maxTime x) : Chronicle (e.startRound maxTime) := by
  have hr := hl.resting (.inr hmain)
  obtain ⟨_, hexecuted, hscheduled⟩ : (e.startRound maxTime).group = e.group ∧ (e.startRound maxTime).executed = e.executed ∧
      (e.startRound maxTime).scheduled = e.scheduled := by
    unfold ParallelEngine.startRound determineWhatToRun
    simp only
    split <;> exact ⟨rfl, rfl, rfl⟩
  have hpending : (e.startRound maxTime).pending = e.pending := pending_startRound
  have hin : ∀ b, ∀ x ∈ (e.group b).queued, x ∈ e.pending := fun b x hx => mem_pending.2 (.inl ⟨b, hx⟩)
  obtain ⟨x₀, hx₀, htime₀⟩ := @determineWhatToRun_mem τ η _ maxTime e hmore hl.own
    fun b x hx => hrun x (hc.mem_scheduled (hin b x hx))
  have hle : e.now ≤ (e.startRound maxTime).now := (hf.future x₀ (hin _ x₀ hx₀)).trans_eq htime₀
  -- the new round comes last
  obtain ⟨r₀, hr₀⟩ : ∃ r, r = (⟨(e.startRound maxTime).now, (e.startRound maxTime).runningSecondaryEvents, e.pending⟩ : Round
      τ η) :=
    ⟨_, rfl⟩
  have hrounds : (e.startRound maxTime).rounds = e.rounds ++ [r₀] := by
    rw [hr₀]
    rfl
  have hlen : (e.startRound maxTime).rounds.length = e.rounds.length + 1 := by rw [hrounds, length_append, length_singleton]
  have hin' : ∀ k, (e.startRound maxTime).executedIn k = e.executedIn k := fun k => by rw [executedIn, hexecuted, executedIn]
  have hbefore : ∀ y ∈ e.executed, y.round < e.rounds.length := by
    intro y hy
    obtain ⟨r, hr, -⟩ := hc.runs y hy
    exact (List.getElem?_eq_some_iff.1 hr).1
  refine ⟨?_, ?_, ?_, ?_, ?_, ?_, ?_, ?_⟩
  case refine_1 => rw [hexecuted, hpending, hscheduled, hc.once]
  case refine_2 =>
    intro r hr
    rw [hrounds] at hr
    rcases mem_append.1 hr with hr | hr
    · exact le_trans (hc.times r hr) hle
    · rw [mem_singleton.1 hr, hr₀]
  case refine_3 =>
    rw [hrounds, map_append, pairwise_append]
    refine ⟨hc.ordered, pairwise_singleton .., fun t ht u hu => ?_⟩
    obtain ⟨r, hr, rfl⟩ := mem_map.1 ht
    rw [map_singleton, mem_singleton] at hu
    rw [hu, hr₀]
    exact le_trans (hc.times r hr) hle
  case refine_4 =>
    intro r hr hsecondary x hx hprimary
    rw [hrounds] at hr
    rcases mem_append.1 hr with hr | hr
    · exact hc.first r hr hsecondary x hx hprimary
    · rw [mem_singleton.1 hr, hr₀] at hsecondary hx ⊢
      rcases mem_pending.1 hx with ⟨b, hx⟩ | ⟨_, hw, -⟩
      · obtain rfl : b = false := by rw [← hl.own b x hx, hprimary]
        exact determineWhatToRun_first hsecondary hx
      · rw [hl.resting (.inr hmain) |>.workers] at hw
        cases hw
  case refine_5 =>
    intro r hr
    rw [hrounds] at hr
    rcases mem_append.1 hr with hr | hr
    · exact hc.nonempty r hr
    · rw [mem_singleton.1 hr, hr₀]
      apply ne_nil_of_mem (a := x₀)
      rw [Round.events, mem_filter, decide_eq_true_eq]
      exact ⟨hin _ x₀ hx₀, htime₀, hl.own _ x₀ hx₀⟩
  case refine_6 =>
    intro y hy
    rw [hexecuted] at hy
    obtain ⟨r, hr, h⟩ := hc.runs y hy
    exact ⟨r, by rw [hrounds, getElem?_append_left (hbefore y hy), hr], h⟩
  case refine_7 =>
    intro k r hk hlt
    rw [hlen] at hlt
    rw [hrounds, getElem?_append_left (by omega)] at hk
    rw [hin' k]
    by_cases hlast : k + 1 < e.rounds.length
    · exact hc.past k r hk hlast
    · obtain rfl : k = e.rounds.length - 1 := by omega
      exact hc.complete hl hr hk
  case refine_8 =>
    intro r hlast
    rw [hlen, Nat.add_sub_cancel, hrounds, getElem?_append_right (Nat.le_refl _), Nat.sub_self] at hlast
    have hlast' : r₀ = r := some.inj hlast
    rw [← hlast', hr₀]
    refine ⟨rfl, rfl, fun x hx => ?_, [], by simp, ?_⟩
    · have := hf.born x hx
      omega
    · have hnone : e.executed.filter (·.round = e.rounds.length) = [] := by
        rw [filter_eq_nil_iff]
        intro y hy
        have := hbefore y hy
        simp only [decide_eq_true_eq]
        omega
      rw [hlen, Nat.add_sub_cancel, hin', executedIn, hnone, hpending]
      simp

/-! ## Runs -/

/-- `e` is reached from an engine with `n` queues of each class. -/
def Reaches (maxTime : τ) (n : Nat) (now : τ) (e : ParallelEngine τ η) : Prop :=
  Relation.ReflTransGen (Step maxTime) (new n now) e

theorem queued_new (n : Nat) (now : τ) (b : Bool) : ((new n now : ParallelEngine τ η).group b).queued = [] := by
  simp [new, QueueGroup.queued, flatMap_replicate]

theorem Layout.new (n : Nat) (now : τ) : Layout (new n now : ParallelEngine τ η) where
  own b x hx := by
    rw [queued_new] at hx
    cases hx
  spawned x hx := by cases hx
  holding x i new hx := by cases hx
  phase := by
    refine ⟨rfl, fun b => ?_, fun x hx => ?_⟩
    · simp [ParallelEngine.new]
    · rw [active, queued_new] at hx
      cases hx

theorem pending_new (n : Nat) (now : τ) : (new n now : ParallelEngine τ η).pending = [] := by
  simp only [pending, queued_new]
  rfl

theorem Fresh.new (n : Nat) (now : τ) : Fresh (new n now : ParallelEngine τ η) where
  future x hx := by
    rw [pending_new] at hx
    cases hx
  born x hx := by
    rw [pending_new] at hx
    cases hx

theorem Chronicle.new (n : Nat) (now : τ) : Chronicle (new n now : ParallelEngine τ η) where
  once := by
    rw [pending_new]
    rfl
  times _ hr := absurd hr not_mem_nil
  ordered := List.Pairwise.nil
  first _ hr := absurd hr not_mem_nil
  nonempty _ hr := absurd hr not_mem_nil
  runs _ hy := absurd hy not_mem_nil
  past k r hk := by cases hk
  last r hr := by cases hr

theorem Reaches.layout {n : Nat} {now : τ} (h : Reaches maxTime n now e) : Layout e ∧ Fresh e := by
  induction h with
  | refl => exact ⟨Layout.new n now, Fresh.new n now⟩
  | tail _ hstep ih =>
    obtain ⟨hl, hf⟩ := ih
    refine ⟨hl.step hf hstep, ?_⟩
    rcases hstep.quiet_or_round with ⟨_, _, hquiet⟩ | ⟨hmain, -, rfl⟩
    · exact hf.quiet hquiet
    · exact hf.startRound (hl.resting (.inr hmain)).workers

theorem Reaches.chronicle {n : Nat} {now : τ} (h : Reaches maxTime n now e) (hrun : ∀ x ∈ e.scheduled, Runnable maxTime x) :
    Chronicle e := by
  induction h with
  | refl => exact Chronicle.new n now
  | tail hreach hstep ih =>
    obtain ⟨hl, hf⟩ := Reaches.layout hreach
    rcases hstep.quiet_or_round with ⟨_, _, hquiet⟩ | ⟨hmain, hmore, rfl⟩
    · refine (ih fun x hx => hrun x ?_).quiet hl hquiet
      rw [hquiet.scheduled]
      exact mem_append_left _ hx
    · have hrun' := fun x hx => hrun x (by unfold ParallelEngine.startRound determineWhatToRun; simp only; split <;> exact hx)
      exact (ih hrun').startRound hl hf hmain hmore hrun'

theorem Layout.continues (h : Layout e) (hf : Fresh e) (hmain : e.main ≠ .stopped) : ∃ e', Step maxTime e e' := by
  have hphase := h.phase
  cases hm : e.main with
  | stopped => exact absurd hm hmain
  | idle =>
    cases hmore : e.hasMoreEvents with
    | true => exact ⟨_, .round hm hmore⟩
    | false => exact ⟨_, .return hm hmore⟩
  | emptying =>
    have hreceived := (h.emptying hm).received
    cases hchan : e.active.chan with
    | nil =>
      rw [hchan, length_nil, Nat.zero_add] at hreceived
      exact ⟨_, .emptied (hreceived ▸ hm)⟩
    | cons =>
      rw [hchan, length_cons] at hreceived
      exact ⟨_, .empty hm (by omega) hchan⟩
  | draining i =>
    have hd := h.draining hm
    rcases Nat.lt_or_ge i e.active.queues.length with hi | hi
    · have hq := getElem?_eq_getElem hi
      cases hpop : e.active.queues[i].pop with
      | none =>
        have hnone := Heap.peek_eq_none.2 (Heap.pop_eq_none.1 hpop)
        exact ⟨_, .next hm hq (by simp [hnone])⟩
      | some p =>
        obtain ⟨x, _⟩ := p
        obtain ⟨hpeek, _, -⟩ := Heap.pop_spec hpop
        have hx := mem_queued_of_getElem? hq (Heap.mem_of_peek hpeek)
        rcases eq_or_lt_of_le (hf.future x (mem_pending.2 (.inl ⟨_, hx⟩))) with htime | htime
        · exact ⟨_, .spawn hm hq hpop htime.symm⟩
        · refine ⟨_, .next hm hq fun y hy => ?_⟩
          rw [mem_def, hpeek, some.injEq] at hy
          rwa [← hy]
    · cases hworkers : e.workers with
      | nil => exact ⟨_, .wait (hm.trans (congrArg MainLoop.draining (Nat.le_antisymm hd.le hi))) hworkers⟩
      | cons w ws =>
        have hsplit : e.workers = [] ++ w :: ws := hworkers
        cases w with
        | spawned x =>
          have htime := (h.spawned x (by simp [hworkers])).1
          exact ⟨_, .begin hsplit (not_lt.2 htime.ge)⟩
        | running => exact ⟨_, .finish hsplit⟩
        | holding x j new =>
          have hmem : j ∈ e.held new.secondary :=
            mem_held (w := .holding x j new) (by simp [hworkers]) (by simp [Worker.held])
          exact ⟨_, .push hsplit (getElem?_eq_getElem (hd.lt_of_held hmem).1)⟩
        | pushed => exact ⟨_, .give hsplit⟩
  | panicked =>
    rw [Phase, hm] at hphase
    exact hphase.elim

/-- The parallel engine in a state that a run reaches. -/
structure Correct (maxTime : τ) (e : ParallelEngine τ η) : Prop where
  /-- No scheduled event is lost, none is executed twice. -/
  once : (e.executed.map event ++ e.pending).Perm e.scheduled
  all : e.main = .idle → e.hasMoreEvents = false → (e.executed.map event).Perm e.scheduled
  ordered : (e.rounds.map Round.time).Pairwise (· ≤ ·)
  /-- A secondary round starts when no primary event of its time or before is pending. -/
  first : ∀ r ∈ e.rounds, r.secondary = true → ∀ x ∈ r.pending, x.secondary = false → r.time < x.time
  /-- An event is executed in a round of its time and its class, started after the event was scheduled. -/
  runs : ∀ y ∈ e.executed, ∃ r, e.rounds[y.round]? = some r ∧ y.now = r.time ∧ y.event.time = r.time ∧
    y.event.secondary = r.secondary ∧ y.event.born ≤ y.round
  /-- A round that is over has executed all events of its time and class that were pending at its start, and no other. -/
  rounds : ∀ k r, e.rounds[k]? = some r → k + 1 < e.rounds.length ∨ e.main = .idle ∨ e.main = .stopped →
    (e.executedIn k).Perm r.events
  nonempty : ∀ r ∈ e.rounds, r.events ≠ []
  noPanic : ∀ s, e.main ≠ .panicked s
  continues : e.main ≠ .stopped → ∃ e', Step maxTime e e'

/-- Every run with event times that `maxTime` does not stand for is correct. -/
theorem parallel_correct {n : Nat} {now : τ} (h : Reaches maxTime n now e) (hrun : ∀ x ∈ e.scheduled, Runnable maxTime x) :
    Correct maxTime e := by
  obtain ⟨hl, hf⟩ := h.layout
  have hc := h.chronicle hrun
  have honce : (e.executed.map event ++ e.pending).Perm e.scheduled := by
    rw [← coe_eq_coe, ← coe_add]
    exact hc.once
  refine ⟨honce, fun hmain hmore => ?_, hc.ordered, hc.first, hc.runs, fun k r hk hover => ?_, hc.nonempty, fun s hmain => ?_,
    hl.continues hf⟩
  · have hnone : e.pending = [] := by
      simp only [pending, hasMoreEvents_eq_false.1 hmore, (hl.resting (.inr hmain)).workers]
      rfl
    rwa [hnone, append_nil] at honce
  · by_cases hlast : k + 1 < e.rounds.length
    · exact hc.past k r hk hlast
    · have hlt := (List.getElem?_eq_some_iff.1 hk).1
      obtain rfl : k = e.rounds.length - 1 := by omega
      exact hc.complete hl (hl.resting (hover.resolve_left hlast).symm) hk
  · have hphase := hl.phase
    rw [Phase, hmain] at hphase
    exact hphase

/-- A primary event at time 3 is executed and schedules a secondary event for the same time, which is pending when the round
is over. -/
theorem parallel_correct_cascade : ∃ e : ParallelEngine Nat Unit, (e.main = .idle ∧ e.hasMoreEvents = true ∧
    e.executed.map (fun y => (y.event.event, y.round)) = [(⟨3, (), false⟩, 0)] ∧
    e.pending.map Scheduled.event = [⟨3, (), true⟩]) ∧ Correct 10 e := by
  have hschedule := @Step.schedule Nat Unit _ 10 (new 1 0) ⟨3, (), false⟩ 0 [] (Heap.empty _) rfl (Nat.zero_le _) rfl rfl
  have hround := ((Relation.ReflTransGen.single hschedule).tail (.run rfl)).tail (.round rfl rfl)
  have hspawn := ((hround.tail (.empty rfl (by decide) rfl)).tail (.emptied rfl)).tail (.spawn rfl rfl rfl rfl)
  have hhandler := (hspawn.tail (.begin (l := []) rfl (by decide))).tail
    (.take (l := []) rfl (show 3 ≤ Event.time ⟨3, (), true⟩ by decide) rfl)
  have hfinish := ((hhandler.tail (.push (l := []) rfl rfl)).tail (.give (l := []) rfl)).tail (.finish (l := []) rfl)
  have hreach := (hfinish.tail (.next rfl rfl fun _ hx => by cases hx)).tail (.wait rfl rfl)
  refine ⟨_, ⟨rfl, rfl, rfl, rfl⟩, parallel_correct hreach fun x hx => ?_⟩
  have hx : x ∈ [⟨⟨3, (), false⟩, 0⟩, ⟨⟨3, (), true⟩, 1⟩] := hx
  simp only [mem_cons, not_mem_nil, or_false] at hx
  rcases hx with rfl | rfl <;> simp [Runnable, Scheduled.secondary, Scheduled.time]

/-! ## The sentinel time -/

/-- Nothing but secondary events at `maxTime` or after it. -/
structure Stuck (maxTime : τ) (e : ParallelEngine τ η) : Prop where
  workers : e.workers = []
  executed : e.executed = []
  primary : (e.group false).queued = []
  secondary : ∀ x ∈ (e.group true).queued, maxTime ≤ x.time
  more : (e.group true).queued ≠ []
  phase : e.main = .idle ∨ (e.runningSecondaryEvents = false ∧ ((∃ k, e.main = .emptying k) ∨ ∃ i, e.main = .draining i))

theorem Stuck.determineWhatToRun (h : Stuck maxTime e) : (e.determineWhatToRun maxTime).runningSecondaryEvents = false := by
  have hprimary : (e.group false).earliestTime maxTime = maxTime := by
    rcases (e.group false).earliestTime_mem maxTime with hmax | ⟨x, hx, -⟩
    · exact hmax
    · rw [h.primary] at hx
      cases hx
  have hsecondary : maxTime ≤ (e.group true).earliestTime maxTime := by
    rcases (e.group true).earliestTime_mem maxTime with hmax | ⟨x, hx, htime⟩
    · exact hmax.ge
    · exact htime ▸ h.secondary x hx
  unfold ParallelEngine.determineWhatToRun
  simp only [hprimary, if_pos hsecondary]

theorem Stuck.update (h : Stuck maxTime e) (hworkers : e'.workers = e.workers) (hexecuted : e'.executed = e.executed)
    (hqueued : ∀ b, (e'.group b).queued = (e.group b).queued)
    (hphase : e'.main = .idle ∨ (e'.runningSecondaryEvents = false ∧
      ((∃ k, e'.main = .emptying k) ∨ ∃ i, e'.main = .draining i))) :
    Stuck maxTime e' where
  workers := hworkers.trans h.workers
  executed := hexecuted.trans h.executed
  primary := (hqueued false).trans h.primary
  secondary x hx := h.secondary x (hqueued true ▸ hx)
  more := by
    rw [hqueued]
    exact h.more
  phase := hphase

theorem queued_update_chan (b c : Bool) (chan : List Nat) :
    (update e.group b { e.group b with chan } c).queued = (e.group c).queued := by
  by_cases hc : c = b
  · subst hc
    rw [update_self]
    rfl
  · rw [update_of_ne hc]

theorem Stuck.step (h : Stuck maxTime e) (hstep : Step maxTime e e') : Stuck maxTime e' := by
  have hnone : ∀ {l r : List (Worker τ η)} {w : Worker τ η}, e.workers ≠ l ++ w :: r := by
    intro l r w hw
    rw [h.workers] at hw
    simp at hw
  have hrunning : ∀ {main : MainLoop}, e.main = main → main ≠ .idle → e.runningSecondaryEvents = false :=
    fun hm hne => (h.phase.resolve_left (hm ▸ hne)).1
  cases hstep with
  | schedule hmain => rcases h.phase with hm | ⟨-, ⟨_, hm⟩ | ⟨_, hm⟩⟩ <;> rw [hmain] at hm <;> cases hm
  | run => exact h.update rfl rfl (fun _ => rfl) (.inl rfl)
  | «return» hmain hmore => exact absurd (hasMoreEvents_eq_false.1 hmore true) h.more
  | round =>
    refine h.update ?_ ?_ (fun b => ?_) (.inr ⟨h.determineWhatToRun, .inl ⟨0, rfl⟩⟩)
    all_goals
      unfold ParallelEngine.determineWhatToRun
      simp only
      split <;> rfl
  | empty hmain =>
    exact h.update rfl rfl (fun b => queued_update_chan _ b _) (.inr ⟨hrunning hmain MainLoop.noConfusion, .inl ⟨_, rfl⟩⟩)
  | emptied hmain => exact h.update rfl rfl (fun _ => rfl) (.inr ⟨hrunning hmain MainLoop.noConfusion, .inr ⟨_, rfl⟩⟩)
  | spawn hmain hq hpop =>
    have hx := mem_queued_of_getElem? hq (Heap.mem_of_peek (Heap.pop_spec hpop).1)
    rw [active, hrunning hmain MainLoop.noConfusion, h.primary] at hx
    cases hx
  | past hmain hq hpeek =>
    have hx := mem_queued_of_getElem? hq (Heap.mem_of_peek hpeek)
    rw [active, hrunning hmain MainLoop.noConfusion, h.primary] at hx
    cases hx
  | next hmain =>
    exact h.update rfl rfl (fun b => queued_update_chan _ b _) (.inr ⟨hrunning hmain MainLoop.noConfusion, .inr ⟨_, rfl⟩⟩)
  | wait => exact h.update rfl rfl (fun _ => rfl) (.inl rfl)
  | begin | beginPast | take | push | give | finish => exact absurd ‹_› hnone
def maxFloat64 : Nat := (2 ^ 53 - 1) * 2 ^ 971

/-- One secondary event at `math.MaxFloat64` is never executed, and `Run` never returns. -/
theorem never_runs : ∃ e : ParallelEngine Nat Unit, Reaches maxFloat64 1 0 e ∧ e.main = .idle ∧
    e.scheduled = [⟨⟨maxFloat64, (), true⟩, 0⟩] ∧
    ∀ e', Relation.ReflTransGen (Step maxFloat64) e e' → e'.executed = [] ∧ e'.main ≠ .stopped := by
  have hschedule := @Step.schedule Nat Unit _ maxFloat64 (new 1 0) ⟨maxFloat64, (), true⟩ 0 [] (Heap.empty _) rfl
    (Nat.zero_le _) rfl rfl
  refine ⟨_, (Relation.ReflTransGen.single hschedule).tail (.run rfl), rfl, rfl, fun e' hreach => ?_⟩
  have hstuck : Stuck maxFloat64 e' := by
    induction hreach with
    | refl =>
      refine ⟨rfl, rfl, rfl, fun x hx => ?_, ne_nil_of_mem (a := ⟨⟨maxFloat64, (), true⟩, 0⟩) ?_, .inl rfl⟩
      · have heq : x = ⟨⟨maxFloat64, (), true⟩, 0⟩ := by
          simpa [setGroup, new, QueueGroup.queued, Heap.mem_insert] using hx
        rw [heq]
        exact Nat.le_refl _
      · simp [setGroup, new, QueueGroup.queued, Heap.mem_insert]
    | tail _ hstep ih => exact ih.step hstep
  refine ⟨hstuck.executed, fun hmain => ?_⟩
  rcases hstuck.phase with hm | ⟨-, ⟨_, hm⟩ | ⟨_, hm⟩⟩
  all_goals
    rw [hmain] at hm
    cases hm

end ParallelEngine

end Akita.Sim
