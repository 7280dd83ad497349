import Akita.Intervals.Union
import Akita.Tracing.BusyTimeTracer
import Mathlib.Data.List.TakeWhile

/-!
# Busy time and the union of the tasks

* `Unchained` : no task of a later group starts before one of an earlier group is over. `greedy_iff` : only then is the busy
  time of a batch what its tasks cover;
* `Tracks` : the elements of a tracer. `Listed.collapse` : what is collapsed is over before the rest starts;
* `busyTime_iff` : when the tracer has the measure of the union.
-/

namespace Akita.Tracing
open List Function
open Prod (fst)

def TaskTimeStartEnd.interval (t : TaskTimeStartEnd) : ℚ × ℚ := (t.startTime, t.endTime)

/-! ## A batch -/

/-- Of the groups that the code makes, each with all tasks that overlap its first one, none reaches into a later one. -/
def Unchained : List TaskTimeStartEnd → Prop
  | [] => True
  | t1 :: rest =>
    (∀ x ∈ t1 :: together t1 rest, ∀ y ∈ others t1 rest, y.startTime < y.endTime → x.endTime ≤ y.startTime) ∧
      Unchained (others t1 rest)
termination_by l => l.length
decreasing_by exact length_others t1 rest

/-- Tasks in the order in which they start. -/
structure InOrder (l : List TaskTimeStartEnd) : Prop where
  sorted : l.Pairwise fun x y => x.startTime ≤ y.startTime
  valid : ∀ x ∈ l, x.startTime ≤ x.endTime

theorem taskTimeOverlap_iff {t1 t2 : TaskTimeStartEnd} (h : t1.startTime ≤ t2.startTime) (h1 : t1.startTime ≤ t1.endTime)
    (h2 : t2.startTime ≤ t2.endTime) : taskTimeOverlap t1 t2 = true ↔ t2.startTime ≤ t1.endTime := by
  unfold taskTimeOverlap
  constructor
  · intro hover
    split at hover
    next hc => exact hc.2
    next =>
      split at hover
      next hc => exact h2.trans hc.2
      next =>
        split at hover
        next hc => exact hc.1.trans h1
        next => cases hover
  · exact fun hle => if_pos ⟨h, hle⟩

variable {rest : List TaskTimeStartEnd}

variable {t1 : TaskTimeStartEnd}

theorem InOrder.tail (h : InOrder (t1 :: rest)) : InOrder rest :=
  ⟨(pairwise_cons.1 h.sorted).2, fun x hx => h.valid x (mem_cons_of_mem _ hx)⟩

theorem InOrder.others (h : InOrder rest) (t1 : TaskTimeStartEnd) : InOrder (others t1 rest) :=
  ⟨h.sorted.sublist filter_sublist, fun x hx => h.valid x (mem_of_mem_filter hx)⟩

theorem InOrder.mem_together (h : InOrder (t1 :: rest)) {x : TaskTimeStartEnd}
    (hx : x ∈ together t1 rest) : t1.startTime ≤ x.startTime ∧ x.startTime ≤ t1.endTime := by
  obtain ⟨hmem, hover⟩ := mem_filter.1 hx
  have hle := (pairwise_cons.1 h.sorted).1 x hmem
  exact ⟨hle, (taskTimeOverlap_iff hle (h.valid t1 mem_cons_self) (h.valid x (mem_cons_of_mem _ hmem))).1 hover⟩

theorem lastEnd_le_iff {e b : ℚ} {l : List (ℚ × ℚ)} : lastEnd e l ≤ b ↔ e ≤ b ∧ ∀ i ∈ l, i.2 ≤ b := by
  induction l generalizing e with
  | nil => simp [lastEnd]
  | cons i l ih =>
    show lastEnd (max e i.2) l ≤ b ↔ _
    rw [ih, max_le_iff, forall_mem_cons, and_assoc]

theorem foldl_extendTaskTime {l : List TaskTimeStartEnd} {base : TaskTimeStartEnd}
    (h : ∀ x ∈ l, base.startTime ≤ x.startTime) : (l.foldl extendTaskTime base).startTime = base.startTime ∧
      (l.foldl extendTaskTime base).endTime = lastEnd base.endTime (l.map TaskTimeStartEnd.interval) := by
  induction l generalizing base with
  | nil => exact ⟨rfl, rfl⟩
  | cons x _ ih =>
    have hx := h x mem_cons_self
    have hstep : (extendTaskTime base x).startTime = base.startTime ∧ (extendTaskTime base x).endTime =
        max base.endTime x.endTime := by
      unfold extendTaskTime
      rw [if_neg (not_lt.2 hx)]
      dsimp only
      split
      next hlt => exact ⟨rfl, (max_eq_right hlt.le).symm⟩
      next hge => exact ⟨rfl, (max_eq_left (not_lt.1 hge)).symm⟩
    obtain ⟨hs, he⟩ := ih fun y hy => hstep.1.trans_le (h y (mem_cons_of_mem _ hy))
    rw [foldl_cons]
    refine ⟨hs.trans hstep.1, he.trans ?_⟩
    rw [hstep.2]
    rfl

theorem InOrder.covered_group (h : InOrder (t1 :: rest)) :
    covered (t1.interval :: (together t1 rest).map TaskTimeStartEnd.interval) =
      covered [((extent t1 rest).startTime, (extent t1 rest).endTime)] ∧
      (extent t1 rest).startTime = t1.startTime ∧
      (extent t1 rest).endTime = lastEnd t1.endTime ((together t1 rest).map TaskTimeStartEnd.interval) := by
  have hfold : (extent t1 rest).startTime = t1.startTime ∧ (extent t1 rest).endTime =
      lastEnd t1.endTime ((together t1 rest).map TaskTimeStartEnd.interval) :=
    foldl_extendTaskTime fun x hx => (h.mem_together hx).1
  obtain ⟨hs, he⟩ := hfold
  refine ⟨?_, hs, he⟩
  have hull : covered ((t1.startTime, t1.endTime) :: (together t1 rest).map TaskTimeStartEnd.interval) = _ :=
    covered_hull (h.valid t1 mem_cons_self) fun i hi => by
    obtain ⟨_, hx, rfl⟩ := mem_map.1 hi
    exact h.mem_together hx
  rw [hs, he]
  exact hull

/-- The busy time of a batch is at least what its tasks cover, and more if a task reaches into a later group. -/
theorem greedy_iff {l : List TaskTimeStartEnd} (h : InOrder l) :
    coveredLength (l.map TaskTimeStartEnd.interval) ≤ greedy l ∧
      (coveredLength (l.map TaskTimeStartEnd.interval) = greedy l ↔ Unchained l) := by
  induction l using greedy.induct with
  | case1 => simp [coveredLength_nil, greedy, Unchained]
  | case2 t1 rest ih =>
    obtain ⟨_, hiff⟩ := ih (h.tail.others t1)
    obtain ⟨hgroup, hs, he⟩ := h.covered_group
    have hvalid : (extent t1 rest).startTime ≤ (extent t1 rest).endTime := by
      rw [hs, he]
      exact (h.valid t1 mem_cons_self).trans (le_lastEnd _ _)
    -- the first group, and the others
    have hsplit : coveredLength ((t1 :: rest).map TaskTimeStartEnd.interval) +
        shared [((extent t1 rest).startTime, (extent t1 rest).endTime)] ((others t1 rest).map TaskTimeStartEnd.interval) =
          ((extent t1 rest).endTime - (extent t1 rest).startTime : ℚ) + coveredLength
          ((others t1 rest).map TaskTimeStartEnd.interval) := by
      have hperm : (t1 :: rest).Perm ((t1 :: together t1 rest) ++ others t1 rest) :=
        ((filter_append_perm (taskTimeOverlap t1) rest).symm.cons t1)
      rw [coveredLength_perm (hperm.map _), map_append]
      exact coveredLength_of_hull hvalid hgroup _
    have hshared : shared [((extent t1 rest).startTime, (extent t1 rest).endTime)]
        ((others t1 rest).map TaskTimeStartEnd.interval) = 0 ↔ _ :=
      shared_eq_zero_iff fun i hi => by
        obtain ⟨x, hx, rfl⟩ := mem_map.1 hi
        rw [hs]
        exact (pairwise_cons.1 h.sorted).1 x (mem_of_mem_filter hx)
    have hnonneg := shared_nonneg [((extent t1 rest).startTime, (extent t1 rest).endTime)]
      ((others t1 rest).map TaskTimeStartEnd.interval)
    have hapart : (∀ i ∈ (others t1 rest).map TaskTimeStartEnd.interval, i.1 < i.2 → (extent t1 rest).endTime ≤ i.1) ↔
        ∀ x ∈ t1 :: together t1 rest, ∀ y ∈ others t1 rest, y.startTime < y.endTime → x.endTime ≤ y.startTime := by
      rw [he, forall_mem_map]
      constructor
      · intro hall x hx y hy hlt
        obtain ⟨hfirst, hgroup⟩ := lastEnd_le_iff.1 (hall y hy hlt)
        rcases mem_cons.1 hx with rfl | hx
        · exact hfirst
        · exact hgroup _ (mem_map_of_mem hx)
      · intro hall y hy hlt
        refine lastEnd_le_iff.2 ⟨hall t1 mem_cons_self y hy hlt, fun i hi => ?_⟩
        obtain ⟨x, hx, rfl⟩ := mem_map.1 hi
        exact hall x (mem_cons_of_mem _ hx) y hy hlt
    rw [greedy, Unchained, ← hapart, ← hshared, ← hiff]
    push_cast at hsplit ⊢
    constructor
    · linarith
    · constructor
      · intro heq
        constructor <;> linarith
      · rintro ⟨h1, h2⟩
        linarith

/-! ## What is still to be counted -/

namespace BusyTimeTracer

section
variable (ids : ℕ → String) (calls : List (ℚ × Call ℚ)) (now : ℚ)

/-- The interval of an element that was made for the task `ids e.elem`, with the calls that are still to come. -/
def resolve (e : Element) : ℚ × ℚ :=
  (e.value.startTime, if e.value.completed then e.value.endTime else (endOf (ids e.elem) calls).getD now)

def spanInterval (s : Span ℚ) : ℚ × ℚ := (s.task.startTime, s.ended.getD now)

/-- The intervals of the tasks that pass the filter. -/
def intervals (filter : Option (Task ℚ → Bool)) : List (ℚ × ℚ) :=
  ((spans calls).filter fun s => passes filter s.task).map (spanInterval now)

/-- The intervals that are not counted yet. -/
def pending (t : BusyTimeTracer) : List (ℚ × ℚ) := t.taskTimes.map (resolve ids calls now) ++ intervals calls now t.filter

end

theorem startTime_mem_of_spans {calls : List (ℚ × Call ℚ)} {s : Span ℚ} (h : s ∈ spans calls) :
    s.task.startTime ∈ calls.map fst := by
  induction calls with
  | nil => exact absurd h not_mem_nil
  | cons c _ ih =>
    obtain ⟨time, _ | _⟩ := c
    · rcases mem_cons.1 h with rfl | h
      · exact mem_cons_self
      · exact mem_cons_of_mem _ (ih h)
    · exact mem_cons_of_mem _ (ih h)

/-- The elements of a tracer at a time. -/
structure Listed (time : ℚ) (t : BusyTimeTracer) : Prop where
  sorted : t.taskTimes.Pairwise fun x y => x.value.startTime ≤ y.value.startTime
  begun : ∀ e ∈ t.taskTimes, e.value.startTime ≤ time
  finished : ∀ e ∈ t.taskTimes, e.value.completed = true → e.value.startTime ≤ e.value.endTime ∧ e.value.endTime ≤ time

variable {ids : ℕ → String} {time now : ℚ} {t : BusyTimeTracer} {calls : List (ℚ × Call ℚ)}

theorem finish_eq {l : List Element} (h : ∀ e ∈ l, e.value.completed = true → e.value.endTime ≤ time) :
    finish time l = ((l.takeWhile fun e => e.value.completed).map Element.value, l.dropWhile fun e => e.value.completed) := by
  induction l with
  | nil => rfl
  | cons e _ ih =>
    have hrest := ih fun x hx => h x (mem_cons_of_mem _ hx)
    unfold finish
    cases hc : e.value.completed with
    | false => simp [hc]
    | true =>
      rw [if_neg (by simp), if_pos (h e mem_cons_self hc), hrest]
      simp [hc]

theorem Listed.finish (hl : Listed time t) : Akita.Tracing.finish time t.taskTimes =
    ((t.taskTimes.takeWhile fun e => e.value.completed).map Element.value,
      t.taskTimes.dropWhile fun e => e.value.completed) :=
  finish_eq fun e he hc => (hl.finished e he hc).2

theorem Listed.startTime_of_left (hl : Listed time t) (hheld : ¬ t.heldBack time = true) :
    ∀ e ∈ t.taskTimes.dropWhile fun e => e.value.completed, time ≤ e.value.startTime := by
  cases hdrop : t.taskTimes.dropWhile fun e => e.value.completed with
  | nil => exact forall_mem_nil _
  | cons e₀ =>
    have hfirst : e₀.value.completed = false := by
      have hhead := head?_dropWhile_not (fun e : Element => e.value.completed) t.taskTimes
      rw [hdrop] at hhead
      simpa using hhead
    have hbefore : (t.taskTimes.takeWhile fun e => e.value.completed).find? (fun e => !e.value.completed) = none := by
      refine find?_eq_none.2 fun e he => ?_
      have hcompleted := mem_takeWhile_imp he
      simpa using hcompleted
    have hfind : (t.taskTimes.find? fun e => !e.value.completed) = some e₀ := by
      rw [← takeWhile_append_dropWhile (p := fun e : Element => e.value.completed) (l := t.taskTimes), hdrop, find?_append,
        hbefore, find?_cons_of_pos (by simp [hfirst])]
      rfl
    have hle : time ≤ e₀.value.startTime := by
      unfold heldBack startTimeOfFirstImcompleteTask at hheld
      rw [hfind] at hheld
      simpa using hheld
    have hsorted := hl.sorted.sublist (dropWhile_sublist fun e => e.value.completed)
    rw [hdrop] at hsorted
    intro e he
    rcases mem_cons.1 he with rfl | he
    · exact hle
    · exact hle.trans ((pairwise_cons.1 hsorted).1 e he)

/-- What `collapse` takes out is over before anything that is left starts. -/
theorem Listed.collapse (hl : Listed time t) (hcalls : ∀ c ∈ calls, time ≤ c.1) (ids : ℕ → String) (now : ℚ) :
    Listed time (t.collapse time) ∧ InOrder (t.batch time) ∧ (t.collapse time).filter = t.filter ∧
      coveredLength (pending ids calls now t) =
        coveredLength ((t.batch time).map TaskTimeStartEnd.interval) +
          coveredLength (pending ids calls now (t.collapse time)) := by
  unfold BusyTimeTracer.collapse batch
  by_cases hheld : t.heldBack time = true
  · rw [if_pos hheld, if_pos hheld]
    refine ⟨hl, ⟨.nil, forall_mem_nil _⟩, rfl, ?_⟩
    rw [map_nil, coveredLength_nil, zero_add]
  · rw [if_neg hheld, if_neg hheld, hl.finish]
    dsimp only
    have htake : (t.taskTimes.takeWhile fun e => e.value.completed).Sublist t.taskTimes := takeWhile_sublist _
    have hdrop : (t.taskTimes.dropWhile fun e => e.value.completed).Sublist t.taskTimes := dropWhile_sublist _
    have hcompleted : ∀ e ∈ t.taskTimes.takeWhile fun e => e.value.completed, e.value.completed = true := by
      intro e he
      have hcompleted := mem_takeWhile_imp he
      exact hcompleted
    have hleft := hl.startTime_of_left hheld
    refine ⟨⟨hl.sorted.sublist hdrop, fun e he => hl.begun e (hdrop.subset he), fun e he => hl.finished e (hdrop.subset he)⟩,
      ⟨?_, ?_⟩, rfl, ?_⟩
    · exact pairwise_map.2 (hl.sorted.sublist htake)
    · intro x hx
      obtain ⟨e, he, rfl⟩ := mem_map.1 hx
      exact (hl.finished e (htake.subset he) (hcompleted e he)).1
    · have hbatch : (t.taskTimes.takeWhile fun e => e.value.completed).map (resolve ids calls now) =
          ((t.taskTimes.takeWhile fun e => e.value.completed).map Element.value).map TaskTimeStartEnd.interval := by
        rw [map_map]
        refine map_congr_left fun e he => ?_
        unfold resolve
        rw [if_pos (hcompleted e he)]
        rfl
      have hpending : pending ids calls now t = ((t.taskTimes.takeWhile fun e => e.value.completed).map Element.value).map
          TaskTimeStartEnd.interval ++
          pending ids calls now { t with taskTimes := t.taskTimes.dropWhile fun e => e.value.completed } := by
        show t.taskTimes.map _ ++ intervals calls now t.filter =
          _ ++ ((t.taskTimes.dropWhile _).map _ ++ intervals calls now t.filter)
        rw [← append_assoc, ← hbatch, ← map_append, takeWhile_append_dropWhile]
      rw [hpending]
      refine coveredLength_of_before (t := time) (fun i hi => ?_) fun i hi => ?_
      · obtain ⟨_, hx, rfl⟩ := mem_map.1 hi
        obtain ⟨e, he, rfl⟩ := mem_map.1 hx
        exact (hl.finished e (htake.subset he) (hcompleted e he)).2
      · rcases mem_append.1 hi with hi | hi
        · obtain ⟨e, he, rfl⟩ := mem_map.1 hi
          exact hleft e he
        · obtain ⟨_, hs, rfl⟩ := mem_map.1 hi
          obtain ⟨c, hc, hstart⟩ := mem_map.1 (startTime_mem_of_spans (mem_of_mem_filter hs))
          exact (hcalls c hc).trans_eq hstart

/-! ## The calls -/

/-- The elements that are not completed are those in flight; `ids` has the task for which an element was made. -/
structure Tracks (ids : ℕ → String) (time : ℚ) (calls : List (ℚ × Call ℚ)) (t : BusyTimeTracer) :
    Prop extends Listed time t where
  fresh : ∀ e ∈ t.taskTimes, e.elem < t.created
  distinct : (t.taskTimes.map Element.elem).Nodup
  named : ∀ i ∈ t.inflightTasks, ids i.elem = i.id ∧ ∃ e ∈ t.taskTimes, e.elem = i.elem ∧ e.value.completed = false
  running : ∀ e ∈ t.taskTimes, e.value.completed = false → ∃ i ∈ t.inflightTasks, i.elem = e.elem
  unused : (t.inflightTasks.map Inflight.id ++ (started calls).map Task.id).Nodup

theorem Tracks.new (filter : Option (Task ℚ → Bool)) (calls : List (ℚ × Call ℚ)) (h : ((started calls).map Task.id).Nodup)
    (ids : ℕ → String) (time : ℚ) : Tracks ids time calls { filter } :=
  { sorted := .nil
    begun := forall_mem_nil _
    finished := forall_mem_nil _
    fresh := forall_mem_nil _
    distinct := .nil
    named := forall_mem_nil _
    running := forall_mem_nil _
    unused := h }

variable {time' : ℚ}

theorem Listed.mono (hl : Listed time t) (h : time ≤ time') : Listed time' t :=
  ⟨hl.sorted, fun e he => (hl.begun e he).trans h, fun e he hc => ⟨(hl.finished e he hc).1, (hl.finished e he hc).2.trans h⟩⟩

theorem Tracks.collapse (ht : Tracks ids time calls t) : Tracks ids time calls (t.collapse time) := by
  have hnone : ∀ c ∈ ([] : List (ℚ × Call ℚ)), time ≤ c.1 := forall_mem_nil _
  have hl := (ht.toListed.collapse hnone ids time).1
  unfold BusyTimeTracer.collapse at hl ⊢
  split at hl
  next hheld =>
    rw [if_pos hheld]
    exact ht
  next hheld =>
    rw [if_neg hheld]
    have hfinish := ht.toListed.finish
    have hsub : (Akita.Tracing.finish time t.taskTimes).2.Sublist t.taskTimes := by
      rw [hfinish]
      exact dropWhile_sublist _
    refine { toListed := hl, fresh := fun e he => ht.fresh e (hsub.subset he), distinct := ht.distinct.sublist (hsub.map _),
             named := ?_, running := ?_, unused := ht.unused }
    · intro i hi
      obtain ⟨hid, e, he, helem, hc⟩ := ht.named i hi
      refine ⟨hid, e, ?_, helem, hc⟩
      rw [← takeWhile_append_dropWhile (p := fun e : Element => e.value.completed) (l := t.taskTimes)] at he
      rcases mem_append.1 he with he | he
      · have hcompleted := mem_takeWhile_imp he
        rw [hc] at hcompleted
        cases hcompleted
      · rw [hfinish]
        exact he
    · exact fun e he => ht.running e (hsub.subset he)

theorem Tracks.startTask {task : Task ℚ} (ht : Tracks ids time ((time', .startTask task) :: calls) t) (h : time ≤ time')
    (now : ℚ) :
    ∃ ids', Tracks ids' time' calls (t.startTask time' task) ∧
      (pending ids' calls now (t.startTask time' task)).Perm (pending ids ((time', .startTask task) :: calls) now t) := by
  have hresolve : ∀ e, resolve ids ((time', .startTask task) :: calls) now e = resolve ids calls now e := fun e => rfl
  have hl := ht.toListed.mono h
  have hunused : (t.inflightTasks.map Inflight.id ++ task.id :: (started calls).map Task.id).Nodup := ht.unused
  unfold BusyTimeTracer.startTask
  dsimp only
  cases hpasses : passes t.filter { task with startTime := time' } with
  | false =>
    rw [if_neg (by simp)]
    refine ⟨ids, { toListed := hl, fresh := ht.fresh, distinct := ht.distinct, named := ht.named,
                   running := ht.running, unused := ?_ }, ?_⟩
    · exact hunused.sublist ((List.Sublist.refl _).append (sublist_cons_self _ _))
    · unfold pending intervals
      rw [map_congr_left fun e _ => hresolve e]
      have hspans : ((spans ((time', Call.startTask task) :: calls)).filter fun s => passes t.filter s.task) =
          (spans calls).filter fun s => passes t.filter s.task := filter_cons_of_neg (by simp [hpasses])
      rw [hspans]
  | true =>
    rw [if_pos rfl]
    have hnew : task.id ∉ t.inflightTasks.map Inflight.id :=
      fun hmem => (nodup_append.1 hunused).2.2 _ hmem _ mem_cons_self rfl
    have hinsert : Keyed.insert Inflight.id { id := task.id, elem := t.created } t.inflightTasks =
        { id := task.id, elem := t.created } :: t.inflightTasks := by
      unfold Keyed.insert
      rw [Keyed.delete_eq_self hnew]
    have hold : ∀ e ∈ t.taskTimes, update ids t.created task.id e.elem = ids e.elem := fun e he =>
      update_of_ne (ht.fresh e he).ne _ _
    rw [hinsert]
    refine ⟨update ids t.created task.id, ?_, ?_⟩
    · refine { sorted := ?_, begun := ?_, finished := ?_, fresh := ?_, distinct := ?_, named := ?_,
               running := ?_, unused := ?_ }
      · refine pairwise_append.2 ⟨hl.sorted, pairwise_singleton _ _, fun e he x hx => ?_⟩
        obtain rfl := mem_singleton.1 hx
        exact hl.begun e he
      · exact forall_mem_append.mpr ⟨hl.begun, forall_mem_singleton.mpr le_rfl⟩
      · intro e he hc
        rcases mem_append.1 he with he | he
        · exact hl.finished e he hc
        · obtain rfl := mem_singleton.1 he
          cases hc
      · exact forall_mem_append.mpr ⟨fun e he => (ht.fresh e he).trans (Nat.lt_succ_self _),
          forall_mem_singleton.mpr (Nat.lt_succ_self _)⟩
      · show (map Element.elem (_ ++ [_])).Nodup
        rw [map_append]
        refine nodup_append.2 ⟨ht.distinct, nodup_singleton _, fun x hx y hy => ?_⟩
        obtain ⟨e, he, rfl⟩ := mem_map.1 hx
        obtain rfl := mem_singleton.1 hy
        exact (ht.fresh e he).ne
      · intro i hi
        rcases mem_cons.1 hi with rfl | hi
        · exact ⟨update_self _ _ _, _, mem_append_right _ (mem_singleton_self _), rfl, rfl⟩
        · obtain ⟨hid, e, he, helem, hc⟩ := ht.named i hi
          refine ⟨?_, e, mem_append_left _ he, helem, hc⟩
          rw [← helem, hold e he, helem, hid]
      · intro e he hc
        rcases mem_append.1 he with he | he
        · obtain ⟨i, hi, helem⟩ := ht.running e he hc
          exact ⟨i, mem_cons_of_mem _ hi, helem⟩
        · obtain rfl := mem_singleton.1 he
          exact ⟨_, mem_cons_self, rfl⟩
      · exact (perm_middle.nodup_iff).1 hunused
    · have hspans : ((spans ((time', Call.startTask task) :: calls)).filter fun s => passes t.filter s.task) =
          { task := { task with startTime := time' }, ended := endOf task.id calls } ::
          (spans calls).filter fun s => passes t.filter s.task :=
        filter_cons_of_pos hpasses
      have hmap : t.taskTimes.map (resolve (update ids t.created task.id) calls now) =
          t.taskTimes.map (resolve ids ((time', .startTask task) :: calls) now) := by
        refine map_congr_left fun e he => ?_
        unfold resolve
        rw [hold e he]
        rfl
      unfold pending intervals
      dsimp only
      rw [hspans, map_append, hmap, append_assoc]
      refine List.Perm.append_left _ (List.Perm.of_eq ?_)
      show (time', (endOf (update ids t.created task.id t.created) calls).getD now) :: _ = _
      rw [update_self]
      rfl

variable {id : String}

theorem resolve_endTask {e : Element} (h : e.value.completed = false → ids e.elem ≠ id) (calls : List (ℚ × Call ℚ))
    (now : ℚ) :
    resolve ids ((time', .endTask id) :: calls) now e = resolve ids calls now e := by
  unfold resolve
  cases hc : e.value.completed with
  | true => rfl
  | false =>
    have hend : endOf (ids e.elem) ((time', .endTask id) :: calls) = endOf (ids e.elem) calls := if_neg (h hc).symm
    rw [hend]

theorem Tracks.mem_inflight {c : ℚ × Call ℚ} (ht : Tracks ids time (c :: calls) t) {e : Element} (he : e ∈ t.taskTimes)
    (hc : e.value.completed = false) : ∃ i ∈ t.inflightTasks, i.elem = e.elem ∧ i.id = ids e.elem := by
  obtain ⟨i, hi, helem⟩ := ht.running e he hc
  exact ⟨i, hi, helem, by rw [← helem, (ht.named i hi).1]⟩

theorem Tracks.complete {t' : BusyTimeTracer} (ht : Tracks ids time ((time', .endTask id) :: calls) t) (h : time ≤ time')
    (hcomplete : t.complete time' id = some t') (now : ℚ) :
    Tracks ids time' calls t' ∧ t'.filter = t.filter ∧ t'.busyTime = t.busyTime ∧
      pending ids calls now t' = pending ids ((time', .endTask id) :: calls) now t := by
  obtain ⟨i, hfind, rfl⟩ := Option.map_eq_some_iff.1 hcomplete
  have hl := ht.toListed.mono h
  have hi := Keyed.mem_of_lookup hfind
  have hid : i.id = id := Keyed.key_of_lookup hfind
  have hkeys : (t.inflightTasks.map Inflight.id).Nodup := (nodup_append.1 ht.unused).1
  have hdelete : ∀ {i'}, i' ∈ Keyed.delete Inflight.id id t.inflightTasks ↔ i' ∈ t.inflightTasks ∧ i'.id ≠ id :=
    fun {i'} => by simp [Keyed.delete]
  -- another task in flight has another element
  have hother : ∀ i' ∈ t.inflightTasks, i'.id ≠ id → i'.elem ≠ i.elem := by
    intro i' hi' hne helem
    exact hne ((ht.named i' hi').1.symm.trans ((congrArg ids helem).trans ((ht.named i hi).1.trans hid)))
  have hne : ∀ e ∈ t.taskTimes, e.elem ≠ i.elem → e.value.completed = false → ids e.elem ≠ id := by
    intro e he hne hc heq
    obtain ⟨i', hi', helem, hid'⟩ := ht.mem_inflight he hc
    obtain rfl : i' = i := inj_on_of_nodup_map hkeys hi' hi (hid'.trans (heq.trans hid.symm))
    exact hne helem.symm
  refine ⟨?_, rfl, rfl, ?_⟩
  · refine { sorted := ?_, begun := ?_, finished := ?_, fresh := ?_, distinct := ?_, named := ?_,
             running := ?_, unused := ?_ }
    · refine pairwise_map.2 (hl.sorted.imp fun {x y} hxy => ?_)
      split <;> split <;> exact hxy
    · intro e' he'
      obtain ⟨e, he, rfl⟩ := mem_map.1 he'
      split <;> exact hl.begun e he
    · intro e' he' hc
      obtain ⟨e, he, rfl⟩ := mem_map.1 he'
      split at hc
      next heq =>
        rw [if_pos heq]
        exact ⟨hl.begun e he, le_rfl⟩
      next hneq =>
        rw [if_neg hneq]
        exact hl.finished e he hc
    · intro e' he'
      obtain ⟨e, he, rfl⟩ := mem_map.1 he'
      split <;> exact ht.fresh e he
    · have hsame : (t.taskTimes.map fun e => if e.elem = i.elem then e.complete time' else e).map Element.elem =
          t.taskTimes.map Element.elem := by
        rw [map_map]
        refine map_congr_left fun e _ => ?_
        dsimp only [comp]
        split <;> rfl
      show (map Element.elem (map _ _)).Nodup
      rw [hsame]
      exact ht.distinct
    · intro i' hi'
      obtain ⟨hi', hne'⟩ := hdelete.1 hi'
      obtain ⟨hid', e, he, helem, hc⟩ := ht.named i' hi'
      refine ⟨hid', e, mem_map.2 ⟨e, he, if_neg ?_⟩, helem, hc⟩
      rw [helem]
      exact hother i' hi' hne'
    · intro e' he' hc
      obtain ⟨e, he, rfl⟩ := mem_map.1 he'
      split at hc
      next => cases hc
      next hneq =>
        rw [if_neg hneq]
        obtain ⟨i', hi', helem, hid'⟩ := ht.mem_inflight he hc
        exact ⟨i', hdelete.2 ⟨hi', hid' ▸ hne e he hneq hc⟩, helem⟩
    · exact ht.unused.sublist ((Keyed.delete_sublist.map _).append (List.Sublist.refl _))
  · show map _ (map _ _) ++ intervals calls now t.filter = map _ _ ++ intervals calls now t.filter
    rw [map_map]
    refine congrArg (· ++ _) (map_congr_left fun e he => ?_)
    dsimp only [comp]
    split
    next heq =>
      obtain ⟨hids, e₀, he₀, helem, hc⟩ := ht.named i hi
      obtain rfl : e₀ = e := inj_on_of_nodup_map ht.distinct he₀ he (helem.trans heq.symm)
      have hend : endOf (ids e₀.elem) ((time', .endTask id) :: calls) = some time' := if_pos (by rw [helem, hids, hid])
      unfold resolve
      rw [hc, hend]
      rfl
    next hneq => exact (resolve_endTask (hne e he hneq) calls now).symm

theorem Tracks.endTask_none (ht : Tracks ids time ((time', .endTask id) :: calls) t) (h : time ≤ time')
    (hcomplete : t.complete time' id = none) (now : ℚ) :
    Tracks ids time' calls t ∧ pending ids calls now t = pending ids ((time', .endTask id) :: calls) now t := by
  have hno := Keyed.lookup_eq_none (Option.map_eq_none_iff.1 hcomplete)
  refine ⟨{ toListed := ht.toListed.mono h, fresh := ht.fresh, distinct := ht.distinct, named := ht.named,
            running := ht.running, unused := ht.unused }, ?_⟩
  refine congrArg (· ++ _) (map_congr_left fun e he => (resolve_endTask (fun hc heq => ?_) calls now).symm)
  obtain ⟨_, hi, -, hid⟩ := ht.mem_inflight he hc
  exact hno (hid.trans heq ▸ mem_map_of_mem hi)

theorem Tracks.terminate (ht : Tracks ids time [] t) (h : time ≤ now) :
    ((t.completeAll now).batch now).map TaskTimeStartEnd.interval = pending ids [] now t ∧
    InOrder ((t.completeAll now).batch now) := by
  have hl := ht.toListed.mono h
  have hall : ∀ e ∈ (t.completeAll now).taskTimes, e.value.completed = true := by
    intro e' he'
    obtain ⟨e, he, rfl⟩ := mem_map.1 he'
    cases hc : e.value.completed with
    | true =>
      rw [if_neg (by simp)]
      exact hc
    | false => rfl
  have hl' : Listed now (t.completeAll now) := by
    refine ⟨pairwise_map.2 (hl.sorted.imp fun {x y} hxy => ?_), fun e' he' => ?_, fun e' he' _ => ?_⟩
    · split <;> split <;> exact hxy
    · obtain ⟨e, he, rfl⟩ := mem_map.1 he'
      split <;> exact hl.begun e he
    · obtain ⟨e, he, rfl⟩ := mem_map.1 he'
      cases hc : e.value.completed with
      | true =>
        rw [if_neg (by simp)]
        exact hl.finished e he hc
      | false => exact ⟨hl.begun e he, le_rfl⟩
  have hfree : (t.completeAll now).heldBack now = false := by
    unfold heldBack startTimeOfFirstImcompleteTask
    rw [find?_eq_none.2 fun e he => by simp [hall e he]]
    rfl
  have hnone : ∀ c ∈ ([] : List (ℚ × Call ℚ)), now ≤ c.1 := forall_mem_nil _
  refine ⟨?_, (hl'.collapse hnone ids now).2.1⟩
  have htake : (t.completeAll now).taskTimes.takeWhile (fun e => e.value.completed) = (t.completeAll now).taskTimes :=
    takeWhile_eq_self_iff.2 hall
  unfold batch
  rw [if_neg (by simp [hfree]), hl'.finish, htake]
  show map _ (map _ (map _ _)) = map _ _ ++ []
  rw [append_nil, map_map, map_map]
  refine map_congr_left fun e _ => ?_
  unfold resolve
  dsimp only [comp]
  cases hc : e.value.completed with
  | true =>
    rw [if_neg (by simp)]
    rfl
  | false => rfl

theorem Tracks.called {c : ℚ × Call ℚ} (ht : Tracks ids time (c :: calls) t)
    (hcalls : (time :: c.1 :: calls.map fst).Pairwise (· ≤ ·)) (now : ℚ) :
    ∃ ids', Tracks ids' c.1 calls (t.call c) ∧ InOrder (t.callBatch c) ∧
      coveredLength (pending ids (c :: calls) now t) =
        coveredLength ((t.callBatch c).map TaskTimeStartEnd.interval) + coveredLength (pending ids' calls now (t.call c)) ∧
      (t.call c).busyTime = t.busyTime + greedy (t.callBatch c) := by
  obtain ⟨hfirst, hrest⟩ := pairwise_cons.1 hcalls
  have htime := hfirst c.1 mem_cons_self
  have hlater : ∀ c' ∈ calls, c.1 ≤ c'.1 := fun c' hc' => (pairwise_cons.1 hrest).1 c'.1 (mem_map_of_mem hc')
  have hempty : InOrder [] := ⟨.nil, forall_mem_nil _⟩
  have hnothing : ∀ x : ℝ, x = coveredLength (([] : List TaskTimeStartEnd).map TaskTimeStartEnd.interval) + x := fun x => by
    rw [map_nil, coveredLength_nil, zero_add]
  obtain ⟨time', task | id⟩ := c
  · obtain ⟨ids', ht', hperm⟩ := ht.startTask htime now
    refine ⟨ids', ht', hempty, (coveredLength_perm hperm).symm.trans (hnothing _), ?_⟩
    show (t.startTask time' task).busyTime = t.busyTime + greedy []
    rw [greedy, add_zero]
    unfold BusyTimeTracer.startTask
    dsimp only
    split <;> rfl
  · cases hcomplete : t.complete time' id with
    | none =>
      obtain ⟨ht', hpending⟩ := ht.endTask_none htime hcomplete now
      have hcall : t.call (time', .endTask id) = t := by
        show t.endTask time' id = t
        unfold endTask
        rw [hcomplete]
      have hbatch : t.callBatch (time', .endTask id) = [] := by
        show (t.complete time' id).elim [] _ = []
        rw [hcomplete]
        rfl
      rw [hcall, hbatch, ← hpending]
      exact ⟨ids, ht', hempty, hnothing _, by rw [greedy, add_zero]⟩
    | some t' =>
      obtain ⟨ht', _, hbusy, hpending⟩ := ht.complete htime hcomplete now
      obtain ⟨-, hordered, -, hlength⟩ := ht'.toListed.collapse hlater ids now
      have hcall : t.call (time', .endTask id) = t'.collapse time' := by
        show t.endTask time' id = _
        unfold endTask
        rw [hcomplete]
      have hbatch : t.callBatch (time', .endTask id) = t'.batch time' := by
        show (t.complete time' id).elim [] _ = _
        rw [hcomplete]
        rfl
      rw [hcall, hbatch, ← hpending]
      refine ⟨ids, ht'.collapse, hordered, hlength, ?_⟩
      rw [busyTime_collapse, taskBusyTime_eq, hbusy]

theorem Tracks.busyTime_run (ht : Tracks ids time calls t) (hcalls : (time :: calls.map fst).Pairwise (· ≤ ·))
    (hnow : ∀ s ∈ time :: calls.map fst, s ≤ now) :
    coveredLength (pending ids calls now t) ≤ (((calls.foldl call t).terminateAllTasks now).busyTime - t.busyTime : ℚ) ∧
      (coveredLength (pending ids calls now t) = (((calls.foldl call t).terminateAllTasks now).busyTime - t.busyTime : ℚ) ↔
        ∀ b ∈ t.batches now calls, Unchained b) := by
  induction calls generalizing t ids time with
  | nil =>
    obtain ⟨hpending, hordered⟩ := ht.terminate (hnow time mem_cons_self)
    obtain ⟨hle, hiff⟩ := greedy_iff hordered
    have hbusy : ((([] : List (ℚ × Call ℚ)).foldl call t).terminateAllTasks now).busyTime - t.busyTime =
        greedy ((t.completeAll now).batch now) := by
      show ((t.completeAll now).collapse now).busyTime - t.busyTime = _
      rw [busyTime_collapse, taskBusyTime_eq]
      exact add_sub_cancel_left _ _
    rw [hbusy, ← hpending]
    refine ⟨hle, hiff.trans ?_⟩
    exact ⟨fun hu b hb => mem_singleton.1 hb ▸ hu, fun hu => hu _ (mem_singleton_self _)⟩
  | cons c calls ih =>
    have hrest := (pairwise_cons.1 hcalls).2
    have hnow' : ∀ s ∈ c.1 :: calls.map fst, s ≤ now := fun s hs => hnow s (mem_cons_of_mem _ hs)
    rw [foldl_cons, batches, forall_mem_cons]
    obtain ⟨_, ht', hordered, hsplit, hbusy⟩ := ht.called hcalls now
    obtain ⟨hle, hiff⟩ := ih ht' hrest hnow'
    obtain ⟨_, hiff'⟩ := greedy_iff hordered
    rw [← hiff, ← hiff', hsplit]
    rw [hbusy] at hle ⊢
    push_cast at hle ⊢
    constructor
    · linarith
    · constructor
      · intro heq
        constructor <;> linarith
      · rintro ⟨h1, h2⟩
        linarith

/-- The busy time is the measure of the union exactly if every batch that is collapsed is unchained. -/
theorem busyTime_iff (filter : Option (Task ℚ → Bool)) (calls : List (ℚ × Call ℚ)) (now : ℚ)
    (hsorted : (calls.map fst).Pairwise (· ≤ ·))
    (hnow : ∀ c ∈ calls, c.1 ≤ now) (hids : ((started calls).map Task.id).Nodup) :
    (((calls.foldl call { filter }).terminateAllTasks now).busyTime : ℝ) = coveredLength (intervals calls now filter) ↔
      ∀ b ∈ batches { filter } now calls, Unchained b := by
  have htimes : ∃ time, (time :: calls.map fst).Pairwise (· ≤ ·) ∧ ∀ s ∈ time :: calls.map fst, s ≤ now := by
    have hall : ∀ s ∈ calls.map fst, s ≤ now := fun s hs => by
      obtain ⟨c, hc, rfl⟩ := mem_map.1 hs
      exact hnow c hc
    cases calls with
    | nil => exact ⟨now, pairwise_singleton _ _, fun s hs => (mem_singleton.1 hs).le⟩
    | cons c =>
      refine ⟨c.1, pairwise_cons.2 ⟨fun s hs => ?_, hsorted⟩, fun s hs => ?_⟩
      · rcases mem_cons.1 hs with rfl | hs
        · exact le_rfl
        · exact (pairwise_cons.1 hsorted).1 s hs
      · rcases mem_cons.1 hs with rfl | hs
        · exact hnow c mem_cons_self
        · exact hall s hs
  obtain ⟨time, hcalls, hbound⟩ := htimes
  have hrun := ((Tracks.new filter calls hids (fun _ => "") time).busyTime_run hcalls hbound).2
  rw [← hrun, eq_comm]
  show coveredLength (intervals calls now filter) = _ ↔ coveredLength (intervals calls now filter) = _
  push_cast
  rw [sub_zero]

/-- The third task overlaps the second one, but not the first. -/
def chain : List (ℚ × Call ℚ) :=
  let task (id : String) : Task ℚ :=
    { id, parentID := "", kind := "k", what := "w", location := "l", startTime := 0, endTime := 0 }
  [(0, .startTask (task "1")), (1, .startTask (task "2")), (2, .endTask "1"), (3, .startTask (task "3")),
    (4, .endTask "2"), (5, .endTask "3")]

theorem busyTime_chain :
    ((chain.foldl call { filter := none }).terminateAllTasks 5).busyTime = 6 ∧ coveredLength
    (intervals chain 5 none) = 5 := by
  have hintervals : intervals chain 5 none = [(0, 2), (1, 4), (3, 5)] := by decide +kernel
  have hull : covered [(0, 2), (1, 4), (3, 5)] = covered [(0, 5)] := by
    ext x
    simp only [mem_covered, mem_cons, not_mem_nil, or_false, exists_eq_or_imp, exists_eq_left]
    push_cast
    constructor
    · rintro (⟨h1, h2⟩ | ⟨h1, h2⟩ | ⟨h1, h2⟩) <;> constructor <;> linarith
    · rintro ⟨h1, h2⟩
      rcases lt_or_ge x 2 with h | h
      · exact .inl ⟨h1, h⟩
      · rcases lt_or_ge x 4 with h' | h'
        · exact .inr (.inl ⟨by linarith, h'⟩)
        · exact .inr (.inr ⟨by linarith, h2⟩)
  refine ⟨by decide +kernel, ?_⟩
  have hlength := coveredLength_of_hull (by decide : (0 : ℚ) ≤ 5) hull []
  have hshared : shared [((0 : ℚ), (5 : ℚ))] [] = 0 :=
    (shared_eq_zero_iff fun i hi => absurd hi not_mem_nil).2 fun i hi => absurd hi not_mem_nil
  rw [append_nil, hshared, coveredLength_nil] at hlength
  rw [hintervals]
  norm_num at hlength
  exact hlength

/-- Of the same calls, those of the first two tasks. -/
theorem busyTime_iff_two :
    ((((chain.filter fun c => c.1 ≤ 2).foldl call { filter := none }).terminateAllTasks 4).busyTime : ℝ) =
      coveredLength (intervals (chain.filter fun c => c.1 ≤ 2) 4 none) := by
  have hbatches : batches { filter := none } 4 (chain.filter fun c => c.1 ≤ 2) =
      [[], [], [], [{ startTime := 0, endTime := 2, completed := true },
        { startTime := 1, endTime := 4, completed := true }]] := by
    decide +kernel
  refine (busyTime_iff none (chain.filter fun c => c.1 ≤ 2) 4 (by decide +kernel) (by decide +kernel) (by decide +kernel)).2
    fun b hb => ?_
  rw [hbatches] at hb
  have hcases : b = [] ∨ b = [{ startTime := 0, endTime := 2, completed := true },
      { startTime := 1, endTime := 4, completed := true }] := by
    simpa using hb
  rcases hcases with rfl | rfl
  · simp [Unchained]
  · simp [Unchained, others, together, taskTimeOverlap]

end BusyTimeTracer

end Akita.Tracing
