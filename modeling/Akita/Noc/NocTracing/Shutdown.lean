import Akita.Noc.NocTracing.MeshNetworkTracer

/-!
# The shutdown of the mesh tracer

* `Conserved` : the records of the tasks that were handed over are in the mesh, in a queue, or with a consumer;
* `Ordered` : who stops after whom;
* `stuck_iff` : what is left in a queue when the one who takes from it has stopped, is left there by a step that does not
  drain it;
* `lossless_iff` : in which runs nothing is lost.
-/

namespace Akita.Noc.NocTracing
open List hiding getElem?_eq_some_iff
open Multiset (coe_add)
namespace State

variable {t : Tracer} {s s' : State} {a : Action}

/-! ## Records are conserved -/

/-- The records of tasks; a task that makes its consumer panic has none. -/
def recordsOf (tasks : List (Tracing.Task ℚ)) : List MeshTraceRecord :=
  tasks.flatMap fun task => (records task).toOption.getD []

/-- The records that consumers still have to append. -/
def appendingOf (consumers : List Consumer) : List MeshTraceRecord := (consumers.map Consumer.appending).flatten

/-- The records that were applied, and those that are on their way. -/
def onTheWay (applied writeQueue appending : List MeshTraceRecord) (taskQueue : List (Tracing.Task ℚ)) :
    Multiset MeshTraceRecord :=
  ↑applied + ↑writeQueue + ↑appending + ↑(recordsOf taskQueue)

structure Conserved (t : Tracer) (applied : List MeshTraceRecord) (s : State) : Prop where
  mesh : applied.foldlM MeshInfo.appendRecord (init t).mesh = .ok s.mesh
  all : onTheWay applied s.writeQueue (appendingOf s.consumers) s.taskQueue = ↑(recordsOf s.handedOver)

theorem conserved_init (t : Tracer) : Conserved t [] (init t) := by
  refine ⟨rfl, ?_⟩
  have hnone : appendingOf (init t).consumers = [] := by
    unfold appendingOf init
    rw [map_replicate, flatten_replicate_nil]
  rw [hnone]
  rfl

theorem recordsOf_concat (tasks : List (Tracing.Task ℚ)) (task : Tracing.Task ℚ) :
    (↑(recordsOf (tasks ++ [task])) : Multiset MeshTraceRecord) = ↑(recordsOf tasks) + ↑(recordsOf [task]) := by
  unfold recordsOf
  rw [flatMap_append, coe_add]

variable {c : Consumer} {i : Nat}

theorem appendingOf_set {consumers : List Consumer} (hc : consumers[i]? = some c) (c' : Consumer) :
    (↑(appendingOf (consumers.set i c')) : Multiset MeshTraceRecord) + ↑c.appending =
      ↑(appendingOf consumers) + ↑c'.appending := by
  have hmap : (consumers.map Consumer.appending)[i]? = some c.appending := by
    rw [getElem?_map, hc]
    rfl
  unfold appendingOf
  rw [map_set]
  exact coe_flatten_set hmap c'.appending

theorem Conserved.stepped {applied : List MeshTraceRecord} (h : Conserved t applied s) (ha : Stepped s a s') :
    ∃ applied', Conserved t applied' s' := by
  have hall := h.all
  unfold onTheWay at hall
  cases ha with
  | trace => exact ⟨applied, h.mesh, h.all⟩
  | handOver _ handed =>
    refine ⟨applied, h.mesh, ?_⟩
    show onTheWay applied s.writeQueue (appendingOf s.consumers) (s.taskQueue ++ [handed]) =
      ↑(recordsOf (s.handedOver ++ [handed]))
    unfold onTheWay
    rw [recordsOf_concat, recordsOf_concat, ← hall]
    abel
  | @consume i task taskQueue rs hc hqueue hrecords =>
    refine ⟨applied, h.mesh, ?_⟩
    have hset : (↑(appendingOf (s.consumers.set i { appending := rs })) : Multiset MeshTraceRecord) =
        ↑(appendingOf s.consumers) + ↑rs := by
      simpa using appendingOf_set hc { appending := rs }
    have htask : recordsOf s.taskQueue = rs ++ recordsOf taskQueue := by
      rw [hqueue]
      unfold recordsOf
      rw [flatMap_cons, hrecords]
      rfl
    show onTheWay applied s.writeQueue (appendingOf (s.consumers.set i { appending := rs })) taskQueue = _
    unfold onTheWay
    rw [hset, ← hall, htask, ← coe_add]
    abel
  | @appendRecord i r rs hc =>
    refine ⟨applied, h.mesh, ?_⟩
    have hset : (↑[r] + ↑(appendingOf (s.consumers.set i { appending := rs })) : Multiset MeshTraceRecord) =
        ↑(appendingOf s.consumers) := by
      have hcons : (↑(r :: rs) : Multiset MeshTraceRecord) = ↑[r] + ↑rs := (coe_add [r] rs).symm
      have hmove := appendingOf_set hc { appending := rs }
      rw [hcons, ← add_assoc, add_left_inj] at hmove
      rw [← hmove, add_comm]
    show onTheWay applied (s.writeQueue ++ [r]) (appendingOf (s.consumers.set i { appending := rs })) s.taskQueue = _
    unfold onTheWay
    rw [← hall, ← hset, ← coe_add]
    abel
  | @closeConsumer i hc hexit =>
    refine ⟨applied, h.mesh, ?_⟩
    have hset : (↑(appendingOf (s.consumers.set i { finished := true })) : Multiset MeshTraceRecord) =
        ↑(appendingOf s.consumers) := by
      simpa using appendingOf_set hc { finished := true }
    show onTheWay applied s.writeQueue (appendingOf (s.consumers.set i { finished := true })) s.taskQueue = _
    unfold onTheWay
    rw [hset, hall]
  | @write r writeQueue mesh hwriter hqueue hmesh =>
    refine ⟨applied ++ [r], ?_, ?_⟩
    · rw [foldlM_append, h.mesh]
      show [r].foldlM MeshInfo.appendRecord s.mesh = _
      rw [foldlM_cons, hmesh]
      rfl
    · have hcons : (↑s.writeQueue : Multiset MeshTraceRecord) = ↑[r] + ↑writeQueue := by
        rw [hqueue, coe_add]
        rfl
      show onTheWay (applied ++ [r]) writeQueue (appendingOf s.consumers) s.taskQueue = _
      unfold onTheWay
      rw [← hall, hcons, ← coe_add, ← add_assoc]
  | closeWriter | closeTaskQueue | closeWriteQueue | dump => exact ⟨applied, h.mesh, h.all⟩

/-! ## The order of the shutdown -/

structure Ordered (s : State) : Prop where
  finished : ∀ c ∈ s.consumers, c.finished = true → c.appending = [] ∧ s.exit ≠ .notStarted
  consumers : s.exit = .closedWriteQueue ∨ s.exit = .dumping → s.ConsumersDone
  writer : s.writerFinished = true → s.exit = .closedWriteQueue ∨ s.exit = .dumping
  dump : s.exit = .dumping → s.writerFinished = true

theorem ordered_init (t : Tracer) : Ordered (init t) := by
  refine ⟨fun c hc hf => ?_, fun h => absurd h (by simp [init]), fun h => absurd h Bool.false_ne_true,
    fun h => absurd h (by simp [init])⟩
  obtain rfl := eq_of_mem_replicate hc
  cases hf

theorem not_done (hc : s.consumers[i]? = some c) (hf : c.finished = false) : ¬ s.ConsumersDone := by
  intro h
  have htrue := h c (mem_of_getElem? hc)
  rw [hf] at htrue
  cases htrue

theorem Ordered.stepped (h : Ordered s) (ha : Stepped s a s') : Ordered s' := by
  -- a consumer that works keeps the exit hook from closing the second channel
  have hworks : ∀ {i : Nat} {c : Consumer} (c' : Consumer), s.consumers[i]? = some c → c.finished = false →
      (c'.finished = true → c'.appending = [] ∧ s.exit ≠ .notStarted) →
      (∀ x ∈ s.consumers.set i c', x.finished = true → x.appending = [] ∧ s.exit ≠ .notStarted) ∧
        ¬ (s.exit = .closedWriteQueue ∨ s.exit = .dumping) := by
    intro i c c' hc hf hc'
    refine ⟨fun x hx hxf => ?_, fun hexit => not_done hc hf (h.consumers hexit)⟩
    rcases mem_or_eq_of_mem_set hx with hx | rfl
    · exact h.finished x hx hxf
    · exact hc' hxf
  cases ha with
  | trace | handOver => exact ⟨h.finished, h.consumers, h.writer, h.dump⟩
  | consume | appendRecord =>
    obtain ⟨hfinished, hno⟩ := hworks { appending := _ } ‹_› rfl fun hf => absurd hf Bool.false_ne_true
    exact ⟨hfinished, fun hexit => absurd hexit hno, h.writer, h.dump⟩
  | closeConsumer hc hexit =>
    obtain ⟨hfinished, hno⟩ := hworks { finished := true } hc rfl fun _ => ⟨rfl, hexit⟩
    exact ⟨hfinished, fun hexit => absurd hexit hno, h.writer, h.dump⟩
  | write => exact ⟨h.finished, h.consumers, h.writer, h.dump⟩
  | closeWriter _ hexit => exact ⟨h.finished, h.consumers, fun _ => .inl hexit, fun _ => rfl⟩
  | closeTaskQueue hexit =>
    refine ⟨fun c hc hf => absurd hexit (h.finished c hc hf).2, fun h => absurd h (by simp), fun hf => ?_,
      fun h => absurd h (by simp)⟩
    have hno := h.writer hf
    rw [hexit] at hno
    rcases hno with hno | hno <;> cases hno
  | closeWriteQueue _ hdone =>
    refine ⟨fun c hc hf => ⟨(h.finished c hc hf).1, by simp⟩, fun _ => hdone, fun _ => .inl rfl, fun h => absurd h (by simp)⟩
  | dump hexit hwriter =>
    exact ⟨fun c hc hf => ⟨(h.finished c hc hf).1, by simp⟩, fun _ => h.consumers (.inl hexit),
      fun _ => .inr rfl, fun _ => hwriter⟩

/-! ## What is left behind -/

/-- The last consumer takes the close signal only if there is no task, and the write worker only if there is no record;
without consumers there is no task when the exit hook starts. -/
def Drains (s : State) : Action → Prop
  | .closeConsumer i => (∀ j c, j ≠ i → s.consumers[j]? = some c → c.finished = true) → s.taskQueue = []
  | .exit => s.exit = .notStarted → s.ConsumersDone → s.taskQueue = []
  | .closeWriter => s.writeQueue = []
  | _ => True

/-- The ones who take from a queue have stopped, and there is something in it. -/
def Stuck (s : State) : Prop :=
  (s.exit ≠ .notStarted ∧ s.ConsumersDone ∧ s.taskQueue ≠ []) ∨ (s.writerFinished = true ∧ s.writeQueue ≠ [])

theorem done_set_iff (hc : s.consumers[i]? = some c) :
    (∀ x ∈ s.consumers.set i { finished := true }, x.finished = true) ↔ ∀ j c, j ≠ i → s.consumers[j]? = some c →
    c.finished = true := by
  constructor
  · intro h j x hj hx
    refine h x (mem_of_getElem? (i := j) ?_)
    rw [getElem?_set_ne (Ne.symm hj), hx]
  · intro h x hx
    obtain ⟨j, hj⟩ := getElem?_of_mem hx
    by_cases hji : j = i
    · subst hji
      rw [getElem?_set_self (List.getElem?_eq_some_iff.1 hc).1] at hj
      cases hj
      rfl
    · rw [getElem?_set_ne (Ne.symm hji)] at hj
      exact h j x hji hj

theorem stuck_iff (h : Ordered s) (ha : Stepped s a s') : Stuck s' ↔ Stuck s ∨ ¬ Drains s a := by
  cases ha with
  | trace _ _ ha =>
    have hdrains : Drains s a := by
      rcases ha with ⟨now, task, rfl⟩ | ⟨now, task, rfl⟩ <;> trivial
    exact ⟨.inl, fun hs => hs.resolve_right fun hno => hno hdrains⟩
  | handOver tracingTasks handed hexit =>
    have hsame : Stuck { s with tracingTasks, taskQueue := s.taskQueue ++ [handed], handedOver := s.handedOver ++ [handed] } ↔
        Stuck s := by
      unfold Stuck
      simp [hexit]
    rw [hsame]
    exact ⟨.inl, fun hs => hs.resolve_right fun hno => hno trivial⟩
  | @consume i task taskQueue rs hc hqueue hrecords =>
    have hno : ¬ s.ConsumersDone := not_done hc rfl
    have hno' : ¬ ({ s with taskQueue, consumers := s.consumers.set i { appending := rs } } : State).ConsumersDone :=
      not_done (getElem?_set_self (List.getElem?_eq_some_iff.1 hc).1) rfl
    unfold Stuck
    simp [hno, hno', Drains]
  | @appendRecord i r rs hc =>
    have hno : ¬ s.ConsumersDone := not_done hc rfl
    have hno' : ¬ ({ s with writeQueue := s.writeQueue ++ [r],
                            consumers := s.consumers.set i { appending := rs } } : State).ConsumersDone :=
      not_done (getElem?_set_self (List.getElem?_eq_some_iff.1 hc).1) rfl
    -- the write worker stops after the consumers
    have hwriter : s.writerFinished = false := by
      rw [← Bool.not_eq_true]
      exact fun hw => hno (h.consumers (h.writer hw))
    unfold Stuck
    simp only [hno, hno', false_and, and_false, false_or]
    simp [hwriter, Drains]
  | @closeConsumer i hc hexit =>
    have hno : ¬ s.ConsumersDone := not_done hc rfl
    have hdone : ({ s with consumers := s.consumers.set i { finished := true } } : State).ConsumersDone ↔
        ∀ j c, j ≠ i → s.consumers[j]? = some c → c.finished = true := done_set_iff hc
    unfold Stuck Drains
    rw [hdone]
    simp only [hno, hexit, false_and, and_false, false_or, not_false_eq_true, ne_eq, true_and, Classical.not_imp]
    exact or_comm
  | write hwriter =>
    unfold Stuck
    simp [hwriter, Drains, ConsumersDone]
  | closeWriter hwriter =>
    unfold Stuck
    simp [hwriter, Drains, ConsumersDone]
  | closeTaskQueue hexit =>
    unfold Stuck
    simp only [hexit, Drains, ConsumersDone, ne_eq, reduceCtorEq, not_true_eq_false, not_false_eq_true,
      true_and, false_and, false_or, forall_const, Classical.not_imp]
    exact or_comm
  | closeWriteQueue hexit =>
    unfold Stuck
    simp [hexit, Drains, ConsumersDone]
  | dump hexit =>
    unfold Stuck
    simp [hexit, Drains, ConsumersDone]

/-- Nothing is left in a queue, and all records of the tasks that were handed over have been applied, each once. -/
structure Lossless (t : Tracer) (s : State) : Prop where
  taskQueue : s.taskQueue = []
  writeQueue : s.writeQueue = []
  applied : ∃ applied : List MeshTraceRecord, applied.foldlM MeshInfo.appendRecord (init t).mesh = .ok s.mesh ∧
    (↑applied : Multiset MeshTraceRecord) = ↑(recordsOf s.handedOver)

/-- The counters of the mesh are those of the tasks that were handed over. -/
theorem Lossless.counted (h : Lossless t s) : (init t).mesh.Counted (recordsOf s.handedOver) s.mesh := by
  obtain ⟨applied, hmesh, happlied⟩ := h.applied
  have hperm := Multiset.coe_eq_coe.1 happlied
  obtain ⟨hwidth, hedge, hoverview⟩ := MeshInfo.counts_of_appendRecords hmesh
  refine ⟨hwidth, fun e time y => ?_, fun time y => ?_⟩
  · rw [hedge, hperm.countP_eq]
  · rw [hoverview, hperm.countP_eq]

variable {hist : List (State × Action)}

theorem run_invariant (h : Run t hist s) :
    (∃ applied, Conserved t applied s) ∧ Ordered s ∧ (Stuck s ↔ ∃ p ∈ hist, ¬ Drains p.1 p.2) := by
  induction h with
  | init =>
    refine ⟨⟨[], conserved_init t⟩, ordered_init t, ?_⟩
    simp [Stuck, init]
  | @step hist s s' a _ ha ih =>
    obtain ⟨⟨_, hconserved⟩, hordered, hstuck⟩ := ih
    have hstepped := stepped_of_step ha
    refine ⟨hconserved.stepped hstepped, hordered.stepped hstepped, ?_⟩
    rw [stuck_iff hordered hstepped, hstuck]
    simp only [mem_append, mem_singleton, or_and_right, exists_or, exists_eq_left]

theorem lossless_iff_not_stuck (hexit : s.exit = .dumping) (hordered : Ordered s) {applied : List MeshTraceRecord}
    (hconserved : Conserved t applied s) : Lossless t s ↔ ¬ Stuck s := by
  have hdone := hordered.consumers (.inr hexit)
  have hwriter := hordered.dump hexit
  constructor
  · rintro ⟨htasks, hrecords, -⟩ (⟨-, -, hne⟩ | ⟨-, hne⟩)
    · exact hne htasks
    · exact hne hrecords
  · intro hnot
    have htasks : s.taskQueue = [] := by
      by_contra hne
      refine hnot (.inl ⟨?_, hdone, hne⟩)
      rw [hexit]
      simp
    have hrecords : s.writeQueue = [] := by
      by_contra hne
      exact hnot (.inr ⟨hwriter, hne⟩)
    have hnone : appendingOf s.consumers = [] := by
      refine flatten_eq_nil_iff.2 fun l hl => ?_
      obtain ⟨c, hc, rfl⟩ := mem_map.1 hl
      exact (hordered.finished c hc (hdone c hc)).1
    refine ⟨htasks, hrecords, applied, hconserved.mesh, ?_⟩
    have hall := hconserved.all
    rw [htasks, hrecords, hnone] at hall
    simpa [onTheWay, recordsOf] using hall

/-- **No task is lost at exit**: in every run in which the mesh is dumped, of any number of consumers, this is so if and only
if all steps of the run drain the queue of the one who stops. -/
theorem lossless_iff (h : Run t hist s) (hexit : s.exit = .dumping) : Lossless t s ↔ ∀ p ∈ hist, Drains p.1 p.2 := by
  obtain ⟨⟨_, hconserved⟩, hordered, hstuck⟩ := run_invariant h
  rw [lossless_iff_not_stuck hexit hordered hconserved, hstuck]
  push Not
  rfl

/-- One consumer. -/
def oneConsumer : Tracer := { numHungryConsumer := 1, tileWidth := 2, tileHeight := 1 }

/-- A flit from one tile to the other. -/
def flit : Tracing.Task ℚ :=
  { id := "1", parentID := "0", kind := "flit.*mem.ReadReq", what := "flit_through_channel",
    location := "GPU1.SW[0][0][0].Right.GPU1.SW[0][1][0].Left", startTime := 0, endTime := 0 }

/-- The states of a run of some actions, and its end. -/
def runActions (t : Tracer) : List Action → List (State × Action) → State → Option (List (State × Action) × State)
  | [], hist, s => some (hist, s)
  | a :: actions, hist, s => (s.step t a).bind fun s' => runActions t actions (hist ++ [(s, a)]) s'

theorem run_of_runActions {actions : List Action} {hist hist' : List (State × Action)} (h : Run t hist s)
    (hrun : runActions t actions hist s = some (hist', s')) : Run t hist' s' := by
  induction actions generalizing hist s with
  | nil =>
    cases hrun
    exact h
  | cons _ _ ih =>
    obtain ⟨_, hs₁, hrest⟩ := Option.bind_eq_some_iff.1 hrun
    exact ih (h.step hs₁) hrest

/-- A flit is in the queue when the exit hook starts. -/
def handOverOne : List Action := [.startTask 0 flit, .endTask 0 flit, .exit]

theorem lossless_iff_drained : ∃ hist s, Run oneConsumer hist s ∧ s.exit = .dumping ∧ s.handedOver = [flit] ∧
    (Lossless oneConsumer s ↔ ∀ p ∈ hist, Drains p.1 p.2) := by
  have hrun : (runActions oneConsumer
      (handOverOne ++ [.consume 0, .appendRecord 0, .appendRecord 0, .appendRecord 0, .appendRecord 0,
      .closeConsumer 0, .write, .write, .write, .write, .exit, .closeWriter, .exit]) [] (init oneConsumer)).any
        (fun r => r.2.exit = .dumping ∧ r.2.handedOver = [flit]) = true := by
    decide +kernel
  obtain ⟨⟨hist, s⟩, heq, hend⟩ := (Option.any_eq_true _ _).1 hrun
  obtain ⟨hexit, hhanded⟩ := of_decide_eq_true hend
  have h := run_of_runActions .init heq
  exact ⟨hist, s, h, hexit, hhanded, lossless_iff h hexit⟩

/-- The only consumer takes the close signal instead of the flit. -/
theorem lost_at_exit :
    ∃ hist s, Run oneConsumer hist s ∧ s.exit = .dumping ∧ s.handedOver = [flit] ∧ s.taskQueue = [flit] ∧
    ¬ Lossless oneConsumer s := by
  have hrun : ∃ r, runActions oneConsumer (handOverOne ++ [.closeConsumer 0, .exit, .closeWriter, .exit]) []
      (init oneConsumer) = some r ∧
      r.2.exit = .dumping ∧ r.2.handedOver = [flit] ∧ r.2.taskQueue = [flit] := ⟨_, rfl, rfl, rfl, rfl⟩
  obtain ⟨⟨hist, s⟩, heq, hexit, hhanded, hqueue⟩ := hrun
  refine ⟨hist, s, run_of_runActions .init heq, hexit, hhanded, hqueue, fun h => ?_⟩
  have hempty := h.taskQueue
  rw [show s.taskQueue = [flit] from hqueue] at hempty
  cases hempty

end State

end Akita.Noc.NocTracing
