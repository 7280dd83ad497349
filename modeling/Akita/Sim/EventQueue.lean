import Akita.Sim.SerialEngine

/-!
# Event queues

The two queues of `sim/eventqueue.go` under sequences of `Push` and `Pop`.

* `EventQueue` : the interface; `EventQueue.Lawful` : a bag of events that gives out one of the earliest;
* `EventQueue.Lawful.run_agree` : two such queues give out events of the same times;
* `InsertionQueue` : the sorted list, with the events of a time in the order they came;
* `queues_agree` : both queues after the same calls.
-/

namespace Akita.Sim
open List
open Event (time)

variable {τ η Q Q' : Type}

/-- `EventQueue` -/
structure EventQueue (Q τ η : Type) where
  push : Q → Event τ η → Q
  pop : Q → Except String (Event τ η × Q)
  peek : Q → Except String (Event τ η)
  len : Q → Nat

inductive QueueCall (τ η : Type)
  | push (evt : Event τ η)
  | pop

/-- The events that are pushed. -/
def pushed : List (QueueCall τ η) → List (Event τ η)
  | [] => []
  | .push evt :: calls => evt :: pushed calls
  | .pop :: calls => pushed calls

namespace EventQueue

/-- The events that the calls return, and the queue after them. -/
def run (o : EventQueue Q τ η) : Q → List (QueueCall τ η) → Except String (List (Event τ η) × Q)
  | q, [] => .ok ([], q)
  | q, .push evt :: calls => o.run (o.push q evt) calls
  | q, .pop :: calls => do
    let (evt, q) ← o.pop q
    let (evts, q) ← o.run q calls
    return (evt :: evts, q)

theorem run_pop (o : EventQueue Q τ η) {q q₁ : Q} {evt : Event τ η} (h : o.pop q = .ok (evt, q₁))
    (calls : List (QueueCall τ η)) : o.run q (.pop :: calls) = (o.run q₁ calls).map fun p => (evt :: p.1, p.2) := by
  rw [run, h]
  show (do
    let (evts, q) ← o.run q₁ calls
    return (evt :: evts, q)) = _
  cases o.run q₁ calls <;> rfl

variable [LinearOrder τ]

/-- The queue holds the events `elems`, and `Pop` takes one of the earliest. -/
structure Lawful (o : EventQueue Q τ η) (elems : Q → List (Event τ η)) : Prop where
  push : ∀ q evt, (elems (o.push q evt)).Perm (evt :: elems q)
  pop_nil : ∀ q, elems q = [] → ∃ msg, o.pop q = .error msg
  pop_some : ∀ q, elems q ≠ [] → ∃ evt q', o.pop q = .ok (evt, q') ∧ (elems q).Perm (evt :: elems q') ∧
    ∀ x ∈ elems q, evt.time ≤ x.time
  peek : ∀ q evt q', o.pop q = .ok (evt, q') → o.peek q = .ok evt
  len : ∀ q, o.len q = (elems q).length

variable {o : EventQueue Q τ η} {o' : EventQueue Q' τ η} {elems : Q → List (Event τ η)} {elems' : Q' → List (Event τ η)}
  {q q₁ : Q} {q' : Q'} {calls : List (QueueCall τ η)} {evts : List (Event τ η)}

theorem Lawful.pop_eq_ok (h : o.Lawful elems) {evt : Event τ η} (hpop : o.pop q = .ok (evt, q₁)) :
    (elems q).Perm (evt :: elems q₁) ∧ ∀ x ∈ elems q, evt.time ≤ x.time := by
  rcases eq_or_ne (elems q) [] with hnil | hne
  · obtain ⟨_, hmsg⟩ := h.pop_nil q hnil
    rw [hmsg] at hpop
    cases hpop
  · obtain ⟨_, _, hpop', hperm, hmin⟩ := h.pop_some q hne
    rw [hpop] at hpop'
    cases hpop'
    exact ⟨hperm, hmin⟩

theorem Lawful.run_perm (h : o.Lawful elems) (hrun : o.run q calls = .ok (evts, q₁)) :
    (evts ++ elems q₁).Perm (elems q ++ pushed calls) := by
  induction calls generalizing q evts with
  | nil =>
    cases hrun
    simp [pushed]
  | cons call calls ih =>
    cases call with
    | push evt =>
      calc (evts ++ elems q₁).Perm (elems (o.push q evt) ++ pushed calls) := ih hrun
        List.Perm _ (evt :: elems q ++ pushed calls) := (h.push q evt).append_right _
        List.Perm _ (elems q ++ evt :: pushed calls) := perm_middle.symm
    | pop =>
      obtain ⟨⟨evt, q₂⟩, hpop, hrest⟩ := eq_ok_of_bind hrun
      obtain ⟨⟨evts', _⟩, hrun', hret⟩ := eq_ok_of_bind hrest
      cases hret
      calc (evt :: evts' ++ elems q₁).Perm (evt :: (elems q₂ ++ pushed calls)) := (ih hrun').cons evt
        List.Perm _ (elems q ++ pushed calls) := (h.pop_eq_ok hpop).1.symm.append_right _

/-- Two queues with events of the same times give out events of the same times, or both fail. -/
theorem Lawful.run_agree (h : o.Lawful elems) (h' : o'.Lawful elems')
    (htimes : ((elems q).map time).Perm ((elems' q').map time)) (calls : List (QueueCall τ η)) :
    (∃ msg msg', o.run q calls = .error msg ∧ o'.run q' calls = .error msg') ∨
      ∃ evts q₁ evts' q₁', o.run q calls = .ok (evts, q₁) ∧ o'.run q' calls = .ok (evts', q₁') ∧
        evts.map time = evts'.map time := by
  induction calls generalizing q q' with
  | nil => exact .inr ⟨[], q, [], q', rfl, rfl, rfl⟩
  | cons call _ ih =>
    cases call with
    | push evt =>
      refine ih ?_
      calc ((elems (o.push q evt)).map time).Perm (evt.time :: (elems q).map time) := (h.push q evt).map _
        List.Perm _ (evt.time :: (elems' q').map time) := htimes.cons _
        List.Perm _ ((elems' (o'.push q' evt)).map time) := ((h'.push q' evt).map _).symm
    | pop =>
      rcases eq_or_ne (elems q) [] with hnil | hne
      · have hnil' : elems' q' = [] := by
          rw [hnil, map_nil] at htimes
          exact map_eq_nil_iff.1 htimes.symm.eq_nil
        obtain ⟨msg, hmsg⟩ := h.pop_nil q hnil
        obtain ⟨msg', hmsg'⟩ := h'.pop_nil q' hnil'
        exact .inl ⟨msg, msg', by rw [run, hmsg]; rfl, by rw [run, hmsg']; rfl⟩
      · have hne' : elems' q' ≠ [] := by
          intro hnil'
          rw [hnil', map_nil] at htimes
          exact hne (map_eq_nil_iff.1 htimes.eq_nil)
        obtain ⟨evt, q₁, hpop, hperm, hmin⟩ := h.pop_some q hne
        obtain ⟨evt', q₁', hpop', hperm', hmin'⟩ := h'.pop_some q' hne'
        -- each of the two earliest times is among the other ones
        have htime : evt.time = evt'.time := by
          apply le_antisymm
          · obtain ⟨x, hx, heq⟩ := mem_map.1 (htimes.mem_iff.2 (mem_map.2 ⟨evt', hperm'.mem_iff.2 mem_cons_self, rfl⟩))
            exact heq ▸ hmin x hx
          · obtain ⟨x, hx, heq⟩ := mem_map.1 (htimes.mem_iff.1 (mem_map.2 ⟨evt, hperm.mem_iff.2 mem_cons_self, rfl⟩))
            exact heq ▸ hmin' x hx
        have hrest : ((elems q₁).map time).Perm ((elems' q₁').map time) := by
          have hall := ((hperm.map time).symm.trans htimes).trans (hperm'.map time)
          rw [map_cons, map_cons, htime] at hall
          exact hall.cons_inv
        rcases ih hrest with ⟨msg, msg', hrun, hrun'⟩ | ⟨evts, q₂, evts', q₂', hrun, hrun', heq⟩
        · exact .inl ⟨msg, msg', by rw [run_pop o hpop, hrun]; rfl, by rw [run_pop o' hpop', hrun']; rfl⟩
        · refine .inr ⟨evt :: evts, q₂, evt' :: evts',
            q₂', by rw [run_pop o hpop, hrun]; rfl, by rw [run_pop o' hpop', hrun']; rfl, ?_⟩
          rw [map_cons, map_cons, htime, heq]

end EventQueue

variable [LinearOrder τ]

/-! ## The heap -/

/-- `EventQueueImpl` -/
def eventQueueImpl : EventQueue (EventQueueImpl τ η) τ η where
  push q evt := q.insert evt
  pop := popQueue
  peek := peekQueue
  len q := q.elems.length

theorem lawful_eventQueueImpl : (eventQueueImpl : EventQueue (EventQueueImpl τ η) τ η).Lawful Heap.elems where
  push q evt := q.elems_insert evt
  pop_nil q hnil := ⟨"index out of range", by simp only [eventQueueImpl, popQueue, Heap.pop_eq_none.2 hnil]⟩
  pop_some q hne := by
    cases hpop : q.pop with
    | none => exact absurd (Heap.pop_eq_none.1 hpop) hne
    | some p =>
      obtain ⟨-, hperm, hmin⟩ := Heap.pop_spec (show q.pop = some (p.1, p.2) from hpop)
      exact ⟨p.1, p.2, by simp only [eventQueueImpl, popQueue, hpop], hperm, hmin⟩
  peek q evt q' hpop := by
    simp only [eventQueueImpl, popQueue] at hpop
    split at hpop
    next hq =>
      cases hpop
      simp only [eventQueueImpl, peekQueue, (Heap.pop_spec hq).1]
    next => cases hpop
  len q := rfl

/-! ## The sorted list -/

/-- Before the first event that is later, or at the end. -/
def insertEvent (evt : Event τ η) : List (Event τ η) → List (Event τ η)
  | [] => [evt]
  | ele :: l => if ele.time > evt.time then evt :: ele :: l else ele :: insertEvent evt l

theorem insertEvent_perm (evt : Event τ η) (l : List (Event τ η)) : (insertEvent evt l).Perm (evt :: l) := by
  induction l with
  | nil => exact List.Perm.refl _
  | cons ele l ih =>
    unfold insertEvent
    split
    · exact List.Perm.refl _
    · exact (ih.cons ele).trans (List.Perm.swap evt ele l)

theorem insertEvent_sorted (evt : Event τ η) {l : List (Event τ η)} (h : l.Pairwise fun a b => a.time ≤ b.time) :
    (insertEvent evt l).Pairwise fun a b => a.time ≤ b.time := by
  induction l with
  | nil => exact pairwise_singleton _ _
  | cons _ l ih =>
    obtain ⟨hele, hl⟩ := pairwise_cons.1 h
    unfold insertEvent
    split
    case isTrue hlater =>
      refine pairwise_cons.2 ⟨fun x hx => ?_, h⟩
      rcases mem_cons.1 hx with rfl | hx
      · exact le_of_lt hlater
      · exact (le_of_lt hlater).trans (hele x hx)
    case isFalse hnot =>
      refine pairwise_cons.2 ⟨fun x hx => ?_, ih hl⟩
      rcases mem_cons.1 ((insertEvent_perm evt l).mem_iff.1 hx) with rfl | hx
      · exact not_lt.1 hnot
      · exact hele x hx

theorem filter_insertEvent (evt : Event τ η) {l : List (Event τ η)} (h : l.Pairwise fun a b => a.time ≤ b.time) (t : τ) :
    (insertEvent evt l).filter (·.time = t) = l.filter (·.time = t) ++ [evt].filter (·.time = t) := by
  induction l with
  | nil => rfl
  | cons ele l ih =>
    obtain ⟨hele, hl⟩ := pairwise_cons.1 h
    unfold insertEvent
    split
    case isTrue hlater =>
      by_cases ht : evt.time = t
      · -- all events behind it are later
        have hnone : (ele :: l).filter (·.time = t) = [] := by
          rw [filter_eq_nil_iff]
          intro x hx
          rw [decide_eq_true_eq]
          subst ht
          rcases mem_cons.1 hx with rfl | hx
          · exact ne_of_gt hlater
          · exact ne_of_gt (lt_of_lt_of_le hlater (hele x hx))
        rw [filter_cons, hnone, nil_append, filter_cons, filter_nil]
      · have hfalse : ¬ decide (evt.time = t) = true := by simpa using ht
        have hevt : [evt].filter (·.time = t) = [] := by simpa using ht
        rw [hevt, append_nil, filter_cons, if_neg hfalse]
    case isFalse hnot =>
      rw [filter_cons, filter_cons, ih hl]
      split <;> rfl

/-- `InsertionQueue`, sorted by time. -/
structure InsertionQueue (τ η : Type) [LinearOrder τ] where
  l : List (Event τ η) := []
  sorted : l.Pairwise fun a b => a.time ≤ b.time := by exact List.Pairwise.nil

namespace InsertionQueue

def push (q : InsertionQueue τ η) (evt : Event τ η) : InsertionQueue τ η where
  l := insertEvent evt q.l
  sorted := insertEvent_sorted evt q.sorted

def pop (q : InsertionQueue τ η) : Except String (Event τ η × InsertionQueue τ η) :=
  match q with
  | ⟨[], _⟩ => .error "invalid memory address or nil pointer dereference"
  | ⟨evt :: l, h⟩ => .ok (evt, ⟨l, (pairwise_cons.1 h).2⟩)

def peek (q : InsertionQueue τ η) : Except String (Event τ η) :=
  match q.l with
  | [] => .error "invalid memory address or nil pointer dereference"
  | evt :: _ => .ok evt

theorem pop_eq_ok {q q' : InsertionQueue τ η} {evt : Event τ η} (h : q.pop = .ok (evt, q')) : q.l = evt :: q'.l := by
  obtain ⟨l, _⟩ := q
  cases l with
  | nil => cases h
  | cons =>
    cases h
    rfl

end InsertionQueue

def insertionQueue : EventQueue (InsertionQueue τ η) τ η where
  push := InsertionQueue.push
  pop := InsertionQueue.pop
  peek := InsertionQueue.peek
  len q := q.l.length

theorem lawful_insertionQueue : (insertionQueue : EventQueue (InsertionQueue τ η) τ η).Lawful InsertionQueue.l where
  push q evt := insertEvent_perm evt q.l
  pop_nil q hnil := by
    obtain ⟨l, hl⟩ := q
    subst hnil
    exact ⟨_, rfl⟩
  pop_some q hne := by
    obtain ⟨l, hl⟩ := q
    cases l with
    | nil => exact absurd rfl hne
    | cons evt l =>
      refine ⟨evt, ⟨l, (pairwise_cons.1 hl).2⟩, rfl, List.Perm.refl _, fun x hx => ?_⟩
      rcases mem_cons.1 hx with rfl | hx
      · exact le_refl _
      · exact (pairwise_cons.1 hl).1 x hx
  peek q evt q' hpop := by
    have hl := InsertionQueue.pop_eq_ok hpop
    simp only [insertionQueue, InsertionQueue.peek, hl]
  len q := rfl

theorem insertionQueue_fifo {q q' : InsertionQueue τ η} {calls : List (QueueCall τ η)} {evts : List (Event τ η)}
    (hrun : insertionQueue.run q calls = .ok (evts, q')) (t : τ) :
    (evts ++ q'.l).filter (·.time = t) = (q.l ++ pushed calls).filter (·.time = t) := by
  induction calls generalizing q evts with
  | nil =>
    cases hrun
    simp [pushed]
  | cons call _ ih =>
    cases call with
    | push evt =>
      rw [ih hrun, filter_append, show (insertionQueue.push q evt).l = insertEvent evt q.l from rfl,
        filter_insertEvent evt q.sorted, pushed, filter_append, append_assoc, ← filter_append, singleton_append]
    | pop =>
      obtain ⟨⟨evt, _⟩, hpop, hrest⟩ := eq_ok_of_bind hrun
      obtain ⟨⟨evts', _⟩, hrun', hret⟩ := eq_ok_of_bind hrest
      cases hret
      rw [InsertionQueue.pop_eq_ok hpop, cons_append, cons_append, filter_cons, filter_cons, ih hrun', pushed]

/-! ## Both queues -/

/-- What two queues gave out and still hold after the same calls. -/
structure Agree (calls : List (QueueCall τ η)) (evts : List (Event τ η)) (q : EventQueueImpl τ η) (evts' : List (Event τ η))
    (q' : InsertionQueue τ η) : Prop where
  times : evts.map time = evts'.map time
  heap : (evts ++ q.elems).Perm (pushed calls)
  list : (evts' ++ q'.l).Perm (pushed calls)
  heap_peek : ∀ {evt r}, eventQueueImpl.pop q = .ok (evt, r) → eventQueueImpl.peek q = .ok evt
  list_peek : ∀ {evt r}, insertionQueue.pop q' = .ok (evt, r) → insertionQueue.peek q' = .ok evt
  len : eventQueueImpl.len q = insertionQueue.len q'
  order : ∀ t, (evts' ++ q'.l).filter (·.time = t) = (pushed calls).filter (·.time = t)

/-- The two queues agree after any calls, or both fail at a `Pop` without an event. -/
theorem queues_agree (calls : List (QueueCall τ η)) :
    (∃ msg msg', eventQueueImpl.run (Heap.empty _) calls = .error msg ∧ insertionQueue.run {} calls = .error msg') ∨
      ∃ evts q evts' q', eventQueueImpl.run (Heap.empty _) calls = .ok (evts, q) ∧
      insertionQueue.run {} calls = .ok (evts', q') ∧
        Agree calls evts q evts' q' := by
  have hempty : (((Heap.empty time : EventQueueImpl τ η).elems).map time).Perm
      ((({} : InsertionQueue τ η).l).map time) := List.Perm.refl _
  rcases lawful_eventQueueImpl.run_agree lawful_insertionQueue hempty calls
    with herr | ⟨evts, q, evts', q', hrun, hrun', htimes⟩
  · exact .inl herr
  · refine .inr ⟨evts, q, evts', q', hrun, hrun', htimes, ?_, ?_, lawful_eventQueueImpl.peek q _ _,
      lawful_insertionQueue.peek q' _ _, ?_, ?_⟩
    · simpa using lawful_eventQueueImpl.run_perm hrun
    · simpa using lawful_insertionQueue.run_perm hrun'
    · have hperm : (evts ++ q.elems).Perm (pushed calls) := by simpa using lawful_eventQueueImpl.run_perm hrun
      have hperm' : (evts' ++ q'.l).Perm (pushed calls) := by simpa using lawful_insertionQueue.run_perm hrun'
      have hlen := (hperm.trans hperm'.symm).length_eq
      have hpopped := congrArg length htimes
      rw [length_map, length_map] at hpopped
      rw [length_append, length_append] at hlen
      rw [lawful_eventQueueImpl.len, lawful_insertionQueue.len]
      omega
    · intro t
      simpa using insertionQueue_fifo hrun' t

end Akita.Sim
