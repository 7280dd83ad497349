import Akita.WriteBack.Conservation

/-!
# Discarding flushes and panics

A discarding flush forgets the transactions in flight, and leaves the buffer from the write buffer to the bank as it
is. An evict-and-write in that buffer later asks the bank to answer a request that is no longer in flight.

`no_panic_of_cautious` : no call panics when no discarding flush is accepted at such a moment.
`call_refines`, `awaited_of_reaches`, `flush_drains` : what these runs keep.
-/

namespace Akita.WriteBack
open Sim Pipelining Mem Mem.Cache List

variable {cfg : Config}

/-- Any legal requests, flushes and restarts. When a discarding flush is accepted, no evict-and-write is on its way from the
write buffer to the bank. -/
def Rules.cautious (cfg : Config) : Rules cfg where
  request _ req := Legal cfg req
  control _ _ := True
  apply _ _ := True
  call c k := k = .flusher → Flusher.acceptsDiscard c = true →
    ∀ t ∈ c.writeBufferToBankBuffer.elements, t.action ≠ .bankWriteHit

theorem ensures_cautious {m : Memory} : Ensures (Rules.cautious cfg) m Flow.Allowed where
  allowed _ _ h := h
  silent _ := trivial
  request _ _ _ h _ _ := h
  control _ _ _ _ _ _ := trivial
  apply _ _ _ _ _ _ := trivial
  call := by
    intro s τ k hk _ _
    cases k with
    | flusher =>
      show Flow.Allowed _ (if Flusher.acceptsDiscard s.cache then .discard else .silent)
      split
      next hdiscard => exact fun t ht => hk rfl hdiscard t ht
      next => trivial
    | _ => trivial

/-- **No panic.** In a run in which no discarding flush is accepted while an evict-and-write is on its way back to the bank,
no stage call panics. -/
theorem no_panic_of_cautious {m : Memory} {s : System cfg} {k : Call} {ks : List Call}
    (h : Reaches (Rules.cautious cfg) m s (k :: ks)) : ∃ p c, k.exec s.cache = .ok (p, c) := by
  obtain ⟨τ, hτ⟩ := h.flow ensures_cautious
  obtain ⟨p, c, -, hok, -⟩ := hτ.moves ensures_cautious h
  exact ⟨p, c, hok⟩

instance (c : Cache cfg) (k : Call) : Decidable ((Rules.cautious cfg).call c k) :=
  inferInstanceAs (Decidable (k = .flusher → Flusher.acceptsDiscard c = true →
    ∀ t ∈ c.writeBufferToBankBuffer.elements, t.action ≠ .bankWriteHit))

/-- A discarding flush arrives while a read is fetched. -/
def discardedRead : List Input :=
  fetchedRead ++ [.control (.flush { id := 200, src := 2, discardInflight := true, pauseAfterFlushing := false })]

theorem reaches_discardedRead :
    Reaches (Rules.cautious tiny) (fun _ _ => 0) (play (Rules.cautious tiny).call discardedRead) [] := by
  refine reaches_play (fun _ _ h => h) fun i hi => ?_
  rcases mem_append.mp hi with hi | hi
  · exact (allows_servedRead (fun _ _ hlegal => hlegal) fun _ _ => trivial).1 i hi
  · rw [mem_singleton.mp hi]
    exact fun _ => trivial

/-- The flush is about to be accepted, with the read in flight. -/
theorem reaches_discard : ∃ s : System tiny, Reaches (Rules.cautious tiny) (fun _ _ => 0) s [.flusher] ∧
    Flusher.acceptsDiscard s.cache = true ∧ s.cache.inFlightTransactions.length = 1 := by
  have hbefore : (guarded (Rules.cautious tiny).call (fun k c => k.exec c) ([.controlPortSender] ++ pipelineCalls 1)
      (play (Rules.cautious tiny).call discardedRead).cache).map
        (fun c => (Flusher.acceptsDiscard c, c.inFlightTransactions.length)) =
        some (true, 1) := by decide +kernel
  obtain ⟨c, hc, hfacts⟩ := Option.map_eq_some_iff.mp hbefore
  rw [Prod.mk.injEq] at hfacts
  exact ⟨_, reaches_discardedRead.upto (fun _ _ h => h) (by decide +kernel) hc, hfacts⟩

theorem reaches_afterDiscard :
    Reaches (Rules.cautious tiny) (fun _ _ => 0) (play (Rules.cautious tiny).call (discardedRead ++ [.tick])) [] := by
  rw [play, foldl_append]
  exact reaches_discardedRead.replay (fun _ _ h => h) fun i hi => by
    rw [mem_singleton.mp hi]
    trivial

theorem no_panic_of_cautious_discard :
    ∃ s : System tiny, Flusher.acceptsDiscard s.cache = true ∧ s.cache.inFlightTransactions.length = 1 ∧
    ∃ p c, Call.flusher.exec s.cache = .ok (p, c) := by
  obtain ⟨s, hs, hdiscard, hflight⟩ := reaches_discard
  exact ⟨s, hdiscard, hflight, no_panic_of_cautious hs⟩

/-- Two writes of whole lines, the second of which evicts the first; and a discarding flush that is accepted when the second
has just been handed back to the bank. -/
def discardedWrite : List Input :=
  [Input.connect [true] [] [], .request
    (.write { id := 101, src := 1, pid := 0, address := 0, data := [1, 2], dirtyMask := none })] ++
    replicate 4 Input.tick ++
    [Input.request (.write { id := 102, src := 1, pid := 0, address := 2, data := [3, 4], dirtyMask := none })] ++
    replicate 3 Input.tick ++
    [Input.control (.flush { id := 200, src := 2, discardInflight := true, pauseAfterFlushing := false })] ++
    replicate 3 Input.tick

/-- The requests of a list of inputs. -/
def requestsOf (is : List Input) : List AccessReq := is.filterMap fun
  | .request req => some req
  | _ => none

theorem panics_after_discard :
    (∀ req ∈ requestsOf discardedWrite, Legal tiny req) ∧
      ((System.init tiny fun _ _ => 0).run discardedWrite).map (fun _ => ()) = .error "transaction not found" := by
  refine ⟨fun req hreq => ?_, by decide +kernel⟩
  have hreqs : requestsOf discardedWrite =
      [.write { id := 101, src := 1, pid := 0, address := 0, data := [1, 2], dirtyMask := none },
        .write { id := 102, src := 1, pid := 0, address := 2, data := [3, 4], dirtyMask := none }] := rfl
  rw [hreqs] at hreq
  rcases mem_cons.mp hreq with rfl | hreq
  · exact legal_tiny_write 101 0 1 2
  · rw [mem_singleton.mp hreq]
    exact legal_tiny_write 102 1 3 4

/-! ## What the runs keep -/

section
variable {m : Memory} {s : System cfg} {ks : List Call}

/-- **The stages refine the flow.** A stage call is a step of the flow with its label, or silent steps, and they log the
same. -/
theorem call_refines {k : Call} (h : Reaches (Rules.cautious cfg) m s (k :: ks)) :
    ∃ p c τ τ', k.exec s.cache = .ok (p, c) ∧ logOf τ = s.cache.log ∧ logOf τ' = c.log ∧
    Flow.Reachable Flow.Allowed m (s.flow τ) ∧
      Flow.Moves (k.label s.cache) (s.flow τ) ((s.become c).flow τ') := by
  obtain ⟨τ, hτ⟩ := h.flow ensures_cautious
  obtain ⟨p, c, τ', hok, ⟨-, hlog⟩, hm⟩ := hτ.moves ensures_cautious h
  exact ⟨p, c, τ, τ', hok, hτ.2.1, hlog, hτ.2.2, hm⟩

theorem call_refines_discard : ∃ s : System tiny, ∃ p c τ τ', s.cache.inFlightTransactions.length = 1 ∧
    Call.flusher.exec s.cache = .ok (p, c) ∧ logOf τ' = c.log ∧ Flow.Moves .discard (s.flow τ) ((s.become c).flow τ') := by
  obtain ⟨s, hs, hdiscard, hflight⟩ := reaches_discard
  obtain ⟨p, c, τ, τ', hok, -, hlog, -, hm⟩ := call_refines hs
  rw [show Call.flusher.label s.cache = .discard from if_pos hdiscard] at hm
  exact ⟨s, p, c, τ, τ', hflight, hok, hlog, hm⟩

/-- `fetches`, `evictions` : of the messages of a fetch or an eviction at most one is under way, and one transaction waits for
it; `keys`, `fetching`, `fetchers` : the MSHR has one entry for a line, and one transaction fetches it. -/
structure Awaited (s : System cfg) : Prop where
  fetches : ∀ i, (s.flow []).readMessages i ≤ s.cache.writeBuffer.inflightFetch.countP (Flow.awaitsRead i) ∧
    s.cache.writeBuffer.inflightFetch.countP (Flow.awaitsRead i) ≤ 1
  evictions : ∀ i, (s.flow []).writeMessages i ≤ s.cache.writeBuffer.inflightEviction.countP (Flow.awaitsWrite i) ∧
    s.cache.writeBuffer.inflightEviction.countP (Flow.awaitsWrite i) ≤ 1
  keys : ∀ e ∈ s.cache.mshr.entries, ∀ e' ∈ s.cache.mshr.entries, (s.cache.mshr.heap e).pid = (s.cache.mshr.heap e').pid →
    (s.cache.mshr.heap e).address = (s.cache.mshr.heap e').address → e = e'
  fetching : ∀ t ∈ s.cache.working, t.action.isFetch = true → ∃ e ∈ s.cache.mshr.entries, t.mshrEntry = some e ∧
    t.fetchPID = (s.cache.mshr.heap e).pid ∧ t.fetchAddress = (s.cache.mshr.heap e).address
  fetchers : ∀ e, s.cache.working.countP (fun t => t.fetchesFor e = true) ≤ 1

/-- **Fetches and evictions** in every state of a run, also after a flush that has discarded requests. -/
theorem awaited_of_reaches (h : Reaches (Rules.cautious cfg) m s ks) : Awaited s := by
  obtain ⟨τ, hτ⟩ := h.flow ensures_cautious
  obtain ⟨hc, -, -, -, -, hm, -⟩ := hτ.inv ensures_cautious
  exact ⟨fun i => ⟨hm.reads i, hm.reads_le i⟩, fun i => ⟨hm.writes i, hm.writes_le i⟩, hc.keys, hc.fetching, hc.fetchers⟩

/-- The read is forgotten, but its fetch is still waited for. -/
theorem awaited_of_reaches_discard : let s := play (Rules.cautious tiny).call (discardedRead ++ [.tick])
    s.cache.inFlightTransactions = [] ∧ s.cache.writeBuffer.inflightFetch.length = 1 ∧ s.cache.mshr.entries = [0] ∧
    Awaited s := by
  have hfacts : let c := (play (Rules.cautious tiny).call (discardedRead ++ [.tick])).cache
      c.inFlightTransactions = [] ∧ c.writeBuffer.inflightFetch.length = 1 ∧ c.mshr.entries = [0] := by decide +kernel
  exact ⟨hfacts.1, hfacts.2.1, hfacts.2.2, awaited_of_reaches reaches_afterDiscard⟩

/-- **Flushes drain** : while a flush is processed the cache drains and then evicts, with nothing in flight; else nothing is
left to evict. -/
theorem flush_drains (h : Reaches (Rules.cautious cfg) m s ks) :
    (if s.cache.processingFlush.isSome then s.cache.state = .preFlushing ∨ s.cache.state = .flushing
      else s.cache.state = .running ∨ s.cache.state = .paused) ∧
    (s.cache.state = .flushing → s.cache.inFlightTransactions = []) ∧
      (s.cache.state ≠ .flushing → s.cache.blockToEvict = []) := by
  obtain ⟨τ, hτ⟩ := h.flow ensures_cautious
  obtain ⟨hidle, hbusy, hdrained, hevict⟩ := (hτ.inv ensures_cautious).modes
  refine ⟨?_, hdrained, hevict⟩
  cases hf : s.cache.processingFlush with
  | none => exact hidle hf
  | some req => exact hbusy req hf

theorem flush_drains_discard : let s := play (Rules.cautious tiny).call (discardedRead ++ [.tick])
    s.cache.processingFlush.isSome = true ∧ (s.cache.state = .preFlushing ∨ s.cache.state = .flushing) := by
  have hflush : (play (Rules.cautious tiny).call (discardedRead ++ [.tick])).cache.processingFlush.isSome = true := by
    decide +kernel
  have hdrains := (flush_drains reaches_afterDiscard).1
  rw [if_pos hflush] at hdrains
  exact ⟨hflush, hdrains⟩

end

end Akita.WriteBack
