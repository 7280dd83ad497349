import Akita.L1.Starvation

/-!
# Flushes of an L1 cache

A flush resets the cache at once. What it leaves:

* `Emptied c` : blocks unlocked, MSHR, buffers and pipelines empty;
* `Forgets c` : since each flush the cache holds, records and sends nothing about the transactions from before it, and drops
  the answers to them;
* `forgets_of_reaches` : every run in which the directory stage is empty when a flush completes.
-/

namespace Akita.L1
open Sim Pipelining Mem Mem.Cache List

variable {cfg : Config}

/-- Nothing is in the cache. -/
structure Emptied (c : Cache cfg) : Prop where
  blocks : ∀ i, ∀ b ∈ (c.directory.sets i).blocks, (c.directory.blocks b).isLocked = false ∧
    (c.directory.blocks b).isValid = false
  mshr : c.mshr.entries = []
  ports : c.topPort.buf.elements = [] ∧ c.bottomPort.buf.elements = []
  directory : c.dirItems = 0
  banks : ∀ i, (c.banks i).items = 0
  lists : c.toCoalesce = [] ∧ c.transactions = [] ∧ c.postCoalesceTransactions = []

/-- If the earlier of two events is a flush, the later is about newer transactions and messages; if the later is, the earlier
is about older ones. -/
structure Event.Apart (e e' : Event) : Prop where
  after : ∀ f, e.flush? = some f → (∀ r ∈ e'.pointers, f.1 ≤ r) ∧ ∀ id ∈ e'.ids, f.2 ≤ id
  before : ∀ f, e'.flush? = some f → (∀ r ∈ e.pointers, r < f.1) ∧ ∀ id ∈ e.ids, id < f.2

/-- Nothing from before a flush is left, or comes back. -/
structure Forgets (c : Cache cfg) : Prop where
  events : c.log.Pairwise Event.Apart
  held : ∀ e ∈ c.log, ∀ f, e.flush? = some f → ∀ x, c.Holds x → f.1 ≤ x
  late : ∀ e ∈ c.log, ∀ f, e.flush? = some f → ∀ rsp, c.bottomPort.peek = some rsp → rsp.respondTo < f.2 →
    BottomParser.tick c = .ok (true, BottomParser.retrieve c)

/-- A flush completes when nothing is in the pipeline of the directory and in the buffer behind it. -/
def DirectoryDrained (c : Cache cfg) : Call → Prop
  | .currentFlush => ∀ req, c.currFlushReq = some req → ControlStage.shouldWaitForInFlightTransactions c req = false →
      (c.controlPort.send (.flush req.src req.id)).1 = true → c.dirPipeline.items = 0 ∧ c.dirPostBuf.elements = []
  | _ => True

/-- Any messages and any order of the answers. -/
def Rules.drained (cfg : Config) : Rules cfg where
  request _ := True
  control _ := True
  apply _ _ := True
  call := DirectoryDrained

/-! ## The flush itself -/

section
variable {c c' : Cache cfg} {k : Call} {x : TransRef}

theorem Emptied.not_holds (h : Emptied c) (x : TransRef) : ¬ c.Holds x := by
  intro hx
  cases hx with
  | request hx => exact absurd (h.lists.2.1 ▸ hx) not_mem_nil
  | parked hx => exact absurd (h.lists.1 ▸ hx) not_mem_nil
  | wave hx => exact absurd (h.lists.2.2 ▸ hx) not_mem_nil
  | directory hx => exact absurd (h.directory ▸ hx) (Multiset.notMem_zero x)
  | bank i hx => exact absurd (h.banks i ▸ hx) (Multiset.notMem_zero x)
  | joined _ he => exact absurd (h.mshr ▸ he) not_mem_nil

theorem emptied_flushed (req : FlushReq) (conn : List Bool) (hpipe : c.dirPipeline.items = 0)
    (hpost : c.dirPostBuf.elements = []) : Emptied (c.flushed req conn) := by
  refine ⟨fun i b hb => ?_, rfl, ⟨rfl, rfl⟩, ?_, fun i => ?_, rfl, rfl, rfl⟩
  · have hgen := (mem_waysOf.mp hb).1
    show (if b.gen = c.directory.gen + 1 then ({} : Block) else c.directory.blocks b).isLocked = false ∧
      (if b.gen = c.directory.gen + 1 then ({} : Block) else c.directory.blocks b).isValid = false
    rw [if_pos hgen]
    exact ⟨rfl, rfl⟩
  · show ↑c.dirBuf.clear.elements + (c.dirPipeline.items + ↑c.dirPostBuf.elements) = (0 : Multiset TransRef)
    rw [hpipe, hpost]
    rfl
  · show ↑(c.banks i).buf.clear.elements + ((c.banks i).pipeline.clear.items + ↑(c.banks i).postPipelineBuf.clear.elements) =
      (0 : Multiset TransRef)
    rw [items_clear]
    rfl

end

/-! ## Runs -/

/-- Pointers and IDs are given out in order, and those held, sent and recorded since a flush are newer than the flush. -/
structure Recent (c : Cache cfg) : Prop where
  holds_lt : ∀ x, c.Holds x → x < c.nextRef
  sent_lt : ∀ x id, (c.heap x).HasSent id → x < c.nextRef ∧ id < c.nextID
  pointers_lt : ∀ e ∈ c.log, ∀ r ∈ e.pointers, r < c.nextRef
  ids_lt : ∀ e ∈ c.log, ∀ id ∈ e.ids, id < c.nextID
  flush_le : ∀ e ∈ c.log, ∀ f, e.flush? = some f → f.1 ≤ c.nextRef ∧ f.2 ≤ c.nextID
  held : ∀ e ∈ c.log, ∀ f, e.flush? = some f → ∀ x, c.Holds x → f.1 ≤ x
  sent : ∀ e ∈ c.log, ∀ f, e.flush? = some f → ∀ x id, (c.heap x).HasSent id → f.1 ≤ x → f.2 ≤ id
  events : c.log.Pairwise Event.Apart

section
variable {G : Cache cfg → Call → Prop} {c c' : Cache cfg} {k : Call}

theorem Recent.step (h : Recent c) (hs : Step G c k c') : Recent c' := by
  obtain ⟨es, hlog, hfits⟩ := hs.log
  -- no step records a flush
  have hflush : ∀ e ∈ c'.log, ∀ f, e.flush? = some f → e ∈ c.log := by
    intro e he f hf
    rw [hlog, mem_append] at he
    rcases he with he | he
    · exact he
    · rw [(hfits e he).flush] at hf
      cases hf
  have hnew : ∀ e ∈ es, ∀ r ∈ e.pointers, r < c'.nextRef := by
    intro e he r hr
    rcases (hfits e he).pointers r hr with hheld | ⟨rfl, hlt⟩
    · exact lt_of_lt_of_le (h.holds_lt r hheld) hs.nextRef_le
    · exact hlt
  have hholds : ∀ x, c'.Holds x → x < c'.nextRef := by
    intro x hx
    rcases hs.holds hx with hx | ⟨rfl, hnext⟩
    · exact lt_of_lt_of_le (h.holds_lt x hx) hs.nextRef_le
    · rw [hnext]
      exact Nat.lt_succ_self _
  refine ⟨hholds, fun x id hid => ?_, fun e he r hr => ?_, fun e he id hid => ?_, fun e he f hf => ?_,
    fun e he f hf x hx => ?_, fun e he f hf x id hid hle => ?_, ?_⟩
  · rcases hs.sent hid with hid | ⟨hx, rfl, hlt⟩
    · have ⟨hx, hlt⟩ := h.sent_lt x id hid
      exact ⟨lt_of_lt_of_le hx hs.nextRef_le, lt_of_lt_of_le hlt hs.nextID_le⟩
    · exact ⟨lt_of_lt_of_le (h.holds_lt x (.directory hx)) hs.nextRef_le, hlt⟩
  · rw [hlog, mem_append] at he
    rcases he with he | he
    · exact lt_of_lt_of_le (h.pointers_lt e he r hr) hs.nextRef_le
    · exact hnew e he r hr
  · rw [hlog, mem_append] at he
    rcases he with he | he
    · exact lt_of_lt_of_le (h.ids_lt e he id hid) hs.nextID_le
    · exact ((hfits e he).ids id hid).2
  · have ⟨hr, hi⟩ := h.flush_le e (hflush e he f hf) f hf
    exact ⟨le_trans hr hs.nextRef_le, le_trans hi hs.nextID_le⟩
  · rcases hs.holds hx with hx | ⟨rfl, -⟩
    · exact h.held e (hflush e he f hf) f hf x hx
    · exact (h.flush_le e (hflush e he f hf) f hf).1
  · rcases hs.sent hid with hid | ⟨-, rfl, -⟩
    · exact h.sent e (hflush e he f hf) f hf x id hid hle
    · exact (h.flush_le e (hflush e he f hf) f hf).2
  · rw [hlog, pairwise_append]
    refine ⟨h.events, pairwise_of_forall_mem_list fun e he e' he' => ?_, fun e he e' he' => ⟨fun f hf => ?_, fun f hf => ?_⟩⟩
    · refine ⟨fun f hf => ?_, fun f hf => ?_⟩
      · rw [(hfits e he).flush] at hf
        cases hf
      · rw [(hfits e' he').flush] at hf
        cases hf
    · refine ⟨fun r hr => ?_, fun id hid => ?_⟩
      · rcases (hfits e' he').pointers r hr with hheld | ⟨rfl, -⟩
        · exact h.held e he f hf r hheld
        · exact (h.flush_le e he f hf).1
      · exact le_trans (h.flush_le e he f hf).2 ((hfits e' he').ids id hid).1
    · rw [(hfits e' he').flush] at hf
      cases hf

theorem holds_ports {topPort : Port cfg.numReqPerCycle TopReq TopRsp}
    {bottomPort : Port cfg.numReqPerCycle (AccessRsp Bytes) AccessReq}
    {controlPort : Port cfg.numReqPerCycle ControlReq ControlRsp} {currFlushReq : Option FlushReq} {isPaused : Bool}
    {log : List Event} {x : TransRef}
    (hx : Cache.Holds { c with topPort, bottomPort, controlPort, currFlushReq, isPaused, log } x) : c.Holds x := by
  cases hx with
  | request hx => exact .request hx
  | parked hx => exact .parked hx
  | wave hx => exact .wave hx
  | directory hx => exact .directory hx
  | bank i hx => exact .bank i hx
  | joined e he hx => exact .joined e he hx

theorem Recent.ports (h : Recent c) (topPort : Port cfg.numReqPerCycle TopReq TopRsp)
    (bottomPort : Port cfg.numReqPerCycle (AccessRsp Bytes) AccessReq)
    (controlPort : Port cfg.numReqPerCycle ControlReq ControlRsp) (currFlushReq : Option FlushReq) (isPaused : Bool) :
    Recent { c with topPort, bottomPort, controlPort, currFlushReq, isPaused } :=
  ⟨fun x hx => h.holds_lt x (holds_ports hx), h.sent_lt, h.pointers_lt, h.ids_lt, h.flush_le,
    fun e he f hf x hx => h.held e he f hf x (holds_ports hx), h.sent, h.events⟩

theorem Recent.ctrlStep (h : Recent c) (hk : DirectoryDrained c k) (hs : CtrlStep c k c') : Recent c' := by
  cases hs with
  | flush req conn hreq hready hsent =>
    obtain ⟨hpipe, hpost⟩ := hk req hreq hready hsent
    have hempty := (emptied_flushed req conn hpipe hpost).not_holds
    have hlog : (c.flushed req conn).log = c.log ++ [Event.flushed req c.nextRef c.nextID] := rfl
    have hevent : ∀ e ∈ (c.flushed req conn).log, e ∈ c.log ∨ e = .flushed req c.nextRef c.nextID := by
      intro e he
      rwa [hlog, mem_append, mem_singleton] at he
    refine ⟨fun x hx => absurd hx (hempty x), h.sent_lt, fun e he r hr => ?_, fun e he id hid => ?_, fun e he f hf => ?_,
      fun e he f hf x hx => absurd hx (hempty x), fun e he f hf x id hid hle => ?_, ?_⟩
    · rcases hevent e he with he | rfl
      · exact h.pointers_lt e he r hr
      · exact absurd hr not_mem_nil
    · rcases hevent e he with he | rfl
      · exact h.ids_lt e he id hid
      · exact absurd hid not_mem_nil
    · rcases hevent e he with he | rfl
      · exact h.flush_le e he f hf
      · cases hf
        exact ⟨le_refl _, le_refl _⟩
    · rcases hevent e he with he | rfl
      · exact h.sent e he f hf x id hid hle
      · cases hf
        exact absurd (h.sent_lt x id hid).1 (Nat.not_lt.mpr hle)
    · rw [hlog, pairwise_append]
      refine ⟨h.events, pairwise_singleton _ _, fun e he e' he' => ?_⟩
      rw [mem_singleton] at he'
      subst he'
      refine ⟨fun f hf => ⟨forall_mem_nil _, forall_mem_nil _⟩, fun f hf => ?_⟩
      cases hf
      exact ⟨h.pointers_lt e he, h.ids_lt e he⟩
  | idle => exact h.ports c.topPort c.bottomPort _ c.currFlushReq c.isPaused
  | start => exact h.ports c.topPort c.bottomPort _ _ c.isPaused
  | restart => exact h.ports _ _ _ c.currFlushReq _

theorem Recent.served (h : Recent c) (bottomPort : Port cfg.numReqPerCycle (AccessRsp Bytes) AccessReq) (req : AccessReq)
    (rsp : AccessRsp Bytes) : Recent { c with bottomPort, log := c.log ++ [Event.served req rsp] } := by
  have hevent : ∀ e ∈ c.log ++ [Event.served req rsp], e ∈ c.log ∨ e = .served req rsp := by
    intro e he
    rwa [mem_append, mem_singleton] at he
  have hnone : ∀ f, (Event.served req rsp).flush? ≠ some f := fun f hf => by cases hf
  refine ⟨fun x hx => h.holds_lt x (holds_ports hx), h.sent_lt, fun e he r hr => ?_,
    fun e he id hid => ?_, fun e he f hf => ?_, fun e he f hf x hx => ?_, fun e he f hf => ?_, ?_⟩
  · rcases hevent e he with he | rfl
    · exact h.pointers_lt e he r hr
    · exact absurd hr not_mem_nil
  · rcases hevent e he with he | rfl
    · exact h.ids_lt e he id hid
    · exact absurd hid not_mem_nil
  · rcases hevent e he with he | rfl
    · exact h.flush_le e he f hf
    · exact absurd hf (hnone f)
  · rcases hevent e he with he | rfl
    · exact h.held e he f hf x (holds_ports hx)
    · exact absurd hf (hnone f)
  · rcases hevent e he with he | rfl
    · exact h.sent e he f hf
    · exact absurd hf (hnone f)
  · show (c.log ++ [Event.served req rsp]).Pairwise Event.Apart
    rw [pairwise_append]
    refine ⟨h.events, pairwise_singleton _ _, fun e he e' he' => ?_⟩
    rw [mem_singleton] at he'
    subst he'
    exact ⟨fun f hf => ⟨forall_mem_nil _, forall_mem_nil _⟩, fun f hf => absurd hf (hnone f)⟩

/-- The answers to requests from before a flush find no transaction. -/
theorem Recent.forgets (h : Recent c) : Forgets c := by
  refine ⟨h.events, h.held, fun e he f hf rsp hpeek hlt => ?_⟩
  have hold : ∀ x ∈ c.postCoalesceTransactions, ¬ (c.heap x).HasSent rsp.respondTo := by
    intro x hx hid
    exact absurd (h.sent e he f hf x _ hid (h.held e he f hf x (.wave hx))) (Nat.not_le.mpr hlt)
  unfold BottomParser.tick
  rw [hpeek]
  cases rsp with
  | writeDone rsp =>
    have hnone : BottomParser.findTransactionByWriteToBottomID c rsp.respondTo = none := by
      refine find?_eq_none.mpr fun x hx hany => hold x hx (.inr ?_)
      obtain ⟨w, hw, hid⟩ := Option.any_eq_true _ _ |>.mp hany
      exact ⟨w, hw, of_decide_eq_true hid⟩
    show BottomParser.processDoneRsp c rsp = _
    unfold BottomParser.processDoneRsp
    rw [hnone]
  | dataReady rsp =>
    have hnone : BottomParser.findTransactionByReadToBottomID c rsp.respondTo = none := by
      refine find?_eq_none.mpr fun x hx hany => hold x hx (.inl ?_)
      obtain ⟨r, hr, hid⟩ := Option.any_eq_true _ _ |>.mp hany
      exact ⟨r, hr, of_decide_eq_true hid⟩
    show BottomParser.processDataReady c rsp = _
    unfold BottomParser.processDataReady
    rw [hnone]

end

theorem recent_of_reaches {m : Memory} {s : System cfg} {ks : List Call} (h : Reaches (Rules.drained cfg) m s ks) :
    Recent s.cache := by
  refine Reaches.invariant (I := fun s => Recent s.cache) ?_ (fun s req hs _ => ?_) (fun s req hs _ => ?_)
    (fun s top bottom control hs => ?_) (fun s k req hs _ _ => hs.served _ _ _) (fun s k rsp hs _ => ?_)
    (fun s k c' hs hstep => hs.step hstep) (fun s k c' hs hk hctrl => hs.ctrlStep hk hctrl) h
  · have hempty : Emptied (build cfg) := by
      refine ⟨fun i b hb => ?_, rfl, ⟨rfl, rfl⟩, ?_, fun i => ?_, rfl, rfl, rfl⟩
      · show (if b.gen = 0 then ({} : Block) else {}).isLocked = false ∧ (if b.gen = 0 then ({} : Block) else {}).isValid =
          false
        split <;> exact ⟨rfl, rfl⟩
      · unfold Cache.dirItems build
        rw [items_new]
        rfl
      · unfold Bank.items build
        rw [items_new]
        rfl
    refine ⟨fun x hx => absurd hx (hempty.not_holds x), fun x id hid => ?_, forall_mem_nil _, forall_mem_nil _,
      forall_mem_nil _, forall_mem_nil _, forall_mem_nil _, List.Pairwise.nil⟩
    rcases hid with ⟨r, hr, -⟩ | ⟨w, hw, -⟩
    · cases hr
    · cases hw
  · exact hs.ports _ s.cache.bottomPort s.cache.controlPort s.cache.currFlushReq s.cache.isPaused
  · exact hs.ports s.cache.topPort s.cache.bottomPort _ s.cache.currFlushReq s.cache.isPaused
  · exact hs.ports _ _ _ s.cache.currFlushReq s.cache.isPaused
  · exact hs.ports s.cache.topPort _ s.cache.controlPort s.cache.currFlushReq s.cache.isPaused

/-- **A flush leaves nothing behind.** In every run whose flushes complete with the directory stage drained, a flush that
completes leaves an empty cache, and nothing from before it comes back. -/
theorem forgets_of_reaches {m : Memory} {s : System cfg} {ks : List Call} (h : Reaches (Rules.drained cfg) m s ks) :
    Forgets s.cache ∧
      ∀ p c', DirectoryDrained s.cache .currentFlush → Call.exec s.cache .currentFlush = .ok (p, c') →
        c'.controlPort.outgoing ≠ s.cache.controlPort.outgoing → Emptied c' := by
  refine ⟨(recent_of_reaches h).forgets, fun p c' hk hexec hsent => ?_⟩
  have hstep : CtrlStep s.cache .currentFlush c' := currentFlush_step hexec
  cases hstep with
  | idle => exact absurd rfl hsent
  | flush req conn hreq hready hsent' =>
    obtain ⟨hpipe, hpost⟩ := hk req hreq hready hsent'
    exact emptied_flushed req conn hpipe hpost

/-- A flush that discards what is in flight. -/
def discard : FlushReq where
  id := 8
  src := 9
  discardInflight := true
  pauseAfterFlushing := false

/-- No flush is current, or the directory stage is empty. -/
def Drained (c : Cache cfg) (_ : Call) : Prop :=
  c.currFlushReq.isNone = true ∨ c.dirPipeline.items = 0 ∧ c.dirPostBuf.elements = []

instance (c : Cache cfg) (k : Call) : Decidable (Drained c k) := inferInstanceAs (Decidable (_ ∨ _ ∧ _))

theorem Drained.directory {c : Cache cfg} {k : Call} (h : Drained c k) : DirectoryDrained c k := by
  cases k with
  | currentFlush =>
    intro req hreq _ _
    rcases h with hnone | hempty
    · rw [hreq] at hnone
      cases hnone
    · exact hempty
  | _ => trivial

/-- A read is fetched when the cache is flushed. -/
def flushedRead : List Input :=
  [.connect [true] [true] [true], .request (.access (readAt 7 0 false)), .tick, .tick, .control (.flush discard)]

theorem forgets_of_reaches_flush : ∃ s : System (tiny .writethrough), s.cache.transactions = [0] ∧ Forgets s.cache ∧
    ∃ p c', Call.exec s.cache .currentFlush = .ok (p, c') ∧ c'.controlPort.outgoing = [.flush 9 8] ∧ Emptied c' := by
  have hrun : (guarded Drained (fun k c => k.exec c) (runPipeline (tiny .writethrough) ++ [Call.newRequest])
      (play Drained flushedRead).cache).map
        (fun c => (c.transactions, c.controlPort.outgoing, decide (Drained c .currentFlush),
        (Call.exec c .currentFlush).map fun x => x.2.controlPort.outgoing)) = some ([0], [], true, .ok [.flush 9 8]) := by
    decide +kernel
  obtain ⟨c, hc, hfacts⟩ := Option.map_eq_some_iff.mp hrun
  simp only [Prod.mk.injEq, decide_eq_true_eq] at hfacts
  obtain ⟨htransactions, hbefore, hdrained, hafter⟩ := hfacts
  have hallows : ∀ i ∈ flushedRead, (Rules.drained (tiny .writethrough)).Allows i := by
    simp [flushedRead, Rules.Allows, Rules.drained]
  have hks : schedule (tiny .writethrough) (play Drained flushedRead).cache.isPaused =
      (runPipeline (tiny .writethrough) ++ [Call.newRequest]) ++ [.currentFlush] := by
    decide +kernel
  have hs := (reaches_play (fun _ _ => Drained.directory) hallows).upto (fun _ _ => Drained.directory) hks hc
  obtain ⟨hforgets, hemptied⟩ := forgets_of_reaches hs
  cases hexec : Call.exec c .currentFlush with
  | error =>
    rw [hexec] at hafter
    cases hafter
  | ok x =>
    rw [hexec] at hafter
    have hsent : x.2.controlPort.outgoing = [.flush 9 8] := Except.ok.inj hafter
    refine ⟨_, htransactions, hforgets, x.1, x.2, hexec, hsent, hemptied x.1 x.2 hdrained.directory hexec ?_⟩
    rw [hsent, hbefore]
    exact cons_ne_nil _ _

/-- A read waits in the directory stage because the lower level is busy, the cache is flushed, and the lower level is free
again. -/
def leftover : List Input :=
  [.connect [] [] [true], .request (.access (readAt 7 0 false)), .tick, .control (.flush discard), .tick,
    .connect [true] [true] [], .tick]

/-- The read is fetched after the flush, into a block that no one will unlock. -/
theorem fetched_after_flush : ∃ s, (System.init (tiny .writethrough) fun _ _ => 0).run leftover = .ok s ∧
    s.cache.controlPort.outgoing = [.flush discard.src discard.id] ∧ ¬ Forgets s.cache ∧ s.cache.mshr.entries = [0] ∧
    (s.cache.directory.blocks { gen := 1, setID := 0, wayID := 0 }).isLocked = true ∧
    s.cache.postCoalesceTransactions = [] := by
  refine ⟨_, rfl, by decide +kernel, fun h => ?_, by decide +kernel, by decide +kernel, by decide +kernel⟩
  have hheld := h.held (.flushed discard 2 2) (by decide +kernel) (2, 2) rfl 1
    (.joined 0 (by decide +kernel) (by decide +kernel))
  exact absurd hheld (by decide)

end Akita.L1
