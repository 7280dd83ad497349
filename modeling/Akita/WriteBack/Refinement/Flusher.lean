import Akita.WriteBack.Refinement.WriteBuffer

/-!
# The flusher and the calls refine the flow

* `dirtyBlocks_ok` : once no request is in flight every block is free, so the check before flushing does not panic;
* `Call.refines` : every stage call succeeds and moves the flow with its label.
-/

namespace Akita.WriteBack
open List hiding isEmpty_iff
open Sim Pipelining Mem Mem.Cache
open WriteBack.Flow (Silent Moves)
open WriteBack.System (become flow)

variable {cfg : Config} {s : System cfg} {τ : List Moment} {l : Flow.Label}

namespace Flusher

theorem idle_of_drained {a : Flow cfg} (hinv : a.Inv) (hin : a.inFlight = []) {b : BlockRef} (hb : b.gen = a.gen) :
    a.Idle b := by
  have hdead : ∀ t ∈ a.work, t.action.isHit = false := by
    intro t ht
    rw [Bool.eq_false_iff]
    intro hhit
    obtain ⟨t', ht', -⟩ := hinv.custody.work_live t ht hhit
    rw [show a.ledger.inFlight = [] from hin] at ht'
    cases ht'
  have hreaders : a.ledger.readers b = 0 :=
    Multiset.countP_eq_zero.mpr fun t ht => Ledger.not_readsFrom_of_not_hit (hdead t ht) b
  have hread : (a.blocks b).readCount = a.ledger.readers b := hinv.ownership.reading b hb
  refine ⟨?_, by rw [hread, hreaders]; exact le_rfl⟩
  rw [Bool.eq_false_iff]
  intro hlock
  have hdisc : a.ledger.discarding = false := by
    rw [Bool.eq_false_iff]
    intro hd
    have hfree : (a.blocks b).isLocked = false := hinv.ownership.discarded hd b hb
    rw [hlock] at hfree
    cases hfree
  -- the owner of a locked block has a request in flight
  have hown : a.ledger.owners b = 1 := hinv.ownership.locked b hb hlock
  have hwork : a.ledger.work.countP (fun t => t.writesTo b = true) = 0 :=
    Multiset.countP_eq_zero.mpr fun t ht => Ledger.not_writesTo_of_not_hit (hdead t ht) b
  have hsum : (a.ledger.opened.map fun e => Ledger.filling b (a.ledger.mshr.heap e)).sum ≠ 0 := by
    unfold Ledger.owners at hown
    omega
  obtain ⟨e, he, hne⟩ : ∃ e ∈ a.ledger.opened, Ledger.filling b (a.ledger.mshr.heap e) ≠ 0 := by
    by_contra hno
    push Not at hno
    exact hsum (Multiset.sum_eq_zero fun n hn => by
      obtain ⟨e, he, rfl⟩ := Multiset.mem_map.mp hn
      exact hno e he)
  have hblock : (a.ledger.mshr.heap e).block = some b := by
    by_contra hno
    exact hne (if_neg hno)
  have hshape := hinv.entries.shape e (Multiset.mem_of_le (Ledger.opened_le_held _) he)
  obtain ⟨t, ht⟩ := exists_mem_of_ne_nil _ hshape.requests
  obtain ⟨_, ht', -⟩ := hinv.live hdisc e he b hblock hb t ht
  rw [show a.ledger.inFlight = [] from hin] at ht'
  cases ht'

variable {d : Directory cfg.geometry}

theorem dirtyBlocks_ok {l : List BlockRef} (hidle : ∀ b ∈ l, (d.blocks b).isLocked = false ∧ (d.blocks b).readCount ≤ 0) :
    dirtyBlocks d l = .ok (l.filter fun b => (d.blocks b).isValid && (d.blocks b).isDirty) := by
  induction l with
  | nil => rfl
  | cons b _ ih =>
    obtain ⟨hlock, hread⟩ := hidle b mem_cons_self
    unfold dirtyBlocks
    rw [if_neg (by simp [hlock, hread]), ih fun b' hb' => hidle b' (mem_cons_of_mem _ hb'), bind_ok]
    rw [filter_cons]
    split <;> rfl

theorem mem_allBlocks (hd : d.Whole) {b : BlockRef} :
    b ∈ d.allBlocks ↔ b.gen = d.gen ∧ b.setID < cfg.numSets ∧ b.wayID < cfg.wayAssociativity := by
  unfold Directory.allBlocks
  simp only [mem_flatMap, mem_range, hd.blocks, mem_waysOf]
  constructor
  · rintro ⟨i, hi, hgen, rfl, hway⟩
    exact ⟨hgen, hi, hway⟩
  · rintro ⟨hgen, hset, hway⟩
    exact ⟨b.setID, hset, hgen, rfl, hway⟩

theorem nodup_allBlocks (hd : d.Whole) : d.allBlocks.Nodup := by
  unfold Directory.allBlocks
  rw [nodup_flatMap]
  constructor
  · intro i _
    rw [hd.blocks]
    refine List.Nodup.map ?_ nodup_range
    intro j j' h
    exact (BlockRef.mk.inj h).2.2
  · refine nodup_range.pairwise_of_forall_ne ?_
    intro i _ i' _ hne b hb hb'
    have hb : b ∈ (d.sets i).blocks := hb
    have hb' : b ∈ (d.sets i').blocks := hb'
    rw [hd.blocks] at hb hb'
    exact hne ((mem_waysOf.mp hb).2.1.symm.trans (mem_waysOf.mp hb').2.1)

variable {req : FlushReq}

theorem processPreFlushing_refines (hw : Wired s.cache) (hlog : logOf τ = s.cache.log) (hinv : (s.flow τ).Inv)
    (hflush : s.cache.processingFlush = some req) (hmode : s.cache.state = .preFlushing) :
    Refines s τ l (processPreFlushing s.cache) := by
  unfold processPreFlushing
  split
  · exact .refl hw hlog false
  next hexist =>
  have hin : s.cache.inFlightTransactions = [] := by simpa [existInflightTransaction] using hexist
  have hidle : ∀ b, b.gen = s.cache.directory.gen → (s.flow τ).Idle b := fun b hb => idle_of_drained hinv hin hb
  have hok := dirtyBlocks_ok (d := s.cache.directory) (l := s.cache.directory.allBlocks)
    fun b hb => hidle b ((mem_allBlocks hw.directory).mp hb).1
  unfold prepareBlockToFlushList
  simp only [hok, bind_ok, pure_bind]
  refine .silent τ (hw.of_eq rfl rfl rfl rfl) hlog ?_
  refine Flow.Step.prepare (a := s.flow τ) req _ hflush hmode hin (fun b => ?_) ((nodup_allBlocks hw.directory).filter _)
    fun b hgen _ _ => hidle b hgen
  rw [mem_filter, mem_allBlocks hw.directory, Bool.and_eq_true]
  simp only [and_assoc]
  rfl

theorem processFlush_refines (hw : Wired s.cache) (hlog : logOf τ = s.cache.log) (hflush : s.cache.processingFlush = some req)
    (hmode : s.cache.state = .flushing) : Refines s τ l (processFlush s.cache) := by
  unfold processFlush
  split
  · exact .refl hw hlog false
  next b rest hevict =>
  split
  · exact .refl hw hlog false
  next hpush =>
  simp only [Buffer.push_of_canPush (b := s.cache.dirToBankBuffer) (by simpa using hpush), bind_ok, hflush]
  refine .silent τ (hw.of_eq rfl rfl rfl rfl) hlog ?_
  convert Flow.Step.evictFlush (a := s.flow τ) req b rest hflush hmode hevict using 1
  simp only [flow, become, coe_concat, Multiset.cons_add, hflush]

theorem flushCompleted_spec (hw : Wired s.cache) (τ : List Moment) (h : flushCompleted s.cache = true) :
    s.cache.writeBufferBuffer.elements = [] ∧ s.cache.writeBuffer.inflightFetch = [] ∧
      s.cache.writeBuffer.inflightEviction = [] ∧ s.cache.writeBuffer.pendingEvictions = [] ∧ (s.flow τ).bank = 0 := by
  simp only [flushCompleted, Bool.and_eq_true, beq_iff_eq, decide_eq_true_eq, List.isEmpty_iff, Buffer.size,
    length_eq_zero_iff] at h
  obtain ⟨⟨⟨⟨⟨hdir, hcount⟩, hwb⟩, hfetch⟩, hevict⟩, hpending⟩ := h
  refine ⟨hwb, hfetch, hevict, hpending, ?_⟩
  rw [hw.counted] at hcount
  have hcard : (s.cache.bank.pipeline.items + (↑s.cache.bank.postPipelineBuf.elements : Multiset Transaction)).card = 0 := by
    omega
  show (↑s.cache.dirToBankBuffer.elements + (s.cache.bank.pipeline.items + ↑s.cache.bank.postPipelineBuf.elements) :
    Multiset Transaction) = 0
  rw [hdir, Multiset.card_eq_zero.mp hcard]
  rfl

theorem finalizeFlushing_refines (hw : Wired s.cache) (hlog : logOf τ = s.cache.log) (hn : 0 < cfg.numReqPerCycle)
    (hflush : s.cache.processingFlush = some req) (hmode : s.cache.state = .flushing) :
    Refines s τ l (finalizeFlushing s.cache req) := by
  unfold finalizeFlushing
  split
  · exact .refl hw hlog false
  next hevict =>
  have hevict : s.cache.blockToEvict = [] := by simpa using hevict
  split
  · exact .refl hw hlog false
  next hdone =>
  obtain ⟨hwb, hfetch, hinflight, hpending, hbank⟩ := flushCompleted_spec hw τ (by simpa using hdone)
  obtain ⟨room, hroom⟩ := s.cache.controlPortSender.canSend_ok (show 0 < cfg.numReqPerCycle * 4 by omega)
  rw [hroom, bind_ok]
  cases room with
  | false => exact .refl hw hlog false
  | true =>
    simp only [if_bnot_true, BufferedSender.send_of_canSend hroom, bind_ok]
    refine .silent (τ ++ [Moment.event (.flushComplete req)]) ⟨Directory.whole_fresh _ _ _, hw.counted, hw.noFetch, ?_⟩
      (by rw [logOf_concat, hlog]) ?_
    · exact hw.sent.trans (sentOf_concat rfl).symm
    · exact Flow.Step.finishFlush (a := s.flow τ) req hflush hmode hevict hwb hfetch hinflight hpending hbank

theorem handleCacheRestart_refines (hw : Wired s.cache) (hlog : logOf τ = s.cache.log) (hn : 0 < cfg.numReqPerCycle)
    {id : MsgID} {src : PortID} (hcontrol : s.cache.controlPort.peek = some (.restart id src))
    (hflush : s.cache.processingFlush = none) : Refines s τ l (handleCacheRestart s.cache id src) := by
  unfold handleCacheRestart
  obtain ⟨room, hroom⟩ := s.cache.controlPortSender.canSend_ok (show 0 < cfg.numReqPerCycle * 4 by omega)
  rw [hroom, bind_ok]
  cases room with
  | false => exact .refl hw hlog false
  | true =>
    simp only [if_bnot_true, BufferedSender.send_of_canSend hroom, bind_ok]
    refine .silent τ (hw.of_eq rfl rfl rfl rfl) hlog ?_
    convert Flow.Step.restart (a := s.flow τ) id src _ ↑s.answers (Buffer.peek_eq_some hcontrol) hflush
      (Multiset.le_add_right _ _) using 1
    simp [flow, become]

/-- The flusher is about to accept a discarding flush. -/
def acceptsDiscard (c : Cache cfg) : Bool :=
  c.processingFlush.isNone &&
    match c.controlPort.peek with
    | some (.flush req) => req.discardInflight
    | _ => false

theorem discardInflightTransactions_refines (hw : Wired s.cache) (hlog : logOf τ = s.cache.log)
    (hcontrol : s.cache.controlPort.peek = some (.flush req)) (hflush : s.cache.processingFlush = none)
    (hdiscard : req.discardInflight = true) : Refines s τ .discard (.ok (true, startProcessingFlush s.cache req)) := by
  unfold startProcessingFlush discardInflightTransactions
  simp only [hdiscard, if_true]
  refine .step (τ ++ [Moment.event (.flushReceive req)]) ?_ (by rw [logOf_concat, hlog]; rfl) ?_
  · refine ⟨hw.directory.of_eq rfl rfl, ?_, ?_, hw.sent.trans (sentOf_concat rfl).symm⟩
    · simp [WriteBufferStage.reset, MSHRStage.reset, BankStage.reset]
    · simp [WriteBufferStage.reset, MSHRStage.reset, BankStage.reset]
  · convert Flow.Step.discardFlush (a := s.flow τ) req _ (Buffer.peek_eq_some hcontrol) hflush hdiscard using 1
    simp [flow, become, WriteBufferStage.reset, MSHRStage.reset, BankStage.reset, DirectoryStage.reset,
      Directory.modifyAll, Config.geometry]
    rfl

theorem extractFromPort_refines (hw : Wired s.cache) (hlog : logOf τ = s.cache.log) (hn : 0 < cfg.numReqPerCycle)
    (hflush : s.cache.processingFlush = none) :
    Refines s τ (if acceptsDiscard s.cache then .discard else .silent) (extractFromPort s.cache) := by
  unfold extractFromPort
  cases hcontrol : s.cache.controlPort.peek with
  | none => exact .refl hw hlog false
  | some msg =>
    cases msg with
    | restart => exact handleCacheRestart_refines hw hlog hn hcontrol hflush
    | flush req =>
      by_cases hdiscard : req.discardInflight = true
      · rw [if_pos (by simp [acceptsDiscard, hflush, hcontrol, hdiscard])]
        exact discardInflightTransactions_refines hw hlog hcontrol hflush hdiscard
      · unfold startProcessingFlush
        simp only [hdiscard, Bool.false_eq_true, if_false]
        refine .silent (τ ++ [Moment.event (.flushReceive req)]) (hw.of_eq rfl rfl rfl (sentOf_concat rfl))
          (by rw [logOf_concat, hlog]) ?_
        exact Flow.Step.startFlush (a := s.flow τ) req _ (Buffer.peek_eq_some hcontrol) hflush
          (Bool.eq_false_iff.mpr hdiscard)

theorem processFlush_nil {c : Cache cfg} (h : c.blockToEvict = []) : processFlush c = .ok (false, c) := by
  unfold processFlush
  rw [h]

theorem finalizeFlushing_blockToEvict {c c' : Cache cfg} {p : Bool}
    (h : finalizeFlushing c req = .ok (p, c')) : c'.blockToEvict = c.blockToEvict := by
  unfold finalizeFlushing at h
  split at h
  · cases h
    rfl
  split at h
  · cases h
    rfl
  cases hroom : c.controlPortSender.canSend 1 with
  | error =>
    rw [hroom] at h
    cases h
  | ok room =>
    rw [hroom, bind_ok] at h
    cases room with
    | false =>
      cases h
      rfl
    | true =>
      rw [BufferedSender.send_of_canSend hroom] at h
      cases h
      rfl

theorem flushing_refines (hw : Wired s.cache) (hlog : logOf τ = s.cache.log) (hn : 0 < cfg.numReqPerCycle)
    (hflush : s.cache.processingFlush = some req) (hmode : s.cache.state = .flushing) :
    Refines s τ l (finalizeFlushing s.cache req >>= fun x => processFlush x.2 >>= fun y => .ok (x.1 || y.1, y.2)) := by
  cases hevict : s.cache.blockToEvict with
  | nil =>
    obtain ⟨p, c, τ', hok, hw', hlog', hm⟩ := finalizeFlushing_refines (l := l) hw hlog hn hflush hmode
    refine ⟨p || false, c, τ', ?_, hw', hlog', hm⟩
    rw [hok, bind_ok, processFlush_nil ((finalizeFlushing_blockToEvict hok).trans hevict)]
    rfl
  | cons =>
    have hwait : finalizeFlushing s.cache req = .ok (false, s.cache) := by
      unfold finalizeFlushing
      rw [if_pos (by simp [hevict])]
    rw [hwait, bind_ok]
    exact (processFlush_refines hw hlog hflush hmode).report fun p => false || p

theorem tick_refines (hw : Wired s.cache) (hlog : logOf τ = s.cache.log) (hinv : (s.flow τ).Inv)
    (hn : 0 < cfg.numReqPerCycle) :
    Refines s τ (if acceptsDiscard s.cache then .discard else .silent) (tick s.cache) := by
  cases hflush : s.cache.processingFlush with
  | none =>
    unfold tick
    simp only [hflush]
    exact extractFromPort_refines hw hlog hn hflush
  | some req =>
    have hno : acceptsDiscard s.cache = false := by simp [acceptsDiscard, hflush]
    rw [hno, if_neg (by nofun)]
    rcases hinv.modes.busy req hflush with hmode | hmode
    · have hmode : s.cache.state = .preFlushing := hmode
      unfold tick
      simp only [hflush, hmode]
      exact processPreFlushing_refines hw hlog hinv hflush hmode
    · have hmode : s.cache.state = .flushing := hmode
      unfold tick
      simp only [hflush, hmode]
      exact flushing_refines hw hlog hn hflush hmode

end Flusher

/-! ## Calls -/

/-- The label of a call in a state of the cache. -/
def Call.label (c : Cache cfg) : Call → Flow.Label
  | writeBufferNew => .localFetch
  | flusher => if Flusher.acceptsDiscard c then .discard else .silent
  | _ => .silent

/-- **Every stage call succeeds, and what it does to the flow is a step with its label or silent steps.** -/
theorem Call.refines (hw : Wired s.cache) (hlog : logOf τ = s.cache.log) (hinv : (s.flow τ).Inv)
    (hn : 0 < cfg.numReqPerCycle) (k : Call) : Refines s τ (k.label s.cache) (k.exec s.cache) := by
  cases k with
  | controlPortSender => exact controlPortSender_refines hw hlog
  | topSender => exact topSender_refines hw hlog
  | bottomSender => exact bottomSender_refines hw hlog
  | mshrStage => exact MSHRStage.tick_refines hw hlog hinv hn
  | bankFinalize => exact BankStage.finalizeTrans_refines hw hlog hinv hn
  | bankPipeline => exact BankStage.tickPipeline_refines hw hlog
  | bankPull => exact BankStage.pullFromBuf_refines hw hlog hinv
  | writeBufferWrite => exact WriteBufferStage.write_refines hw hlog hinv hn
  | writeBufferReturn => exact WriteBufferStage.processReturnRsp_refines hw hlog hinv
  | writeBufferNew => exact WriteBufferStage.processNewTransaction_refines hw hlog hinv hn
  | dirAccept => exact DirectoryStage.acceptNewTransaction_refines _ (c := s.cache) hw hlog
  | dirPipeline => exact DirectoryStage.tickPipeline_refines hw hlog
  | dirProcess => exact DirectoryStage.processTransaction_refines _ (c := s.cache) hw hlog hinv
  | topParser => exact topParser_refines hw hlog
  | flusher => exact Flusher.tick_refines hw hlog hinv hn

end Akita.WriteBack
