import Akita.WriteBack.Discard

/-!
# The lanes of the bank

`pullFromBuf` keeps one lane of the bank free for the transactions that come back from the write buffer, by counting those
that have to go down to it.

* `Reserved c` : the count is exact, and one lane is left;
* `reserved_of_reaches` : every run in which no hit is finalised and no discarding flush finds a transaction on its way down.
-/

namespace Akita.WriteBack
open Sim Pipelining Mem Mem.Cache List
open DirectoryStage (acceptNewTransaction doRead doWrite doWriteHit doWriteMiss evict fetch handleReadHit missWithFetch
  processHead processTransaction readFromBank updateTransForEviction writeToBank)
open WriteBufferStage (combineData fetchFromBottom fillEntry processNewTransaction processReturnRsp processWriteBufferFetch
  processWriteBufferFlush)
open BankStage (finalizeFrom finalizeOne finalizeReadHit finalizeWriteHit pullFromBuf pullFromDirectory reset tickPipeline)

variable {cfg : Config}

/-- The transactions inside the bank. -/
def BankStage.items (b : BankStage cfg) : Multiset Transaction := b.pipeline.items + ↑b.postPipelineBuf.elements

/-- The transactions inside the bank that have to go down to the write buffer. -/
def BankStage.downward (b : BankStage cfg) : Nat := b.items.countP fun t => BankStage.isDownward t.action = true

structure Reserved (c : Cache cfg) : Prop where
  exact : c.bank.downwardInflightTransCount = c.bank.downward
  lane : c.writeBufferToBankBuffer.elements ≠ [] → c.bank.downwardInflightTransCount < cfg.laneWidth

/-- The finaliser of a transaction has room for what it sends on. -/
def BankStage.CanFinalize (c : Cache cfg) (t : Transaction) : Prop :=
  match t.action with
  | .bankReadHit | .bankWriteHit => c.topSender.canSend 1 = .ok true
  | .bankWriteFetched => c.mshrStageBuffer.canPush = true
  | _ => c.writeBufferBuffer.canPush = true

/-- The flusher is not busy with a flush, and the next control request is a flush that discards. -/
def Flusher.TakesDiscard (c : Cache cfg) : Prop :=
  (c.processingFlush = none ∨ c.state ≠ .preFlushing ∧ c.state ≠ .flushing) ∧
    ∃ req, c.controlPort.peek = some (.flush req) ∧ req.discardInflight = true

/-- The transaction that `finalizeTrans` finalises, if any, is not a hit; a discarding flush finds nothing in the bank that
goes down. -/
def HitsWait (c : Cache cfg) : Call → Prop
  | .bankFinalize => ∀ pre t rest, c.bank.postPipelineBuf.elements = pre ++ t :: rest → BankStage.CanFinalize c t →
      (∀ t' ∈ pre, ¬ BankStage.CanFinalize c t') → t.action ≠ .bankReadHit ∧ t.action ≠ .bankWriteHit
  | .flusher => Flusher.TakesDiscard c → c.bank.downward = 0
  | _ => True

/-- Any messages, and any order of the answers. -/
def Rules.hitsWait (cfg : Config) : Rules cfg where
  request _ _ := True
  control _ _ := True
  apply _ _ := True
  call := HitsWait

/-! ## Stages that leave the bank alone -/

/-- The transaction goes up. -/
def Upward (cfg : Config) (t : Transaction) : Prop := BankStage.isDownward t.action = false ∧ 0 < cfg.numReqPerCycle

/-- The bank is as it was, and only transactions that go up have come into its buffer from the write buffer. -/
structure BankFrame (c c' : Cache cfg) : Prop where
  bank : c'.bank = c.bank
  toBank : ∀ t ∈ c'.writeBufferToBankBuffer.elements, t ∈ c.writeBufferToBankBuffer.elements ∨ Upward cfg t

theorem BankFrame.of_eq {c c' : Cache cfg} (hbank : c'.bank = c.bank)
    (hbuf : c'.writeBufferToBankBuffer = c.writeBufferToBankBuffer) : BankFrame c c' := ⟨hbank, fun _ ht => .inl (hbuf ▸ ht)⟩

theorem BankFrame.refl (c : Cache cfg) : BankFrame c c := .of_eq rfl rfl

theorem BankFrame.trans {c c' c'' : Cache cfg} (h : BankFrame c c') (h' : BankFrame c' c'') : BankFrame c c'' := by
  refine ⟨h'.bank.trans h.bank, fun t ht => ?_⟩
  rcases h'.toBank t ht with ht | ht
  · exact h.toBank t ht
  · exact .inr ht

theorem BankFrame.of_same {c c' c'' : Cache cfg} (h : BankFrame c' c'') (hbank : c'.bank = c.bank)
    (hbuf : c'.writeBufferToBankBuffer = c.writeBufferToBankBuffer) : BankFrame c c'' :=
  (BankFrame.of_eq hbank hbuf).trans h

theorem BankFrame.push {c c' : Cache cfg} {t : Transaction} {buf : Buffer cfg.numReqPerCycle Transaction}
    (hpush : c.writeBufferToBankBuffer.push t = .ok buf) (hdown : BankStage.isDownward t.action = false)
    (hbank : c'.bank = c.bank) (hbuf : c'.writeBufferToBankBuffer = buf) : BankFrame c c' := by
  subst hbuf
  refine ⟨hbank, fun t' ht' => ?_⟩
  unfold Buffer.push at hpush
  split at hpush
  · cases hpush
  next hlen =>
    rw [← Except.ok.inj hpush, mem_append, mem_singleton] at ht'
    rcases ht' with ht' | rfl
    · exact .inl ht'
    · exact .inr ⟨hdown, by omega⟩

/-- Whatever the stage leaves, the bank is as it was. -/
abbrev Framed (c : Cache cfg) (r : Result cfg) : Prop := Returns (fun x => BankFrame c x.2) r

section
variable (c : Cache cfg)

theorem removeTransaction_same (t : Transaction) :
    Returns (fun c' => c'.bank = c.bank ∧ c'.writeBufferToBankBuffer = c.writeBufferToBankBuffer)
      (c.removeTransaction t) := by
  unfold Cache.removeTransaction
  split
  · exact .ok ⟨rfl, rfl⟩
  · exact .error _

theorem removeTransaction_frame (t : Transaction) : Returns (BankFrame c) (c.removeTransaction t) :=
  (removeTransaction_same c t).mono fun _ h => .of_eq h.1 h.2

theorem processOneReq_frame (e : EntryRef) : Framed c (MSHRStage.processOneReq c e) := by
  unfold MSHRStage.processOneReq
  refine .bind fun room _ => ?_
  split
  · exact .ok (.refl c)
  split
  · exact .error _
  next t _ _ =>
  split
  · refine .bind fun c₁ h₁ => ?_
    have hframe := removeTransaction_frame c t c₁ h₁
    cases t.read with
    | some read =>
      refine .bind fun c₂ h₂ => .ok ?_
      have hanswer : Returns (BankFrame c₁) (MSHRStage.respondRead c₁ read (c₁.mshr.heap e).data) := by
        unfold MSHRStage.respondRead
        refine .bind fun arr _ => ?_
        dsimp only
        split
        · exact .error _
        · exact .bind fun topSender _ => .ok (.of_eq rfl rfl)
      exact (hframe.trans (hanswer c₂ h₂)).trans (.of_eq rfl rfl)
    | none =>
      refine .bind fun write _ => .bind fun c₂ h₂ => .ok ?_
      have hanswer : Returns (BankFrame c₁) (MSHRStage.respondWrite c₁ write) := by
        unfold MSHRStage.respondWrite
        exact .bind fun topSender _ => .ok (.of_eq rfl rfl)
      exact (hframe.trans (hanswer c₂ h₂)).trans (.of_eq rfl rfl)
  · exact .ok (.of_eq rfl rfl)

theorem mshrStage_frame : Framed c (MSHRStage.tick c) := by
  unfold MSHRStage.tick
  cases c.processingMSHREntry with
  | some e => exact processOneReq_frame c e
  | none =>
    cases c.mshrStageBuffer.peek with
    | none => exact .ok (.refl c)
    | some e =>
      have hframe := processOneReq_frame { c with mshrStageBuffer := c.mshrStageBuffer.pop, processingMSHREntry := some e } e
      exact hframe.mono fun x hx => hx.of_same rfl rfl

theorem write_frame : Framed c (WriteBufferStage.write c) := by
  unfold WriteBufferStage.write
  split
  · exact .ok (.refl c)
  split
  · exact .ok (.refl c)
  refine .bind fun room _ => ?_
  split
  · exact .ok (.refl c)
  · exact .bind fun data _ => .bind fun bottomSender _ => .ok (.of_eq rfl rfl)

theorem combineData_frame (e : EntryRef) : Returns (BankFrame c) (combineData c e) := by
  unfold combineData
  exact .bind fun b _ => .bind fun arr _ => .bind fun x _ => .ok (.of_eq rfl rfl)

theorem fillEntry_frame (t : Transaction) (arr : ArrayRef) : Returns (BankFrame c) (fillEntry c t arr) := by
  unfold fillEntry
  refine .bind fun e _ => .bind fun c₁ h₁ => .bind fun mshr _ => .bind fun buf hbuf => .ok ?_
  have hframe := combineData_frame _ e c₁ h₁
  exact (hframe.of_same (c := c) rfl rfl).trans (.push hbuf rfl rfl rfl)

theorem processReturnRsp_frame : Framed c (processReturnRsp c) := by
  unfold processReturnRsp
  split
  · exact .ok (.refl c)
  · unfold WriteBufferStage.processDataReadyRsp
    refine .bind fun t _ => ?_
    split
    · exact .ok (.refl c)
    · refine .bind fun c₁ h₁ => .ok ?_
      have hframe := fillEntry_frame _ t _ c₁ h₁
      exact (hframe.of_same (c := c) rfl rfl).trans (.of_eq rfl rfl)
  · unfold WriteBufferStage.processWriteDoneRsp
    simp only
    split
    · exact .ok (.of_eq rfl rfl)
    · exact .error _

theorem processWriteBufferFetch_frame (t : Transaction) : Framed c (processWriteBufferFetch c t) := by
  unfold processWriteBufferFetch
  split
  · refine .bind fun arr _ => ?_
    unfold WriteBufferStage.sendFetchedDataToBank
    split
    · exact .ok (.refl c)
    · refine .bind fun c₁ h₁ => .ok ?_
      exact (fillEntry_frame c t arr c₁ h₁).trans (.of_eq rfl rfl)
  · unfold fetchFromBottom
    split
    · exact .ok (.refl c)
    refine .bind fun room _ => ?_
    split
    · exact .ok (.refl c)
    · exact .bind fun bottomSender _ => .ok (.of_eq rfl rfl)

theorem processNewTransaction_frame : Framed c (processNewTransaction c) := by
  unfold processNewTransaction
  split
  · exact .ok (.refl c)
  next t _ =>
  have hflush : ∀ pop, BankFrame c (processWriteBufferFlush c t pop).2 := by
    intro pop
    unfold processWriteBufferFlush
    split <;> exact .of_eq rfl rfl
  split
  · exact processWriteBufferFetch_frame c t
  · unfold WriteBufferStage.processWriteBufferEvictAndWrite
    split
    · exact .ok (.refl c)
    split
    · exact .ok (.refl c)
    · exact .bind fun buf hbuf => .ok (.push hbuf rfl rfl rfl)
  · refine .ok ?_
    unfold WriteBufferStage.processWriteBufferFetchAndEvict
    simp only
    split
    · exact (hflush false).trans (.of_eq rfl rfl)
    · exact hflush false
  · exact .ok (hflush true)
  · exact .error _

theorem topParser_frame : Framed c (topParser c) := by
  unfold topParser
  split
  · exact .ok (.refl c)
  cases c.topPort.peek with
  | none => exact .ok (.refl c)
  | some =>
    dsimp only
    split
    · exact .ok (.refl c)
    · exact .bind fun buf _ => .ok (.of_eq rfl rfl)

theorem acceptNewTransaction_frame (i : Nat) : Framed c (acceptNewTransaction i c) := by
  induction i generalizing c with
  | zero => exact .ok (.refl c)
  | succ _ ih =>
    unfold acceptNewTransaction
    split
    · exact .ok (.refl c)
    cases c.dirStageBuffer.peek with
    | none => exact .ok (.refl c)
    | some => exact .bind fun x _ => .bind fun y hy => .ok ((ih _ y hy).of_same rfl rfl)

section
variable (t : Transaction)
include t

theorem readFromBank_frame (b : BlockRef) : Framed c (readFromBank c t b) := by
  unfold readFromBank
  split
  · exact .ok (.refl c)
  · exact .bind fun buf _ => .ok (.of_eq rfl rfl)

theorem writeToBank_frame (w : TopWrite) (b : BlockRef) : Framed c (writeToBank c t w b) := by
  unfold writeToBank
  split
  · exact .ok (.refl c)
  · exact .bind fun buf _ => .ok (.of_eq rfl rfl)

theorem evict_frame (req : AccessReq) (b : BlockRef) : Framed c (evict c t req b) := by
  unfold evict
  split
  · exact .ok (.refl c)
  refine .bind fun x hx => .bind fun buf _ => .ok ?_
  have hvictim : Returns (fun x => BankFrame c x.2) (updateTransForEviction c t b req.pid (c.cacheLineID req.address)) := by
    unfold updateTransForEviction
    dsimp only
    split
    · exact .bind fun y _ => .ok (.of_eq rfl rfl)
    · exact .ok (.refl c)
  exact (hvictim x hx).trans (.of_eq rfl rfl)

theorem fetch_frame (req : AccessReq) (b : BlockRef) : Framed c (fetch c t req b) := by
  unfold fetch
  split
  · exact .ok (.refl c)
  · exact .bind fun x _ => .bind fun buf _ => .ok (.of_eq rfl rfl)

theorem missWithFetch_frame (req : AccessReq) : Framed c (missWithFetch c t req) := by
  unfold missWithFetch
  split
  · exact .ok (.refl c)
  refine .bind fun victim _ => ?_
  split
  · exact .ok (.refl c)
  split
  · exact evict_frame c t req victim
  · exact fetch_frame c t req victim

theorem doRead_frame (r : ReadReq) : Framed c (doRead c t r) := by
  unfold doRead
  dsimp only
  cases c.mshr.query r.pid (c.cacheLineID r.address) with
  | some => exact .ok (.of_eq rfl rfl)
  | none =>
    refine .bind fun found _ => ?_
    cases found with
    | some b =>
      show Framed c (handleReadHit c t b)
      unfold handleReadHit
      split
      · exact .ok (.refl c)
      · exact readFromBank_frame c t b
    | none => exact missWithFetch_frame c t (.read r)

theorem doWriteMiss_frame (w : TopWrite) : Framed c (doWriteMiss c t w) := by
  unfold doWriteMiss
  split
  · unfold DirectoryStage.writeFullLineMiss
    refine .bind fun victim _ => ?_
    split
    · exact .ok (.refl c)
    split
    · exact evict_frame c t (.write w) victim
    · exact writeToBank_frame c t w victim
  · exact missWithFetch_frame c t (.write w)

theorem doWrite_frame (w : TopWrite) : Framed c (doWrite c t w) := by
  unfold doWrite
  dsimp only
  cases c.mshr.query w.pid (c.cacheLineID w.address) with
  | some => exact .ok (.of_eq rfl rfl)
  | none =>
    refine .bind fun found _ => ?_
    cases found with
    | some b =>
      show Framed c (doWriteHit c t w b)
      unfold doWriteHit
      split
      · exact .ok (.refl c)
      · exact writeToBank_frame c t w b
    | none => exact doWriteMiss_frame c t w

end

theorem processTransaction_frame (i : Nat) : Framed c (processTransaction i c) := by
  induction i generalizing c with
  | zero => exact .ok (.refl c)
  | succ _ ih =>
    unfold processTransaction
    cases c.dirBuf.peek with
    | none => exact .ok (.refl c)
    | some t =>
      refine .bind fun req _ => ?_
      split
      · exact .ok (.refl c)
      refine .bind fun x hx => .bind fun y hy => .ok ?_
      have hhead : Framed c (processHead c t) := by
        unfold processHead
        cases t.read with
        | some r => exact doRead_frame c t r
        | none =>
          cases t.write with
          | some w => exact doWrite_frame c t w
          | none => exact .error _
      exact (hhead x hx).trans (ih x.2 y hy)

theorem finalizeFlushing_frame (req : FlushReq) : Framed c (Flusher.finalizeFlushing c req) := by
  unfold Flusher.finalizeFlushing
  split
  · exact .ok (.refl c)
  split
  · exact .ok (.refl c)
  refine .bind fun room _ => ?_
  split
  · exact .ok (.refl c)
  · exact .bind fun sender _ => .ok (.of_eq rfl rfl)

theorem processFlush_frame : Framed c (Flusher.processFlush c) := by
  unfold Flusher.processFlush
  cases c.blockToEvict with
  | nil => exact .ok (.refl c)
  | cons =>
    dsimp only
    split
    · exact .ok (.refl c)
    · exact .bind fun buf _ => .ok (.of_eq rfl rfl)

theorem processPreFlushing_frame : Framed c (Flusher.processPreFlushing c) := by
  unfold Flusher.processPreFlushing
  split
  · exact .ok (.refl c)
  refine .bind fun c₁ h₁ => .ok ?_
  have hprepare : Returns (BankFrame c) (Flusher.prepareBlockToFlushList c) := by
    unfold Flusher.prepareBlockToFlushList
    exact .bind fun blocks _ => .ok (.of_eq rfl rfl)
  exact (hprepare c₁ h₁).trans (.of_eq rfl rfl)

theorem handleCacheRestart_frame (id : MsgID) (src : PortID) : Framed c (Flusher.handleCacheRestart c id src) := by
  unfold Flusher.handleCacheRestart
  refine .bind fun room _ => ?_
  split
  · exact .ok (.refl c)
  · exact .bind fun sender _ => .ok (.of_eq rfl rfl)

theorem extractFromPort_frame {p : Bool} {c' : Cache cfg} (h : Flusher.extractFromPort c = .ok (p, c')) :
    BankFrame c c' ∨ ((∃ req, c.controlPort.peek = some (.flush req) ∧ req.discardInflight = true) ∧
      c'.writeBufferToBankBuffer = c.writeBufferToBankBuffer ∧ c'.bank = (reset c).bank) := by
  unfold Flusher.extractFromPort at h
  cases hpeek : c.controlPort.peek with
  | none =>
    rw [hpeek] at h
    cases h
    exact .inl (.refl c)
  | some msg =>
    rw [hpeek] at h
    cases msg with
    | restart id src => exact .inl (handleCacheRestart_frame c id src _ h)
    | flush req =>
      cases h
      unfold Flusher.startProcessingFlush
      by_cases hdiscard : req.discardInflight = true
      · simp only [if_pos hdiscard]
        exact .inr ⟨⟨req, rfl, hdiscard⟩, rfl, rfl⟩
      · simp only [if_neg hdiscard]
        exact .inl (.of_eq rfl rfl)

theorem flusher_frame {p : Bool} {c' : Cache cfg} (h : Flusher.tick c = .ok (p, c')) :
    BankFrame c c' ∨ (Flusher.TakesDiscard c ∧ c'.writeBufferToBankBuffer = c.writeBufferToBankBuffer ∧
      c'.bank = (reset c).bank) := by
  -- no flush is under way
  have hidle : (c.processingFlush = none ∨ c.state ≠ .preFlushing ∧ c.state ≠ .flushing) →
      Flusher.extractFromPort c = .ok (p, c') →
      BankFrame c c' ∨ (Flusher.TakesDiscard c ∧ c'.writeBufferToBankBuffer = c.writeBufferToBankBuffer ∧
        c'.bank = (reset c).bank) := by
    intro hfree h
    rcases extractFromPort_frame c h with hframe | ⟨hreq, hrest⟩
    · exact .inl hframe
    · exact .inr ⟨⟨hfree, hreq⟩, hrest⟩
  unfold Flusher.tick at h
  cases hflush : c.processingFlush with
  | none =>
    rw [hflush] at h
    exact hidle (.inl hflush) h
  | some req =>
    rw [hflush] at h
    cases hstate : c.state with
    | preFlushing =>
      rw [hstate] at h
      exact .inl (processPreFlushing_frame c _ h)
    | flushing =>
      simp only [hstate] at h
      refine .inl ((Returns.bind (Q := fun x => BankFrame c x.2) fun x hx => ?_) _ h)
      exact .bind fun y hy => .ok ((finalizeFlushing_frame c req x hx).trans (processFlush_frame x.2 y hy))
    | running | paused =>
      rw [hstate] at h
      exact hidle (.inr (by rw [hstate]; exact ⟨by decide, by decide⟩)) h

end

/-! ## The bank's own stages -/

/-- What the bank does not look at when it finalises a transaction. -/
structure Counted (c c' : Cache cfg) (down : Int) : Prop where
  pipeline : c'.bank.pipeline = c.bank.pipeline
  downward : c'.bank.downwardInflightTransCount = c.bank.downwardInflightTransCount - down
  toBank : c'.writeBufferToBankBuffer = c.writeBufferToBankBuffer

/-- What the bank counts `t` for when it is finalised. -/
def BankStage.counts (t : Transaction) : Int :=
  match t.action with
  | .bankReadHit | .bankWriteHit => 1
  | action => if isDownward action then 1 else 0

/-- The transaction is finalised if there is room for what it sends on, and otherwise nothing happens. -/
def Finalized (c : Cache cfg) (t : Transaction) (x : Bool × Cache cfg) : Prop :=
  (BankStage.CanFinalize c t → x.1 = true ∧ Counted c x.2 (BankStage.counts t)) ∧
    (¬ BankStage.CanFinalize c t → x = (false, c))

section
variable {c : Cache cfg} {t : Transaction}

theorem Finalized.refused (h : ¬ BankStage.CanFinalize c t) : Finalized c t (false, c) :=
  ⟨fun hroom => absurd hroom h, fun _ => rfl⟩

theorem Finalized.done {c' : Cache cfg} (hroom : BankStage.CanFinalize c t) (hcounted : Counted c c' (BankStage.counts t)) :
    Finalized c t (true, c') :=
  ⟨fun _ => ⟨rfl, hcounted⟩, fun hfull => absurd hroom hfull⟩

theorem finalizeReadHit_counted (haction : t.action = .bankReadHit) : Returns (Finalized c t) (finalizeReadHit c t) := by
  have hcounts : BankStage.counts t = 1 := by simp only [BankStage.counts, haction]
  unfold finalizeReadHit
  refine .bind fun room hroom => ?_
  have hcan : BankStage.CanFinalize c t ↔ room = true := by
    simp only [BankStage.CanFinalize, haction, hroom, Except.ok.injEq]
  split
  next hfull => exact .ok (.refused (by simpa [hcan] using hfull))
  next hfree =>
  refine .bind fun read _ => .bind fun b _ => .bind fun data _ => .bind fun c₁ h₁ => .bind fun topSender _ => .ok ?_
  have hframe := removeTransaction_same c t c₁ h₁
  refine .done (hcan.mpr (by simpa using hfree)) ⟨?_, ?_, ?_⟩
  · show c₁.bank.pipeline = c.bank.pipeline
    rw [hframe.1]
  · show c₁.bank.downwardInflightTransCount - 1 = _
    rw [hframe.1, hcounts]
  · exact hframe.2

theorem finalizeWriteHit_counted (haction : t.action = .bankWriteHit) : Returns (Finalized c t) (finalizeWriteHit c t) := by
  have hcounts : BankStage.counts t = 1 := by simp only [BankStage.counts, haction]
  unfold finalizeWriteHit
  refine .bind fun room hroom => ?_
  have hcan : BankStage.CanFinalize c t ↔ room = true := by
    simp only [BankStage.CanFinalize, haction, hroom, Except.ok.injEq]
  split
  next hfull => exact .ok (.refused (by simpa [hcan] using hfull))
  next hfree =>
  refine .bind fun write _ => .bind fun b _ => .bind fun x _ => .bind fun c₁ h₁ => .bind fun topSender _ => .ok ?_
  have hframe := removeTransaction_same _ t c₁ h₁
  refine .done (hcan.mpr (by simpa using hfree)) ⟨?_, ?_, ?_⟩
  · show c₁.bank.pipeline = c.bank.pipeline
    rw [hframe.1]
  · show c₁.bank.downwardInflightTransCount - 1 = _
    rw [hframe.1, hcounts]
  · exact hframe.2

theorem finalizeBankWriteFetched_counted (haction : t.action = .bankWriteFetched) :
    Returns (Finalized c t) (BankStage.finalizeBankWriteFetched c t) := by
  have hcan : BankStage.CanFinalize c t ↔ c.mshrStageBuffer.canPush = true := by simp only [BankStage.CanFinalize, haction]
  have hcounts : BankStage.counts t = 0 := by simp [BankStage.counts, BankStage.isDownward, haction]
  unfold BankStage.finalizeBankWriteFetched
  split
  next hfull => exact .ok (.refused (by simpa [hcan] using hfull))
  next hfree =>
  refine .bind fun e _ => .bind fun b _ => .bind fun buf _ => .bind fun storage _ => .ok ?_
  exact .done (hcan.mpr (by simpa using hfree)) ⟨rfl, by rw [hcounts, Int.sub_zero], rfl⟩

theorem finalizeBankEviction_counted (haction : BankStage.isDownward t.action = true) :
    Returns (Finalized c t) (BankStage.finalizeBankEviction c t) := by
  have hcan : BankStage.CanFinalize c t ↔ c.writeBufferBuffer.canPush = true := by
    unfold BankStage.CanFinalize
    cases h : t.action <;> simp [BankStage.isDownward, h] at haction ⊢
  have hcounts : BankStage.counts t = 1 := by
    unfold BankStage.counts
    cases h : t.action <;> simp [BankStage.isDownward, h] at haction ⊢
  unfold BankStage.finalizeBankEviction
  split
  next hfull => exact .ok (.refused (by simpa [hcan] using hfull))
  next hfree =>
  refine .bind fun victim _ => .bind fun data _ => .bind fun action _ => .bind fun buf _ => .ok ?_
  exact .done (hcan.mpr (by simpa using hfree)) ⟨rfl, by rw [hcounts]; rfl, rfl⟩

theorem finalizeOne_counted : Returns (Finalized c t) (finalizeOne c t) := by
  unfold finalizeOne
  split
  next h => exact finalizeReadHit_counted h
  next h => exact finalizeWriteHit_counted h
  next h => exact finalizeBankWriteFetched_counted h
  next h => exact finalizeBankEviction_counted (by rw [h]; rfl)
  next h => exact finalizeBankEviction_counted (by rw [h]; rfl)
  next h => exact finalizeBankEviction_counted (by rw [h]; rfl)
  next => exact .error _

end

variable {c : Cache cfg}

theorem finalizeFrom_counted (pre rest : List Transaction) : Returns (fun x => x = (false, c) ∨
    ∃ mid t tail c', rest = mid ++ t :: tail ∧ BankStage.CanFinalize c t ∧ (∀ t' ∈ mid, ¬ BankStage.CanFinalize c t') ∧
      Counted c c' (BankStage.counts t) ∧
      x.2 = { c' with bank := { c'.bank with postPipelineBuf := ⟨pre ++ (mid ++ tail)⟩ } })
    (finalizeFrom c pre rest) := by
  induction rest generalizing pre with
  | nil => exact .ok (.inl rfl)
  | cons t rest ih =>
    unfold finalizeFrom
    refine .bind fun x hx => ?_
    obtain ⟨done, c'⟩ := x
    have hone := finalizeOne_counted _ hx
    by_cases hroom : BankStage.CanFinalize c t
    · obtain ⟨hdone, hcounted⟩ := hone.1 hroom
      obtain rfl : done = true := hdone
      exact .ok (.inr ⟨[], t, rest, c', rfl, hroom, fun _ h => absurd h not_mem_nil, hcounted, rfl⟩)
    · cases hone.2 hroom
      refine (ih (pre ++ [t])).mono fun y hy => ?_
      rcases hy with hy | ⟨mid, t', tail, c', hrest, hcan, hmid, hcounted, hy⟩
      · exact .inl hy
      · refine .inr ⟨t :: mid, t', tail, c', by rw [hrest]; rfl, hcan, fun t'' ht'' => ?_, hcounted, ?_⟩
        · rcases mem_cons.mp ht'' with rfl | ht''
          · exact hroom
          · exact hmid t'' ht''
        · rw [hy, append_assoc]
          rfl

/-! ## The invariant -/

/-- The count is exact, one lane is left, and what waits for it goes up. -/
structure Lanes (c : Cache cfg) : Prop where
  exact : c.bank.downwardInflightTransCount = c.bank.downward
  bound : c.bank.downward ≤ cfg.laneWidth - 1
  upward : ∀ t ∈ c.writeBufferToBankBuffer.elements, Upward cfg t

theorem Lanes.reserved (h : Lanes c) : Reserved c := by
  refine ⟨h.exact, fun hwaiting => ?_⟩
  obtain ⟨t, ht⟩ := exists_mem_of_ne_nil _ hwaiting
  have hpos := (h.upward t ht).2
  have hlane : 0 < cfg.laneWidth := by
    unfold Config.laneWidth
    split <;> omega
  have hbound := h.bound
  rw [h.exact]
  omega

theorem Lanes.of_frame {c' : Cache cfg} (h : Lanes c) (hframe : BankFrame c c') : Lanes c' where
  exact := by rw [hframe.bank, h.exact]
  bound := by rw [hframe.bank]; exact h.bound
  upward t ht := by
    rcases hframe.toBank t ht with ht | ht
    · exact h.upward t ht
    · exact ht

theorem Lanes.of_eq {c' : Cache cfg} (h : Lanes c) (hbank : c'.bank = c.bank)
    (hbuf : c'.writeBufferToBankBuffer = c.writeBufferToBankBuffer) : Lanes c' := h.of_frame (.of_eq hbank hbuf)

theorem build_lanes (cfg : Config) : Lanes (build cfg) where
  exact := by
    have hitems : (build cfg).bank.items = 0 := by
      show ({} : Pipeline cfg.laneWidth cfg.bankLatency Transaction).items + 0 = 0
      rw [items_new, zero_add]
    show (0 : Int) = _
    rw [BankStage.downward, hitems, Multiset.countP_zero]
    rfl
  bound := by
    have hitems : (build cfg).bank.items = 0 := by
      show ({} : Pipeline cfg.laneWidth cfg.bankLatency Transaction).items + 0 = 0
      rw [items_new, zero_add]
    rw [BankStage.downward, hitems, Multiset.countP_zero]
    exact Nat.zero_le _
  upward t ht := absurd ht not_mem_nil

theorem finalizeTrans_lanes (h : Lanes c) (hwait : HitsWait c .bankFinalize) :
    Returns (fun x => Lanes x.2) (BankStage.finalizeTrans c) := by
  refine (finalizeFrom_counted [] c.bank.postPipelineBuf.elements).mono fun x hx => ?_
  rcases hx with rfl | ⟨mid, t, tail, c', hbuf, hcan, hmid, hcounted, hx⟩
  · exact h
  obtain ⟨hread, hwrite⟩ := hwait mid t tail hbuf hcan hmid
  -- `t` has left the bank
  have hitems : c.bank.items = t ::ₘ x.2.bank.items := by
    rw [hx]
    show c.bank.pipeline.items + ↑c.bank.postPipelineBuf.elements = t ::ₘ (c'.bank.pipeline.items + ↑(mid ++ tail))
    rw [hbuf, hcounted.pipeline, Multiset.coe_eq_coe.mpr perm_middle, ← Multiset.cons_coe, Multiset.add_cons]
  have hcounts : BankStage.counts t = (if BankStage.isDownward t.action = true then 1 else 0 : Nat) := by
    unfold BankStage.counts
    split
    next heq => exact absurd heq hread
    next heq => exact absurd heq hwrite
    next => split <;> rfl
  have hdown : c.bank.downward = x.2.bank.downward + if BankStage.isDownward t.action = true then 1 else 0 := by
    rw [BankStage.downward, hitems, Multiset.countP_cons]
    rfl
  have hexact := h.exact
  have hbound := h.bound
  refine ⟨?_, by omega, ?_⟩
  · rw [hx]
    show c'.bank.downwardInflightTransCount = _
    rw [hcounted.downward, hcounts, hexact, hdown, hx]
    omega
  · rw [hx]
    show ∀ t ∈ c'.writeBufferToBankBuffer.elements, _
    rw [hcounted.toBank]
    exact h.upward

theorem tickPipeline_lanes (h : Lanes c) : Lanes (tickPipeline c).2 := by
  have hitems : (tickPipeline c).2.bank.items = c.bank.items := items_tick c.bank.pipeline c.bank.postPipelineBuf
  refine ⟨?_, ?_, h.upward⟩
  · rw [BankStage.downward, hitems]
    exact h.exact
  · rw [BankStage.downward, hitems]
    exact h.bound

theorem pullFromWriteBuffer_lanes {t : Transaction} (h : Lanes c) (hpeek : c.writeBufferToBankBuffer.peek = some t) :
    Returns (fun x => Lanes x.2) (BankStage.pullFromWriteBuffer c t) := by
  unfold BankStage.pullFromWriteBuffer
  refine .bind fun x hx => .ok ?_
  have hbuf := Buffer.peek_eq_some hpeek
  have hup : BankStage.isDownward t.action = false := (h.upward t (by rw [hbuf]; exact mem_cons_self)).1
  have hitems : x.1.items + ↑x.2.elements = t ::ₘ c.bank.items := items_accept hx
  have hdown : (x.1.items + ↑x.2.elements).countP (fun t => BankStage.isDownward t.action = true) = c.bank.downward := by
    rw [hitems, Multiset.countP_cons_of_neg _ (by rw [hup]; decide)]
    rfl
  refine ⟨?_, ?_, fun t' ht' => h.upward t' (mem_of_mem_tail ht')⟩
  · show c.bank.downwardInflightTransCount = ((x.1.items + ↑x.2.elements).countP _ : Nat)
    rw [hdown, h.exact]
  · show (x.1.items + ↑x.2.elements).countP _ ≤ _
    rw [hdown]
    exact h.bound

theorem pullFromDirectory_lanes {t : Transaction} (h : Lanes c)
    (hlane : ¬ c.bank.downwardInflightTransCount ≥ (cfg.laneWidth : Int) - 1) :
    Returns (fun x => Lanes x.2) (pullFromDirectory c t) := by
  unfold pullFromDirectory
  split
  · exact .bind fun buf _ => .ok (h.of_eq rfl rfl)
  refine .bind fun x hx => .ok ?_
  have hitems : x.1.items + ↑x.2.elements = t ::ₘ c.bank.items := items_accept hx
  have hdown : (x.1.items + ↑x.2.elements).countP (fun t => BankStage.isDownward t.action = true) =
      c.bank.downward + if BankStage.isDownward t.action = true then 1 else 0 := by
    rw [hitems, Multiset.countP_cons]
    rfl
  have hexact := h.exact
  refine ⟨?_, ?_, h.upward⟩
  · show c.bank.downwardInflightTransCount + (if BankStage.isDownward t.action = true then 1 else 0 : Int) =
      ((x.1.items + ↑x.2.elements).countP _ : Nat)
    rw [hdown, hexact]
    split <;> simp
  · show (x.1.items + ↑x.2.elements).countP _ ≤ _
    rw [hdown]
    split <;> omega

theorem pullFromBuf_lanes (h : Lanes c) : Returns (fun x => Lanes x.2) (pullFromBuf c) := by
  unfold pullFromBuf
  split
  · exact .ok h
  cases hpeek : c.writeBufferToBankBuffer.peek with
  | some => exact pullFromWriteBuffer_lanes h hpeek
  | none =>
    dsimp only
    split
    · exact .ok h
    split
    · exact .ok h
    next hlane =>
    cases c.dirToBankBuffer.peek with
    | none => exact .ok h
    | some => exact pullFromDirectory_lanes h hlane

theorem flusher_lanes (h : Lanes c) (hwait : HitsWait c .flusher) : Returns (fun x => Lanes x.2) (Flusher.tick c) := by
  rintro ⟨p, c'⟩ hx
  rcases flusher_frame c hx with hframe | ⟨htakes, hbuf, hbank⟩
  · exact h.of_frame hframe
  have hempty := hwait htakes
  have hitems : c'.bank.items = 0 := by
    rw [hbank]
    show c.bank.pipeline.clear.items + 0 = 0
    rw [items_clear, add_zero]
  have hdown : c'.bank.downward = 0 := by rw [BankStage.downward, hitems, Multiset.countP_zero]
  refine ⟨?_, by rw [hdown]; exact Nat.zero_le _, ?_⟩
  · rw [hdown, hbank]
    show c.bank.downwardInflightTransCount = _
    rw [h.exact, hempty]
  · intro t ht
    rw [hbuf] at ht
    exact h.upward t ht

theorem Lanes.call (k : Call) (h : Lanes c) (hwait : HitsWait c k) : Returns (fun x => Lanes x.2) (k.exec c) := by
  have hframed {r : Result cfg} (hr : Framed c r) : Returns (fun x => Lanes x.2) r :=
    hr.mono fun _ hframe => h.of_frame hframe
  cases k with
  | controlPortSender =>
    refine .ok ?_
    show Lanes (WriteBack.controlPortSender c).2
    unfold WriteBack.controlPortSender
    split
    · exact h
    · dsimp only
      split <;> exact h.of_eq rfl rfl
  | topSender =>
    refine .ok ?_
    show Lanes (WriteBack.topSender c).2
    unfold WriteBack.topSender
    split
    · exact h
    · dsimp only
      split <;> exact h.of_eq rfl rfl
  | bottomSender =>
    refine .ok ?_
    show Lanes (WriteBack.bottomSender c).2
    unfold WriteBack.bottomSender
    split
    · exact h
    · dsimp only
      split <;> exact h.of_eq rfl rfl
  | mshrStage => exact hframed (mshrStage_frame c)
  | bankFinalize => exact finalizeTrans_lanes h hwait
  | bankPipeline => exact .ok (tickPipeline_lanes h)
  | bankPull => exact pullFromBuf_lanes h
  | writeBufferWrite => exact hframed (write_frame c)
  | writeBufferReturn => exact hframed (processReturnRsp_frame c)
  | writeBufferNew => exact hframed (processNewTransaction_frame c)
  | dirAccept => exact hframed (acceptNewTransaction_frame c _)
  | dirPipeline => exact .ok (h.of_eq rfl rfl)
  | dirProcess => exact hframed (processTransaction_frame c _)
  | topParser => exact hframed (topParser_frame c)
  | flusher => exact flusher_lanes h hwait

theorem Reaches.lanes {m : Memory} {s : System cfg} {ks : List Call} (h : Reaches (Rules.hitsWait cfg) m s ks) :
    Lanes s.cache := by
  induction h with
  | init => exact build_lanes cfg
  | tick _ ih => exact ih
  | call _ hk hexec ih => exact ih.call _ hk _ hexec
  | request _ _ _ ih =>
    unfold System.request
    split
    · exact ih.of_eq rfl rfl
    · exact ih
  | control _ _ _ ih =>
    unfold System.control
    split
    · exact ih.of_eq rfl rfl
    · exact ih
  | connect _ _ _ _ ih => exact ih.of_eq rfl rfl
  | apply _ _ _ ih =>
    unfold System.apply
    split
    · exact ih.of_eq rfl rfl
    · exact ih
  | answer _ _ ih =>
    unfold System.answer
    split
    · split
      · exact ih.of_eq rfl rfl
      · exact ih
    · exact ih

/-- **The lanes of the bank.** In a run in which the bank finalises no hit, and no discarding flush finds a transaction on
its way down in the bank, the count of these transactions is exact and leaves a lane for what comes back. -/
theorem reserved_of_reaches {m : Memory} {s : System cfg} {ks : List Call} (h : Reaches (Rules.hitsWait cfg) m s ks) :
    Reserved s.cache := h.lanes.reserved

/-- The bank finishes no hit, and no flush has come. -/
def Hitless (c : Cache cfg) (_ : Call) : Prop :=
  (∀ t ∈ c.bank.postPipelineBuf.elements, t.action ≠ .bankReadHit ∧ t.action ≠ .bankWriteHit) ∧ c.controlPort.peek = none

instance (c : Cache cfg) (k : Call) : Decidable (Hitless c k) := inferInstanceAs (Decidable (_ ∧ _))

theorem Hitless.wait {c : Cache cfg} {k : Call} (h : Hitless c k) : HitsWait c k := by
  cases k with
  | bankFinalize => exact fun pre t rest heq _ _ => h.1 t (heq ▸ mem_append_right pre mem_cons_self)
  | flusher =>
    rintro ⟨-, req, hpeek, -⟩
    rw [h.2] at hpeek
    cases hpeek
  | _ => trivial

/-- The bank has taken the fetched line, and the eviction is in it. -/
theorem reserved_of_reaches_eviction : let s := play Hitless evictedByte
    s.cache.bank.downwardInflightTransCount = 1 ∧ Reserved s.cache :=
  ⟨by decide +kernel,
    reserved_of_reaches (reaches_play (fun _ _ => Hitless.wait)
      (allows_evictedByte (fun _ _ => trivial) fun _ _ _ _ => trivial))⟩

/-- One write of a whole line, which the bank finalises in the fifth tick. -/
def writtenLine : List Input :=
  [Input.request (.write { id := 101, src := 1, pid := 0, address := 0, data := [1, 2], dirtyMask := none })] ++
    replicate 5 Input.tick

theorem miscounted_hit : (∀ req ∈ requestsOf writtenLine, Legal tiny req) ∧
    ∃ s, (System.init tiny fun _ _ => 0).run writtenLine = .ok s ∧ ¬ Reserved s.cache := by
  refine ⟨fun req hreq => ?_, ?_⟩
  · have hreqs : requestsOf writtenLine =
        [.write { id := 101, src := 1, pid := 0, address := 0, data := [1, 2], dirtyMask := none }] := rfl
    rw [hreqs] at hreq
    rw [mem_singleton.mp hreq]
    exact legal_tiny_write 101 0 1 2
  · have hrun : ((System.init tiny fun _ _ => 0).run writtenLine).map (fun s => s.cache.bank.downwardInflightTransCount) =
        .ok (-1) := by
      decide +kernel
    cases hs : (System.init tiny fun _ _ => 0).run writtenLine with
    | error =>
      rw [hs] at hrun
      cases hrun
    | ok s =>
      rw [hs] at hrun
      have hcount : s.cache.bank.downwardInflightTransCount = -1 := Except.ok.inj hrun
      refine ⟨s, rfl, fun hreserved => ?_⟩
      have hexact := hreserved.exact
      omega

end Akita.WriteBack
