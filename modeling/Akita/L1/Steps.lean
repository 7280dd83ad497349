import Akita.L1.System

/-!
# The steps of an L1 cache

`Step c c'` : what the stages can do to a cache, one effect at a time; `CtrlStep` : what the control stage can do.
`Call.step` : a stage call does some steps.
-/

namespace Akita.L1
open Sim Pipelining Mem Mem.Cache Relation Option List Function
open Coalescer (canReqCoalesce coalesceAndSend createTransaction isReqLastInWave waveReq)
open BottomParser (finalizeMSHRTrans findTransactionByReadToBottomID findTransactionByWriteToBottomID mergeMSHRData
  processDataReady processDoneRsp retrieve)
open DirectoryStage (accept fetchFromBottom finishWriteHit isPartialWrite partialWriteMiss popBuf process processRead
  processReadHit processReadMiss processWrite processWriteHit tickPipeline writeBottom writeMiss writeToBottom)

variable {cfg : Config}

/-! ## Waves that are finished -/

/-- The reads `rs` have got their bytes from the line. -/
def markRead (data : Bytes) (tag : Nat) (rs : List TransRef) (heap : TransRef → Transaction) (r : TransRef) : Transaction :=
  if r ∈ rs then
    { heap r with data := (data.drop (offsetIn (heap r).req.address tag)).take (heap r).req.byteSize, done := true }
  else heap r

/-- The writes `rs` are done. -/
def markDone (rs : List TransRef) (heap : TransRef → Transaction) (r : TransRef) : Transaction :=
  if r ∈ rs then { heap r with done := true } else heap r

/-- `req` reads bytes of the line. -/
def ReadsFrom (data : Bytes) (tag : Nat) (req : AccessReq) : Prop :=
  ∃ rd, req = .read rd ∧ offsetIn rd.address tag + rd.accessByteSize ≤ data.length

theorem finishReads_eq {data : Bytes} {tag : Nat} {rs : List TransRef} {c c' : Cache cfg}
    (h : finishReads data tag rs c = .ok c') :
    c' = { c with heap := markRead data tag rs c.heap } ∧ ∀ r ∈ rs, ReadsFrom data tag (c.heap r).req := by
  induction rs generalizing c with
  | nil =>
    rw [finishReads, Except.ok.injEq] at h
    subst h
    refine ⟨?_, forall_mem_nil _⟩
    have heap : markRead data tag [] c.heap = c.heap := by
      funext r
      exact if_neg not_mem_nil
    rw [heap]
  | cons r rs ih =>
    rw [finishReads] at h
    cases hreq : (c.heap r).req with
    | write => rw [hreq] at h; cases h
    | read rd =>
      simp only [hreq, slice] at h
      by_cases hle : offsetIn rd.address tag + rd.accessByteSize ≤ data.length
      · rw [if_pos hle] at h
        obtain ⟨heq, hall⟩ := ih h
        have hsame : ∀ q, ((c.modify r fun t => { t with
            data := (data.drop (offsetIn rd.address tag)).take rd.accessByteSize, done := true }).heap q).req =
              (c.heap q).req := by
          intro q
          by_cases hq : q = r
          · subst hq
            simp [Cache.modify]
          · simp [Cache.modify, update_of_ne hq]
        refine ⟨?_, fun q hq => ?_⟩
        · rw [heq]
          have heap : markRead data tag rs (c.modify r fun t => { t with
              data := (data.drop (offsetIn rd.address tag)).take rd.accessByteSize, done := true }).heap =
              markRead data tag (r :: rs) c.heap := by
            funext q
            unfold markRead
            rw [hsame]
            by_cases hq : q = r
            · subst hq
              by_cases hmem : q ∈ rs <;> simp [hmem, Cache.modify, hreq, AccessReq.address, AccessReq.byteSize]
            · by_cases hmem : q ∈ rs <;> simp [hmem, hq, Cache.modify]
          rw [heap]
          rfl
        · rcases mem_cons.mp hq with rfl | hq
          · exact ⟨rd, hreq, hle⟩
          · rw [← hsame q]
            exact hall q hq
      · rw [if_neg hle] at h
        cases h

theorem finishWrites_eq (rs : List TransRef) (c : Cache cfg) : finishWrites rs c = { c with heap := markDone rs c.heap } := by
  induction rs generalizing c with
  | nil =>
    have heap : markDone [] c.heap = c.heap := by
      funext r
      exact if_neg not_mem_nil
    rw [finishWrites, heap]
  | cons r rs ih =>
    rw [finishWrites, ih]
    have heap : markDone rs (c.modify r fun t => { t with done := true }).heap = markDone (r :: rs) c.heap := by
      funext q
      unfold markDone
      by_cases hq : q = r
      · subst hq
        by_cases hmem : q ∈ rs <;> simp [hmem, Cache.modify]
      · by_cases hmem : q ∈ rs <;> simp [hmem, hq, Cache.modify]
    rw [heap]
    rfl

theorem mergeMSHRData_congr {heap heap' : TransRef → Transaction} (h : ∀ x, (heap' x).req = (heap x).req) (tag : Nat)
    (xs : List TransRef) (acc : Bytes × Mask) : mergeMSHRData heap' tag xs acc = mergeMSHRData heap tag xs acc := by
  induction xs generalizing acc with
  | nil => rfl
  | cons x xs ih =>
    rw [mergeMSHRData, mergeMSHRData, h]
    cases (heap x).req with
    | read => exact ih acc
    | write =>
      show (_ >>= fun acc => mergeMSHRData heap' tag xs acc) = (_ >>= fun acc => mergeMSHRData heap tag xs acc)
      congr 1
      funext acc
      exact ih acc

/-! ## Steps -/

/-- The fetch of `x` has arrived: `e` is its entry and `data` the line with the writes that joined. -/
structure Arrival (c : Cache cfg) (x : TransRef) (rsp : DataReadyRsp Bytes) (rd : ReadReq) (e : EntryRef) (victim : BlockRef)
    (data : Bytes) : Prop where
  peek : c.bottomPort.peek = some (.dataReady rsp)
  find : findTransactionByReadToBottomID c rsp.respondTo = some x
  fetch : (c.heap x).readToBottom = some rd
  entry : c.mshr.query rd.pid (cfg.cacheLineID (c.heap x).req.address) = some e
  block : (c.mshr.heap e).block = some victim
  merge : ∃ mask, mergeMSHRData c.heap (c.directory.blocks victim).tag (c.mshr.heap e).requests
    (rsp.data, replicate cfg.blockSize false) = .ok (data, mask)

/-- The fetch that `fetchFromBottom` sends. -/
def fetchOf (c : Cache cfg) (x : TransRef) : ReadReq :=
  { id := c.nextID, src := 0, dst := cfg.lowModuleFinder (cfg.cacheLineID (c.heap x).req.address), pid := (c.heap x).req.pid,
    address := cfg.cacheLineID (c.heap x).req.address, accessByteSize := cfg.blockSize }

/-- The reads of the wave `x` have got their bytes. -/
def Cache.finishRead (c : Cache cfg) (data : Bytes) (tag : Nat) (x : TransRef) : Cache cfg :=
  { c with heap := markRead data tag (c.heap x).preCoalesceTransactions c.heap }

/-- The writes of the wave `x` are done. -/
def Cache.finishWrite (c : Cache cfg) (x : TransRef) : Cache cfg :=
  { c with heap := markDone (c.heap x).preCoalesceTransactions c.heap }

/-- The write of `x` has been sent. -/
def Cache.sent (c : Cache cfg) (x : TransRef) (w : WriteReq Bytes Mask) (conn : List Bool) : Cache cfg :=
  ({ c with
    bottomPort := { c.bottomPort with outgoing := c.bottomPort.outgoing ++ [AccessReq.write (writeToBottom c w)], conn }
    nextID := c.nextID + 1 }.modify x fun t => { t with writeToBottom := some (writeToBottom c w) }).record
      (.reqInitiate x (.write (writeToBottom c w)))

/-- The fetch of `x` into `victim` has been sent. -/
def Cache.fetched (c : Cache cfg) (x : TransRef) (victim : BlockRef) (conn : List Bool) (e : EntryRef)
    (mshr : MSHR cfg.numMSHREntry TransRef) : Cache cfg :=
  let line := cfg.cacheLineID (c.heap x).req.address
  { c with
    bottomPort := { c.bottomPort with outgoing := c.bottomPort.outgoing ++ [AccessReq.read (fetchOf c x)], conn }
    nextID := c.nextID + 1
    log := c.log ++ [Event.reqInitiate x (.read (fetchOf c x))]
    heap := update c.heap x { c.heap x with readToBottom := some (fetchOf c x), block := some victim }
    mshr := mshr.modify e fun entry => { entry with requests := entry.requests ++ [x], block := some victim }
    directory := (c.directory.modify victim fun b =>
      { b with tag := line, pid := (c.heap x).req.pid, isValid := true, isLocked := true }).visit victim }

/-- `x` writes to the block `b`, which is locked. -/
def Cache.locked (c : Cache cfg) (x : TransRef) (w : WriteReq Bytes Mask) (b : BlockRef) (bank : Nat)
    (buf : Buffer cfg.numReqPerCycle TransRef) : Cache cfg :=
  popBuf ({ c with
    directory := (c.directory.modify b fun b =>
      { b with isLocked := true, isValid := true, tag := cfg.cacheLineID w.address }).visit b
    heap := update c.heap x { c.heap x with bankAction := .write, block := some b } }.modifyBank bank fun k => { k with buf })

section
variable {c c' : Cache cfg} {x : TransRef}

/-- Some transactions are done, and have their bytes. -/
structure Marked (c c' : Cache cfg) : Prop where
  eq : ∃ heap, c' = { c with heap }
  heap : ∀ r, ∃ data done, c'.heap r = { c.heap r with data, done } ∧ ((c.heap r).done = true → done = true)

theorem Marked.refl (c : Cache cfg) : Marked c c := ⟨⟨_, rfl⟩, fun _ => ⟨_, _, rfl, fun h => h⟩⟩

theorem Marked.trans {c'' : Cache cfg} (h : Marked c c') (h' : Marked c' c'') : Marked c c'' := by
  obtain ⟨⟨_, rfl⟩, hheap⟩ := h
  obtain ⟨⟨heap', rfl⟩, hheap'⟩ := h'
  refine ⟨⟨heap', rfl⟩, fun r => ?_⟩
  obtain ⟨_, _, hr, hdone⟩ := hheap r
  obtain ⟨data', done', hr', hdone'⟩ := hheap' r
  refine ⟨data', done', hr'.trans ?_, fun h => hdone' ?_⟩
  · rw [hr]
  · rw [hr]
    exact hdone h

theorem Marked.of_finishRead (data : Bytes) (tag : Nat) (x : TransRef) : Marked c (c.finishRead data tag x) := by
  refine ⟨⟨_, rfl⟩, fun r => ?_⟩
  show ∃ _ _, markRead data tag (c.heap x).preCoalesceTransactions c.heap r = _ ∧ _
  unfold markRead
  split
  · exact ⟨_, _, rfl, fun _ => rfl⟩
  · exact ⟨(c.heap r).data, (c.heap r).done, rfl, fun h => h⟩

theorem Marked.of_finishWrite (x : TransRef) : Marked c (c.finishWrite x) := by
  refine ⟨⟨_, rfl⟩, fun r => ?_⟩
  show ∃ _ _, markDone (c.heap x).preCoalesceTransactions c.heap r = _ ∧ _
  unfold markDone
  split
  · exact ⟨_, _, rfl, fun _ => rfl⟩
  · exact ⟨(c.heap r).data, (c.heap r).done, rfl, fun h => h⟩

theorem Marked.req (h : Marked c c') (r : TransRef) : (c'.heap r).req = (c.heap r).req := by
  obtain ⟨_, _, hr, -⟩ := h.heap r
  rw [hr]

theorem Marked.pre (h : Marked c c') (r : TransRef) :
    (c'.heap r).preCoalesceTransactions = (c.heap r).preCoalesceTransactions := by
  obtain ⟨_, _, hr, -⟩ := h.heap r
  rw [hr]

theorem Marked.readToBottom (h : Marked c c') (r : TransRef) : (c'.heap r).readToBottom = (c.heap r).readToBottom := by
  obtain ⟨_, _, hr, -⟩ := h.heap r
  rw [hr]

theorem Marked.done (h : Marked c c') {r : TransRef} (hr : (c.heap r).done = true) : (c'.heap r).done = true := by
  obtain ⟨_, _, heq, hdone⟩ := h.heap r
  rw [heq]
  exact hdone hr

theorem Marked.guard {G : Cache cfg → Call → Prop} (h : Marked c c') (hG : ∃ c₀, Marked c₀ c ∧ G c₀ .parse) :
    ∃ c₀, Marked c₀ c' ∧ G c₀ .parse := by
  obtain ⟨c₀, h₀, hG₀⟩ := hG
  exact ⟨c₀, h₀.trans h, hG₀⟩

theorem Arrival.marked {rsp : DataReadyRsp Bytes} {rd : ReadReq} {e : EntryRef} {victim : BlockRef} {data : Bytes}
    (ha : Arrival c x rsp rd e victim data) (h : Marked c c') : Arrival c' x rsp rd e victim data := by
  have hreq := h.req
  have hread := h.readToBottom
  obtain ⟨heap, rfl⟩ := h.eq
  refine ⟨ha.peek, ?_, (hread x).trans ha.fetch, ?_, ha.block, ?_⟩
  · refine Eq.trans ?_ ha.find
    show find? (fun y => (heap y).readToBottom.any (·.id == rsp.respondTo)) _ = find? _ _
    have hheap : ∀ y, (heap y).readToBottom = (c.heap y).readToBottom := hread
    simp only [hheap]
  · rw [hreq]
    exact ha.entry
  · obtain ⟨mask, hmask⟩ := ha.merge
    exact ⟨mask, (mergeMSHRData_congr hreq _ _ _).trans hmask⟩

end

open DirectoryStage in
/-- `G` : what holds before a call. -/
inductive Step (G : Cache cfg → Call → Prop) (c : Cache cfg) : Call → Cache cfg → Prop
  | ports (k : Call) (top bottom : List Bool) (nextID : MsgID) (hid : c.nextID ≤ nextID) :
      Step G c k { c with topPort := { c.topPort with conn := top }, bottomPort := { c.bottomPort with conn := bottom },
                          nextID }
  | respond (r : TransRef) (conn : List Bool) (hr : c.transactions.find? (fun r => (c.heap r).done) = some r) :
      Step G c .respond { c with
        topPort := { c.topPort with outgoing := c.topPort.outgoing ++ [TopRsp.access (RespondStage.response (c.heap r))],
                                    conn }
        transactions := c.transactions.erase r
        log := c.log ++ [Event.reqComplete r (c.heap r).req (RespondStage.response (c.heap r))] }
  | dropDone (rsp : WriteDoneRsp) (hrsp : c.bottomPort.peek = some (.writeDone rsp))
      (hfind : ∀ x, findTransactionByWriteToBottomID c rsp.respondTo = some x → (c.heap x).fetchAndWrite = true) :
      Step G c .parse (retrieve c)
  | dropData (rsp : DataReadyRsp Bytes) (hrsp : c.bottomPort.peek = some (.dataReady rsp))
      (hfind : findTransactionByReadToBottomID c rsp.respondTo = none) : Step G c .parse (retrieve c)
  | writeDone (rsp : WriteDoneRsp) (x : TransRef) (hrsp : c.bottomPort.peek = some (.writeDone rsp))
      (hfind : findTransactionByWriteToBottomID c rsp.respondTo = some x) (hflag : (c.heap x).fetchAndWrite = false) :
      Step G c .parse (retrieve ((c.finishWrite x).removePostCoalesce x))
  | joinedRead (x₀ x : TransRef) (rsp : DataReadyRsp Bytes) (rd read : ReadReq) (e : EntryRef) (victim : BlockRef)
      (data : Bytes) (ha : Arrival c x₀ rsp rd e victim data) (hG : ∃ c₀, Marked c₀ c ∧ G c₀ .parse)
      (hx : x ∈ (c.mshr.heap e).requests) (hreq : (c.heap x).req = .read read)
      (hreads : ∀ r ∈ (c.heap x).preCoalesceTransactions, ReadsFrom data (c.directory.blocks victim).tag (c.heap r).req) :
      Step G c .parse (c.finishRead data (c.directory.blocks victim).tag x)
  | joinedWrite (x₀ x : TransRef) (rsp : DataReadyRsp Bytes) (rd : ReadReq) (w : WriteReq Bytes Mask) (e : EntryRef)
      (victim : BlockRef) (data : Bytes) (ha : Arrival c x₀ rsp rd e victim data) (hG : ∃ c₀, Marked c₀ c ∧ G c₀ .parse)
      (hx : x ∈ (c.mshr.heap e).requests) (hreq : (c.heap x).req = .write w) : Step G c .parse (c.finishWrite x)
  | fill (x : TransRef) (rsp : DataReadyRsp Bytes) (rd : ReadReq) (e : EntryRef) (victim b : BlockRef) (data : Bytes)
      (bank : Nat) (buf : Buffer cfg.numReqPerCycle TransRef) (ha : Arrival c x rsp rd e victim data)
      (hG : ∃ c₀, Marked c₀ c ∧ G c₀ .parse)
      (hdone : ∀ y ∈ (c.mshr.heap e).requests, ∀ r ∈ (c.heap y).preCoalesceTransactions, (c.heap r).done = true)
      (hb : (c.heap x).block = some b) (hbank : bankOf cfg b = .ok bank) (hpush : (c.banks bank).buf.push x = .ok buf) :
      Step G c .parse (retrieve ({ c with
        mshr := { c.mshr with entries := c.mshr.entries.erase e }
        heap := update c.heap x { c.heap x with bankAction := .writeFetched, data }
        postCoalesceTransactions := (c.postCoalesceTransactions.diff (c.mshr.heap e).requests).erase x }.modifyBank bank
          fun k => { k with buf }))
  | readHitDone (i : Nat) (x : TransRef) (b : BlockRef) (read : ReadReq) (data : Bytes)
      (hpeek : (c.banks i).postPipelineBuf.peek = some x) (hact : (c.heap x).bankAction = .readHit)
      (hb : (c.heap x).block = some b) (hreq : (c.heap x).req = .read read)
      (hdata : c.storage.read (b.cacheAddress cfg.geometry) (c.heap x).req.byteSize = .ok data)
      (hreads : ∀ r ∈ (c.heap x).preCoalesceTransactions, ReadsFrom data (c.directory.blocks b).tag (c.heap r).req) :
      Step G c (.finalize i) (BankStage.popBuf
        (((c.modifyBlock b fun b => { b with readCount := b.readCount - 1 }).finishRead data
        (c.directory.blocks b).tag x).removePostCoalesce x) i)
  | written (i : Nat) (x : TransRef) (b : BlockRef) (w : WriteReq Bytes Mask) (old data : Bytes) (mask : Mask)
      (storage : Storage) (hpeek : (c.banks i).postPipelineBuf.peek = some x) (hact : (c.heap x).bankAction = .write)
      (hb : (c.heap x).block = some b) (hreq : (c.heap x).req = .write w)
      (hold : c.storage.read (b.cacheAddress cfg.geometry) cfg.blockSize = .ok old)
      (hmerge : overlay old (replicate cfg.blockSize false) (offsetIn w.address (c.directory.blocks b).tag) w.data
        (some (w.dirtyMask.getD [])) = .ok (data, mask))
      (hstore : c.storage.write (b.cacheAddress cfg.geometry) data = .ok storage) :
      Step G c (.finalize i) (BankStage.popBuf ({ c with storage }.modifyBlock b fun b => { b with isLocked := false }) i)
  | fetchWritten (i : Nat) (x : TransRef) (b : BlockRef) (storage : Storage)
      (hpeek : (c.banks i).postPipelineBuf.peek = some x)
      (hact : (c.heap x).bankAction = .writeFetched) (hb : (c.heap x).block = some b)
      (hstore : c.storage.write (b.cacheAddress cfg.geometry) (c.heap x).data = .ok storage) :
      Step G c (.finalize i) (BankStage.popBuf ({ c with storage }.modifyBlock b fun b => { b with isLocked := false }) i)
  | tickBank (i : Nat) (pipeline : Pipeline cfg.numReqPerCycle cfg.bankLatency TransRef)
      (postPipelineBuf : Buffer cfg.numReqPerCycle TransRef)
      (hitems : pipeline.items + ↑postPipelineBuf.elements = (c.banks i).pipeline.items +
        ↑(c.banks i).postPipelineBuf.elements) :
      Step G c (.tickBank i) (c.modifyBank i fun k => { k with pipeline, postPipelineBuf })
  | extract (i : Nat) (x : TransRef) (pipeline : Pipeline cfg.numReqPerCycle cfg.bankLatency TransRef)
      (postPipelineBuf : Buffer cfg.numReqPerCycle TransRef) (hpeek : (c.banks i).buf.peek = some x)
      (hitems : pipeline.items + ↑postPipelineBuf.elements =
        x ::ₘ ((c.banks i).pipeline.items + ↑(c.banks i).postPipelineBuf.elements)) :
      Step G c (.extract i) (c.modifyBank i fun k => { buf := k.buf.pop, pipeline, postPipelineBuf })
  | moveDir (k : Call) (hk : k = .accept ∨ k = .tickDir) (x : Option TransRef) (dirBuf : Buffer cfg.numReqPerCycle TransRef)
      (dirPipeline : Pipeline cfg.numReqPerCycle cfg.dirLatency TransRef) (dirPostBuf : Buffer cfg.numReqPerCycle TransRef)
      (hhead : c.dirPostBuf.elements <+: dirPostBuf.elements) (hbuf : c.dirBuf.elements = x.toList ++ dirBuf.elements)
      (hitems : dirPipeline.items + ↑dirPostBuf.elements = ↑x.toList + (c.dirPipeline.items + ↑c.dirPostBuf.elements)) :
      Step G c k { c with dirBuf, dirPipeline, dirPostBuf }
  | joinRead (x : TransRef) (read : ReadReq) (e : EntryRef) (hpeek : c.dirPostBuf.peek = some x)
      (hreq : (c.heap x).req = .read read) (he : c.mshr.query read.pid (cfg.cacheLineID read.address) = some e) :
      Step G c .process (processMSHRHit c x e .readMSHRHit)
  | joinWrite (x : TransRef) (w : WriteReq Bytes Mask) (e : EntryRef) (conn : List Bool) (hpeek : c.dirPostBuf.peek = some x)
      (hreq : (c.heap x).req = .write w) (he : c.mshr.query w.pid (cfg.cacheLineID w.address) = some e) :
      Step G c .process (processMSHRHit (c.sent x w conn) x e .writeMSHRHit)
  | readHit (x : TransRef) (read : ReadReq) (b : BlockRef) (bank : Nat) (buf : Buffer cfg.numReqPerCycle TransRef)
      (hpeek : c.dirPostBuf.peek = some x) (hreq : (c.heap x).req = .read read)
      (hquery : c.mshr.query read.pid (cfg.cacheLineID read.address) = none)
      (hlook : c.directory.lookup read.pid (cfg.cacheLineID read.address) = .ok (some b))
      (hfree : (c.directory.blocks b).isLocked = false) (hbank : bankOf cfg b = .ok bank)
      (hpush : (c.banks bank).buf.push x = .ok buf) :
      Step G c .process ((popBuf ({ c with
        heap := update c.heap x { c.heap x with block := some b, bankAction := .readHit }
        directory := (c.directory.modify b fun b => { b with readCount := b.readCount + 1 }).visit b }.modifyBank bank
          fun k => { k with buf })).record (.addTaskStep x .readHit))
  | fetch (x : TransRef) (victim : BlockRef) (conn : List Bool) (e : EntryRef) (mshr : MSHR cfg.numMSHREntry TransRef)
      (hpeek : c.dirPostBuf.peek = some x)
      (hkind : (∃ read, (c.heap x).req = .read read) ∨ (∃ w, (c.heap x).req = .write w ∧ isPartialWrite cfg w = true) ∧
        (c.heap x).fetchAndWrite = true ∧ (c.heap x).writeToBottom.isSome = true)
      (hquery : c.mshr.query (c.heap x).req.pid (cfg.cacheLineID (c.heap x).req.address) = none)
      (hlook : c.directory.lookup (c.heap x).req.pid (cfg.cacheLineID (c.heap x).req.address) = .ok none)
      (hvictim : c.directory.findVictim (cfg.cacheLineID (c.heap x).req.address) = .ok victim)
      (hfree : (c.directory.blocks victim).isLocked = false) (hread : ¬ (c.directory.blocks victim).readCount > 0)
      (hadd : c.mshr.add (c.heap x).req.pid (cfg.cacheLineID (c.heap x).req.address) = .ok (e, mshr)) (what : TaskStep) :
      Step G c .process ((popBuf (c.fetched x victim conn e mshr)).record (.addTaskStep x what))
  | flag (x : TransRef) (w : WriteReq Bytes Mask) (hpolicy : cfg.policy = .writethrough) (hpeek : c.dirPostBuf.peek = some x)
      (hreq : (c.heap x).req = .write w) (hpart : isPartialWrite cfg w = true)
      (hquery : c.mshr.query w.pid (cfg.cacheLineID w.address) = none)
      (hlook : c.directory.lookup w.pid (cfg.cacheLineID w.address) = .ok none) :
      Step G c .process (c.modify x fun t => { t with fetchAndWrite := true })
  | writeBottom (x : TransRef) (w : WriteReq Bytes Mask) (conn : List Bool) (hpeek : c.dirPostBuf.peek = some x)
      (hreq : (c.heap x).req = .write w) (hpart : isPartialWrite cfg w = true) (hunsent : (c.heap x).writeToBottom = none)
      (hflag : (c.heap x).fetchAndWrite = true) (hquery : c.mshr.query w.pid (cfg.cacheLineID w.address) = none)
      (hlook : c.directory.lookup w.pid (cfg.cacheLineID w.address) = .ok none) : Step G c .process (c.sent x w conn)
  | writeHit (x : TransRef) (w : WriteReq Bytes Mask) (b : BlockRef) (bank : Nat) (conn : List Bool) (what : TaskStep)
      (buf : Buffer cfg.numReqPerCycle TransRef) (hpolicy : cfg.policy ≠ .writeevict) (hpeek : c.dirPostBuf.peek = some x)
      (hreq : (c.heap x).req = .write w) (hquery : c.mshr.query w.pid (cfg.cacheLineID w.address) = none)
      (hb : c.directory.lookup w.pid (cfg.cacheLineID w.address) = .ok (some b) ∨ cfg.policy = .writethrough ∧
        isPartialWrite cfg w = false ∧ c.directory.lookup w.pid (cfg.cacheLineID w.address) = .ok none ∧
        c.directory.findVictim (cfg.cacheLineID w.address) = .ok b)
      (hfree : (c.directory.blocks b).isLocked = false) (hread : ¬ (c.directory.blocks b).readCount > 0)
      (hbank : bankOf cfg b = .ok bank) (hpush : (c.banks bank).buf.push x = .ok buf)
      (hunsent : (c.heap x).writeToBottom = none) (hG : G c .process) :
      Step G c .process (((c.sent x w conn).locked x w b bank buf).record (.addTaskStep x what))
  | invalidate (x : TransRef) (w : WriteReq Bytes Mask) (b : BlockRef) (conn : List Bool) (what : TaskStep)
      (hpolicy : cfg.policy = .writeevict) (hpeek : c.dirPostBuf.peek = some x) (hreq : (c.heap x).req = .write w)
      (hquery : c.mshr.query w.pid (cfg.cacheLineID w.address) = none)
      (hlook : c.directory.lookup w.pid (cfg.cacheLineID w.address) = .ok (some b))
      (hfree : (c.directory.blocks b).isLocked = false) (hread : ¬ (c.directory.blocks b).readCount > 0)
      (hunsent : (c.heap x).writeToBottom = none) :
      Step G c .process ((popBuf ((c.sent x w conn).modifyBlock b fun b => { b with isValid := false })).record
        (.addTaskStep x what))
  | writeHitAgain (x : TransRef) (w : WriteReq Bytes Mask) (b : BlockRef) (bank : Nat) (what : TaskStep) (c' : Cache cfg)
      (hpeek : c.dirPostBuf.peek = some x) (hreq : (c.heap x).req = .write w) (hsent : (c.heap x).writeToBottom.isSome = true)
      (hb : c.directory.lookup w.pid (cfg.cacheLineID w.address) = .ok (some b) ∨ isPartialWrite cfg w = false)
      (hfinish : finishWriteHit c x w b bank = .ok c') : Step G c .process (c'.record (.addTaskStep x what))
  | bypass (x : TransRef) (w : WriteReq Bytes Mask) (conn : List Bool) (hpolicy : cfg.policy ≠ .writethrough)
      (hpeek : c.dirPostBuf.peek = some x) (hreq : (c.heap x).req = .write w)
      (hquery : c.mshr.query w.pid (cfg.cacheLineID w.address) = none)
      (hlook : c.directory.lookup w.pid (cfg.cacheLineID w.address) = .ok none) :
      Step G c .process ((popBuf (c.sent x w conn)).record (.addTaskStep x .writeMiss))
  | park (req : AccessReq) (hreq : c.topPort.peek = some (.access req)) (hline : canReqCoalesce c req = true)
      (hcap : c.transactions.length < cfg.maxNumConcurrentTrans) (hG : c.toCoalesce = [] ∨ G c .coalesce) :
      Step G c .coalesce (createTransaction c req)
  | wave (r : TransRef) (rs : List TransRef) (req : AccessReq) (dirBuf : Buffer cfg.numReqPerCycle TransRef)
      (hwave : c.toCoalesce = r :: rs) (hreq : waveReq c r = .ok req) (hpush : c.dirBuf.push c.nextRef = .ok dirBuf) :
      Step G c .coalesce { c with
        heap := update c.heap c.nextRef { req, preCoalesceTransactions := c.toCoalesce }
        nextRef := c.nextRef + 1
        dirBuf
        postCoalesceTransactions := c.postCoalesceTransactions ++ [c.nextRef]
        toCoalesce := []
        nextID := c.nextID + 1
        log := c.log ++ [Event.startTask c.nextRef req c.toCoalesce] }
  | reset (src : PortID) (pid : PID) (hreq : c.topPort.peek = some (.gl0Invalidate src pid)) (hG : G c .coalesce) :
      Step G c .coalesce { c with directory := c.directory.reset }
  | invalidated (src : PortID) (pid : PID) (conn : List Bool) (hreq : c.topPort.peek = some (.gl0Invalidate src pid))
      (hG : ∃ d, c.directory = d.reset ∧ G { c with directory := d } .coalesce) :
      Step G c .coalesce { c with
        topPort := { buf := c.topPort.buf.pop, outgoing := c.topPort.outgoing ++ [TopRsp.gl0Invalidate src pid], conn }
        log := c.log ++ [Event.invalidated src] }

/-- The flush `req` has completed. -/
def Cache.flushed (c : Cache cfg) (req : FlushReq) (conn : List Bool) : Cache cfg :=
  { (ControlStage.hardResetCache { c with
      controlPort := { c.controlPort with outgoing := c.controlPort.outgoing ++ [ControlRsp.flush req.src req.id], conn } }
        req).record
        (.flushed req c.nextRef c.nextID) with currFlushReq := none }

/-- What a call of the control stage can do. -/
inductive CtrlStep (c : Cache cfg) : Call → Cache cfg → Prop
  | idle (k : Call) (conn : List Bool) : CtrlStep c k { c with controlPort := { c.controlPort with conn } }
  | start (req : FlushReq) (hreq : c.controlPort.peek = some (.flush req)) (hidle : c.currFlushReq = none) :
      CtrlStep c .newRequest { c with currFlushReq := some req, controlPort := c.controlPort.retrieve }
  | restart (id : MsgID) (src : PortID) (controlPort : Port cfg.numReqPerCycle ControlReq ControlRsp)
      (hreq : c.controlPort.peek = some (.restart id src)) :
      CtrlStep c .newRequest { c with controlPort, isPaused := false, topPort := c.topPort.clear,
                                      bottomPort := c.bottomPort.clear }
  | flush (req : FlushReq) (conn : List Bool) (hreq : c.currFlushReq = some req)
      (hready : ControlStage.shouldWaitForInFlightTransactions c req = false)
      (hsent : (c.controlPort.send (.flush req.src req.id)).1 = true) : CtrlStep c .currentFlush (c.flushed req conn)

/-! ## Every call does some steps -/

abbrev Steps (G : Cache cfg → Call → Prop) (k : Call) (c c' : Cache cfg) : Prop := ReflTransGen (Step G · k ·) c c'

section
variable {G : Cache cfg → Call → Prop} {c c' : Cache cfg} {p : Bool} {x : TransRef}

theorem respond_steps (h : RespondStage.tick c = .ok (p, c')) : Steps G .respond c c' := by
  unfold RespondStage.tick at h
  cases hr : c.transactions.find? fun r => (c.heap r).done with
  | none =>
    rw [hr] at h
    cases h
    exact .refl
  | some r =>
    simp only [hr] at h
    rcases c.topPort.send_eq (.access (RespondStage.response (c.heap r))) with ⟨hsent, conn, hport⟩ | ⟨hsent, conn, hport⟩
    · simp only [hsent, hport, if_bnot_true] at h
      cases h
      exact .single (.respond r conn hr)
    · simp only [hsent, hport, if_bnot_false] at h
      cases h
      exact .single (.ports _ conn c.bottomPort.conn c.nextID (le_refl _))

theorem processDoneRsp_steps {rsp : WriteDoneRsp} (hrsp : c.bottomPort.peek = some (.writeDone rsp))
    (h : processDoneRsp c rsp = .ok (p, c')) : Steps G .parse c c' := by
  unfold processDoneRsp at h
  cases hfind : findTransactionByWriteToBottomID c rsp.respondTo with
  | none =>
    rw [hfind] at h
    cases h
    exact .single (.dropDone rsp hrsp fun x hx => by rw [hfind] at hx; cases hx)
  | some x =>
    simp only [hfind] at h
    by_cases hflag : (c.heap x).fetchAndWrite = true
    · rw [if_pos hflag] at h
      cases h
      refine .single (.dropDone rsp hrsp fun y hy => ?_)
      rw [hfind] at hy
      cases hy
      exact hflag
    · rw [if_neg hflag, finishWrites_eq] at h
      cases h
      exact .single (.writeDone rsp x hrsp hfind (by simpa using hflag))

theorem finalizeMSHRTrans_steps {rsp : DataReadyRsp Bytes} {rd : ReadReq} {e : EntryRef} {victim : BlockRef} {data : Bytes}
    {xs post : List TransRef} (ha : Arrival c x rsp rd e victim data) (hG : ∃ c₀, Marked c₀ c ∧ G c₀ .parse)
    (hxs : ∀ y ∈ xs, y ∈ (c.mshr.heap e).requests)
    (h : finalizeMSHRTrans data (c.directory.blocks victim).tag xs { c with postCoalesceTransactions := post } = .ok c') :
    ∃ c₁, Steps G .parse c c₁ ∧ Marked c c₁ ∧ c' = { c₁ with postCoalesceTransactions := post.diff xs } ∧
      ∀ y ∈ xs, ∀ r ∈ (c.heap y).preCoalesceTransactions, (c₁.heap r).done = true := by
  induction xs generalizing c post with
  | nil =>
    rw [finalizeMSHRTrans, Except.ok.injEq] at h
    subst h
    exact ⟨c, .refl, .refl c, rfl, forall_mem_nil _⟩
  | cons y ys ih =>
    rw [finalizeMSHRTrans] at h
    have hy := hxs y mem_cons_self
    -- the rest, once `y` is finished
    have hrest : ∀ c₂ : Cache cfg, Step G c .parse c₂ → Marked c c₂ →
        (∀ r ∈ (c.heap y).preCoalesceTransactions, (c₂.heap r).done = true) →
        finalizeMSHRTrans data (c.directory.blocks victim).tag ys
          { c₂ with postCoalesceTransactions := post.erase y } = .ok c' →
        ∃ c₁, Steps G .parse c c₁ ∧ Marked c c₁ ∧ c' = { c₁ with postCoalesceTransactions := post.diff (y :: ys) } ∧
          ∀ z ∈ y :: ys, ∀ r ∈ (c.heap z).preCoalesceTransactions, (c₁.heap r).done = true := by
      intro c₂ hstep hm hdone h
      have hpre := hm.pre
      have htag : c₂.directory = c.directory ∧ c₂.mshr = c.mshr := by
        obtain ⟨heap, rfl⟩ := hm.eq
        exact ⟨rfl, rfl⟩
      have h : finalizeMSHRTrans data (c₂.directory.blocks victim).tag ys
          { c₂ with postCoalesceTransactions := post.erase y } = .ok c' := htag.1 ▸ h
      obtain ⟨c₁, hsteps, hm₁, heq, hall⟩ := ih (c := c₂) (ha.marked hm) (hm.guard hG)
        (fun z hz => htag.2 ▸ hxs z (mem_cons_of_mem _ hz)) h
      refine ⟨c₁, .head hstep hsteps, hm.trans hm₁, by rw [diff_cons]; exact heq, fun z hz r hr => ?_⟩
      rcases mem_cons.mp hz with rfl | hz
      · exact hm₁.done (hdone r hr)
      · exact hall z hz r (by rw [hpre]; exact hr)
    cases hreq : (c.heap y).req with
    | read read =>
      simp only [hreq] at h
      obtain ⟨c₁, hreads, h⟩ := eq_ok_of_bind h
      obtain ⟨rfl, hall⟩ := finishReads_eq hreads
      refine hrest _ (.joinedRead x y rsp rd read e victim data ha hG hy hreq hall) (.of_finishRead _ _ y) (fun r hr => ?_) h
      show (markRead _ _ _ c.heap r).done = true
      rw [markRead, if_pos hr]
    | write w =>
      simp only [hreq, finishWrites_eq] at h
      refine hrest _ (.joinedWrite x y rsp rd w e victim data ha hG hy hreq) (.of_finishWrite y) (fun r hr => ?_) h
      show (markDone _ c.heap r).done = true
      rw [markDone, if_pos hr]

theorem processDataReady_steps {rsp : DataReadyRsp Bytes} (hG : G c .parse) (hrsp : c.bottomPort.peek = some (.dataReady rsp))
    (h : processDataReady c rsp = .ok (p, c')) : Steps G .parse c c' := by
  unfold processDataReady at h
  cases hfind : findTransactionByReadToBottomID c rsp.respondTo with
  | none =>
    rw [hfind] at h
    cases h
    exact .single (.dropData rsp hrsp hfind)
  | some x =>
    simp only [hfind] at h
    cases hfetch : (c.heap x).readToBottom with
    | none => simp only [hfetch] at h; cases h
    | some rd =>
      cases hb : (c.heap x).block with
      | none => simp only [hfetch, hb] at h; cases h
      | some b =>
        simp only [hfetch, hb] at h
        obtain ⟨bank, hbank, h⟩ := eq_ok_of_bind h
        by_cases hpush : (c.banks bank).buf.canPush = true
        · simp only [hpush, if_bnot_true] at h
          cases hquery : c.mshr.query rd.pid (cfg.cacheLineID (c.heap x).req.address) with
          | none => rw [hquery] at h; cases h
          | some e =>
            cases hvictim : (c.mshr.heap e).block with
            | none => simp only [hquery, hvictim] at h; cases h
            | some victim =>
              simp only [hquery, hvictim] at h
              obtain ⟨⟨data, mask⟩, hmerge, h⟩ := eq_ok_of_bind h
              obtain ⟨_, hfinal, h⟩ := eq_ok_of_bind h
              have ha : Arrival c x rsp rd e victim data := ⟨hrsp, hfind, hfetch, hquery, hvictim, mask, hmerge⟩
              obtain ⟨c₂, hsteps, hm, rfl, hdone⟩ := finalizeMSHRTrans_steps ha ⟨c, .refl c, hG⟩ (fun y hy => hy) hfinal
              have hpre := hm.pre
              have ha' := ha.marked hm
              have hb' : (c₂.heap x).block = some b := by
                obtain ⟨_, _, hx, -⟩ := hm.heap x
                rw [hx]
                exact hb
              obtain ⟨heap, rfl⟩ := hm.eq
              have hrem : c.mshr.remove rd.pid (cfg.cacheLineID (c.heap x).req.address) =
                  .ok { c.mshr with entries := c.mshr.entries.erase e } := by
                rw [MSHR.remove, hquery]
              obtain ⟨_, hremove, h⟩ := eq_ok_of_bind h
              cases hrem.symm.trans hremove
              obtain ⟨buf, hbuf, h⟩ := eq_ok_of_bind h
              cases h
              exact hsteps.tail (.fill x rsp rd e victim b data bank buf ha' ⟨c, hm, hG⟩
                (fun y hy r hr => hdone y hy r (by rw [← hpre]; exact hr)) hb' hbank hbuf)
        · simp only [hpush, if_bnot_false] at h
          cases h
          exact .refl

theorem parse_steps (hG : G c .parse) (h : BottomParser.tick c = .ok (p, c')) : Steps G .parse c c' := by
  unfold BottomParser.tick at h
  cases hpeek : c.bottomPort.peek with
  | none =>
    rw [hpeek] at h
    cases h
    exact .refl
  | some rsp =>
    cases rsp with
    | writeDone =>
      rw [hpeek] at h
      exact processDoneRsp_steps hpeek h
    | dataReady =>
      rw [hpeek] at h
      exact processDataReady_steps hG hpeek h

theorem finalizeTrans_steps {i : Nat} (h : BankStage.finalizeTrans c i = .ok (p, c')) : Steps G (.finalize i) c c' := by
  unfold BankStage.finalizeTrans at h
  cases hpeek : (c.banks i).postPipelineBuf.peek with
  | none =>
    rw [hpeek] at h
    cases h
    exact .refl
  | some x =>
    simp only [hpeek] at h
    split at h
    next b read hact hb hreq =>
      unfold BankStage.finalizeReadHitTrans at h
      obtain ⟨data, hdata, h⟩ := eq_ok_of_bind h
      have htag : ((c.modifyBlock b fun b => { b with readCount := b.readCount - 1 }).directory.blocks b).tag =
          (c.directory.blocks b).tag := by
        simp [Cache.modifyBlock]
      dsimp only at h
      rw [htag] at h
      obtain ⟨c₁, hreads, h⟩ := eq_ok_of_bind h
      obtain ⟨rfl, hall⟩ := finishReads_eq hreads
      cases h
      exact .single (.readHitDone i x b read data hpeek hact hb hreq hdata hall)
    next b w hact hb hreq =>
      unfold BankStage.finalizeWriteTrans at h
      obtain ⟨old, hold, h⟩ := eq_ok_of_bind h
      obtain ⟨⟨data, mask⟩, hmerge, h⟩ := eq_ok_of_bind h
      obtain ⟨storage, hstore, h⟩ := eq_ok_of_bind h
      cases h
      exact .single (.written i x b w old data mask storage hpeek hact hb hreq hold hmerge hstore)
    next b hact hb =>
      unfold BankStage.finalizeWriteFetchedTrans at h
      obtain ⟨storage, hstore, h⟩ := eq_ok_of_bind h
      cases h
      exact .single (.fetchWritten i x b storage hpeek hact hb hstore)
    next => cases h
    next => cases h

theorem extractFromBuf_steps {i : Nat} (h : BankStage.extractFromBuf c i = .ok (p, c')) : Steps G (.extract i) c c' := by
  unfold BankStage.extractFromBuf at h
  cases hpeek : (c.banks i).buf.peek with
  | none =>
    rw [hpeek] at h
    cases h
    exact .refl
  | some x =>
    simp only [hpeek] at h
    by_cases hacc : (c.banks i).pipeline.canAccept (c.banks i).postPipelineBuf = true
    · simp only [hacc, if_bnot_true] at h
      obtain ⟨r, hr, h⟩ := eq_ok_of_bind h
      cases h
      exact .single (.extract i x r.1 r.2 hpeek (items_accept hr))
    · simp only [hacc, if_bnot_false] at h
      cases h
      exact .refl

theorem accept_steps (h : accept c = .ok (p, c')) : Steps G .accept c c' := by
  unfold accept at h
  by_cases hacc : c.dirPipeline.canAccept c.dirPostBuf = true
  · simp only [hacc, if_bnot_true] at h
    cases hpeek : c.dirBuf.peek with
    | none =>
      rw [hpeek] at h
      cases h
      exact .refl
    | some x =>
      simp only [hpeek] at h
      obtain ⟨r, hr, h⟩ := eq_ok_of_bind h
      cases h
      exact .single (.moveDir _ (.inl rfl) (some x) c.dirBuf.pop r.1 r.2 (prefix_accept hr) (Buffer.peek_eq_some hpeek)
        ((items_accept hr).trans (Multiset.singleton_add _ _).symm))
  · simp only [hacc, if_bnot_false] at h
    cases h
    exact .refl

theorem tickDir_steps (h : tickPipeline c = .ok (p, c')) : Steps G .tickDir c c' := by
  cases h
  exact .single (.moveDir _ (.inr rfl) none c.dirBuf _ _ (prefix_tick _ _) rfl ((items_tick _ _).trans (zero_add _).symm))

/-! ### The directory -/

/-- The bottom port refuses a request. -/
def Cache.refused (c : Cache cfg) (conn : List Bool) : Cache cfg :=
  { c with bottomPort := { c.bottomPort with conn }, nextID := c.nextID + 1 }

theorem refused_steps (conn : List Bool) : Steps G .process c (c.refused conn) :=
  .single (.ports _ c.topPort.conn conn (c.nextID + 1) (Nat.le_succ _))

theorem writeBottom_eq (c : Cache cfg) (x : TransRef) (w : WriteReq Bytes Mask) :
    (∃ conn, writeBottom c x w = (true, c.sent x w conn)) ∨
    (∃ conn, writeBottom c x w = (false, c.refused conn)) := by
  unfold writeBottom
  rcases c.bottomPort.send_eq (.write (writeToBottom c w)) with ⟨hsent, conn, hport⟩ | ⟨hsent, conn, hport⟩
  · refine .inl ⟨conn, ?_⟩
    simp only [hsent, hport]
    rfl
  · refine .inr ⟨conn, ?_⟩
    simp only [hsent, hport]
    rfl

theorem fetchFromBottom_eq {victim : BlockRef} (h : fetchFromBottom c x victim = .ok (p, c')) :
    (p = true ∧ ∃ conn e mshr, c.mshr.add (c.heap x).req.pid (cfg.cacheLineID (c.heap x).req.address) = .ok (e, mshr) ∧
      c' = c.fetched x victim conn e mshr) ∨
    (p = false ∧ ∃ conn, c' = c.refused conn) := by
  unfold fetchFromBottom at h
  rcases c.bottomPort.send_eq (.read (fetchOf c x)) with ⟨hsent, conn, hport⟩ | ⟨hsent, conn, hport⟩
  · simp only [fetchOf] at hsent hport
    simp only [hsent, hport, if_bnot_true] at h
    obtain ⟨⟨e, mshr⟩, hadd, h⟩ := eq_ok_of_bind h
    cases h
    exact .inl ⟨rfl, conn, e, mshr, hadd, rfl⟩
  · simp only [fetchOf] at hsent hport
    simp only [hsent, hport, if_bnot_false] at h
    cases h
    exact .inr ⟨rfl, conn, rfl⟩

variable {b : BlockRef}

theorem processReadHit_steps {read : ReadReq} (hpeek : c.dirPostBuf.peek = some x) (hreq : (c.heap x).req = .read read)
    (hquery : c.mshr.query read.pid (cfg.cacheLineID read.address) = none)
    (hlook : c.directory.lookup read.pid (cfg.cacheLineID read.address) = .ok (some b))
    (h : processReadHit c x b = .ok (p, c')) : Steps G .process c c' := by
  unfold processReadHit at h
  by_cases hlock : (c.directory.blocks b).isLocked = true
  · rw [if_pos hlock] at h
    cases h
    exact .refl
  · rw [if_neg hlock] at h
    obtain ⟨bank, hbank, h⟩ := eq_ok_of_bind h
    by_cases hpush : (c.banks bank).buf.canPush = true
    · simp only [hpush, if_bnot_true] at h
      obtain ⟨buf, hbuf, h⟩ := eq_ok_of_bind h
      cases h
      exact .single (.readHit x read b bank buf hpeek hreq hquery hlook (by simpa using hlock) hbank hbuf)
    · simp only [hpush, if_bnot_false] at h
      cases h
      exact .refl

theorem free_of_not {b : Block} (h : ¬ (b.isLocked || decide (b.readCount > 0)) = true) :
    b.isLocked = false ∧ ¬ b.readCount > 0 := by
  simpa [not_or] using h

theorem processReadMiss_steps {read : ReadReq} (hpeek : c.dirPostBuf.peek = some x) (hreq : (c.heap x).req = .read read)
    (hquery : c.mshr.query read.pid (cfg.cacheLineID read.address) = none)
    (hlook : c.directory.lookup read.pid (cfg.cacheLineID read.address) = .ok none)
    (h : processReadMiss c x = .ok (p, c')) : Steps G .process c c' := by
  unfold processReadMiss at h
  obtain ⟨victim, hvictim, h⟩ := eq_ok_of_bind h
  by_cases hbusy : ((c.directory.blocks victim).isLocked || decide ((c.directory.blocks victim).readCount > 0)) = true
  · rw [if_pos hbusy] at h
    cases h
    exact .refl
  · rw [if_neg hbusy] at h
    obtain ⟨hfree, hread⟩ := free_of_not hbusy
    by_cases hfull : c.mshr.isFull = true
    · rw [if_pos hfull] at h
      cases h
      exact .refl
    · rw [if_neg hfull] at h
      obtain ⟨⟨_, _⟩, hfetch, h⟩ := eq_ok_of_bind h
      rcases fetchFromBottom_eq hfetch with ⟨rfl, conn, e, mshr, hadd, rfl⟩ | ⟨rfl, conn, rfl⟩
      · cases h
        exact .single (.fetch x victim conn e mshr hpeek (.inl ⟨read, hreq⟩) (by rw [hreq]; exact hquery)
          (by rw [hreq]; exact hlook)
          hvictim hfree hread hadd .readMiss)
      · cases h
        exact refused_steps conn

variable {w : WriteReq Bytes Mask}

theorem finishWriteHit_eq {bank : Nat} (h : finishWriteHit c x w b bank = .ok c') :
    (cfg.policy = .writeevict ∧ c' = popBuf (c.modifyBlock b fun b => { b with isValid := false })) ∨
    (cfg.policy ≠ .writeevict ∧ ∃ buf, (c.banks bank).buf.push x = .ok buf ∧ c' = c.locked x w b bank buf) := by
  unfold finishWriteHit at h
  by_cases hpolicy : cfg.policy = .writeevict
  · rw [if_pos hpolicy, Except.ok.injEq] at h
    exact .inl ⟨hpolicy, h.symm⟩
  · rw [if_neg hpolicy] at h
    obtain ⟨buf, hpush, h⟩ := eq_ok_of_bind h
    cases h
    exact .inr ⟨hpolicy, buf, hpush, rfl⟩

theorem processWriteHit_steps {what : TaskStep} (hG : G c .process) (hpeek : c.dirPostBuf.peek = some x)
    (hreq : (c.heap x).req = .write w) (hquery : c.mshr.query w.pid (cfg.cacheLineID w.address) = none)
    (hb : c.directory.lookup w.pid (cfg.cacheLineID w.address) = .ok (some b) ∨ cfg.policy = .writethrough ∧
      isPartialWrite cfg w = false ∧ c.directory.lookup w.pid (cfg.cacheLineID w.address) = .ok none ∧
      c.directory.findVictim (cfg.cacheLineID w.address) = .ok b)
    (h : processWriteHit c x w b what = .ok (p, c')) : Steps G .process c c' := by
  unfold processWriteHit at h
  by_cases hbusy : ((c.directory.blocks b).isLocked || decide ((c.directory.blocks b).readCount > 0)) = true
  · rw [if_pos hbusy] at h
    cases h
    exact .refl
  · rw [if_neg hbusy] at h
    obtain ⟨hfree, hread⟩ := free_of_not hbusy
    obtain ⟨bank, hbank, h⟩ := eq_ok_of_bind h
    by_cases hpush : (c.banks bank).buf.canPush = true
    · simp only [hpush, if_bnot_true] at h
      cases hsent : (c.heap x).writeToBottom with
      | some =>
        simp only [hsent, isNone_some, Bool.false_eq_true, if_false, if_bnot_true] at h
        obtain ⟨c₁, hfinish, h⟩ := eq_ok_of_bind h
        cases h
        exact .single (.writeHitAgain x w b bank what c₁ hpeek hreq (by rw [hsent]; rfl) (hb.imp_right fun h => h.2.1)
          hfinish)
      | none =>
        simp only [hsent, isNone_none, if_true] at h
        rcases writeBottom_eq c x w with ⟨conn, hw⟩ | ⟨conn, hw⟩
        · simp only [hw, if_bnot_true] at h
          obtain ⟨_, hfinish, h⟩ := eq_ok_of_bind h
          cases h
          rcases finishWriteHit_eq hfinish with ⟨hpolicy, rfl⟩ | ⟨hpolicy, buf, hbuf, rfl⟩
          · -- a write-evict cache has no miss that takes a block
            have hlook := hb.resolve_right fun hfull => by rw [hpolicy] at hfull; cases hfull.1
            exact .single (.invalidate x w b conn what hpolicy hpeek hreq hquery hlook hfree hread hsent)
          · exact .single (.writeHit x w b bank conn what buf hpolicy hpeek hreq hquery hb hfree hread hbank hbuf hsent hG)
        · simp only [hw, if_bnot_false] at h
          cases h
          exact refused_steps conn
    · simp only [hpush, if_bnot_false] at h
      cases h
      exact .refl

theorem partialWriteMiss_steps (hpolicy : cfg.policy = .writethrough) (hpeek : c.dirPostBuf.peek = some x)
    (hreq : (c.heap x).req = .write w) (hpart : isPartialWrite cfg w = true)
    (hquery : c.mshr.query w.pid (cfg.cacheLineID w.address) = none)
    (hlook : c.directory.lookup w.pid (cfg.cacheLineID w.address) = .ok none)
    (h : partialWriteMiss c x w = .ok (p, c')) : Steps G .process c c' := by
  have hflag : Step G c .process (c.modify x fun t => { t with fetchAndWrite := true }) :=
    .flag x w hpolicy hpeek hreq hpart hquery hlook
  unfold partialWriteMiss at h
  -- from here on `c` is the cache in which the transaction is marked
  have hreq' : ((c.modify x fun t => { t with fetchAndWrite := true }).heap x).req = .write w := by simp [Cache.modify, hreq]
  have hset : ((c.modify x fun t => { t with fetchAndWrite := true }).heap x).fetchAndWrite = true := by simp [Cache.modify]
  refine .head hflag ?_
  have hquery' : (c.modify x fun t => { t with fetchAndWrite := true }).mshr.query w.pid (cfg.cacheLineID w.address) = none :=
    hquery
  have hlook' : (c.modify x fun t => { t with fetchAndWrite := true }).directory.lookup w.pid (cfg.cacheLineID w.address) =
      .ok none := hlook
  have hpeek' : (c.modify x fun t => { t with fetchAndWrite := true }).dirPostBuf.peek = some x := hpeek
  generalize (c.modify x fun t => { t with fetchAndWrite := true }) = c₀ at *
  by_cases hfull : c₀.mshr.isFull = true
  · rw [if_pos hfull] at h
    cases h
    exact .refl
  · rw [if_neg hfull] at h
    obtain ⟨victim, hvictim, h⟩ := eq_ok_of_bind h
    by_cases hbusy : ((c₀.directory.blocks victim).isLocked || decide ((c₀.directory.blocks victim).readCount > 0)) = true
    · rw [if_pos hbusy] at h
      cases h
      exact .refl
    · rw [if_neg hbusy] at h
      obtain ⟨hfree, hread⟩ := free_of_not hbusy
      -- the fetch, once the write has been sent
      have hrest : ∀ c₁ : Cache cfg, ∀ unsent : Bool, c₁.dirPostBuf.peek = some x → (c₁.heap x).req = .write w →
          (c₁.heap x).fetchAndWrite = true → (c₁.heap x).writeToBottom.isSome = true → c₁.mshr = c₀.mshr →
          c₁.directory = c₀.directory →
          (fetchFromBottom c₁ x victim >>= fun r =>
            if !r.1 then pure (unsent, r.2)
            else pure (true, (popBuf r.2).record (.addTaskStep x .writeMiss))) = .ok (p, c') →
          Steps G .process c₁ c' := by
        intro c₁ unsent hpeek₁ hreq₁ hset₁ hsent₁ hmshr hdir h
        obtain ⟨⟨_, _⟩, hfetch, h⟩ := eq_ok_of_bind h
        rcases fetchFromBottom_eq hfetch with ⟨rfl, conn, e, mshr, hadd, rfl⟩ | ⟨rfl, conn, rfl⟩
        · cases h
          exact .single (.fetch x victim conn e mshr hpeek₁ (.inr ⟨⟨w, hreq₁, hpart⟩, hset₁, hsent₁⟩)
            (by rw [hreq₁, hmshr]; exact hquery') (by rw [hreq₁, hdir]; exact hlook') (by rw [hreq₁, hdir]; exact hvictim)
            (by rw [hdir]; exact hfree) (by rw [hdir]; exact hread) hadd .writeMiss)
        · cases h
          exact refused_steps conn
      cases hsent : (c₀.heap x).writeToBottom with
      | some =>
        simp only [hsent, isNone_some, Bool.false_eq_true, if_false, if_bnot_true] at h
        exact hrest c₀ false hpeek' hreq' hset (by rw [hsent]; rfl) rfl rfl h
      | none =>
        simp only [hsent, isNone_none, if_true] at h
        rcases writeBottom_eq c₀ x w with ⟨conn, hw⟩ | ⟨conn, hw⟩
        · simp only [hw, if_bnot_true] at h
          have hstep : Step G c₀ .process (c₀.sent x w conn) :=
            .writeBottom x w conn hpeek' hreq' hpart hsent hset hquery' hlook'
          refine .head hstep (hrest (c₀.sent x w conn) true hpeek' ?_ ?_ ?_ rfl rfl h)
          · simp [Cache.sent, Cache.record, Cache.modify, hreq']
          · simp [Cache.sent, Cache.record, Cache.modify, hset]
          · simp [Cache.sent, Cache.record, Cache.modify]
        · simp only [hw, if_bnot_false] at h
          cases h
          exact refused_steps conn

theorem processWrite_steps (hG : G c .process) (hpeek : c.dirPostBuf.peek = some x) (hreq : (c.heap x).req = .write w)
    (h : processWrite c x w = .ok (p, c')) : Steps G .process c c' := by
  unfold processWrite at h
  cases hquery : c.mshr.query w.pid (cfg.cacheLineID w.address) with
  | some e =>
    simp only [hquery] at h
    rcases writeBottom_eq c x w with ⟨conn, hw⟩ | ⟨conn, hw⟩
    · simp only [hw, if_true] at h
      cases h
      exact .single (.joinWrite x w e conn hpeek hreq hquery)
    · simp only [hw, Bool.false_eq_true, if_false] at h
      cases h
      exact refused_steps conn
  | none =>
    simp only [hquery] at h
    obtain ⟨r, hlook, h⟩ := eq_ok_of_bind h
    cases r with
    | some => exact processWriteHit_steps hG hpeek hreq hquery (.inl hlook) h
    | none =>
      have hmiss : cfg.policy ≠ .writethrough → writeMiss c x w = .ok (p, c') → Steps G .process c c' := by
        intro hpolicy h
        unfold writeMiss at h
        rcases writeBottom_eq c x w with ⟨conn, hw⟩ | ⟨conn, hw⟩
        · simp only [hw, if_true] at h
          cases h
          exact .single (.bypass x w conn hpolicy hpeek hreq hquery hlook)
        · simp only [hw, Bool.false_eq_true, if_false] at h
          cases h
          exact refused_steps conn
      cases hpolicy : cfg.policy with
      | writethrough =>
        simp only [hpolicy] at h
        by_cases hpart : isPartialWrite cfg w = true
        · rw [if_pos hpart] at h
          exact partialWriteMiss_steps hpolicy hpeek hreq hpart hquery hlook h
        · rw [if_neg hpart] at h
          obtain ⟨victim, hvictim, h⟩ := eq_ok_of_bind h
          exact processWriteHit_steps hG hpeek hreq hquery (.inr ⟨hpolicy, by simpa using hpart, hlook, hvictim⟩) h
      | writearound | writeevict =>
        simp only [hpolicy] at h
        exact hmiss (by rw [hpolicy]; nofun) h

theorem process_steps (hG : G c .process) (h : process c = .ok (p, c')) : Steps G .process c c' := by
  unfold process at h
  cases hpeek : c.dirPostBuf.peek with
  | none =>
    rw [hpeek] at h
    cases h
    exact .refl
  | some x =>
    simp only [hpeek] at h
    cases hreq : (c.heap x).req with
    | write =>
      rw [hreq] at h
      exact processWrite_steps hG hpeek hreq h
    | read read =>
      simp only [hreq] at h
      unfold processRead at h
      cases hquery : c.mshr.query read.pid (cfg.cacheLineID read.address) with
      | some e =>
        simp only [hquery] at h
        cases h
        exact .single (.joinRead x read e hpeek hreq hquery)
      | none =>
        simp only [hquery] at h
        obtain ⟨r, hlook, h⟩ := eq_ok_of_bind h
        cases r with
        | some => exact processReadHit_steps hpeek hreq hquery hlook h
        | none => exact processReadMiss_steps hpeek hreq hquery hlook h

/-! ### The coalescer and the control stage -/

theorem coalesceAndSend_eq (h : coalesceAndSend c = .ok c') : ∃ r rs req dirBuf, c.toCoalesce = r :: rs ∧
    waveReq c r = .ok req ∧ c.dirBuf.push c.nextRef = .ok dirBuf ∧ c' = { c with
      heap := update c.heap c.nextRef { req, preCoalesceTransactions := c.toCoalesce }
      nextRef := c.nextRef + 1
      dirBuf
      postCoalesceTransactions := c.postCoalesceTransactions ++ [c.nextRef]
      toCoalesce := []
      nextID := c.nextID + 1
      log := c.log ++ [Event.startTask c.nextRef req c.toCoalesce] } := by
  unfold coalesceAndSend at h
  cases hwave : c.toCoalesce with
  | nil => rw [hwave] at h; cases h
  | cons r rs =>
    simp only [hwave] at h
    obtain ⟨req, hreq, h⟩ := eq_ok_of_bind h
    obtain ⟨dirBuf, hpush, h⟩ := eq_ok_of_bind h
    cases h
    exact ⟨r, rs, req, dirBuf, rfl, hreq, hpush, rfl⟩

theorem coalesceAndSend_step (h : coalesceAndSend c = .ok c') : Step G c .coalesce c' := by
  obtain ⟨r, rs, req, dirBuf, hwave, hreq, hpush, rfl⟩ := coalesceAndSend_eq h
  exact .wave r rs req dirBuf hwave hreq hpush

theorem canReqCoalesce_of_nil (h : c.toCoalesce = []) (req : AccessReq) : canReqCoalesce c req = true := by
  rw [canReqCoalesce, h]

/-- What a call of the coalescer can do. -/
inductive Coalesced (c : Cache cfg) : Cache cfg → Prop
  | idle : Coalesced c c
  | refused (src : PortID) (pid : PID) (conn : List Bool) (hpeek : c.topPort.peek = some (.gl0Invalidate src pid)) :
      Coalesced c { c with directory := c.directory.reset, topPort := { c.topPort with conn } }
  | invalidated (src : PortID) (pid : PID) (conn : List Bool) (hpeek : c.topPort.peek = some (.gl0Invalidate src pid)) :
      Coalesced c { c with
        directory := c.directory.reset
        topPort := { buf := c.topPort.buf.pop, outgoing := c.topPort.outgoing ++ [TopRsp.gl0Invalidate src pid], conn }
        log := c.log ++ [Event.invalidated src] }
  | parked (req : AccessReq) (hpeek : c.topPort.peek = some (.access req))
      (hcap : c.transactions.length < cfg.maxNumConcurrentTrans) (hlast : isReqLastInWave req = false)
      (hline : canReqCoalesce c req = true) : Coalesced c (createTransaction c req)
  | parkedAlone (req : AccessReq) (c₁ : Cache cfg) (hpeek : c.topPort.peek = some (.access req))
      (hcap : c.transactions.length < cfg.maxNumConcurrentTrans) (hlast : isReqLastInWave req = false)
      (hline : canReqCoalesce c req = false) (hroom : c.dirBuf.canPush = true)
      (hsend : coalesceAndSend c = .ok c₁) : Coalesced c (createTransaction c₁ req)
  | last (req : AccessReq) (c' : Cache cfg) (hpeek : c.topPort.peek = some (.access req))
      (hcap : c.transactions.length < cfg.maxNumConcurrentTrans) (hline : canReqCoalesce c req = true)
      (hsend : coalesceAndSend (createTransaction c req) = .ok c') : Coalesced c c'
  | lastWaits (c' : Cache cfg) (hsend : coalesceAndSend c = .ok c') : Coalesced c c'
  | lastAlone (req : AccessReq) (c₁ c' : Cache cfg) (hpeek : c.topPort.peek = some (.access req))
      (hcap : c.transactions.length < cfg.maxNumConcurrentTrans) (hsend : coalesceAndSend c = .ok c₁)
      (hsend' : coalesceAndSend (createTransaction c₁ req) = .ok c') : Coalesced c c'

theorem coalesce_cases (h : Coalescer.tick c = .ok (p, c')) : Coalesced c c' := by
  unfold Coalescer.tick at h
  cases hpeek : c.topPort.peek with
  | none =>
    rw [hpeek] at h
    cases h
    exact .idle
  | some top =>
    simp only [hpeek] at h
    unfold Coalescer.processReq at h
    by_cases hfull : c.transactions.length ≥ cfg.maxNumConcurrentTrans
    · rw [if_pos hfull] at h
      cases h
      exact .idle
    rw [if_neg hfull] at h
    have hcap := Nat.lt_of_not_ge hfull
    cases top with
    | gl0Invalidate src pid =>
      by_cases hpolicy : cfg.policy = .writeevict
      · simp only [hpolicy, if_true] at h
        cases h
      · simp only [hpolicy, if_false] at h
        unfold Coalescer.processGL0InvalidateReq at h
        rcases c.topPort.send_eq (.gl0Invalidate src pid) with ⟨hsent, conn, hport⟩ | ⟨hsent, conn, hport⟩
        · simp only [hsent, hport, if_true] at h
          cases h
          exact .invalidated src pid conn hpeek
        · simp only [hsent, hport, Bool.false_eq_true, if_false] at h
          cases h
          exact .refused src pid conn hpeek
    | access req =>
      cases hlast : isReqLastInWave req with
      | false =>
        cases hline : canReqCoalesce c req with
        | true =>
          simp only [hlast, hline, Bool.false_eq_true, if_true, if_false] at h
          cases h
          exact .parked req hpeek hcap hlast hline
        | false =>
          simp only [hlast, hline, Bool.false_eq_true, if_false] at h
          unfold Coalescer.processReqNoncoalescable at h
          by_cases hroom : c.dirBuf.canPush = true
          · simp only [hroom, if_bnot_true] at h
            obtain ⟨c₁, hsend, h⟩ := eq_ok_of_bind h
            cases h
            exact .parkedAlone req c₁ hpeek hcap hlast hline hroom hsend
          · simp only [hroom, if_bnot_false] at h
            cases h
            exact .idle
      | true =>
        cases hline : canReqCoalesce c req with
        | true =>
          simp only [hlast, hline, if_true] at h
          unfold Coalescer.processReqLastInWaveCoalescable at h
          by_cases hroom : c.dirBuf.canPush = true
          · simp only [hroom, if_bnot_true] at h
            obtain ⟨_, hsend, h⟩ := eq_ok_of_bind h
            cases h
            exact .last req _ hpeek hcap hline hsend
          · simp only [hroom, if_bnot_false] at h
            cases h
            exact .idle
        | false =>
          simp only [hlast, hline, Bool.false_eq_true, if_true, if_false] at h
          unfold Coalescer.processReqLastInWaveNoncoalescable at h
          by_cases hroom : c.dirBuf.canPush = true
          · simp only [hroom, if_bnot_true] at h
            obtain ⟨c₁, hsend, h⟩ := eq_ok_of_bind h
            by_cases hroom₁ : c₁.dirBuf.canPush = true
            · simp only [hroom₁, if_bnot_true] at h
              obtain ⟨_, hsend₁, h⟩ := eq_ok_of_bind h
              cases h
              exact .lastAlone req c₁ _ hpeek hcap hsend hsend₁
            · simp only [hroom₁, if_bnot_false] at h
              cases h
              exact .lastWaits _ hsend
          · simp only [hroom, if_bnot_false] at h
            cases h
            exact .idle

theorem coalesce_steps (hG : G c .coalesce) (h : Coalescer.tick c = .ok (p, c')) : Steps G .coalesce c c' := by
  -- a request is parked at once, or after the wave before it has been sent
  have hpark : ∀ req c₁, c.topPort.peek = some (.access req) → c.transactions.length < cfg.maxNumConcurrentTrans →
      coalesceAndSend c = .ok c₁ → Step G c₁ .coalesce (createTransaction c₁ req) := by
    intro req c₁ hpeek hcap hsend
    obtain ⟨_, _, _, _, _, _, _, rfl⟩ := coalesceAndSend_eq hsend
    exact .park req hpeek (canReqCoalesce_of_nil rfl req) hcap (.inl rfl)
  cases coalesce_cases h with
  | idle => exact .refl
  | refused src pid conn hpeek =>
    exact .tail (.single (.reset src pid hpeek hG)) (.ports _ conn c.bottomPort.conn c.nextID (le_refl _))
  | invalidated src pid conn hpeek =>
    exact .tail (.single (.reset src pid hpeek hG)) (.invalidated src pid conn hpeek ⟨c.directory, rfl, hG⟩)
  | parked req hpeek hcap _ hline => exact .single (.park req hpeek hline hcap (.inr hG))
  | parkedAlone req c₁ hpeek hcap _ _ _ hsend =>
    exact .tail (.single (coalesceAndSend_step hsend)) (hpark req c₁ hpeek hcap hsend)
  | last req _ hpeek hcap hline hsend =>
    exact .tail (.single (.park req hpeek hline hcap (.inr hG))) (coalesceAndSend_step hsend)
  | lastWaits _ hsend => exact .single (coalesceAndSend_step hsend)
  | lastAlone req c₁ _ hpeek hcap hsend hsend' =>
    exact .tail (.tail (.single (coalesceAndSend_step hsend)) (hpark req c₁ hpeek hcap hsend)) (coalesceAndSend_step hsend')

theorem newRequest_step (h : ControlStage.processNewRequest c = .ok (p, c')) : CtrlStep c .newRequest c' := by
  unfold ControlStage.processNewRequest at h
  cases hpeek : c.controlPort.peek with
  | none =>
    rw [hpeek] at h
    cases h
    exact .idle _ c.controlPort.conn
  | some req =>
    cases req with
    | flush req =>
      simp only [hpeek, ControlStage.startCacheFlush] at h
      by_cases hbusy : c.currFlushReq.isSome = true
      · rw [if_pos hbusy] at h
        cases h
        exact .idle _ c.controlPort.conn
      · rw [if_neg hbusy] at h
        cases h
        exact .start req hpeek (by simpa using hbusy)
    | restart id src =>
      simp only [hpeek, ControlStage.doCacheRestart] at h
      by_cases hsent : (c.controlPort.retrieve.send (.restart src id)).1 = true
      · rw [if_pos hsent] at h
        cases h
        exact .restart id src _ hpeek
      · rw [if_neg hsent] at h
        cases h

theorem currentFlush_step (h : ControlStage.processCurrentFlush c = .ok (p, c')) : CtrlStep c .currentFlush c' := by
  unfold ControlStage.processCurrentFlush at h
  cases hreq : c.currFlushReq with
  | none =>
    rw [hreq] at h
    cases h
    exact .idle _ c.controlPort.conn
  | some req =>
    simp only [hreq] at h
    by_cases hwait : ControlStage.shouldWaitForInFlightTransactions c req = true
    · rw [if_pos hwait] at h
      cases h
      exact .idle _ c.controlPort.conn
    · rw [if_neg hwait] at h
      rcases c.controlPort.send_eq (.flush req.src req.id) with ⟨hsent, conn, hport⟩ | ⟨hsent, conn, hport⟩
      · simp only [hsent, if_bnot_true] at h
        cases h
        rw [hport]
        exact .flush req conn hreq (by simpa using hwait) hsent
      · simp only [hsent, hport, if_bnot_false] at h
        cases h
        rw [← hreq]
        exact .idle _ conn

/-- **Every stage call does some steps.** -/
theorem Call.steps {k : Call} (hG : G c k) (h : k.exec c = .ok (p, c')) :
    Steps G k c c' ∨ CtrlStep c k c' := by
  cases k with
  | respond => exact .inl (respond_steps h)
  | parse => exact .inl (parse_steps hG h)
  | finalize => exact .inl (finalizeTrans_steps h)
  | tickBank i =>
    cases h
    exact .inl (.single (.tickBank i _ _ (items_tick _ _)))
  | extract => exact .inl (extractFromBuf_steps h)
  | accept => exact .inl (accept_steps h)
  | tickDir => exact .inl (tickDir_steps h)
  | process => exact .inl (process_steps hG h)
  | coalesce => exact .inl (coalesce_steps hG h)
  | newRequest => exact .inr (newRequest_step h)
  | currentFlush => exact .inr (currentFlush_step h)

end

/-! ## Runs -/

/-- What holds at first and is kept by every input and every step holds of every state that is reached. -/
theorem Reaches.invariant {R : Rules cfg} {m : Memory} {I : System cfg → Prop} (init : I (.init cfg m))
    (request : ∀ s req, I s → R.request req →
      I { s with cache := { s.cache with topPort := { s.cache.topPort with buf := ⟨s.cache.topPort.buf.elements ++ [req]⟩ } }
                   })
    (control : ∀ s req, I s → R.control req →
      I { s with cache := { s.cache with
        controlPort := { s.cache.controlPort with buf := ⟨s.cache.controlPort.buf.elements ++ [req]⟩ } } })
    (connect : ∀ s top bottom control, I s → I (s.connect top bottom control))
    (apply : ∀ s k req, I s → R.apply s.cache.bottomPort.outgoing k → s.cache.bottomPort.outgoing[k]? = some req →
      I { cache := { s.cache with
            bottomPort := { s.cache.bottomPort with outgoing := s.cache.bottomPort.outgoing.eraseIdx k }
            log := s.cache.log ++ [Event.served req (System.serve s.memory req).1] }
          memory := (System.serve s.memory req).2
          answers := s.answers ++ [(System.serve s.memory req).1] })
    (deliver : ∀ s k rsp, I s → s.answers[k]? = some rsp →
      I { s with
        cache := { s.cache with bottomPort := { s.cache.bottomPort with buf := ⟨s.cache.bottomPort.buf.elements ++ [rsp]⟩ } }
        answers := s.answers.eraseIdx k })
    (step : ∀ s k c', I s → Step R.call s.cache k c' → I { s with cache := c' })
    (ctrl : ∀ s k c', I s → R.call s.cache k → CtrlStep s.cache k c' → I { s with cache := c' })
    {s : System cfg} {ks : List Call} (h : Reaches R m s ks) : I s := by
  induction h with
  | init => exact init
  | request req _ hreq ih =>
    unfold System.request Port.recv
    split
    next heq =>
      split at heq
      · cases heq
        exact request _ req ih hreq
      · cases heq
    next => exact ih
  | control req _ hreq ih =>
    unfold System.control Port.recv
    split
    next heq =>
      split at heq
      · cases heq
        exact control _ req ih hreq
      · cases heq
    next => exact ih
  | connect top bottom control _ ih => exact connect _ top bottom control ih
  | apply k _ hk ih =>
    unfold System.apply
    split
    next req heq => exact apply _ k req ih hk heq
    next => exact ih
  | deliver k _ ih =>
    unfold System.deliver Port.recv
    split
    next rsp heq =>
      split
      next hrecv =>
        split at hrecv
        · cases hrecv
          exact deliver _ k rsp ih heq
        · cases hrecv
      next => exact ih
    next => exact ih
  | tick _ ih => exact ih
  | @call s k ks p c h hk hexec ih =>
    rcases Call.steps hk hexec with hs | hs
    · suffices hall : ∀ c', Steps R.call k s.cache c' → I { s with cache := c' } from hall c hs
      intro c' hs
      induction hs with
      | refl => exact ih
      | @tail c₁ c₂ _ hlast ih' => exact step { cache := c₁, memory := s.memory, answers := s.answers } k c₂ ih' hlast
    · exact ctrl s k c ih hk hs

end Akita.L1
