import Akita.WriteBack.System
import Akita.Multisets

/-!
# The flow of transactions

`Flow` is what is left of a system when the order in which the pipelines and most buffers hold transactions is
forgotten: the transactions in the directory stage, those on their way to or in the bank, the write buffer, the MSHR
entries, the blocks, the storage, and the requests and answers under way below the cache.

`Flow.Step` lists what one stage can do to it, one constructor for each branch that changes something. Each later
result about runs of the cache is an invariant of these steps.
-/

namespace Akita.WriteBack
open Sim Pipelining Mem Mem.Cache
open Function (update)
open DirectoryStage (isWritingFullLine withVictim)

abbrev TopWrite := WriteReq Bytes Mask

/-- The line of an address. -/
def lineOf (cfg : Config) (addr : Nat) : Nat := (getCacheLineID addr cfg.log2BlockSize).1

/-- The offset of an address in its line. -/
def offsetOf (cfg : Config) (addr : Nat) : Nat := (getCacheLineID addr cfg.log2BlockSize).2

/-- A request the cache is built for: it lies in one line, its mask has a bit for every byte, and the directory has a set
for its line. -/
structure Legal (cfg : Config) (req : AccessReq) : Prop where
  fits : offsetOf cfg req.address + req.byteSize ≤ cfg.blockSize
  mask : ∀ w, req = .write w → maskFits w.data w.dirtyMask
  mapped : ∃ i, Directory.getSet cfg.geometry (lineOf cfg req.address) = .ok i

/-- What happens in a run: an event of the log, or a write takes effect. -/
inductive Moment
  | event (e : Event)
  | effect (w : TopWrite)
deriving DecidableEq

def Moment.event? : Moment → Option Event
  | event e => some e
  | effect _ => none

/-- The events of a trace. -/
def logOf (trace : List Moment) : List Event := trace.filterMap Moment.event?

/-- `dir`: the transactions in the directory stage; `bank`: in the buffer from the directory to the bank, the bank's
pipeline or its post-pipeline buffer; `toBank`: in the buffer from the write buffer to the bank; `wb`: in the buffer
of the write buffer; `drain`: the MSHR entries that are being answered or wait for it; `chan`: the requests sent or
about to be sent to the lower memory, which it has not applied, oldest first; `answers`: its answers that the write
buffer has not processed. -/
structure Flow (cfg : Config) where
  top : List AccessReq
  control : List ControlReq
  dir : Multiset Transaction
  bank : Multiset Transaction
  toBank : Multiset Transaction
  wb : List Transaction
  pending : List Transaction
  inflight : List Transaction
  fetches : List Transaction
  mshr : MSHR cfg.numMSHREntry Transaction
  drain : List EntryRef
  gen : Nat
  blocks : BlockRef → Block
  storage : Storage
  slices : Slices
  evicting : Nat → Bool
  inFlight : List Transaction
  mode : CacheState
  flush : Option FlushReq
  toEvict : List BlockRef
  topOut : List (AccessRsp Slice)
  chan : List BottomReq
  answers : Multiset (AccessRsp Bytes)
  memory : Memory
  nextID : Nat
  trace : List Moment
  requested : List AccessReq

variable {cfg : Config}

/-- The flow of a system, with what has happened in the run. -/
def System.flow (s : System cfg) (trace : List Moment) : Flow cfg where
  top := s.cache.topPort.buf.elements
  control := s.cache.controlPort.buf.elements
  dir := ↑s.cache.dirStageBuffer.elements + (s.cache.dirPipeline.items + ↑s.cache.dirBuf.elements)
  bank := ↑s.cache.dirToBankBuffer.elements + (s.cache.bank.pipeline.items + ↑s.cache.bank.postPipelineBuf.elements)
  toBank := ↑s.cache.writeBufferToBankBuffer.elements
  wb := s.cache.writeBufferBuffer.elements
  pending := s.cache.writeBuffer.pendingEvictions
  inflight := s.cache.writeBuffer.inflightEviction
  fetches := s.cache.writeBuffer.inflightFetch
  mshr := s.cache.mshr
  drain := s.cache.processingMSHREntry.toList ++ s.cache.mshrStageBuffer.elements
  gen := s.cache.directory.gen
  blocks := s.cache.directory.blocks
  storage := s.cache.storage
  slices := s.cache.slices
  evicting := s.cache.evictingList
  inFlight := s.cache.inFlightTransactions
  mode := s.cache.state
  flush := s.cache.processingFlush
  toEvict := s.cache.blockToEvict
  topOut := s.cache.topSender.buffer.elements
  chan := s.cache.bottomPort.outgoing ++ s.cache.bottomSender.buffer.elements
  answers := ↑s.answers + ↑s.cache.bottomPort.buf.elements
  memory := s.memory
  nextID := s.cache.nextID
  trace := trace
  requested := s.requested

namespace Flow

/-- Block `b` is one of the blocks an address may be stored at. -/
def InSet (cfg : Config) (gen addr : Nat) (b : BlockRef) : Prop :=
  Directory.getSet cfg.geometry addr = .ok b.setID ∧ b.gen = gen ∧ b.wayID < cfg.wayAssociativity

/-- Block `b` holds a line of a process. -/
def Holds (blocks : BlockRef → Block) (b : BlockRef) (pid : PID) (line : Nat) : Prop :=
  (blocks b).isValid = true ∧ (blocks b).tag = line ∧ (blocks b).pid = pid

/-- No block of its set holds the line. -/
def Absent (a : Flow cfg) (pid : PID) (line : Nat) : Prop :=
  ∀ b, InSet cfg a.gen line b → ¬ Holds a.blocks b pid line

/-- Nobody writes, fills or reads the block. -/
def Idle (a : Flow cfg) (b : BlockRef) : Prop := (a.blocks b).isLocked = false ∧ (a.blocks b).readCount ≤ 0

/-- The block has to be written back before it is used again. -/
def Dirty (a : Flow cfg) (b : BlockRef) : Prop := (a.blocks b).isValid = true ∧ (a.blocks b).isDirty = true

/-- The transaction asks for a line that misses: no entry waits for it, no eviction of it is in the bank. -/
structure Misses (a : Flow cfg) (req : AccessReq) : Prop where
  noEntry : a.mshr.query req.pid (lineOf cfg req.address) = none
  absent : a.Absent req.pid (lineOf cfg req.address)
  notEvicting : a.evicting (lineOf cfg req.address) = false

/-- A new MSHR entry for a line that block `b` will hold, with its first request. -/
def allocate {n : Nat} (m : MSHR n Transaction) (pid : PID) (line : Nat) (b : BlockRef) (t : Transaction) :
    MSHR n Transaction :=
  { heap := update m.heap m.nextRef { pid, address := line, requests := [t], block := some b }
    entries := m.entries ++ [m.nextRef]
    nextRef := m.nextRef + 1 }

/-- The transaction as the first request of the entry `e`. -/
def asFetch (t : Transaction) (action : Action) (pid : PID) (line : Nat) (b : BlockRef) (e : EntryRef) : Transaction :=
  { t with mshrEntry := some e, block := some b, action := action, fetchPID := pid, fetchAddress := line }

/-- The MSHR after entry `e` has got its data and has left it. -/
def fillMSHR {n : Nat} (m : MSHR n Transaction) (e : EntryRef) (arr : ArrayRef) : MSHR n Transaction :=
  { heap := update m.heap e { m.heap e with data := some arr }
    entries := m.entries.erase e
    nextRef := m.nextRef }

/-- The blocks after block `b` has got the dirty mask of its fetched line. -/
def fillBlock (blocks : BlockRef → Block) (b : BlockRef) (m : ArrayRef) (dirty : Bool) : BlockRef → Block :=
  update blocks b { blocks b with dirtyMask := some m, isDirty := dirty }

/-- The slices after the writes of an entry were merged into the array `arr`, with their mask in a new array. -/
def fillSlices (s : Slices) (arr : ArrayRef) (data : Bytes) (mask : Mask) : Slices :=
  { bytes := update s.bytes arr data, masks := update s.masks s.next mask, next := s.next + 1 }

/-- The transaction `t` fetches for the entry `e` and the block `b`; the writes of the entry, merged into the line in the
array `arr`, make it `data` and `mask`. -/
structure Fill (a : Flow cfg) (slices : Slices) (t : Transaction) (arr : ArrayRef) (e : EntryRef) (b : BlockRef)
    (data : Bytes) (mask : Mask) (dirty : Bool) : Prop where
  entry : t.mshrEntry = some e
  waits : e ∈ a.mshr.entries
  block : (a.mshr.heap e).block = some b
  combine : WriteBufferStage.combineRequests cfg (a.mshr.heap e).requests (slices.bytes arr)
    (List.replicate cfg.blockSize false) (a.blocks b).isDirty = .ok (data, mask, dirty)

/-- What `findInflightFetchByFetchReadReqID` looks for. -/
def awaitsRead (i : MsgID) (t : Transaction) : Bool := t.fetchReadReq.any (·.id == i)

/-- What `processWriteDoneRsp` looks for. -/
def awaitsWrite (i : MsgID) (t : Transaction) : Bool := t.evictionWriteReq.any (·.id == i)

/-- The writes among the requests of an entry. -/
def writesOf (requests : List Transaction) : List TopWrite :=
  requests.filterMap fun t => match t.read with
    | some _ => none
    | none => t.write

/-- `findDataLocally`. -/
def find (a : Flow cfg) (t : Transaction) : Option Transaction :=
  match a.inflight.find? (·.evictingAddr == t.fetchAddress) with
  | some e => some e
  | none => a.pending.find? (·.evictingAddr == t.fetchAddress)

/-- What a step says about itself: the message that arrives, a fetch that an eviction serves, a discarding flush, the
request the lower memory applies. -/
inductive Label
  | silent
  | request (req : AccessReq)
  | command (req : ControlReq)
  | localFetch
  | discard
  | serve (k : Nat)

/-- The step of one stage. -/
inductive Step (a : Flow cfg) : Label → Flow cfg → Prop
  | request (req : AccessReq) :
      Step a (.request req) { a with top := a.top ++ [req], requested := a.requested ++ [req] }
  | command (req : ControlReq) : Step a (.command req) { a with control := a.control ++ [req] }
  | accept (req : AccessReq) (rest : List AccessReq) (hmode : a.mode = .running) (htop : a.top = req :: rest) :
      Step a .silent { a with
        top := rest, dir := Transaction.ofReq a.nextID req ::ₘ a.dir,
        inFlight := a.inFlight ++ [Transaction.ofReq a.nextID req], nextID := a.nextID + 1,
        trace := a.trace ++ [Moment.event (.reqReceive req)] }
  | topSend (msg : AccessRsp Slice) (rest : List (AccessRsp Slice)) (hout : a.topOut = msg :: rest) :
      Step a .silent { a with topOut := rest, trace := a.trace ++ [Moment.event (.topSend (msg.map a.slices.view))] }
  | bottomSend (msg : BottomReq) (hmsg : msg ∈ a.chan) :
      Step a .silent { a with trace := a.trace ++ [Moment.event (.bottomSend msg (payload a.slices msg))] }
  -- the directory stage
  | join (t : Transaction) (d : Multiset Transaction) (req : AccessReq) (e : EntryRef) (hdir : a.dir = t ::ₘ d)
      (hreq : t.accessReq = some req) (hentry : a.mshr.query req.pid (lineOf cfg req.address) = some e) :
      Step a .silent { a with
        dir := d,
        mshr := a.mshr.modify e fun entry =>
          { entry with requests := entry.requests ++ [{ t with mshrEntry := some e }] } }
  | readHit (t : Transaction) (d : Multiset Transaction) (r : ReadReq) (b : BlockRef)
      (hdir : a.dir = t ::ₘ d) (hreq : t.accessReq = some (.read r)) (hread : t.read = some r)
      (hnone : a.mshr.query r.pid (lineOf cfg r.address) = none) (hset : InSet cfg a.gen (lineOf cfg r.address) b)
      (hb : Holds a.blocks b r.pid (lineOf cfg r.address)) (hlock : (a.blocks b).isLocked = false) :
      Step a .silent { a with
        dir := d, bank := { t with block := some b, action := .bankReadHit } ::ₘ a.bank,
        blocks := update a.blocks b { a.blocks b with readCount := (a.blocks b).readCount + 1 } }
  | writeHit (t : Transaction) (d : Multiset Transaction) (w : TopWrite) (b : BlockRef)
      (hdir : a.dir = t ::ₘ d) (hread : t.read = none) (hwrite : t.write = some w)
      (hnone : a.mshr.query w.pid (lineOf cfg w.address) = none)
      (hset : InSet cfg a.gen (lineOf cfg w.address) b) (hidle : a.Idle b)
      (hnot : a.evicting (lineOf cfg w.address) = false)
      (hb : Holds a.blocks b w.pid (lineOf cfg w.address) ∨
        a.Absent w.pid (lineOf cfg w.address) ∧ isWritingFullLine cfg w = true ∧ ¬ a.Dirty b) :
      Step a .silent { a with
        dir := d, bank := { t with block := some b, action := .bankWriteHit } ::ₘ a.bank, blocks := update a.blocks b
          { a.blocks b with isLocked := true, tag := lineOf cfg w.address, isValid := true, pid := w.pid } }
  | evictAndFetch (t : Transaction) (d : Multiset Transaction) (req : AccessReq) (b : BlockRef) (hdir : a.dir = t ::ₘ d)
      (hreq : t.accessReq = some req) (hmiss : a.Misses req) (hset : InSet cfg a.gen (lineOf cfg req.address) b)
      (hidle : a.Idle b) (hdirty : a.Dirty b) (hfetch : DirectoryStage.evictionNeedFetch cfg t = true) :
      Step a .silent { a with
        dir := d, bank := asFetch (withVictim cfg t (a.blocks b) b) .bankEvictAndFetch req.pid
          (lineOf cfg req.address) b a.mshr.nextRef ::ₘ a.bank,
        mshr := allocate a.mshr req.pid (lineOf cfg req.address) b
          (asFetch (withVictim cfg t (a.blocks b) b) .bankEvictAndFetch req.pid
            (lineOf cfg req.address) b a.mshr.nextRef),
        blocks := update a.blocks b
          { a.blocks b with tag := lineOf cfg req.address, pid := req.pid, isLocked := true, isDirty := false },
        evicting := update a.evicting (a.blocks b).tag true }
  | evictAndWrite (t : Transaction) (d : Multiset Transaction) (w : TopWrite) (b : BlockRef)
      (hdir : a.dir = t ::ₘ d) (hread : t.read = none) (hwrite : t.write = some w) (hmiss : a.Misses (.write w))
      (hset : InSet cfg a.gen (lineOf cfg w.address) b) (hidle : a.Idle b) (hdirty : a.Dirty b)
      (hfull : isWritingFullLine cfg w = true) :
      Step a .silent { a with
        dir := d, bank := { withVictim cfg t (a.blocks b) b with action := .bankEvictAndWrite } ::ₘ a.bank,
        blocks := update a.blocks b
          { a.blocks b with tag := lineOf cfg w.address, pid := w.pid, isLocked := true, isDirty := false },
        evicting := update a.evicting (a.blocks b).tag true }
  | fetch (t : Transaction) (d : Multiset Transaction) (req : AccessReq) (b : BlockRef)
      (hdir : a.dir = t ::ₘ d) (hreq : t.accessReq = some req) (hmiss : a.Misses req)
      (hset : InSet cfg a.gen (lineOf cfg req.address) b) (hidle : a.Idle b) (hdirty : ¬ a.Dirty b) :
      Step a .silent { a with
        dir := d, bank := asFetch t .writeBufferFetch req.pid (lineOf cfg req.address) b a.mshr.nextRef ::ₘ a.bank,
        mshr := allocate a.mshr req.pid (lineOf cfg req.address) b
          (asFetch t .writeBufferFetch req.pid (lineOf cfg req.address) b a.mshr.nextRef),
        blocks := update a.blocks b
          { a.blocks b with isLocked := true, tag := lineOf cfg req.address, pid := req.pid, isValid := true } }
  -- the bank
  | pullFetch (t : Transaction) (k : Multiset Transaction) (hbank : a.bank = t ::ₘ k)
      (haction : t.action = .writeBufferFetch) :
      Step a .silent { a with bank := k, wb := a.wb ++ [t] }
  | pullUp (t : Transaction) (k : Multiset Transaction) (htoBank : a.toBank = t ::ₘ k) :
      Step a .silent { a with toBank := k, bank := t ::ₘ a.bank }
  | finishRead (t : Transaction) (k : Multiset Transaction) (r : ReadReq) (b : BlockRef) (data : Bytes)
      (hbank : a.bank = t ::ₘ k) (haction : t.action = .bankReadHit) (hread : t.read = some r)
      (hblock : t.block = some b) (hin : a.inFlight.any (·.id == t.id) = true)
      (hdata : a.storage.read (b.cacheAddress cfg.geometry + offsetOf cfg r.address) r.accessByteSize = .ok data) :
      Step a .silent { a with
        bank := k, inFlight := a.inFlight.eraseP (·.id == t.id), slices := (a.slices.newBytes data).2,
        topOut := a.topOut ++ [AccessRsp.dataReady
          { dst := r.src, respondTo := r.id, data := { arr := a.slices.next, off := 0, len := r.accessByteSize } }],
        blocks := update a.blocks b { a.blocks b with readCount := (a.blocks b).readCount - 1 },
        trace := a.trace ++ [Moment.event (.reqComplete (.read r))] }
  | finishWrite (t : Transaction) (k : Multiset Transaction) (w : TopWrite) (b : BlockRef)
      (m : ArrayRef) (slices : Slices) (data data' : Bytes) (mask : Mask) (storage : Storage)
      (hbank : a.bank = t ::ₘ k) (haction : t.action = .bankWriteHit) (hwrite : t.write = some w)
      (hblock : t.block = some b) (hin : a.inFlight.any (·.id == t.id) = true)
      (hread : a.storage.read (b.cacheAddress cfg.geometry) cfg.blockSize = .ok data)
      (hmask : BankStage.dirtyMaskOf cfg a.slices (a.blocks b) = (m, slices))
      (hover : overlay data (slices.masks m) (offsetOf cfg w.address) w.data w.dirtyMask = .ok (data', mask))
      (hstore : a.storage.write (b.cacheAddress cfg.geometry) data' = .ok storage) :
      Step a .silent { a with
        bank := k, inFlight := a.inFlight.eraseP (·.id == t.id), slices := slices.setMask m mask, storage := storage,
        topOut := a.topOut ++ [AccessRsp.writeDone { dst := w.src, respondTo := w.id }], blocks := update a.blocks b
          { a.blocks b with isValid := true, isLocked := false, isDirty := true, dirtyMask := some m },
        trace := a.trace ++ [Moment.effect w, .event (.reqComplete (.write w))] }
  | finishFetched (t : Transaction) (k : Multiset Transaction) (e : EntryRef) (b : BlockRef) (data : Bytes)
      (storage : Storage) (hbank : a.bank = t ::ₘ k) (haction : t.action = .bankWriteFetched) (hentry : t.mshrEntry = some e)
      (hblock : (a.mshr.heap e).block = some b) (hdata : data = ((a.mshr.heap e).data.map a.slices.bytes).getD [])
      (hstore : a.storage.write (b.cacheAddress cfg.geometry) data = .ok storage) :
      Step a .silent { a with
        bank := k, drain := a.drain ++ [e], storage := storage,
        blocks := update a.blocks b { a.blocks b with isLocked := false, isValid := true } }
  | finishEviction (t : Transaction) (k : Multiset Transaction) (v : Victim) (data : Bytes)
      (action : Action) (hbank : a.bank = t ::ₘ k) (haction : BankStage.evictedAction t.action = .ok action)
      (hvictim : t.victim = some v) (hdata : a.storage.read v.cacheAddress cfg.blockSize = .ok data) :
      Step a .silent { a with
        bank := k, wb := a.wb ++ [{ t with evictingData := some a.slices.next, action := action }],
        slices := (a.slices.newBytes data).2, evicting := update a.evicting t.evictingAddr false }
  -- the write buffer
  | sendEviction (t : Transaction) (rest : List Transaction) (data : ArrayRef) (req : EvictionReq)
      (hpending : a.pending = t :: rest) (hdata : t.evictingData = some data)
      (hreq : req = { id := a.nextID, src := 0, dst := cfg.lowModuleFinder t.evictingAddr, pid := t.evictingPID,
                      address := t.evictingAddr, data := data, dirtyMask := t.evictingDirtyMask }) :
      Step a .silent { a with
        nextID := a.nextID + 1, chan := a.chan ++ [BottomReq.write req], trace :=
          a.trace ++ [Moment.event (.reqInitiate (.write req))],
        pending := rest, inflight := a.inflight ++ [{ t with evictionWriteReq := some req }] }
  | writeDone (rsp : WriteDoneRsp) (answers : Multiset (AccessRsp Bytes)) (hanswers : a.answers = .writeDone rsp ::ₘ answers)
      (hin : a.inflight.any (awaitsWrite rsp.respondTo) = true) :
      Step a .silent { a with
        answers := answers, inflight := (a.inflight.reverse.eraseP (awaitsWrite rsp.respondTo)).reverse }
  | dataReady (rsp : DataReadyRsp Bytes) (answers : Multiset (AccessRsp Bytes)) (t : Transaction) (e : EntryRef)
      (b : BlockRef) (data : Bytes) (mask : Mask) (dirty : Bool) (hanswers : a.answers = .dataReady rsp ::ₘ answers)
      (ht : a.fetches.find? (awaitsRead rsp.respondTo) = some t)
      (hfill : a.Fill (a.slices.newBytes rsp.data).2 t a.slices.next e b data mask dirty) :
      Step a .silent { a with
        trace := a.trace ++ (writesOf (a.mshr.heap e).requests).map .effect, answers := answers,
        mshr := fillMSHR a.mshr e a.slices.next, blocks := fillBlock a.blocks b (a.slices.newBytes rsp.data).2.next dirty,
        slices := fillSlices (a.slices.newBytes rsp.data).2 a.slices.next data mask,
        fetches := a.fetches.eraseP (awaitsRead rsp.respondTo),
        toBank := { t with fetchedData := some a.slices.next, action := .bankWriteFetched } ::ₘ a.toBank }
  | fetchLocal (t : Transaction) (rest : List Transaction) (ev : Transaction) (arr : ArrayRef) (e : EntryRef) (b : BlockRef)
      (data : Bytes) (mask : Mask) (dirty : Bool) (hwb : a.wb = t :: rest) (haction : t.action = .writeBufferFetch)
      (hfind : a.find t = some ev) (harr : ev.evictingData = some arr) (hfill : a.Fill a.slices t arr e b data mask dirty) :
      Step a .localFetch { a with
        trace := a.trace ++ (writesOf (a.mshr.heap e).requests).map .effect, wb := rest, mshr := fillMSHR a.mshr e arr,
        blocks := fillBlock a.blocks b a.slices.next dirty, slices := fillSlices a.slices arr data mask,
        toBank := { t with fetchedData := some arr, action := .bankWriteFetched } ::ₘ a.toBank }
  | fetchBottom (t : Transaction) (rest : List Transaction) (req : ReadReq) (hwb : a.wb = t :: rest)
      (haction : t.action = .writeBufferFetch) (hfind : a.find t = none)
      (hreq : req = { id := a.nextID, src := 0, dst := cfg.lowModuleFinder t.fetchAddress, pid := t.fetchPID,
                      address := t.fetchAddress, accessByteSize := cfg.blockSize }) :
      Step a .silent { a with
        wb := rest, nextID := a.nextID + 1, chan := a.chan ++ [BottomReq.read req],
        trace := a.trace ++ [Moment.event (.reqInitiate (.read req))],
        fetches := a.fetches ++ [{ t with fetchReadReq := some req }] }
  | parkAndWrite (t : Transaction) (rest : List Transaction) (hwb : a.wb = t :: rest)
      (haction : t.action = .writeBufferEvictAndWrite) :
      Step a .silent { a with
        wb := rest, pending := a.pending ++ [{ t with action := .bankWriteHit }],
        toBank := { t with action := .bankWriteHit } ::ₘ a.toBank }
  | parkAndFetch (t : Transaction) (rest : List Transaction) (hwb : a.wb = t :: rest)
      (haction : t.action = .writeBufferEvictAndFetch) :
      Step a .silent { a with wb := { t with action := .writeBufferFetch } :: rest, pending := a.pending ++ [t] }
  | parkFlush (t : Transaction) (rest : List Transaction) (hwb : a.wb = t :: rest) (haction : t.action = .writeBufferFlush) :
      Step a .silent { a with wb := rest, pending := a.pending ++ [t] }
  -- the MSHR stage
  | respondRead (e : EntryRef) (rest : List EntryRef) (t : Transaction) (ts : List Transaction) (r : ReadReq) (arr : ArrayRef)
      (hdrain : a.drain = e :: rest) (hreqs : (a.mshr.heap e).requests = t :: ts) (hin : a.inFlight.any (·.id == t.id) = true)
      (hread : t.read = some r) (hdata : (a.mshr.heap e).data = some arr)
      (hlen : offsetOf cfg r.address + r.accessByteSize ≤ (a.slices.bytes arr).length) :
      Step a .silent { a with
        inFlight := a.inFlight.eraseP (·.id == t.id), topOut := a.topOut ++ [AccessRsp.dataReady
          { dst := r.src, respondTo := r.id,
            data := { arr := arr, off := offsetOf cfg r.address, len := r.accessByteSize } }],
        trace := a.trace ++ [Moment.event (.reqComplete (.read r))],
        mshr := a.mshr.modify e fun entry => { entry with requests := ts }, drain := if ts.isEmpty then rest else e :: rest }
  | respondWrite (e : EntryRef) (rest : List EntryRef) (t : Transaction) (ts : List Transaction)
      (w : TopWrite) (hdrain : a.drain = e :: rest) (hreqs : (a.mshr.heap e).requests = t :: ts)
      (hin : a.inFlight.any (·.id == t.id) = true) (hread : t.read = none) (hwrite : t.write = some w) :
      Step a .silent { a with
        inFlight := a.inFlight.eraseP (·.id == t.id),
        topOut := a.topOut ++ [AccessRsp.writeDone { dst := w.src, respondTo := w.id }],
        trace := a.trace ++ [Moment.event (.reqComplete (.write w))],
        mshr := a.mshr.modify e fun entry => { entry with requests := ts }, drain := if ts.isEmpty then rest else e :: rest }
  | skip (e : EntryRef) (rest : List EntryRef) (t : Transaction) (ts : List Transaction) (hdrain : a.drain = e :: rest)
      (hreqs : (a.mshr.heap e).requests = t :: ts) (hin : a.inFlight.any (·.id == t.id) = false) :
      Step a .silent { a with
        mshr := a.mshr.modify e fun entry => { entry with requests := ts }, drain := if ts.isEmpty then rest else e :: rest }
  -- the flusher
  | startFlush (req : FlushReq) (rest : List ControlReq) (hcontrol : a.control = .flush req :: rest)
      (hflush : a.flush = none) (hkeep : req.discardInflight = false) :
      Step a .silent { a with
        control := rest, flush := some req, mode := .preFlushing, trace := a.trace ++ [Moment.event (.flushReceive req)] }
  | discardFlush (req : FlushReq) (rest : List ControlReq) (hcontrol : a.control = .flush req :: rest)
      (hflush : a.flush = none) (hdiscard : req.discardInflight = true) :
      Step a .discard { a with
        control := rest, flush := some req, mode := .preFlushing, trace := a.trace ++ [Moment.event (.flushReceive req)],
        top := [], dir := 0, bank := 0, wb := [], drain := [], topOut := [], inFlight := [],
        blocks := fun b => if b.gen = a.gen ∧ b.setID < cfg.numSets ∧ b.wayID < cfg.wayAssociativity
          then { a.blocks b with readCount := 0, isLocked := false } else a.blocks b }
  | prepare (req : FlushReq) (blocks : List BlockRef) (hflush : a.flush = some req)
      (hmode : a.mode = .preFlushing) (hin : a.inFlight = [])
      (hblocks : ∀ b, b ∈ blocks ↔ b.gen = a.gen ∧ b.setID < cfg.numSets ∧ b.wayID < cfg.wayAssociativity ∧ a.Dirty b)
      (hnodup : blocks.Nodup)
      (hidle : ∀ b, b.gen = a.gen → b.setID < cfg.numSets → b.wayID < cfg.wayAssociativity → a.Idle b) :
      Step a .silent { a with mode := .flushing, toEvict := a.toEvict ++ blocks }
  | evictFlush (req : FlushReq) (b : BlockRef) (rest : List BlockRef) (hflush : a.flush = some req)
      (hmode : a.mode = .flushing) (hevict : a.toEvict = b :: rest) :
      Step a .silent { a with
        toEvict := rest,
        bank := { id := 0, flush := some req, action := .bankEvict,
                  victim := some { pid := (a.blocks b).pid, tag := (a.blocks b).tag,
                                   cacheAddress := b.cacheAddress cfg.geometry, dirtyMask := (a.blocks b).dirtyMask },
                  evictingAddr := (a.blocks b).tag, evictingDirtyMask := (a.blocks b).dirtyMask } ::ₘ a.bank }
  | finishFlush (req : FlushReq) (hflush : a.flush = some req) (hmode : a.mode = .flushing)
      (hevict : a.toEvict = []) (hwb : a.wb = []) (hfetches : a.fetches = []) (hinflight : a.inflight = [])
      (hpending : a.pending = []) (hbank : a.bank = 0) :
      Step a .silent { a with
        mshr := a.mshr.reset, gen := a.gen + 1, blocks := fun b => if b.gen = a.gen + 1 then {} else a.blocks b,
        mode := if req.pauseAfterFlushing then .paused else .running, trace := a.trace ++ [Moment.event (.flushComplete req)],
        flush := none }
  | restart (id : MsgID) (src : PortID) (rest : List ControlReq) (answers : Multiset (AccessRsp Bytes))
      (hcontrol : a.control = .restart id src :: rest) (hflush : a.flush = none) (hanswers : answers ≤ a.answers) :
      Step a .silent { a with control := rest, top := [], answers := answers, mode := .running }
  -- the lower memory
  | serve (k : Nat) (req : BottomReq) (hreq : a.chan[k]? = some req) :
      Step a (.serve k) { a with
        chan := a.chan.eraseIdx k, answers := (System.serve a.slices a.memory req).1 ::ₘ a.answers,
        memory := (System.serve a.slices a.memory req).2 }

end Flow

end Akita.WriteBack
