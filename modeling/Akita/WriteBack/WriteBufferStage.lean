import Akita.WriteBack.Cache

/-!
# The write buffer and the MSHR stage

`writeBufferStage` keeps the evictions that are on their way down, serves fetches from them or from below, and merges
the writes of an MSHR entry into the fetched line. `mshrStage` answers the requests of a filled entry.
-/

namespace Akita.WriteBack
open Sim Pipelining Mem Mem.Cache

variable {cfg : Config}

namespace WriteBufferStage

def writeBufferFull (c : Cache cfg) : Bool :=
  cfg.writeBufferCapacity ≤ c.writeBuffer.pendingEvictions.length + c.writeBuffer.inflightEviction.length

def tooManyInflightFetches (c : Cache cfg) : Bool := cfg.maxInflightFetch ≤ c.writeBuffer.inflightFetch.length

def tooManyInflightEvictions (c : Cache cfg) : Bool := cfg.maxInflightEviction ≤ c.writeBuffer.inflightEviction.length

/-- `findDataLocally`: the first eviction of the line, those sent first. -/
def findDataLocally (c : Cache cfg) (trans : Transaction) : Option Transaction :=
  match c.writeBuffer.inflightEviction.find? (·.evictingAddr == trans.fetchAddress) with
  | some e => some e
  | none => c.writeBuffer.pendingEvictions.find? (·.evictingAddr == trans.fetchAddress)

/-- The loop of `combineData` over the requests of the entry: the line, its dirty mask and whether a write was met. -/
def combineRequests (cfg : Config) : List Transaction → Bytes → Mask → Bool → Except String (Bytes × Mask × Bool)
  | [], data, mask, dirty => .ok (data, mask, dirty)
  | t :: requests, data, mask, dirty =>
    match t.read with
    | some _ => combineRequests cfg requests data mask dirty
    | none => do
      let write ← deref t.write
      let (data, mask) ← overlay data mask (getCacheLineID write.address cfg.log2BlockSize).2 write.data write.dirtyMask
      combineRequests cfg requests data mask true

/-- `combineData`: the entry's data is written in place, the block gets a new mask. -/
def combineData (c : Cache cfg) (e : EntryRef) : Except String (Cache cfg) := do
  let entry := c.mshr.heap e
  let b ← deref entry.block
  let arr ← deref entry.data
  let (m, slices) := c.slices.newMask (List.replicate cfg.blockSize false)
  let (data, mask, dirty) ←
    combineRequests cfg entry.requests (slices.bytes arr) (slices.masks m) (c.directory.blocks b).isDirty
  return { c with
    slices := (slices.setBytes arr data).setMask m mask
    directory := c.directory.modify b fun block => { block with dirtyMask := some m, isDirty := dirty } }

/-- What `sendFetchedDataToBank` and `processDataReadyRsp` share: the entry gets its data and leaves the MSHR, and the
transaction goes to the bank. -/
def fillEntry (c : Cache cfg) (trans : Transaction) (arr : ArrayRef) : Except String (Cache cfg) := do
  let e ← deref trans.mshrEntry
  let trans := { trans with fetchedData := some arr, action := .bankWriteFetched }
  let c := { c with mshr := c.mshr.modify e fun entry => { entry with data := some arr } }
  let c ← combineData c e
  let mshr ← c.mshr.remove (c.mshr.heap e).pid (c.mshr.heap e).address
  let writeBufferToBankBuffer ← c.writeBufferToBankBuffer.push trans
  return { c with mshr, writeBufferToBankBuffer }

def sendFetchedDataToBank (c : Cache cfg) (trans : Transaction) (arr : ArrayRef) : Result cfg :=
  if !c.writeBufferToBankBuffer.canPush then .ok (false, c) else do
    let c ← fillEntry c trans arr
    return (true, { c with writeBufferBuffer := c.writeBufferBuffer.pop })

def fetchFromBottom (c : Cache cfg) (trans : Transaction) : Result cfg :=
  if tooManyInflightFetches c then .ok (false, c) else do
    if !(← c.bottomSender.canSend 1) then return (false, c) else
    let read : ReadReq := {
      id := c.nextID, src := 0, dst := cfg.lowModuleFinder trans.fetchAddress, pid := trans.fetchPID,
      address := trans.fetchAddress, accessByteSize := cfg.blockSize }
    let bottomSender ← c.bottomSender.send (.read read)
    let trans := { trans with fetchReadReq := some read }
    return (true, { c with
      nextID := c.nextID + 1
      bottomSender := bottomSender
      log := c.log ++ [Event.reqInitiate (.read read)]
      writeBuffer := { c.writeBuffer with inflightFetch := c.writeBuffer.inflightFetch ++ [trans] }
      writeBufferBuffer := c.writeBufferBuffer.pop })

def processWriteBufferFetch (c : Cache cfg) (trans : Transaction) : Result cfg :=
  match findDataLocally c trans with
  | some e => do
    let arr ← deref e.evictingData
    sendFetchedDataToBank c trans arr
  | none => fetchFromBottom c trans

def processWriteBufferEvictAndWrite (c : Cache cfg) (trans : Transaction) : Result cfg :=
  if writeBufferFull c then .ok (false, c)
  else if !c.writeBufferToBankBuffer.canPush then .ok (false, c) else do
    let trans := { trans with action := .bankWriteHit }
    let writeBufferToBankBuffer ← c.writeBufferToBankBuffer.push trans
    return (true, { c with
      writeBufferToBankBuffer := writeBufferToBankBuffer
      writeBuffer := { c.writeBuffer with pendingEvictions := c.writeBuffer.pendingEvictions ++ [trans] }
      writeBufferBuffer := c.writeBufferBuffer.pop })

def processWriteBufferFlush (c : Cache cfg) (trans : Transaction) (popAfterDone : Bool) : Bool × Cache cfg :=
  if writeBufferFull c then (false, c)
  else
    (true, { c with
      writeBuffer := { c.writeBuffer with pendingEvictions := c.writeBuffer.pendingEvictions ++ [trans] }
      writeBufferBuffer := if popAfterDone then c.writeBufferBuffer.pop else c.writeBufferBuffer })

/-- On success the transaction stays at the head of the buffer, now as a fetch. -/
def processWriteBufferFetchAndEvict (c : Cache cfg) (trans : Transaction) : Bool × Cache cfg :=
  let (ok, c) := processWriteBufferFlush c trans false
  if ok then
    (true, { c with
      writeBufferBuffer := ⟨{ trans with action := .writeBufferFetch } :: c.writeBufferBuffer.pop.elements⟩ })
  else (false, c)

def processNewTransaction (c : Cache cfg) : Result cfg :=
  match c.writeBufferBuffer.peek with
  | none => .ok (false, c)
  | some t =>
    match t.action with
    | .writeBufferFetch => processWriteBufferFetch c t
    | .writeBufferEvictAndWrite => processWriteBufferEvictAndWrite c t
    | .writeBufferEvictAndFetch => .ok (processWriteBufferFetchAndEvict c t)
    | .writeBufferFlush => .ok (processWriteBufferFlush c t true)
    | _ => .error "unknown transaction action"

/-- `write`: the oldest pending eviction goes down. -/
def write (c : Cache cfg) : Result cfg :=
  match c.writeBuffer.pendingEvictions with
  | [] => .ok (false, c)
  | t :: pendingEvictions =>
    if tooManyInflightEvictions c then .ok (false, c) else do
      if !(← c.bottomSender.canSend 1) then return (false, c) else
      let data ← deref t.evictingData
      let req : EvictionReq := {
        id := c.nextID, src := 0, dst := cfg.lowModuleFinder t.evictingAddr, pid := t.evictingPID,
        address := t.evictingAddr, data := data, dirtyMask := t.evictingDirtyMask }
      let bottomSender ← c.bottomSender.send (.write req)
      let trans := { t with evictionWriteReq := some req }
      return (true, { c with
        nextID := c.nextID + 1
        bottomSender := bottomSender
        log := c.log ++ [Event.reqInitiate (.write req)]
        writeBuffer := { c.writeBuffer with
          pendingEvictions := pendingEvictions
          inflightEviction := c.writeBuffer.inflightEviction ++ [trans] } })

/-- `findInflightFetchByFetchReadReqID`. -/
def findInflightFetch (c : Cache cfg) (id : MsgID) : Except String Transaction :=
  match c.writeBuffer.inflightFetch.find? fun t => t.fetchReadReq.any (·.id == id) with
  | some t => .ok t
  | none => .error "inflight read not found"

/-- `processDataReadyRsp`. The message's data is an array of its own. -/
def processDataReadyRsp (c : Cache cfg) (rsp : DataReadyRsp Bytes) : Result cfg := do
  let trans ← findInflightFetch c rsp.respondTo
  if !c.writeBufferToBankBuffer.canPush then return (false, c) else
  let (arr, slices) := c.slices.newBytes rsp.data
  let c ← fillEntry { c with slices } trans arr
  return (true, { c with
    writeBuffer := { c.writeBuffer with
      inflightFetch := c.writeBuffer.inflightFetch.eraseP fun t => t.fetchReadReq.any (·.id == rsp.respondTo) }
    bottomPort := c.bottomPort.retrieve })

/-- The loop of `processWriteDoneRsp` looks from the youngest eviction to the oldest. -/
def processWriteDoneRsp (c : Cache cfg) (rsp : WriteDoneRsp) : Result cfg :=
  let isIt : Transaction → Bool := fun t => t.evictionWriteReq.any (·.id == rsp.respondTo)
  if c.writeBuffer.inflightEviction.any isIt then
    .ok (true, { c with
      writeBuffer := { c.writeBuffer with
        inflightEviction := (c.writeBuffer.inflightEviction.reverse.eraseP isIt).reverse }
      bottomPort := c.bottomPort.retrieve })
  else .error "write request not found"

def processReturnRsp (c : Cache cfg) : Result cfg :=
  match c.bottomPort.peek with
  | none => .ok (false, c)
  | some (.dataReady rsp) => processDataReadyRsp c rsp
  | some (.writeDone rsp) => processWriteDoneRsp c rsp

def tick (c : Cache cfg) : Result cfg := do
  let (progress, c) ← write c
  let (progress', c) ← processReturnRsp c
  let (progress'', c) ← processNewTransaction c
  return (progress || progress' || progress'', c)

def reset (c : Cache cfg) : Cache cfg := { c with writeBufferBuffer := c.writeBufferBuffer.clear }

end WriteBufferStage

namespace MSHRStage

def respondRead (c : Cache cfg) (read : ReadReq) (data : Option ArrayRef) : Except String (Cache cfg) := do
  let arr ← deref data
  let offset := (getCacheLineID read.address cfg.log2BlockSize).2
  if (c.slices.bytes arr).length < offset + read.accessByteSize then .error "slice bounds out of range" else
  let topSender ← c.topSender.send
    (.dataReady { dst := read.src, respondTo := read.id, data := { arr, off := offset, len := read.accessByteSize } })
  return { c with topSender := topSender, log := c.log ++ [Event.reqComplete (.read read)] }

def respondWrite (c : Cache cfg) (write : WriteReq Bytes Mask) : Except String (Cache cfg) := do
  let topSender ← c.topSender.send (.writeDone { dst := write.src, respondTo := write.id })
  return { c with topSender := topSender, log := c.log ++ [Event.reqComplete (.write write)] }

/-- `mshrEntry.Requests = mshrEntry.Requests[1:]`, and the stage is free once no request is left. -/
def dropRequest (c : Cache cfg) (e : EntryRef) : Cache cfg :=
  let requests := (c.mshr.heap e).requests.tail
  { c with
    mshr := c.mshr.modify e fun entry => { entry with requests := requests }
    processingMSHREntry := if requests.isEmpty then none else c.processingMSHREntry }

def processOneReq (c : Cache cfg) (e : EntryRef) : Result cfg := do
  if !(← c.topSender.canSend 1) then return (false, c) else
  match (c.mshr.heap e).requests with
  | [] => .error "runtime error: index out of range [0] with length 0"
  | t :: _ =>
    if c.findTransaction t then do
      let c ← c.removeTransaction t
      let c ← match t.read with
        | some read => respondRead c read (c.mshr.heap e).data
        | none => do respondWrite c (← deref t.write)
      return (true, dropRequest c e)
    else return (true, dropRequest c e)

def tick (c : Cache cfg) : Result cfg :=
  match c.processingMSHREntry with
  | some e => processOneReq c e
  | none =>
    match c.mshrStageBuffer.peek with
    | none => .ok (false, c)
    | some e =>
      processOneReq { c with mshrStageBuffer := c.mshrStageBuffer.pop, processingMSHREntry := some e } e

def reset (c : Cache cfg) : Cache cfg :=
  { c with processingMSHREntry := none, mshrStageBuffer := c.mshrStageBuffer.clear }

end MSHRStage

end Akita.WriteBack
