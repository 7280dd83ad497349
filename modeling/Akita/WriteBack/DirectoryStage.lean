import Akita.WriteBack.Cache

/-!
# The top parser and the directory stage

`topParser` turns the request at the top port into a transaction; `directoryStage` decides, from the MSHR and the
directory, what becomes of it.
-/

namespace Akita.WriteBack
open Sim Pipelining Mem Mem.Cache

variable {cfg : Config}

/-- `topParser.Tick`. -/
def topParser (c : Cache cfg) : Result cfg :=
  if c.state ≠ .running then .ok (false, c) else
  match c.topPort.peek with
  | none => .ok (false, c)
  | some req =>
    if !c.dirStageBuffer.canPush then .ok (false, c) else do
      let trans := Transaction.ofReq c.nextID req
      let dirStageBuffer ← c.dirStageBuffer.push trans
      return (true, { c with
        nextID := c.nextID + 1
        dirStageBuffer := dirStageBuffer
        inFlightTransactions := c.inFlightTransactions ++ [trans]
        log := c.log ++ [Event.reqReceive req]
        topPort := c.topPort.retrieve })

namespace DirectoryStage

/-- `acceptNewTransaction`, with `i` rounds left. -/
def acceptNewTransaction : Nat → Cache cfg → Result cfg
  | 0, c => .ok (false, c)
  | i + 1, c =>
    if !c.dirPipeline.canAccept c.dirBuf then .ok (false, c) else
    match c.dirStageBuffer.peek with
    | none => .ok (false, c)
    | some t => do
      let (dirPipeline, dirBuf) ← c.dirPipeline.accept c.dirBuf t
      let (_, c) ← acceptNewTransaction i { c with dirPipeline, dirBuf, dirStageBuffer := c.dirStageBuffer.pop }
      return (true, c)

/-- The transaction joins the requests of the MSHR entry of its line. -/
def joinMSHREntry (c : Cache cfg) (trans : Transaction) (e : EntryRef) : Result cfg :=
  let trans := { trans with mshrEntry := some e }
  .ok (true, { c with
    mshr := c.mshr.modify e fun entry => { entry with requests := entry.requests ++ [trans] }
    dirBuf := c.dirBuf.pop })

def handleReadMSHRHit (c : Cache cfg) (trans : Transaction) (e : EntryRef) : Result cfg := joinMSHREntry c trans e

def doWriteMSHRHit (c : Cache cfg) (trans : Transaction) (e : EntryRef) : Result cfg := joinMSHREntry c trans e

def readFromBank (c : Cache cfg) (trans : Transaction) (b : BlockRef) : Result cfg :=
  if !c.dirToBankBuffer.canPush then .ok (false, c) else do
    let directory := (c.directory.visit b).modify b fun block => { block with readCount := block.readCount + 1 }
    let trans := { trans with block := some b, action := .bankReadHit }
    let dirToBankBuffer ← c.dirToBankBuffer.push trans
    return (true, { c with directory, dirToBankBuffer, dirBuf := c.dirBuf.pop })

def handleReadHit (c : Cache cfg) (trans : Transaction) (b : BlockRef) : Result cfg :=
  if (c.directory.blocks b).isLocked then .ok (false, c) else readFromBank c trans b

def writeToBank (c : Cache cfg) (trans : Transaction) (write : WriteReq Bytes Mask) (b : BlockRef) : Result cfg :=
  if !c.dirToBankBuffer.canPush then .ok (false, c) else do
    let directory := (c.directory.visit b).modify b fun block =>
      { block with isLocked := true, tag := c.cacheLineID write.address, isValid := true, pid := write.pid }
    let trans := { trans with block := some b, action := .bankWriteHit }
    let dirToBankBuffer ← c.dirToBankBuffer.push trans
    return (true, { c with directory, dirToBankBuffer, dirBuf := c.dirBuf.pop })

def isWritingFullLine (cfg : Config) (write : WriteReq Bytes Mask) : Bool :=
  write.data.length == cfg.blockSize &&
    match write.dirtyMask with
    | none => true
    | some mask => mask.all id

def evictionNeedFetch (cfg : Config) (trans : Transaction) : Bool :=
  match trans.write with
  | none => true
  | some write => !isWritingFullLine cfg write

/-- The fields of the transaction that describe the eviction of a block. -/
def withVictim (cfg : Config) (trans : Transaction) (block : Block) (victim : BlockRef) : Transaction :=
  { trans with
    victim := some { pid := block.pid, tag := block.tag, cacheAddress := victim.cacheAddress cfg.geometry,
                     dirtyMask := block.dirtyMask }
    block := some victim
    evictingPID := block.pid
    evictingAddr := block.tag
    evictingDirtyMask := block.dirtyMask }

def updateTransForEviction (c : Cache cfg) (trans : Transaction) (victim : BlockRef) (pid : PID) (line : Nat) :
    Except String (Transaction × Cache cfg) :=
  let trans := withVictim cfg trans (c.directory.blocks victim) victim
  if evictionNeedFetch cfg trans then do
    let (e, mshr) ← c.mshr.add pid line
    let trans := { trans with mshrEntry := some e, fetchPID := pid, fetchAddress := line, action := .bankEvictAndFetch }
    let mshr := mshr.modify e fun entry => { entry with block := some victim, requests := entry.requests ++ [trans] }
    return (trans, { c with mshr })
  else .ok ({ trans with action := .bankEvictAndWrite }, c)

def updateVictimBlockMetaData (c : Cache cfg) (victim : BlockRef) (line : Nat) (pid : PID) : Cache cfg :=
  { c with directory := (c.directory.modify victim fun block =>
      { block with tag := line, pid := pid, isLocked := true, isDirty := false }).visit victim }

def evict (c : Cache cfg) (trans : Transaction) (req : AccessReq) (victim : BlockRef) : Result cfg :=
  if !c.dirToBankBuffer.canPush then .ok (false, c) else do
    let line := c.cacheLineID req.address
    let (trans, c) ← updateTransForEviction c trans victim req.pid line
    let c := updateVictimBlockMetaData c victim line req.pid
    let dirToBankBuffer ← c.dirToBankBuffer.push trans
    return (true, { c with
      dirBuf := c.dirBuf.pop
      dirToBankBuffer := dirToBankBuffer
      evictingList := Function.update c.evictingList trans.evictingAddr true })

def fetch (c : Cache cfg) (trans : Transaction) (req : AccessReq) (b : BlockRef) : Result cfg :=
  if !c.dirToBankBuffer.canPush then .ok (false, c) else do
    let line := c.cacheLineID req.address
    let (e, mshr) ← c.mshr.add req.pid line
    let directory := (c.directory.modify b fun block =>
      { block with isLocked := true, tag := line, pid := req.pid, isValid := true }).visit b
    let trans := { trans with
      mshrEntry := some e, block := some b, action := .writeBufferFetch, fetchPID := req.pid, fetchAddress := line }
    let dirToBankBuffer ← c.dirToBankBuffer.push trans
    let mshr := mshr.modify e fun entry => { entry with block := some b, requests := entry.requests ++ [trans] }
    return (true, { c with mshr, directory, dirToBankBuffer, dirBuf := c.dirBuf.pop })

def needEviction (c : Cache cfg) (victim : BlockRef) : Bool :=
  (c.directory.blocks victim).isValid && (c.directory.blocks victim).isDirty

/-- The victim is being filled, written or read. -/
def victimBusy (c : Cache cfg) (victim : BlockRef) : Bool :=
  (c.directory.blocks victim).isLocked || decide (0 < (c.directory.blocks victim).readCount)

/-- A miss that needs the line from below. -/
def missWithFetch (c : Cache cfg) (trans : Transaction) (req : AccessReq) : Result cfg :=
  if c.mshr.isFull then .ok (false, c) else do
    let victim ← c.directory.findVictim (c.cacheLineID req.address)
    if victimBusy c victim then return (false, c)
    else if needEviction c victim then evict c trans req victim
    else fetch c trans req victim

def handleReadMiss (c : Cache cfg) (trans : Transaction) (read : ReadReq) : Result cfg :=
  missWithFetch c trans (.read read)

def writePartialLineMiss (c : Cache cfg) (trans : Transaction) (write : WriteReq Bytes Mask) : Result cfg :=
  missWithFetch c trans (.write write)

def writeFullLineMiss (c : Cache cfg) (trans : Transaction) (write : WriteReq Bytes Mask) : Result cfg := do
  let victim ← c.directory.findVictim (c.cacheLineID write.address)
  if victimBusy c victim then return (false, c)
  else if needEviction c victim then evict c trans (.write write) victim
  else writeToBank c trans write victim

def doRead (c : Cache cfg) (trans : Transaction) (read : ReadReq) : Result cfg :=
  let line := c.cacheLineID read.address
  match c.mshr.query read.pid line with
  | some e => handleReadMSHRHit c trans e
  | none => do
    match ← c.directory.lookup read.pid line with
    | some b => handleReadHit c trans b
    | none => handleReadMiss c trans read

def doWriteHit (c : Cache cfg) (trans : Transaction) (write : WriteReq Bytes Mask) (b : BlockRef) : Result cfg :=
  if victimBusy c b then .ok (false, c) else writeToBank c trans write b

def doWriteMiss (c : Cache cfg) (trans : Transaction) (write : WriteReq Bytes Mask) : Result cfg :=
  if isWritingFullLine cfg write then writeFullLineMiss c trans write else writePartialLineMiss c trans write

def doWrite (c : Cache cfg) (trans : Transaction) (write : WriteReq Bytes Mask) : Result cfg :=
  let line := c.cacheLineID write.address
  match c.mshr.query write.pid line with
  | some e => doWriteMSHRHit c trans e
  | none => do
    match ← c.directory.lookup write.pid line with
    | some b => doWriteHit c trans write b
    | none => doWriteMiss c trans write

/-- One round of `processTransaction`, on the transaction at the head of the buffer. -/
def processHead (c : Cache cfg) (trans : Transaction) : Result cfg :=
  match trans.read, trans.write with
  | some read, _ => doRead c trans read
  | none, some write => doWrite c trans write
  | none, none => .error "invalid memory address or nil pointer dereference"

/-- `processTransaction`, with `i` rounds left. -/
def processTransaction : Nat → Cache cfg → Result cfg
  | 0, c => .ok (false, c)
  | i + 1, c =>
    match c.dirBuf.peek with
    | none => .ok (false, c)
    | some t => do
      let req ← deref t.accessReq
      if c.evictingList (c.cacheLineID req.address) then return (false, c) else
      let (progress, c) ← processHead c t
      let (progress', c) ← processTransaction i c
      return (progress || progress', c)

def tickPipeline (c : Cache cfg) : Bool × Cache cfg :=
  let (progress, dirPipeline, dirBuf) := c.dirPipeline.tick c.dirBuf
  (progress, { c with dirPipeline, dirBuf })

def tick (c : Cache cfg) : Result cfg := do
  let (progress, c) ← acceptNewTransaction cfg.numReqPerCycle c
  let (progress', c) := tickPipeline c
  let (progress'', c) ← processTransaction cfg.numReqPerCycle c
  return (progress || progress' || progress'', c)

def reset (c : Cache cfg) : Cache cfg :=
  { c with dirPipeline := c.dirPipeline.clear, dirBuf := c.dirBuf.clear, dirStageBuffer := c.dirStageBuffer.clear }

end DirectoryStage

end Akita.WriteBack
