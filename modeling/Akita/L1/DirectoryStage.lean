import Akita.L1.Cache

/-!
# The directory stage

`directory` : transactions pass through the pipeline of the directory and are then, one after the other, hits, misses, or
joined to the miss of their line. What a write does depends on the policy.
-/

namespace Akita.L1
open Sim Mem Mem.Cache

variable {cfg : Config}

namespace DirectoryStage

def popBuf (c : Cache cfg) : Cache cfg := { c with dirPostBuf := c.dirPostBuf.pop }

/-- One round of the first loop of `Tick`. -/
def accept (c : Cache cfg) : Result cfg :=
  if !c.dirPipeline.canAccept c.dirPostBuf then .ok (false, c) else
    match c.dirBuf.peek with
    | none => .ok (false, c)
    | some x => do
      let (dirPipeline, dirPostBuf) ← c.dirPipeline.accept c.dirPostBuf x
      return (true, { c with dirPipeline, dirPostBuf, dirBuf := c.dirBuf.pop })

def tickPipeline (c : Cache cfg) : Result cfg :=
  let (progress, dirPipeline, dirPostBuf) := c.dirPipeline.tick c.dirPostBuf
  .ok (progress, { c with dirPipeline, dirPostBuf })

def processMSHRHit (c : Cache cfg) (x : TransRef) (e : EntryRef) (what : TaskStep) : Cache cfg :=
  (popBuf { c with mshr := c.mshr.modify e fun entry => { entry with requests := entry.requests ++ [x] } }).record
    (.addTaskStep x what)

def processReadHit (c : Cache cfg) (x : TransRef) (b : BlockRef) : Result cfg :=
  if (c.directory.blocks b).isLocked then .ok (false, c) else do
    let bank ← bankOf cfg b
    if !(c.banks bank).buf.canPush then return (false, c)
    let c := c.modify x fun t => { t with block := some b, bankAction := .readHit }
    let c := c.modifyBlock b fun b => { b with readCount := b.readCount + 1 }
    let c := { c with directory := c.directory.visit b }
    let buf ← (c.banks bank).buf.push x
    let c := c.modifyBank bank fun k => { k with buf }
    return (true, (popBuf c).record (.addTaskStep x .readHit))

def fetchFromBottom (c : Cache cfg) (x : TransRef) (victim : BlockRef) : Result cfg :=
  let addr := (c.heap x).req.address
  let pid := (c.heap x).req.pid
  let line := cfg.cacheLineID addr
  let readToBottom : ReadReq :=
    { id := c.nextID, src := 0, dst := cfg.lowModuleFinder line, pid, address := line, accessByteSize := cfg.blockSize }
  let (sent, bottomPort) := c.bottomPort.send (.read readToBottom)
  let c := { c with bottomPort, nextID := c.nextID + 1 }
  if !sent then .ok (false, c) else do
    let c := c.record (.reqInitiate x (.read readToBottom))
    let c := c.modify x fun t => { t with readToBottom := some readToBottom, block := some victim }
    let (e, mshr) ← c.mshr.add pid line
    let mshr := mshr.modify e fun entry => { entry with requests := entry.requests ++ [x], block := some victim }
    let c := { c with mshr }
    let c := c.modifyBlock victim fun b => { b with tag := line, pid, isValid := true, isLocked := true }
    return (true, { c with directory := c.directory.visit victim })

def processReadMiss (c : Cache cfg) (x : TransRef) : Result cfg := do
  let victim ← c.directory.findVictim (cfg.cacheLineID (c.heap x).req.address)
  if (c.directory.blocks victim).isLocked || decide ((c.directory.blocks victim).readCount > 0) then return (false, c)
  if c.mshr.isFull then return (false, c)
  let (fetched, c) ← fetchFromBottom c x victim
  if !fetched then return (false, c)
  return (true, (popBuf c).record (.addTaskStep x .readMiss))

def processRead (c : Cache cfg) (x : TransRef) (read : ReadReq) : Result cfg :=
  let line := cfg.cacheLineID read.address
  match c.mshr.query read.pid line with
  | some e => .ok (true, processMSHRHit c x e .readMSHRHit)
  | none => do
    match ← c.directory.lookup read.pid line with
    | some b => processReadHit c x b
    | none => processReadMiss c x

/-- The request that `writeBottom` builds. -/
def writeToBottom (c : Cache cfg) (write : WriteReq Bytes Mask) : WriteReq Bytes Mask :=
  { id := c.nextID, src := 0, dst := cfg.lowModuleFinder write.address, pid := write.pid, address := write.address,
    data := write.data, dirtyMask := write.dirtyMask }

def writeBottom (c : Cache cfg) (x : TransRef) (write : WriteReq Bytes Mask) : Bool × Cache cfg :=
  let w := writeToBottom c write
  let (sent, bottomPort) := c.bottomPort.send (.write w)
  let c := { c with bottomPort, nextID := c.nextID + 1 }
  if !sent then (false, c)
  else (true, (c.modify x fun t => { t with writeToBottom := some w }).record (.reqInitiate x (.write w)))

/-- What `processWriteHit` does once the write has been sent. -/
def finishWriteHit (c : Cache cfg) (x : TransRef) (write : WriteReq Bytes Mask) (b : BlockRef) (bank : Nat) :
    Except String (Cache cfg) :=
  if cfg.policy = .writeevict then .ok (popBuf (c.modifyBlock b fun b => { b with isValid := false })) else do
    let c := c.modifyBlock b fun b => { b with isLocked := true, isValid := true, tag := cfg.cacheLineID write.address }
    let c := { c with directory := c.directory.visit b }
    let c := c.modify x fun t => { t with bankAction := .write, block := some b }
    let buf ← (c.banks bank).buf.push x
    return popBuf (c.modifyBank bank fun k => { k with buf })

/-- `processWriteHit`, with the step recorded when it succeeds. -/
def processWriteHit (c : Cache cfg) (x : TransRef) (write : WriteReq Bytes Mask) (b : BlockRef) (what : TaskStep) :
    Result cfg :=
  if (c.directory.blocks b).isLocked || decide ((c.directory.blocks b).readCount > 0) then .ok (false, c) else do
    let bank ← bankOf cfg b
    if !(c.banks bank).buf.canPush then return (false, c)
    let (sent, c) := if (c.heap x).writeToBottom.isNone then writeBottom c x write else (true, c)
    if !sent then return (false, c)
    let c ← finishWriteHit c x write b bank
    return (true, c.record (.addTaskStep x what))

def isPartialWrite (cfg : Config) (write : WriteReq Bytes Mask) : Bool :=
  decide (write.data.length < cfg.blockSize) || write.dirtyMask.any fun mask => mask.any (! ·)

def partialWriteMiss (c : Cache cfg) (x : TransRef) (write : WriteReq Bytes Mask) : Result cfg :=
  let c := c.modify x fun t => { t with fetchAndWrite := true }
  if c.mshr.isFull then .ok (false, c) else do
    let victim ← c.directory.findVictim (cfg.cacheLineID write.address)
    if (c.directory.blocks victim).isLocked || decide ((c.directory.blocks victim).readCount > 0) then return (false, c)
    let unsent := (c.heap x).writeToBottom.isNone
    let (sent, c) := if unsent then writeBottom c x write else (true, c)
    if !sent then return (false, c)
    let (fetched, c) ← fetchFromBottom c x victim
    if !fetched then return (unsent, c)
    return (true, (popBuf c).record (.addTaskStep x .writeMiss))

def fullLineWriteMiss (c : Cache cfg) (x : TransRef) (write : WriteReq Bytes Mask) : Result cfg := do
  let b ← c.directory.findVictim (cfg.cacheLineID write.address)
  processWriteHit c x write b .writeMiss

/-- `writeMiss` of the write-around and write-evict caches. -/
def writeMiss (c : Cache cfg) (x : TransRef) (write : WriteReq Bytes Mask) : Result cfg :=
  let (sent, c) := writeBottom c x write
  if sent then .ok (true, (popBuf c).record (.addTaskStep x .writeMiss)) else .ok (false, c)

def processWrite (c : Cache cfg) (x : TransRef) (write : WriteReq Bytes Mask) : Result cfg :=
  let line := cfg.cacheLineID write.address
  match c.mshr.query write.pid line with
  | some e =>
    let (sent, c) := writeBottom c x write
    if sent then .ok (true, processMSHRHit c x e .writeMSHRHit) else .ok (false, c)
  | none => do
    match ← c.directory.lookup write.pid line with
    | some b => processWriteHit c x write b .writeHit
    | none =>
      match cfg.policy with
      | .writethrough => if isPartialWrite cfg write then partialWriteMiss c x write else fullLineWriteMiss c x write
      | _ => writeMiss c x write

/-- One round of the second loop of `Tick`. -/
def process (c : Cache cfg) : Result cfg :=
  match c.dirPostBuf.peek with
  | none => .ok (false, c)
  | some x =>
    match (c.heap x).req with
    | .read read => processRead c x read
    | .write write => processWrite c x write

end DirectoryStage

end Akita.L1
