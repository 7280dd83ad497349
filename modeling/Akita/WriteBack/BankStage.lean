import Akita.WriteBack.Cache

/-!
# The bank stage

`bankStage` takes transactions from the write buffer and from the directory, in this order of preference, carries them
through its pipeline and finalises those in the post-pipeline buffer, reading or writing the storage.
-/

namespace Akita.WriteBack
open Sim Pipelining Mem Mem.Cache

variable {cfg : Config}

namespace BankStage

/-- `Reset`. The count of downward transactions is left as it is. -/
def reset (c : Cache cfg) : Cache cfg :=
  { c with
    dirToBankBuffer := c.dirToBankBuffer.clear
    bank := { c.bank with
      pipeline := c.bank.pipeline.clear
      postPipelineBuf := c.bank.postPipelineBuf.clear
      inflightTransCount := 0 } }

/-- The actions that `pullFromBuf` counts as going down to the write buffer. -/
def isDownward : Action → Bool
  | .bankEvict | .bankEvictAndFetch | .bankEvictAndWrite => true
  | _ => false

/-- The branch of `pullFromBuf` that takes from the write buffer. -/
def pullFromWriteBuffer (c : Cache cfg) (trans : Transaction) : Result cfg := do
  let (pipeline, postPipelineBuf) ← c.bank.pipeline.accept c.bank.postPipelineBuf trans
  return (true, { c with
    writeBufferToBankBuffer := c.writeBufferToBankBuffer.pop
    bank := { c.bank with
      pipeline, postPipelineBuf, inflightTransCount := c.bank.inflightTransCount + 1 } })

/-- The branch of `pullFromBuf` that takes from the directory. -/
def pullFromDirectory (c : Cache cfg) (trans : Transaction) : Result cfg :=
  if trans.action = .writeBufferFetch then do
    let writeBufferBuffer ← c.writeBufferBuffer.push trans
    return (true, { c with writeBufferBuffer, dirToBankBuffer := c.dirToBankBuffer.pop })
  else do
    let (pipeline, postPipelineBuf) ← c.bank.pipeline.accept c.bank.postPipelineBuf trans
    let down : Int := if isDownward trans.action then 1 else 0
    return (true, { c with
      dirToBankBuffer := c.dirToBankBuffer.pop
      bank := { pipeline, postPipelineBuf, inflightTransCount := c.bank.inflightTransCount + 1,
                downwardInflightTransCount := c.bank.downwardInflightTransCount + down } })

def pullFromBuf (c : Cache cfg) : Result cfg :=
  if !c.bank.pipeline.canAccept c.bank.postPipelineBuf then .ok (false, c) else
  match c.writeBufferToBankBuffer.peek with
  | some t => pullFromWriteBuffer c t
  | none =>
    -- Do not jam the writeBufferBuffer
    if !c.writeBufferBuffer.canPush then .ok (false, c)
    -- Always reserve one lane for up-going transactions
    else if c.bank.downwardInflightTransCount ≥ (cfg.laneWidth : Int) - 1 then .ok (false, c)
    else
      match c.dirToBankBuffer.peek with
      | none => .ok (false, c)
      | some t => pullFromDirectory c t

/-- `s.inflightTransCount--; s.downwardInflightTransCount--`. -/
def countDown (c : Cache cfg) : Cache cfg :=
  { c with bank := { c.bank with
      inflightTransCount := c.bank.inflightTransCount - 1
      downwardInflightTransCount := c.bank.downwardInflightTransCount - 1 } }

def finalizeReadHit (c : Cache cfg) (trans : Transaction) : Result cfg := do
  if !(← c.topSender.canSend 1) then return (false, c) else
  let read ← deref trans.read
  let b ← deref trans.block
  let offset := (getCacheLineID read.address cfg.log2BlockSize).2
  let data ← c.storage.read (b.cacheAddress cfg.geometry + offset) read.accessByteSize
  let c ← c.removeTransaction trans
  let c := countDown c
  let (arr, slices) := c.slices.newBytes data
  let topSender ← c.topSender.send
    (.dataReady { dst := read.src, respondTo := read.id, data := { arr, off := 0, len := read.accessByteSize } })
  return (true, { c with
    slices := slices
    topSender := topSender
    directory := c.directory.modify b fun block => { block with readCount := block.readCount - 1 }
    log := c.log ++ [Event.reqComplete (.read read)] })

/-- `dirtyMask := block.DirtyMask`, made anew if it is nil. -/
def dirtyMaskOf (cfg : Config) (slices : Slices) (block : Block) : ArrayRef × Slices :=
  match block.dirtyMask with
  | some m => (m, slices)
  | none => slices.newMask (List.replicate cfg.blockSize false)

/-- `writeData`: the storage and the slices after the write, and the dirty mask, which is the block's own array if it
has one. -/
def writeData (c : Cache cfg) (b : BlockRef) (write : WriteReq Bytes Mask) (offset : Nat) :
    Except String (ArrayRef × Slices × Storage) := do
  let data ← c.storage.read (b.cacheAddress cfg.geometry) cfg.blockSize
  let (dirtyMask, slices) := dirtyMaskOf cfg c.slices (c.directory.blocks b)
  let (data, mask) ← overlay data (slices.masks dirtyMask) offset write.data write.dirtyMask
  let storage ← c.storage.write (b.cacheAddress cfg.geometry) data
  return (dirtyMask, slices.setMask dirtyMask mask, storage)

def finalizeWriteHit (c : Cache cfg) (trans : Transaction) : Result cfg := do
  if !(← c.topSender.canSend 1) then return (false, c) else
  let write ← deref trans.write
  let b ← deref trans.block
  let offset := (getCacheLineID write.address cfg.log2BlockSize).2
  let (dirtyMask, slices, storage) ← writeData c b write offset
  let directory := c.directory.modify b fun block =>
    { block with isValid := true, isLocked := false, isDirty := true, dirtyMask := some dirtyMask }
  let c ← ({ c with slices, storage, directory } : Cache cfg).removeTransaction trans
  let c := countDown c
  let topSender ← c.topSender.send (.writeDone { dst := write.src, respondTo := write.id })
  return (true, { c with topSender := topSender, log := c.log ++ [Event.reqComplete (.write write)] })

def finalizeBankWriteFetched (c : Cache cfg) (trans : Transaction) : Result cfg :=
  if !c.mshrStageBuffer.canPush then .ok (false, c) else do
    let e ← deref trans.mshrEntry
    let entry := c.mshr.heap e
    let b ← deref entry.block
    let mshrStageBuffer ← c.mshrStageBuffer.push e
    let data := match entry.data with
      | some arr => c.slices.bytes arr
      | none => []
    let storage ← c.storage.write (b.cacheAddress cfg.geometry) data
    return (true, { c with
      mshrStageBuffer := mshrStageBuffer
      storage := storage
      directory := c.directory.modify b fun block => { block with isLocked := false, isValid := true }
      bank := { c.bank with inflightTransCount := c.bank.inflightTransCount - 1 } })

/-- The action an evicted transaction takes on in the write buffer. -/
def evictedAction : Action → Except String Action
  | .bankEvict => .ok .writeBufferFlush
  | .bankEvictAndFetch => .ok .writeBufferEvictAndFetch
  | .bankEvictAndWrite => .ok .writeBufferEvictAndWrite
  | _ => .error "unsupported action"

def finalizeBankEviction (c : Cache cfg) (trans : Transaction) : Result cfg :=
  if !c.writeBufferBuffer.canPush then .ok (false, c) else do
    let victim ← deref trans.victim
    let data ← c.storage.read victim.cacheAddress cfg.blockSize
    let (arr, slices) := c.slices.newBytes data
    let action ← evictedAction trans.action
    let trans := { trans with evictingData := some arr, action := action }
    let writeBufferBuffer ← c.writeBufferBuffer.push trans
    return (true, { countDown c with
      slices := slices
      evictingList := Function.update c.evictingList trans.evictingAddr false
      writeBufferBuffer := writeBufferBuffer })

/-- The switch of `finalizeTrans`. -/
def finalizeOne (c : Cache cfg) (trans : Transaction) : Result cfg :=
  match trans.action with
  | .bankReadHit => finalizeReadHit c trans
  | .bankWriteHit => finalizeWriteHit c trans
  | .bankWriteFetched => finalizeBankWriteFetched c trans
  | .bankEvictAndFetch | .bankEvictAndWrite | .bankEvict => finalizeBankEviction c trans
  | _ => .error "bank action not supported"

/-- The loop of `finalizeTrans` over the post-pipeline buffer `pre ++ rest`, at the first element of `rest`. -/
def finalizeFrom (c : Cache cfg) (pre : List Transaction) : List Transaction → Result cfg
  | [] => .ok (false, c)
  | t :: rest => do
    let (done, c') ← finalizeOne c t
    if done then return (true, { c' with bank := { c'.bank with postPipelineBuf := ⟨pre ++ rest⟩ } })
    else finalizeFrom c' (pre ++ [t]) rest

def finalizeTrans (c : Cache cfg) : Result cfg := finalizeFrom c [] c.bank.postPipelineBuf.elements

def tickPipeline (c : Cache cfg) : Bool × Cache cfg :=
  let (progress, pipeline, postPipelineBuf) := c.bank.pipeline.tick c.bank.postPipelineBuf
  (progress, { c with bank := { c.bank with pipeline, postPipelineBuf } })

def tick (c : Cache cfg) : Result cfg := do
  let (progress, c) ← repeatStage finalizeTrans cfg.numReqPerCycle c
  let (progress', c) := tickPipeline c
  let (progress'', c) ← repeatStage pullFromBuf cfg.numReqPerCycle c
  return (progress || progress' || progress'', c)

end BankStage

end Akita.WriteBack
