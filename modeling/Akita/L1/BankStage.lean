import Akita.L1.Cache

/-!
# The bank stages

`bankStage` : the reads and writes of the storage. A transaction waits in the bank's buffer, goes through the pipeline and is
finalized.
-/

namespace Akita.L1
open Sim Mem Mem.Cache

variable {cfg : Config}

/-- The reads of a wave get their bytes. -/
def finishReads (data : Bytes) (tag : Nat) : List TransRef → Cache cfg → Except String (Cache cfg)
  | [], c => .ok c
  | r :: rs, c =>
    match (c.heap r).req with
    | .write _ => .error nilPointer
    | .read read => do
      let bytes ← slice data (offsetIn read.address tag) read.accessByteSize
      finishReads data tag rs (c.modify r fun t => { t with data := bytes, done := true })

/-- The writes of a wave are done. -/
def finishWrites : List TransRef → Cache cfg → Cache cfg
  | [], c => c
  | r :: rs, c => finishWrites rs (c.modify r fun t => { t with done := true })

namespace BankStage

def popBuf (c : Cache cfg) (i : Nat) : Cache cfg :=
  c.modifyBank i fun k => { k with postPipelineBuf := k.postPipelineBuf.pop }

def extractFromBuf (c : Cache cfg) (i : Nat) : Result cfg :=
  match (c.banks i).buf.peek with
  | none => .ok (false, c)
  | some x =>
    if !(c.banks i).pipeline.canAccept (c.banks i).postPipelineBuf then .ok (false, c) else do
      let (pipeline, postPipelineBuf) ← (c.banks i).pipeline.accept (c.banks i).postPipelineBuf x
      return (true, c.modifyBank i fun k => { buf := k.buf.pop, pipeline, postPipelineBuf })

def tickPipeline (c : Cache cfg) (i : Nat) : Result cfg :=
  let (progress, pipeline, postPipelineBuf) := (c.banks i).pipeline.tick (c.banks i).postPipelineBuf
  .ok (progress, c.modifyBank i fun k => { k with pipeline, postPipelineBuf })

def finalizeReadHitTrans (c : Cache cfg) (i : Nat) (x : TransRef) (b : BlockRef) : Result cfg := do
  let data ← c.storage.read (b.cacheAddress cfg.geometry) (c.heap x).req.byteSize
  let c := c.modifyBlock b fun b => { b with readCount := b.readCount - 1 }
  let c ← finishReads data (c.directory.blocks b).tag (c.heap x).preCoalesceTransactions c
  return (true, popBuf (c.removePostCoalesce x) i)

def finalizeWriteTrans (c : Cache cfg) (i : Nat) (write : WriteReq Bytes Mask) (b : BlockRef) : Result cfg := do
  let data ← c.storage.read (b.cacheAddress cfg.geometry) cfg.blockSize
  let (data, _) ← overlay data (List.replicate cfg.blockSize false) (offsetIn write.address (c.directory.blocks b).tag)
    write.data
    (some (write.dirtyMask.getD []))
  let storage ← c.storage.write (b.cacheAddress cfg.geometry) data
  let c := { c with storage }
  return (true, popBuf (c.modifyBlock b fun b => { b with isLocked := false }) i)

def finalizeWriteFetchedTrans (c : Cache cfg) (i : Nat) (x : TransRef) (b : BlockRef) : Result cfg := do
  let storage ← c.storage.write (b.cacheAddress cfg.geometry) (c.heap x).data
  let c := { c with storage }
  return (true, popBuf (c.modifyBlock b fun b => { b with isLocked := false }) i)

def finalizeTrans (c : Cache cfg) (i : Nat) : Result cfg :=
  match (c.banks i).postPipelineBuf.peek with
  | none => .ok (false, c)
  | some x =>
    match (c.heap x).bankAction, (c.heap x).block, (c.heap x).req with
    | .readHit, some b, .read _ => finalizeReadHitTrans c i x b
    | .write, some b, .write write => finalizeWriteTrans c i write b
    | .writeFetched, some b, _ => finalizeWriteFetchedTrans c i x b
    | .invalid, _, _ => .error "cannot handle trans bank action"
    | _, _, _ => .error nilPointer

end BankStage

end Akita.L1
