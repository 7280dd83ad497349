import Akita.WriteBack.DirectoryStage
import Akita.WriteBack.BankStage
import Akita.WriteBack.WriteBufferStage

/-!
# The flusher and the tick of the write-back cache

`tick` runs the stages in the order of `Cache.Tick`. `schedule` lists the stage calls of a tick, and `tick_eq_calls`
says that a tick is these calls in a row, so what every call preserves a tick preserves.
-/

namespace Akita.WriteBack
open Sim Pipelining Mem Mem.Cache

variable {cfg : Config}

/-! ## Senders -/

/-- `topSender.Tick`. The bytes of a response are those its slice shows when it leaves. -/
def topSender (c : Cache cfg) : Bool × Cache cfg :=
  match c.topSender.buffer.peek with
  | none => (false, c)
  | some msg =>
    let rsp := msg.map c.slices.view
    let (sent, topPort) := c.topPort.send rsp
    if sent then
      (true, { c with
        topPort := topPort
        topSender := { buffer := c.topSender.buffer.pop }
        log := c.log ++ [Event.topSend rsp] })
    else (false, { c with topPort := topPort })

/-- The bytes and mask a write-back carries, none for a fetch. -/
def payload (s : Slices) : BottomReq → Option (Bytes × Option Mask)
  | .read _ => none
  | .write w => some (s.bytes w.data, w.dirtyMask.map s.masks)

/-- `bottomSender.Tick`. -/
def bottomSender (c : Cache cfg) : Bool × Cache cfg :=
  match c.bottomSender.buffer.peek with
  | none => (false, c)
  | some msg =>
    let (sent, bottomPort) := c.bottomPort.send msg
    if sent then
      (true, { c with
        bottomPort := bottomPort
        bottomSender := { buffer := c.bottomSender.buffer.pop }
        log := c.log ++ [Event.bottomSend msg (payload c.slices msg)] })
    else (false, { c with bottomPort := bottomPort })

/-- `controlPortSender.Tick`. -/
def controlPortSender (c : Cache cfg) : Bool × Cache cfg :=
  match c.controlPortSender.buffer.peek with
  | none => (false, c)
  | some msg =>
    let (sent, controlPort) := c.controlPort.send msg
    if sent then
      (true, { c with controlPort, controlPortSender := { buffer := c.controlPortSender.buffer.pop } })
    else (false, { c with controlPort := controlPort })

/-! ## The flusher -/

def discardInflightTransactions (c : Cache cfg) : Cache cfg :=
  let c := { c with directory := c.directory.modifyAll fun block => { block with readCount := 0, isLocked := false } }
  let c := DirectoryStage.reset c
  let c := BankStage.reset c
  let c := MSHRStage.reset c
  let c := WriteBufferStage.reset c
  { c with topPort := c.topPort.clear, topSender := c.topSender.clear, inFlightTransactions := [] }

namespace Flusher

/-- The loop of `prepareBlockToFlushList`. -/
def dirtyBlocks (d : Directory cfg.geometry) : List BlockRef → Except String (List BlockRef)
  | [] => .ok []
  | b :: rest =>
    if 0 < (d.blocks b).readCount ∨ (d.blocks b).isLocked then
      .error "all the blocks should be unlocked before flushing"
    else do
      let blocks ← dirtyBlocks d rest
      return if (d.blocks b).isValid && (d.blocks b).isDirty then b :: blocks else blocks

def prepareBlockToFlushList (c : Cache cfg) : Except String (Cache cfg) := do
  let blocks ← dirtyBlocks c.directory c.directory.allBlocks
  return { c with blockToEvict := c.blockToEvict ++ blocks }

def existInflightTransaction (c : Cache cfg) : Bool := !c.inFlightTransactions.isEmpty

def processPreFlushing (c : Cache cfg) : Result cfg :=
  if existInflightTransaction c then .ok (false, c) else do
    let c ← prepareBlockToFlushList c
    return (true, { c with state := .flushing })

/-- `processFlush`. The victim is the block itself, of which only the cache address is read. -/
def processFlush (c : Cache cfg) : Result cfg :=
  match c.blockToEvict with
  | [] => .ok (false, c)
  | b :: blockToEvict =>
    if !c.dirToBankBuffer.canPush then .ok (false, c) else do
      let block := c.directory.blocks b
      let trans : Transaction := {
        id := 0, flush := c.processingFlush, action := .bankEvict,
        victim := some { pid := block.pid, tag := block.tag, cacheAddress := b.cacheAddress cfg.geometry,
                         dirtyMask := block.dirtyMask }
        evictingAddr := block.tag, evictingDirtyMask := block.dirtyMask }
      let dirToBankBuffer ← c.dirToBankBuffer.push trans
      return (true, { c with dirToBankBuffer, blockToEvict })

def flushCompleted (c : Cache cfg) : Bool :=
  c.dirToBankBuffer.size == 0 && decide (c.bank.inflightTransCount ≤ 0) && c.writeBufferBuffer.size == 0 &&
    c.writeBuffer.inflightFetch.isEmpty && c.writeBuffer.inflightEviction.isEmpty &&
    c.writeBuffer.pendingEvictions.isEmpty

def finalizeFlushing (c : Cache cfg) (req : FlushReq) : Result cfg :=
  if !c.blockToEvict.isEmpty then .ok (false, c)
  else if !flushCompleted c then .ok (false, c) else do
    if !(← c.controlPortSender.canSend 1) then return (false, c) else
    let controlPortSender ← c.controlPortSender.send (.flush req.src req.id)
    return (true, { c with
      controlPortSender := controlPortSender
      mshr := c.mshr.reset
      directory := c.directory.reset
      state := if req.pauseAfterFlushing then .paused else .running
      log := c.log ++ [Event.flushComplete req]
      processingFlush := none })

def startProcessingFlush (c : Cache cfg) (req : FlushReq) : Cache cfg :=
  let c := { c with processingFlush := some req }
  let c := if req.discardInflight then discardInflightTransactions c else c
  { c with state := .preFlushing, controlPort := c.controlPort.retrieve, log := c.log ++ [Event.flushReceive req] }

def handleCacheRestart (c : Cache cfg) (id : MsgID) (src : PortID) : Result cfg := do
  if !(← c.controlPortSender.canSend 1) then return (false, c) else
  let controlPortSender ← c.controlPortSender.send (.restart src id)
  return (true, { c with
    topPort := c.topPort.clear
    bottomPort := c.bottomPort.clear
    state := .running
    controlPortSender := controlPortSender
    controlPort := c.controlPort.retrieve })

def extractFromPort (c : Cache cfg) : Result cfg :=
  match c.controlPort.peek with
  | none => .ok (false, c)
  | some (.flush req) => .ok (true, startProcessingFlush c req)
  | some (.restart id src) => handleCacheRestart c id src

def tick (c : Cache cfg) : Result cfg :=
  match c.processingFlush, c.state with
  | some _, .preFlushing => processPreFlushing c
  | some req, .flushing => do
    let (progress, c) ← finalizeFlushing c req
    let (progress', c) ← processFlush c
    return (progress || progress', c)
  | _, _ => extractFromPort c

end Flusher

/-! ## Ticks -/

def runPipeline (c : Cache cfg) : Result cfg := do
  let (p1, c) ← repeatStage (fun c => .ok (topSender c)) cfg.numReqPerCycle c
  let (p2, c) ← repeatStage (fun c => .ok (bottomSender c)) cfg.numReqPerCycle c
  let (p3, c) ← repeatStage MSHRStage.tick cfg.numReqPerCycle c
  let (p4, c) ← BankStage.tick c
  let (p5, c) ← repeatStage WriteBufferStage.tick cfg.numReqPerCycle c
  let (p6, c) ← repeatStage DirectoryStage.tick cfg.numReqPerCycle c
  let (p7, c) ← repeatStage topParser cfg.numReqPerCycle c
  return (p1 || p2 || p3 || p4 || p5 || p6 || p7, c)

def tick (c : Cache cfg) : Result cfg := do
  let (p1, c) := controlPortSender c
  let (p2, c) ← if c.state = .paused then .ok (false, c) else runPipeline c
  let (p3, c) ← Flusher.tick c
  return (p1 || p2 || p3, c)

def build (cfg : Config) : Cache cfg := {}

/-! ## Stage calls -/

/-- The calls a tick is made of. -/
inductive Call
  | controlPortSender | topSender | bottomSender
  | mshrStage
  | bankFinalize | bankPipeline | bankPull
  | writeBufferWrite | writeBufferReturn | writeBufferNew
  | dirAccept | dirPipeline | dirProcess
  | topParser
  | flusher
deriving DecidableEq

def Call.exec (c : Cache cfg) : Call → Result cfg
  | controlPortSender => .ok (WriteBack.controlPortSender c)
  | topSender => .ok (WriteBack.topSender c)
  | bottomSender => .ok (WriteBack.bottomSender c)
  | mshrStage => MSHRStage.tick c
  | bankFinalize => BankStage.finalizeTrans c
  | bankPipeline => .ok (BankStage.tickPipeline c)
  | bankPull => BankStage.pullFromBuf c
  | writeBufferWrite => WriteBufferStage.write c
  | writeBufferReturn => WriteBufferStage.processReturnRsp c
  | writeBufferNew => WriteBufferStage.processNewTransaction c
  | dirAccept => DirectoryStage.acceptNewTransaction cfg.numReqPerCycle c
  | dirPipeline => .ok (DirectoryStage.tickPipeline c)
  | dirProcess => DirectoryStage.processTransaction cfg.numReqPerCycle c
  | topParser => WriteBack.topParser c
  | flusher => Flusher.tick c

/-- `l` taken `n` times. -/
def times (n : Nat) (l : List Call) : List Call := (List.replicate n l).flatten

/-- The calls of `runPipeline`. -/
def pipelineCalls (n : Nat) : List Call :=
  times n [.topSender] ++ times n [.bottomSender] ++ times n [.mshrStage] ++
    (times n [.bankFinalize] ++ [Call.bankPipeline] ++ times n [.bankPull]) ++
    times n [.writeBufferWrite, .writeBufferReturn, .writeBufferNew] ++
    times n [.dirAccept, .dirPipeline, .dirProcess] ++ times n [.topParser]

/-- The calls of a tick. A paused cache runs no pipeline stage. -/
def schedule (c : Cache cfg) : List Call :=
  [.controlPortSender] ++ (if c.state = .paused then [] else pipelineCalls cfg.numReqPerCycle) ++ [Call.flusher]

/-- The stage is the calls `ks`. -/
abbrev Is (f : Cache cfg → Result cfg) (ks : List Call) : Prop := Splits (fun _ => True) (fun k c => Call.exec c k) f ks

theorem is_call (k : Call) : Is (fun c : Cache cfg => k.exec c) [k] := .call (fun _ _ _ _ => trivial) fun _ _ => rfl

theorem is_bankTick : Is (@BankStage.tick cfg)
    (times cfg.numReqPerCycle [.bankFinalize] ++ ([.bankPipeline] ++ times cfg.numReqPerCycle [.bankPull])) :=
  ((is_call .bankFinalize).times _).bind fun _ => ⟨fun _ _ _ _ => trivial, fun c _ =>
    map_snd_last (((is_call .bankPull).times _).eq_calls (BankStage.tickPipeline c).2 trivial) fun _ => rfl⟩

theorem is_writeBufferTick : Is (@WriteBufferStage.tick cfg) [.writeBufferWrite, .writeBufferReturn, .writeBufferNew] :=
  (is_call .writeBufferWrite).bind fun _ => (is_call .writeBufferReturn).bind fun _ =>
    (is_call .writeBufferNew).last fun _ => rfl

theorem is_directoryTick : Is (@DirectoryStage.tick cfg) [.dirAccept, .dirPipeline, .dirProcess] :=
  (is_call .dirAccept).bind fun _ => ⟨fun _ _ _ _ => trivial, fun c _ =>
    map_snd_last (map_snd_exec (fun k c => Call.exec c k) .dirProcess (DirectoryStage.tickPipeline c).2) fun _ => rfl⟩

theorem is_runPipeline : Is (@runPipeline cfg) (pipelineCalls cfg.numReqPerCycle) := by
  unfold pipelineCalls
  simp only [List.append_assoc]
  refine ((is_call .topSender).times _).bind fun _ => ?_
  refine ((is_call .bottomSender).times _).bind fun _ => ?_
  refine ((is_call .mshrStage).times _).bind fun _ => ?_
  rw [← List.append_assoc [Call.bankPipeline], ← List.append_assoc (times _ [Call.bankFinalize])]
  refine is_bankTick.bind fun _ => ?_
  refine (is_writeBufferTick.times _).bind fun _ => ?_
  refine (is_directoryTick.times _).bind fun _ => ?_
  exact ((is_call .topParser).times _).last fun _ => rfl

/-- **A tick is its stage calls in a row.** -/
theorem tick_eq_calls (c : Cache cfg) : (tick c).map Prod.snd = calls (fun k c => Call.exec c k) (schedule c) c := by
  have hstate : (controlPortSender c).2.state = c.state := by
    unfold controlPortSender
    split
    · rfl
    · simp only
      split <;> rfl
  have hflusher (c : Cache cfg) := map_snd_exec (fun k c => Call.exec c k) .flusher c
  rw [schedule, List.append_assoc, ← hstate, tick]
  show _ = calls _ (_ ++ [Call.flusher]) (controlPortSender c).2
  by_cases hp : (controlPortSender c).2.state = .paused
  · simp only [if_pos hp]
    show Except.map Prod.snd (Flusher.tick (controlPortSender c).2 >>= _) = _
    exact map_snd_last (hflusher _) fun _ => rfl
  · simp only [if_neg hp]
    exact map_snd_bind (is_runPipeline.eq_calls _ trivial) fun r _ => map_snd_last (hflusher r.2) fun _ => rfl

end Akita.WriteBack
