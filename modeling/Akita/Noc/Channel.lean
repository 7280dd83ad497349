import Akita.Pipelining.Impl
import Akita.Returns

/-!
# Channels

`messaging.Channel` : two ports, and for each of them a buffer of the messages it sends, a pipeline and a post-pipeline
buffer. `Direction` is one way through it: the end of the port that sends (`ChannelEnd`) and the incoming buffer of the port
that receives.

* `Direction.send`, `canSend` : the sender's side. A sender that is refused leaves the end busy;
* `Direction.deliverOneEnd`, `moveMsgOneEnd` : the two halves of a tick;
* `Channel.step` : what a sender, the engine or a receiver does to the channel. Times are left out.

Over the code, a direction records what was accepted and retrieved, whether its sender waits for a notification (`waiting`),
and how many ticks found room in the receiving port (`roomy`).
-/

namespace Akita.Noc.Messaging
open Sim Pipelining

variable {width numStage cyclePerStage bufSize portSize : Nat} {α : Type}

/-- `messaging.channelEnd`, without its port. -/
structure ChannelEnd (width numStage cyclePerStage bufSize : Nat) (α : Type) where
  srcSideBuf : Buffer bufSize α := {}
  postPipelineBuf : Buffer bufSize α := {}
  pipeline : PipelineImpl width numStage cyclePerStage α := {}
  busy : Bool := false
deriving DecidableEq

/-- The loop of `moveMsgOneEnd` over the waiting messages: whether one moved, and whether the port was notified. -/
def ChannelEnd.fill (e : ChannelEnd width numStage cyclePerStage bufSize α) :
    List α → Except String (Bool × Bool × ChannelEnd width numStage cyclePerStage bufSize α)
  | [] => .ok (false, false, e)
  | msg :: rest =>
    if e.pipeline.canAccept e.postPipelineBuf then do
      let (pipeline, postPipelineBuf) ← e.pipeline.accept e.postPipelineBuf msg
      let e' := { e with srcSideBuf := ⟨rest⟩, pipeline, postPipelineBuf, busy := false }
      let (_, notified, e') ← e'.fill rest
      return (true, e.busy || notified, e')
    else .ok (false, false, e)

/-- One direction of a channel. -/
structure Direction (width numStage cyclePerStage bufSize portSize : Nat) (α : Type) where
  src : ChannelEnd width numStage cyclePerStage bufSize α := {}
  /-- the buffer of the port the messages go to -/
  incoming : Buffer portSize α := {}
  accepted : List α := []
  retrieved : List α := []
  waiting : Bool := false
  roomy : Nat := 0
deriving DecidableEq

namespace Direction

variable (d : Direction width numStage cyclePerStage bufSize portSize α)

def canSend : Bool × Direction width numStage cyclePerStage bufSize portSize α :=
  if d.src.srcSideBuf.canPush then (true, d)
  else (false, { d with src := { d.src with busy := true }, waiting := true })

def send (msg : α) : Bool × Direction width numStage cyclePerStage bufSize portSize α :=
  if d.src.srcSideBuf.canPush then
    (true, { d with src := { d.src with srcSideBuf := ⟨d.src.srcSideBuf.elements ++ [msg]⟩ },
                    accepted := d.accepted ++ [msg] })
  else (false, { d with src := { d.src with busy := true }, waiting := true })

/-- The port takes a message from its buffer. -/
def retrieve : Direction width numStage cyclePerStage bufSize portSize α :=
  { d with incoming := d.incoming.pop, retrieved := d.retrieved ++ d.incoming.peek.toList }

/-- The loop of `deliverOneEnd` over the messages of the post-pipeline buffer, until the port refuses one. -/
def hand (d : Direction width numStage cyclePerStage bufSize portSize α) :
    List α → Bool × Direction width numStage cyclePerStage bufSize portSize α
  | [] => (false, d)
  | msg :: rest =>
    if d.incoming.canPush then
      let d' := { d with src := { d.src with postPipelineBuf := ⟨rest⟩ }, incoming := ⟨d.incoming.elements ++ [msg]⟩ }
      (true, (d'.hand rest).2)
    else (false, d)

def deliverOneEnd : Bool × Direction width numStage cyclePerStage bufSize portSize α :=
  { d with roomy := d.roomy + d.incoming.canPush.toNat }.hand d.src.postPipelineBuf.elements

def moveMsgOneEnd : Except String (Bool × Direction width numStage cyclePerStage bufSize portSize α) := do
  let (progress, pipeline, postPipelineBuf) := d.src.pipeline.tick d.src.postPipelineBuf
  let src := { d.src with pipeline, postPipelineBuf }
  let (moved, notified, src) ← src.fill src.srcSideBuf.elements
  return (progress || moved, { d with src, waiting := d.waiting && !notified })

def tick : Except String (Bool × Direction width numStage cyclePerStage bufSize portSize α) := do
  let (progress, d) := d.deliverOneEnd
  let (progress', d) ← d.moveMsgOneEnd
  return (progress || progress', d)

end Direction

/-! ## The channel -/

inductive Side
  | left
  | right
deriving DecidableEq

/-- What the builder and `PlugIn` set: the pipelines, the two ports and the sizes of the buffers. -/
structure Config (π : Type) where
  pipelineWidth : Nat
  pipelineNumStages : Nat
  pipelineCyclesPerStage : Nat
  port : Side → π
  sourceSideBufSize : Side → Nat
  portBufSize : Side → Nat
  distinct : port .left ≠ port .right

/-- A message, with its source, its destination and what it carries. -/
structure Msg (π α : Type) where
  src : Option π
  dst : Option π
  data : α
deriving DecidableEq

structure Channel {π : Type} (cfg : Config π) (α : Type) where
  left : Direction cfg.pipelineWidth cfg.pipelineNumStages cfg.pipelineCyclesPerStage (cfg.sourceSideBufSize .left)
    (cfg.portBufSize .right) (Msg π α) := {}
  right : Direction cfg.pipelineWidth cfg.pipelineNumStages cfg.pipelineCyclesPerStage (cfg.sourceSideBufSize .right)
    (cfg.portBufSize .left) (Msg π α) := {}

/-- What happens to a channel: a port asks or sends, the engine ticks the channel, a port retrieves a message. -/
inductive Op (π α : Type)
  | canSend (port : Side)
  | send (msg : Msg π α)
  | tick
  | retrieve (port : Side)

namespace Channel

variable {π : Type} [DecidableEq π] {cfg : Config π}

def portMustNotBeNil (port : Option π) : Except String π :=
  match port with
  | none => .error "src or dst is not given"
  | some port => .ok port

def portMustBeConnected (cfg : Config π) (port : π) : Except String Unit :=
  if port = cfg.port .left ∨ port = cfg.port .right then .ok () else .error "src or dst is not connected"

def msgMustBeValid (cfg : Config π) (msg : Msg π α) : Except String Unit := do
  let src ← portMustNotBeNil msg.src
  let dst ← portMustNotBeNil msg.dst
  portMustBeConnected cfg src
  portMustBeConnected cfg dst
  if src = dst then .error "sending back to src" else .ok ()

def send (c : Channel cfg α) (msg : Msg π α) : Except String (Bool × Channel cfg α) := do
  msgMustBeValid cfg msg
  if msg.src = some (cfg.port .left) then
    let (sent, left) := c.left.send msg
    return (sent, { c with left })
  else
    let (sent, right) := c.right.send msg
    return (sent, { c with right })

def deliver (c : Channel cfg α) : Bool × Channel cfg α :=
  let (progress, left) := c.left.deliverOneEnd
  let (progress', right) := c.right.deliverOneEnd
  (progress || progress', { left, right })

def moveMsg (c : Channel cfg α) : Except String (Bool × Channel cfg α) := do
  let (progress, left) ← c.left.moveMsgOneEnd
  let (progress', right) ← c.right.moveMsgOneEnd
  return (progress || progress', { left, right })

def tick (c : Channel cfg α) : Except String (Bool × Channel cfg α) := do
  let (progress, c) := c.deliver
  let (progress', c) ← c.moveMsg
  return (progress || progress', c)

def step (c : Channel cfg α) : Op π α → Except String (Channel cfg α)
  | .canSend .left => .ok { c with left := c.left.canSend.2 }
  | .canSend .right => .ok { c with right := c.right.canSend.2 }
  | .send msg => do
    let (_, c) ← c.send msg
    return c
  | .tick => do
    let (_, c) ← c.tick
    return c
  | .retrieve .left => .ok { c with right := c.right.retrieve }
  | .retrieve .right => .ok { c with left := c.left.retrieve }

def run (c : Channel cfg α) (ops : List (Op π α)) : Except String (Channel cfg α) := ops.foldlM step c

end Channel

end Akita.Noc.Messaging
