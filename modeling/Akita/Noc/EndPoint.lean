import Akita.Sim.Buffer

/-!
# End points

`switching.EndPoint` : messages of the device ports leave as flits through the network port, and flits that arrive there are
put together to messages for the device ports.

* `Config` : what the builder and `PlugIn` set. The builder takes no flit size of zero;
* `msgToFlits` : the flits of a message, as many as its bytes with the encoding overhead need;
* `EndPoint.send`, `EndPoint.tick` : the two sides. A tick is given the answers of the connection of the network port and of
  the device ports to the coming `Send`s and `Recv`s;
* `Node` : an end point with what it has accepted, turned into flits, sent and delivered so far. Times are left out.
-/

namespace Akita.Noc.Switching
open Sim

variable {π : Type}

/-- A message of a device port: its ID, its destination and the bytes it takes on the way. -/
structure Msg (π : Type) where
  id : Nat
  dst : π
  trafficBytes : Int
deriving DecidableEq

/-- `messaging.Flit`, between two network ports. -/
structure Flit (π : Type) where
  src : π
  dst : π
  seqID : Nat
  numFlitInMsg : Nat
  msg : Msg π
deriving DecidableEq

structure Config (π : Type) where
  numInputChannels : Nat
  numOutputChannels : Nat
  flitByteSize : Nat
  /-- the overhead that the encoding adds to a number of bytes, rounded up -/
  encodingOverhead : Nat → Nat
  networkPortBufferSize : Nat
  networkPort : π
  defaultSwitchDst : π
  /-- the plugged-in ports, each with the capacity of its source side buffer -/
  devicePorts : List (π × Nat)
  flitByteSize_pos : 0 < flitByteSize

namespace Config

/-- Every port plugged in sets the size anew. -/
def msgOutBufSize (cfg : Config π) : Nat := (cfg.devicePorts.map Prod.snd).getLastD 0

def numFlit (cfg : Config π) (msg : Msg π) : Nat :=
  if 0 < msg.trafficBytes then
    let trafficByte := msg.trafficBytes.toNat + cfg.encodingOverhead msg.trafficBytes.toNat
    (trafficByte - 1) / cfg.flitByteSize + 1
  else 1

def msgToFlits (cfg : Config π) (msg : Msg π) : List (Flit π) :=
  (List.range (cfg.numFlit msg)).map fun i =>
    { src := cfg.networkPort, dst := cfg.defaultSwitchDst, seqID := i, numFlitInMsg := cfg.numFlit msg, msg }

end Config

structure MsgToAssemble (π : Type) where
  msg : Msg π
  numFlitRequired : Nat
  numFlitArrived : Nat
deriving DecidableEq

/-- `switching.EndPoint`. `assemblingMsgTable` finds the elements of `assemblingMsgs` by the ID of their message. -/
structure EndPoint (cfg : Config π) where
  msgOutBuf : List (Msg π) := []
  flitsToSend : List (Flit π) := []
  networkPort : Buffer cfg.networkPortBufferSize (Flit π) := {}
  assemblingMsgs : List (MsgToAssemble π) := []
  assembledMsgs : List (Msg π) := []
deriving DecidableEq

/-- The loop of `sendFlitOut`: the flits sent and those left. -/
def sendLoop (net : Nat → Bool) : Nat → Nat → List (Flit π) → List (Flit π) × List (Flit π)
  | 0, _, flits => ([], flits)
  | _ + 1, _, [] => ([], [])
  | k + 1, i, flit :: flits =>
    if net i then
      let (sent, rest) := sendLoop net k (i + 1) flits
      (flit :: sent, rest)
    else sendLoop net k (i + 1) (flit :: flits)

/-- The loop of `prepareFlits`: the messages left and the flits to send. -/
def prepareLoop (cfg : Config π) : List (Msg π) → List (Flit π) → List (Msg π) × List (Flit π)
  | [], flits => ([], flits)
  | msg :: rest, flits =>
    if (msg :: rest).length > cfg.numOutputChannels then (msg :: rest, flits)
    else prepareLoop cfg rest (flits ++ cfg.msgToFlits msg)

/-- The loop of `tryDeliver`, until a port refuses a message: the messages delivered and those left. -/
def deliverLoop (dev : Nat → Bool) : Nat → List (Msg π) → List (Msg π) × List (Msg π)
  | _, [] => ([], [])
  | i, msg :: rest =>
    if dev i then
      let (delivered, rest) := deliverLoop dev (i + 1) rest
      (msg :: delivered, rest)
    else ([], msg :: rest)

/-- A flit joins the others of its message, or is the first of them. -/
def arrived (flit : Flit π) : List (MsgToAssemble π) → List (MsgToAssemble π)
  | [] => [{ msg := flit.msg, numFlitRequired := flit.numFlitInMsg, numFlitArrived := 1 }]
  | e :: rest =>
    if e.msg.id = flit.msg.id then { e with numFlitArrived := e.numFlitArrived + 1 } :: rest else e :: arrived flit rest

namespace EndPoint

variable {cfg : Config π}

def canSend (ep : EndPoint cfg) : Bool := ep.msgOutBuf.length < cfg.msgOutBufSize

def send (ep : EndPoint cfg) (msg : Msg π) : Bool × EndPoint cfg :=
  if ep.msgOutBuf.length ≥ cfg.msgOutBufSize then (false, ep) else (true, { ep with msgOutBuf := ep.msgOutBuf ++ [msg] })

/-- What a tick sends to the network, whether it notifies the device ports, and what it delivers to them. -/
structure Effects (π : Type) where
  sent : List (Flit π) := []
  notified : Bool := false
  delivered : List (Msg π) := []

def sendFlitOut (ep : EndPoint cfg) (net : Nat → Bool) : Bool × EndPoint cfg × Effects π :=
  let (sent, flitsToSend) := sendLoop net cfg.numOutputChannels 0 ep.flitsToSend
  (!sent.isEmpty, { ep with flitsToSend }, { sent, notified := !sent.isEmpty && flitsToSend.isEmpty })

def prepareFlits (ep : EndPoint cfg) : Bool × EndPoint cfg :=
  let (msgOutBuf, flitsToSend) := prepareLoop cfg ep.msgOutBuf ep.flitsToSend
  (decide (msgOutBuf.length < ep.msgOutBuf.length), { ep with msgOutBuf, flitsToSend })

def tryDeliver (ep : EndPoint cfg) (dev : Nat → Bool) : Bool × EndPoint cfg × List (Msg π) :=
  let (delivered, assembledMsgs) := deliverLoop dev 0 ep.assembledMsgs
  (!delivered.isEmpty, { ep with assembledMsgs }, delivered)

def assemble (ep : EndPoint cfg) : Bool × EndPoint cfg :=
  let (complete, assemblingMsgs) := ep.assemblingMsgs.partition fun e => e.numFlitRequired ≤ e.numFlitArrived
  (!complete.isEmpty, { ep with assemblingMsgs, assembledMsgs := ep.assembledMsgs ++ complete.map MsgToAssemble.msg })

/-- The loop of `recv`. -/
def recvLoop : Nat → EndPoint cfg → Bool × EndPoint cfg
  | 0, ep => (false, ep)
  | k + 1, ep =>
    match ep.networkPort.peek with
    | none => (false, ep)
    | some flit =>
      (true, (recvLoop k { ep with assemblingMsgs := arrived flit ep.assemblingMsgs, networkPort := ep.networkPort.pop }).2)

def recv (ep : EndPoint cfg) : Bool × EndPoint cfg := recvLoop cfg.numInputChannels ep

def tick (ep : EndPoint cfg) (net dev : Nat → Bool) : Bool × EndPoint cfg × Effects π :=
  let (sentOut, ep, effects) := ep.sendFlitOut net
  let (prepared, ep) := ep.prepareFlits
  let (triedDeliver, ep, delivered) := ep.tryDeliver dev
  let (assembled, ep) := ep.assemble
  let (received, ep) := ep.recv
  (sentOut || prepared || triedDeliver || assembled || received, ep, { effects with delivered })

end EndPoint

/-! ## An end point and its past -/

structure Node (cfg : Config π) where
  ep : EndPoint cfg := {}
  /-- the messages that `Send` took -/
  accepted : List (Msg π) := []
  /-- the first of them, already turned into flits -/
  converted : List (Msg π) := []
  sent : List (Flit π) := []
  /-- the flits taken from the network port -/
  received : List (Flit π) := []
  delivered : List (Msg π) := []
deriving DecidableEq

namespace Node

variable {cfg : Config π}

def send (n : Node cfg) (msg : Msg π) : Node cfg :=
  { n with
    ep := (n.ep.send msg).2
    accepted := n.accepted ++ if (n.ep.send msg).1 then [msg] else [] }

def tick (n : Node cfg) (net dev : Nat → Bool) : Node cfg :=
  let (_, ep, effects) := n.ep.tick net dev
  { n with
    ep
    converted := n.converted ++ n.ep.msgOutBuf.take (n.ep.msgOutBuf.length - ep.msgOutBuf.length)
    sent := n.sent ++ effects.sent
    received := n.received ++
      n.ep.networkPort.elements.take (n.ep.networkPort.elements.length - ep.networkPort.elements.length)
    delivered := n.delivered ++ effects.delivered }

/-- The network delivers a flit, unless the port is full. -/
def arrive (n : Node cfg) (flit : Flit π) : Option (Node cfg) :=
  if n.ep.networkPort.canPush then
    some { n with ep := { n.ep with networkPort := ⟨n.ep.networkPort.elements ++ [flit]⟩ } }
  else none

end Node

end Akita.Noc.Switching
