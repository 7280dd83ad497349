import Akita.Noc.EndPoint
import Akita.Pipelining.Impl

/-!
# Switches

`switching.Switch` : flits that arrive at a local port pass a pipeline, are given an output buffer, wait for the arbiter, and
leave through the local port of their output.

* `SwitchConfig` : the ports that were added, and what the routing table answers;
* `PortComplex` : `portComplex` with its local port. The ports are the keys: an output buffer is the send-out buffer of a
  port;
* `Switch.tick` : one tick, given the answers of the connections and the buffers that the arbiter selects;
* `XBarArbiter` : `arbitration.xbarArbiter`.
-/

namespace Akita.Noc.Switching
open Sim Pipelining List

variable {π : Type}

/-- What `SwitchPortAdder` sets, with the size of the buffer of the local port. -/
structure PortConfig (π : Type) where
  remotePort : π
  localPortBufferSize : Nat
  latency : Nat
  numInputChannel : Nat
  numOutputChannel : Nat

structure SwitchConfig (π : Type) where
  ports : List π
  complex : π → PortConfig π
  findPort : π → Option π
  nodup : ports.Nodup

/-- `portComplex`, with the flits that have arrived at the local port and those that it has sent. -/
structure PortComplex (c : PortConfig π) where
  localPort : Buffer c.localPortBufferSize (Flit π) := {}
  pipeline : PipelineImpl c.numInputChannel c.latency 1 (Flit π) := {}
  routeBuffer : Buffer c.numInputChannel (Flit π) := {}
  /-- each flit with its `OutputBuf` -/
  forwardBuffer : Buffer c.numInputChannel (Flit π × π) := {}
  sendOutBuffer : Buffer c.numOutputChannel (Flit π) := {}
  arrived : List (Flit π) := []
  sent : List (Flit π) := []

/-- A flit went from a forward buffer to a send-out buffer. -/
structure Move (π : Type) where
  src : π
  flit : Flit π
  out : π

structure Switch (cfg : SwitchConfig π) where
  complex : ∀ p, PortComplex (cfg.complex p) := fun _ => {}
  /-- all that was forwarded, in order -/
  moves : List (Move π) := []

namespace PortComplex

variable {c : PortConfig π}

/-- The loop of `startProcessing` for a port. -/
def startLoop : Nat → PortComplex c → Except String (Bool × PortComplex c)
  | 0, pc => .ok (false, pc)
  | k + 1, pc =>
    match pc.localPort.peek with
    | none => .ok (false, pc)
    | some flit =>
      if pc.pipeline.canAccept pc.routeBuffer then do
        let (pipeline, routeBuffer) ← pc.pipeline.accept pc.routeBuffer flit
        let (_, pc) ← startLoop k { pc with localPort := pc.localPort.pop, pipeline, routeBuffer }
        return (true, pc)
      else .ok (false, pc)

def startProcessing (pc : PortComplex c) : Except String (Bool × PortComplex c) := startLoop c.numInputChannel pc

def movePipeline (pc : PortComplex c) : Bool × PortComplex c :=
  let (progress, pipeline, routeBuffer) := pc.pipeline.tick pc.routeBuffer
  (progress, { pc with pipeline, routeBuffer })

/-- The loop of `route` for a port. -/
def routeLoop (assignFlitOutputBuf : Flit π → Except String π) : Nat → PortComplex c → Except String (Bool × PortComplex c)
  | 0, pc => .ok (false, pc)
  | k + 1, pc =>
    match pc.routeBuffer.peek with
    | none => .ok (false, pc)
    | some flit =>
      if pc.forwardBuffer.canPush then do
        let out ← assignFlitOutputBuf flit
        let (_, pc) ← routeLoop assignFlitOutputBuf k
          { pc with routeBuffer := pc.routeBuffer.pop, forwardBuffer := ⟨pc.forwardBuffer.elements ++ [(flit, out)]⟩ }
        return (true, pc)
      else .ok (false, pc)

def route (assignFlitOutputBuf : Flit π → Except String π) (pc : PortComplex c) : Except String (Bool × PortComplex c) :=
  routeLoop assignFlitOutputBuf c.numInputChannel pc

/-- `sendOut` for a port. A refused flit is tried again in the next round of the loop. -/
def sendOut (port : π) (net : Nat → Bool) (pc : PortComplex c) : Bool × PortComplex c :=
  let (sent, rest) := sendLoop net c.numOutputChannel 0 pc.sendOutBuffer.elements
  (!sent.isEmpty, { pc with
    sendOutBuffer := ⟨rest⟩
    sent := pc.sent ++ sent.map fun flit => { flit with src := port, dst := c.remotePort } })

end PortComplex

namespace Switch

variable [DecidableEq π] {cfg : SwitchConfig π}

def setComplex (s : Switch cfg) (port : π) (pc : PortComplex (cfg.complex port)) : Switch cfg :=
  { s with complex := Function.update s.complex port pc }

/-- A loop over ports. -/
def forPorts (f : ∀ port, PortComplex (cfg.complex port) → Except String (Bool × PortComplex (cfg.complex port))) :
    List π → Switch cfg → Except String (Bool × Switch cfg)
  | [], s => .ok (false, s)
  | port :: ports, s => do
    let (progress, pc) ← f port (s.complex port)
    let (madeProgress, s) ← forPorts f ports (s.setComplex port pc)
    return (progress || madeProgress, s)

/-- A missing complex has no send-out buffer. -/
def assignFlitOutputBuf (cfg : SwitchConfig π) (flit : Flit π) : Except String π :=
  match cfg.findPort flit.msg.dst with
  | none => .error "no output port"
  | some outPort => if outPort ∈ cfg.ports then .ok outPort else .error "no output buffer"

/-- A flit goes to the send-out buffer, and from the forward buffer of a port. -/
def forwardFlit (s : Switch cfg) (port : π) (flit : Flit π) (out : π) : Switch cfg :=
  let pc := s.complex out
  let s := s.setComplex out { pc with sendOutBuffer := ⟨pc.sendOutBuffer.elements ++ [flit]⟩ }
  let pc := s.complex port
  { s.setComplex port { pc with forwardBuffer := pc.forwardBuffer.pop } with
    moves := s.moves ++ [{ src := port, flit, out }] }

/-- The loop of `forward` on the flits of the forward buffer of a port. -/
def forwardLoop (port : π) : List (Flit π × π) → Switch cfg → Bool × Switch cfg
  | [], s => (false, s)
  | (flit, out) :: rest, s =>
    if (s.complex out).sendOutBuffer.canPush then (true, (forwardLoop port rest (s.forwardFlit port flit out)).2)
    else (false, s)

/-- `forward`, over the buffers that the arbiter selects. -/
def forward : List π → Switch cfg → Bool × Switch cfg
  | [], s => (false, s)
  | port :: ports, s =>
    let (progress, s) := forwardLoop port (s.complex port).forwardBuffer.elements s
    let (madeProgress, s) := forward ports s
    (progress || madeProgress, s)

def sendOut (net : π → Nat → Bool) (s : Switch cfg) : Except String (Bool × Switch cfg) :=
  forPorts (fun port pc => .ok (pc.sendOut port (net port))) cfg.ports s

def route (s : Switch cfg) : Except String (Bool × Switch cfg) :=
  forPorts (fun _ pc => pc.route (assignFlitOutputBuf cfg)) cfg.ports s

def movePipeline (s : Switch cfg) : Except String (Bool × Switch cfg) :=
  forPorts (fun _ pc => .ok pc.movePipeline) cfg.ports s

def startProcessing (s : Switch cfg) : Except String (Bool × Switch cfg) :=
  forPorts (fun _ pc => pc.startProcessing) cfg.ports s

/-- `Tick`, with the answers `net` of the connections and the selection of the arbiter. -/
def tick (s : Switch cfg) (net : π → Nat → Bool) (selected : List π) : Except String (Bool × Switch cfg) := do
  let (sentOut, s) ← s.sendOut net
  let (forwarded, s) := forward selected s
  let (routed, s) ← s.route
  let (moved, s) ← s.movePipeline
  let (started, s) ← s.startProcessing
  return (sentOut || forwarded || routed || moved || started, s)

/-- A flit arrives at a local port, unless it is full. -/
def arrive (s : Switch cfg) (port : π) (flit : Flit π) : Switch cfg :=
  let pc := s.complex port
  if pc.localPort.canPush then
    s.setComplex port { pc with localPort := ⟨pc.localPort.elements ++ [flit]⟩, arrived := pc.arrived ++ [flit] }
  else s

/-- The output of the first flit in a forward buffer. -/
def outputBuf (s : Switch cfg) (port : π) : Option π := (s.complex port).forwardBuffer.peek.map Prod.snd

end Switch

/-! ## The crossbar arbiter -/

/-- `arbitration.xbarArbiter`, with the ports of the forward buffers it arbitrates. -/
structure XBarArbiter (π : Type) where
  buffers : List π := []
  nextPortID : Nat := 0

namespace XBarArbiter

variable [DecidableEq π]

/-- The loop of `Arbitrate`. -/
def select (outputBuf : π → Option π) (occupiedOutputPort : List π) : List π → List π
  | [] => []
  | buf :: bufs =>
    match outputBuf buf with
    | none => select outputBuf occupiedOutputPort bufs
    | some out =>
      if out ∈ occupiedOutputPort then select outputBuf occupiedOutputPort bufs
      else buf :: select outputBuf (out :: occupiedOutputPort) bufs

def arbitrate (a : XBarArbiter π) (outputBuf : π → Option π) : Except String (List π × XBarArbiter π) :=
  if a.buffers.length = 0 then .error "integer divide by zero"
  else .ok (select outputBuf [] (a.buffers.rotate a.nextPortID),
    { a with nextPortID := (a.nextPortID + 1) % a.buffers.length })

variable {outputBuf : π → Option π} {occupied : List π} {bufs : List π}

/-- The arbiter selects buffers with a flit, no two for the same output, and one for each output that a first flit goes to. -/
theorem select_eq (outputBuf : π → Option π) (occupied bufs : List π) :
    (select outputBuf occupied bufs).Sublist bufs ∧
      (∀ p ∈ select outputBuf occupied bufs, ∃ out, outputBuf p = some out ∧ out ∉ occupied) ∧
      ((select outputBuf occupied bufs).map outputBuf).Nodup ∧
      ∀ p ∈ bufs, ∀ out, outputBuf p = some out →
        out ∈ occupied ∨ ∃ q ∈ select outputBuf occupied bufs, outputBuf q = some out := by
  induction bufs generalizing occupied with
  | nil => exact ⟨List.Sublist.slnil, forall_mem_nil _, nodup_nil, forall_mem_nil _⟩
  | cons buf _ ih =>
    unfold select
    cases hout : outputBuf buf with
    | none =>
      obtain ⟨hsub, hsome, hnodup, hall⟩ := ih occupied
      refine ⟨hsub.cons _, hsome, hnodup, fun p hp out hp' => ?_⟩
      rcases mem_cons.mp hp with rfl | hp
      · rw [hout] at hp'
        cases hp'
      · exact hall p hp out hp'
    | some o =>
      dsimp only
      split
      · next hocc =>
        obtain ⟨hsub, hsome, hnodup, hall⟩ := ih occupied
        refine ⟨hsub.cons _, hsome, hnodup, fun p hp out hp' => ?_⟩
        rcases mem_cons.mp hp with rfl | hp
        · rw [hout] at hp'
          cases hp'
          exact .inl hocc
        · exact hall p hp out hp'
      · next hfree =>
        obtain ⟨hsub, hsome, hnodup, hall⟩ := ih (o :: occupied)
        refine ⟨hsub.cons_cons _, fun p hp => ?_, ?_, fun p hp out hp' => ?_⟩
        · rcases mem_cons.mp hp with rfl | hp
          · exact ⟨o, hout, hfree⟩
          · obtain ⟨out, hp', hne⟩ := hsome p hp
            exact ⟨out, hp', fun h => hne (mem_cons_of_mem _ h)⟩
        · rw [map_cons, nodup_cons]
          refine ⟨fun hmem => ?_, hnodup⟩
          obtain ⟨q, hq, heq⟩ := mem_map.mp hmem
          obtain ⟨out, hq', hne⟩ := hsome q hq
          rw [hq', hout] at heq
          exact hne (Option.some.inj heq ▸ mem_cons_self)
        · rcases mem_cons.mp hp with rfl | hp
          · exact .inr ⟨p, mem_cons_self, hp'⟩
          · rcases hall p hp out hp' with hocc | ⟨q, hq, hq'⟩
            · rcases mem_cons.mp hocc with rfl | hocc
              · exact .inr ⟨buf, mem_cons_self, hout⟩
              · exact .inl hocc
            · exact .inr ⟨q, mem_cons_of_mem _ hq, hq'⟩

end XBarArbiter

end Akita.Noc.Switching
