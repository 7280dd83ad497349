import Akita.Mem.Memory
import Akita.WriteBack.Tick

/-!
# The write-back cache and its surroundings

A `System` is a cache with the lower memory below it. An `Input` is what can happen to it: a message is delivered to a
port, the connections decide which coming sends they accept, the lower memory applies one of the requests it has
received or one of its answers arrives, the cache ticks. `System.step` executes an input; an input that is not
possible, such as a delivery to a full port, leaves the system as it is.
-/

namespace Akita.WriteBack
open Sim Mem Mem.Cache

/-- `requested` are the requests delivered to the top port so far, `answers` the answers of the lower memory that have
not arrived yet. The requests it has received and not applied are `cache.bottomPort.outgoing`. -/
structure System (cfg : Config) where
  cache : Cache cfg
  memory : Memory
  answers : List (AccessRsp Bytes) := []
  requested : List AccessReq := []

inductive Input
  | request (req : AccessReq)
  | control (req : ControlReq)
  | connect (top bottom control : List Bool)
  | apply (k : Nat)
  | answer (k : Nat)
  | tick
deriving DecidableEq

variable {cfg : Config}

namespace System

def init (cfg : Config) (memory : Memory) : System cfg := { cache := build cfg, memory }

def request (s : System cfg) (req : AccessReq) : System cfg :=
  match s.cache.topPort.recv req with
  | some topPort => { s with cache := { s.cache with topPort }, requested := s.requested ++ [req] }
  | none => s

def control (s : System cfg) (req : ControlReq) : System cfg :=
  match s.cache.controlPort.recv req with
  | some controlPort => { s with cache := { s.cache with controlPort } }
  | none => s

def connect (s : System cfg) (top bottom control : List Bool) : System cfg :=
  { s with cache := { s.cache with
      topPort := { s.cache.topPort with conn := top }
      bottomPort := { s.cache.bottomPort with conn := bottom }
      controlPort := { s.cache.controlPort with conn := control } } }

/-- The lower memory's answer to a request, and its bytes afterwards. -/
def serve (slices : Slices) (m : Memory) : BottomReq → AccessRsp Bytes × Memory
  | .read r => (.dataReady { dst := r.src, respondTo := r.id, data := m.read r.pid r.address r.accessByteSize }, m)
  | .write w =>
    (.writeDone { dst := w.src, respondTo := w.id },
      m.write w.pid w.address (slices.bytes w.data) (w.dirtyMask.map slices.masks))

/-- The lower memory applies the `k`-th of the requests it has received. -/
def apply (s : System cfg) (k : Nat) : System cfg :=
  match s.cache.bottomPort.outgoing[k]? with
  | some req =>
    let (rsp, memory) := serve s.cache.slices s.memory req
    { s with
      cache := { s.cache with
        bottomPort := { s.cache.bottomPort with outgoing := s.cache.bottomPort.outgoing.eraseIdx k } }
      memory := memory
      answers := s.answers ++ [rsp] }
  | none => s

/-- The `k`-th answer arrives at the bottom port. -/
def answer (s : System cfg) (k : Nat) : System cfg :=
  match s.answers[k]? with
  | some rsp =>
    match s.cache.bottomPort.recv rsp with
    | some bottomPort => { s with cache := { s.cache with bottomPort }, answers := s.answers.eraseIdx k }
    | none => s
  | none => s

def step (s : System cfg) : Input → Except String (System cfg)
  | .request req => .ok (s.request req)
  | .control req => .ok (s.control req)
  | .connect top bottom control => .ok (s.connect top bottom control)
  | .apply k => .ok (s.apply k)
  | .answer k => .ok (s.answer k)
  | .tick => do
    let (_, cache) ← tick s.cache
    return { s with cache }

def run (s : System cfg) : List Input → Except String (System cfg)
  | [] => .ok s
  | i :: is => do
    let s ← s.step i
    run s is

end System

end Akita.WriteBack
