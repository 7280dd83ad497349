import Akita.L1.Coalescer
import Akita.L1.DirectoryStage
import Akita.L1.BottomParser
import Akita.Stages

/-!
# The L1 caches: the control stage, ticks and surroundings

* `schedule` : the stage calls of a tick; `tick` : `Cache.Tick`;
* `System` : a cache with the lower level below it;
* `Reaches R m s ks` : a run over the memory `m` by the rules `R` reaches `s`, with the calls `ks` of a tick still to do;
* `System.replay G s i` : the input `i` with `G` before each call of a tick. `Reaches.replay` : it stays within the runs.
-/

namespace Akita.L1
open Sim Mem Mem.Cache

variable {cfg : Config}

namespace ControlStage

/-- The stages and lists of a cache that `hardResetCache` resets. -/
def hardResetCache (c : Cache cfg) (req : FlushReq) : Cache cfg :=
  { c with
    topPort := c.topPort.clear
    bottomPort := c.bottomPort.clear
    dirBuf := c.dirBuf.clear
    directory := c.directory.reset
    mshr := c.mshr.reset
    toCoalesce := []
    banks := fun i =>
      { buf := (c.banks i).buf.clear
        pipeline := (c.banks i).pipeline.clear
        postPipelineBuf := (c.banks i).postPipelineBuf.clear }
    transactions := []
    postCoalesceTransactions := []
    isPaused := req.pauseAfterFlushing || c.isPaused }

def shouldWaitForInFlightTransactions (c : Cache cfg) (req : FlushReq) : Bool :=
  !req.discardInflight && !c.transactions.isEmpty

def processCurrentFlush (c : Cache cfg) : Result cfg :=
  match c.currFlushReq with
  | none => .ok (false, c)
  | some req =>
    if shouldWaitForInFlightTransactions c req then .ok (false, c) else
      let (sent, controlPort) := c.controlPort.send (.flush req.src req.id)
      let c := { c with controlPort }
      if !sent then .ok (false, c)
      else .ok (true, { (hardResetCache c req).record (.flushed req c.nextRef c.nextID) with currFlushReq := none })

def startCacheFlush (c : Cache cfg) (req : FlushReq) : Result cfg :=
  if c.currFlushReq.isSome then .ok (false, c)
  else .ok (true, { c with currFlushReq := some req, controlPort := c.controlPort.retrieve })

def doCacheRestart (c : Cache cfg) (id : MsgID) (src : PortID) : Result cfg :=
  let c := { c with
    isPaused := false
    controlPort := c.controlPort.retrieve
    topPort := c.topPort.clear
    bottomPort := c.bottomPort.clear }
  let (sent, controlPort) := c.controlPort.send (.restart src id)
  if sent then .ok (true, { c with controlPort }) else .error "Unable to send restart rsp"

def processNewRequest (c : Cache cfg) : Result cfg :=
  match c.controlPort.peek with
  | none => .ok (false, c)
  | some (.flush req) => startCacheFlush c req
  | some (.restart id src) => doCacheRestart c id src

end ControlStage

/-! ## Ticks -/

/-- The calls a tick is made of. -/
inductive Call
  | respond
  | parse
  | finalize (bank : Nat)
  | tickBank (bank : Nat)
  | extract (bank : Nat)
  | accept
  | tickDir
  | process
  | coalesce
  | newRequest
  | currentFlush
deriving DecidableEq

def Call.exec (c : Cache cfg) : Call → Result cfg
  | respond => RespondStage.tick c
  | parse => BottomParser.tick c
  | finalize i => BankStage.finalizeTrans c i
  | tickBank i => BankStage.tickPipeline c i
  | extract i => BankStage.extractFromBuf c i
  | accept => DirectoryStage.accept c
  | tickDir => DirectoryStage.tickPipeline c
  | process => DirectoryStage.process c
  | coalesce => Coalescer.tick c
  | newRequest => ControlStage.processNewRequest c
  | currentFlush => ControlStage.processCurrentFlush c

open List in
/-- `bankStage.Tick`. -/
def bankCalls (cfg : Config) (i : Nat) : List Call :=
  replicate cfg.numReqPerCycle (.finalize i) ++ [Call.tickBank i] ++ replicate cfg.numReqPerCycle (.extract i)

open List in
/-- `directory.Tick`. -/
def directoryCalls (cfg : Config) : List Call :=
  replicate cfg.numReqPerCycle .accept ++ [Call.tickDir] ++ replicate cfg.numReqPerCycle .process

open List in
/-- `runPipeline`. The write-evict cache repeats the directory stage where the others repeat the coalescer. -/
def runPipeline (cfg : Config) : List Call :=
  replicate cfg.numReqPerCycle .respond ++ replicate cfg.numReqPerCycle .parse ++
    (range cfg.numBank).flatMap (bankCalls cfg) ++
    match cfg.policy with
    | .writeevict => (replicate cfg.numReqPerCycle (directoryCalls cfg)).flatten ++ [Call.coalesce]
    | _ => directoryCalls cfg ++ replicate cfg.numReqPerCycle .coalesce

/-- The calls of a tick. -/
def schedule (cfg : Config) (isPaused : Bool) : List Call :=
  (if isPaused then [] else runPipeline cfg) ++ [Call.newRequest, .currentFlush]

def calls : List Call → Cache cfg → Result cfg
  | [], c => .ok (false, c)
  | k :: ks, c => do
    let (p, c) ← k.exec c
    let (p', c) ← calls ks c
    return (p || p', c)

def tick (c : Cache cfg) : Result cfg := calls (schedule cfg c.isPaused) c

/-! ## The cache and its surroundings -/

/-- `answers` : the answers of the lower level that have not arrived yet. The requests it has received and not applied are
`cache.bottomPort.outgoing`. -/
structure System (cfg : Config) where
  cache : Cache cfg
  memory : Memory
  answers : List (AccessRsp Bytes) := []

inductive Input
  | request (req : TopReq)
  | control (req : ControlReq)
  | connect (top bottom control : List Bool)
  | apply (k : Nat)
  | deliver (k : Nat)
  | tick
deriving DecidableEq

namespace System

def init (cfg : Config) (memory : Memory) : System cfg := { cache := build cfg, memory }

def request (s : System cfg) (req : TopReq) : System cfg :=
  match s.cache.topPort.recv req with
  | some topPort => { s with cache := { s.cache with topPort } }
  | none => s

def control (s : System cfg) (req : ControlReq) : System cfg :=
  match s.cache.controlPort.recv req with
  | some controlPort => { s with cache := { s.cache with controlPort } }
  | none => s

def connect (s : System cfg) (top bottom control : List Bool) : System cfg :=
  { s with cache := { s.cache with
      topPort := { s.cache.topPort with conn := top }
      bottomPort := { s.cache.bottomPort with conn := bottom }
      controlPort := { s.cache.controlPort with conn := control } } }

/-- The lower level's answer to a request, and its bytes afterwards. -/
def serve (m : Memory) : AccessReq → AccessRsp Bytes × Memory
  | .read r => (.dataReady { dst := r.src, respondTo := r.id, data := m.read r.pid r.address r.accessByteSize }, m)
  | .write w => (.writeDone { dst := w.src, respondTo := w.id }, m.write w.pid w.address w.data w.dirtyMask)

/-- The lower level applies the `k`-th of the requests it has received. -/
def apply (s : System cfg) (k : Nat) : System cfg :=
  match s.cache.bottomPort.outgoing[k]? with
  | some req =>
    { cache := { s.cache with
        bottomPort := { s.cache.bottomPort with outgoing := s.cache.bottomPort.outgoing.eraseIdx k }
        log := s.cache.log ++ [Event.served req (serve s.memory req).1] }
      memory := (serve s.memory req).2
      answers := s.answers ++ [(serve s.memory req).1] }
  | none => s

/-- The `k`-th answer arrives at the bottom port. -/
def deliver (s : System cfg) (k : Nat) : System cfg :=
  match s.answers[k]? with
  | some rsp =>
    match s.cache.bottomPort.recv rsp with
    | some bottomPort => { s with cache := { s.cache with bottomPort }, answers := s.answers.eraseIdx k }
    | none => s
  | none => s

def step (s : System cfg) : Input → Except String (System cfg)
  | .request req => .ok (s.request req)
  | .control req => .ok (s.control req)
  | .connect top bottom control => .ok (s.connect top bottom control)
  | .apply k => .ok (s.apply k)
  | .deliver k => .ok (s.deliver k)
  | .tick => do
    let (_, cache) ← L1.tick s.cache
    return { s with cache }

def run (s : System cfg) : List Input → Except String (System cfg)
  | [] => .ok s
  | i :: is => do
    let s ← s.step i
    run s is

end System

/-- `request` and `control` : the messages that may arrive; `apply` : the requests that the lower level may apply next; `call`
: what holds before a stage call. -/
structure Rules (cfg : Config) where
  request : TopReq → Prop
  control : ControlReq → Prop
  apply : List AccessReq → Nat → Prop
  call : Cache cfg → Call → Prop

inductive Reaches (R : Rules cfg) (m : Memory) : System cfg → List Call → Prop
  | init : Reaches R m (.init cfg m) []
  | request {s : System cfg} (req : TopReq) (h : Reaches R m s []) (hreq : R.request req) : Reaches R m (s.request req) []
  | control {s : System cfg} (req : ControlReq) (h : Reaches R m s []) (hreq : R.control req) : Reaches R m (s.control req) []
  | connect {s : System cfg} (top bottom control : List Bool) (h : Reaches R m s []) :
      Reaches R m (s.connect top bottom control) []
  | apply {s : System cfg} (k : Nat) (h : Reaches R m s []) (hk : R.apply s.cache.bottomPort.outgoing k) :
      Reaches R m (s.apply k) []
  | deliver {s : System cfg} (k : Nat) (h : Reaches R m s []) : Reaches R m (s.deliver k) []
  | tick {s : System cfg} (h : Reaches R m s []) : Reaches R m s (schedule cfg s.cache.isPaused)
  | call {s : System cfg} {k : Call} {ks : List Call} {p : Bool} {c : Cache cfg} (h : Reaches R m s (k :: ks))
      (hk : R.call s.cache k) (hexec : k.exec s.cache = .ok (p, c)) : Reaches R m { s with cache := c } ks

/-! ## Replays -/

/-- A tick is done only if `G` holds before each of its calls. -/
def System.replay (G : Cache cfg → Call → Prop) [∀ c k, Decidable (G c k)] (s : System cfg) : Input → System cfg
  | .tick =>
    ((guarded G (fun k c => k.exec c) (schedule cfg s.cache.isPaused) s.cache).map fun c => { s with cache := c }).getD s
  | i => (s.step i).toOption.getD s

/-- The rules allow the input in every state. -/
def Rules.Allows (R : Rules cfg) : Input → Prop
  | .request req => R.request req
  | .control req => R.control req
  | .apply k => ∀ reqs, R.apply reqs k
  | _ => True

section
variable {R : Rules cfg} {m : Memory} {s : System cfg} {G : Cache cfg → Call → Prop} [∀ c k, Decidable (G c k)]

/-- A run goes on with the first calls `ks` of a tick. -/
theorem Reaches.upto (hG : ∀ c k, G c k → R.call c k) (h : Reaches R m s []) {ks ls : List Call}
    (hks : schedule cfg s.cache.isPaused = ks ++ ls) {c : Cache cfg}
    (hc : guarded G (fun k c => k.exec c) ks s.cache = some c) : Reaches R m { s with cache := c } ls :=
  guarded_induct (I := fun c ks => Reaches R m { s with cache := c } ks) (fun h hk hexec => h.call (hG _ _ hk) hexec) hc
    (hks ▸ h.tick)

theorem Reaches.replay (hG : ∀ c k, G c k → R.call c k) {is : List Input} (his : ∀ i ∈ is, R.Allows i)
    (h : Reaches R m s []) :
    Reaches R m (is.foldl (System.replay G) s) [] := by
  refine List.foldlRecOn (motive := fun s => Reaches R m s []) is _ h fun s hs i hi => ?_
  have hallows := his i hi
  cases i with
  | request req => exact hs.request req hallows
  | control req => exact hs.control req hallows
  | connect top bottom control => exact hs.connect top bottom control
  | apply k => exact hs.apply k (hallows _)
  | deliver k => exact hs.deliver k
  | tick =>
    unfold System.replay
    cases hc : guarded G (fun k c => k.exec c) (schedule cfg s.cache.isPaused) s.cache with
    | none => exact hs
    | some c => exact hs.upto hG (List.append_nil _).symm hc

end

end Akita.L1
