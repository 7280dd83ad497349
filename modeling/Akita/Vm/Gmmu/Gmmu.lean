import Akita.Vm.Mmu.Mmu

/-!
# The GMMUs

`gmmu.GMMU`, `L2gmmu.GMMU` and `gmmuneighbors.GMMU`, with the MMU below that answers what they forward. A tick sends one
response, takes one request, walks the page table for each translation, and takes one response from below. A request for a
page of another device is forwarded; its transaction is kept under the virtual address until the response comes.

* `Kind` : which of the three; `GMMU` : the state, `tick` : `GMMU.Tick`;
* `System` : the GMMU with the responses under way below it, `Reaches`.

The three differ in the devices that count as local, in what they pass on with a request, in the prediction that `gmmu` and
`L2gmmu` may do, and in the migration queue of `L2gmmu`.
-/

namespace Akita.Vm.Gmmu
open Mem Sim
open Vm.Mmu (keep)

inductive Kind
  | gmmu | l2gmmu | gmmuneighbors
deriving DecidableEq

/-- The parameters of `Builder`. -/
structure Config where
  kind : Kind
  deviceID : UInt64
  deviceIDList : List UInt64 := []
  latency : Nat
  maxRequestsInFlight : Nat
  migrationQueueSize : Nat := 4096
  isPrediction : Bool := false
  topSenderCapacity : Nat := 4096
  topPort : PortID
  bottomPort : PortID
  lowModule : PortID

structure Transaction where
  req : TranslationReq
  page : Page := {}
  cycleLeft : Nat
deriving DecidableEq

/-- A response from below, with its own ID. -/
structure Rsp extends TranslationRsp where
  id : MsgID
deriving DecidableEq

/-- What is observed of a run. `forward` : a request goes down; `answer` : a response to a request was given to the top
sender. -/
inductive Event
  | reqReceive (req : TranslationReq)
  | forward (req : TranslationReq)
  | answer (req : TranslationReq) (rsp : TranslationRsp)
deriving DecidableEq

variable (cfg : Config)

structure GMMU where
  topPort : Port 4096 TranslationReq TranslationRsp := {}
  bottomPort : Port 4096 Rsp TranslationReq := {}
  topSender : BufferedSender cfg.topSenderCapacity TranslationRsp := {}
  pageTable : PageTable
  walkingTranslations : List Transaction := []
  migrationQueue : List Transaction := []
  remoteMemReqs : VAddr → Option Transaction := fun _ => none
  toRemoveFromPTW : List Nat := []
  nextID : MsgID := 0
  log : List Event := []

variable {cfg : Config}

/-- The result of a stage: whether it made progress, and the GMMU it leaves. -/
abbrev Result (cfg : Config) := Except String (Bool × GMMU cfg)

/-! ## The top sender -/

/-- `topSender.Tick`. -/
def tickSender (m : GMMU cfg) : Result cfg :=
  match m.topSender.buffer.peek with
  | none => .ok (false, m)
  | some msg =>
    let (sent, topPort) := m.topPort.send msg
    if !sent then .ok (false, { m with topPort })
    else .ok (true, { m with topPort, topSender := { buffer := m.topSender.buffer.pop } })

/-- A response to `req` is given to the top sender. -/
def answer (m : GMMU cfg) (req : TranslationReq) (rsp : TranslationRsp) : Except String (GMMU cfg) := do
  let topSender ← m.topSender.send rsp
  return { m with topSender, log := m.log ++ [Event.answer req rsp] }

/-! ## Walking -/

/-- `page, _ := pageTable.Find(..)`: the zero page when there is none. -/
def findPage (m : GMMU cfg) (req : TranslationReq) : Page := (m.pageTable.find req.pid req.vAddr).getD {}

/-- Whether `walkPageTable` takes the page for one of its own devices. -/
def isLocal (cfg : Config) (page : Page) : Bool :=
  match cfg.kind with
  | .l2gmmu => cfg.deviceIDList.contains page.deviceID
  | _ => page.deviceID == cfg.deviceID

/-- The origin port that is passed on with a request or a response. -/
def originPortOf (cfg : Config) (req : TranslationReq) : PortID :=
  match cfg.kind with
  | .gmmu => req.originPort
  | _ => 0

/-- The request that goes down. -/
def reqToBottom (cfg : Config) (id : MsgID) (walking : TranslationReq) : TranslationReq :=
  { id, src := cfg.bottomPort, dst := cfg.lowModule, pid := walking.pid, vAddr := walking.vAddr, deviceID := walking.deviceID,
    taskID := walking.taskID, originPort := originPortOf cfg walking }

def processRemoteMemReq (m : GMMU cfg) (walkingIndex : Nat) (walking : Transaction) : Bool × GMMU cfg :=
  let m := { m with remoteMemReqs := Function.update m.remoteMemReqs walking.req.vAddr (some walking) }
  let (sent, bottomPort) := m.bottomPort.send (reqToBottom cfg m.nextID walking.req)
  if !sent then (false, { m with bottomPort, nextID := m.nextID + 1 })
  else (true, { m with
    bottomPort
    nextID := m.nextID + 1
    toRemoveFromPTW := m.toRemoveFromPTW ++ [walkingIndex]
    log := m.log ++ [Event.forward walking.req] })

def pageNeedMigrate (walking : Transaction) : Bool :=
  walking.req.deviceID != walking.page.deviceID && walking.page.unified && !walking.page.isPinned

def addTransactionToMigrationQueue (m : GMMU cfg) (walkingIndex : Nat) (walking : Transaction) : Result cfg :=
  if m.migrationQueue.length ≥ cfg.migrationQueueSize then .ok (false, m) else do
    let pageTable ← m.pageTable.update { walking.page with isMigrating := true }
    return (true, { m with
      toRemoveFromPTW := m.toRemoveFromPTW ++ [walkingIndex]
      migrationQueue := m.migrationQueue ++ [walking]
      pageTable })

def doPageWalkHit (m : GMMU cfg) (walkingIndex : Nat) (walking : Transaction) : Result cfg := do
  let ok ← m.topSender.canSend 1
  if !ok then return (false, m) else
  let m ← answer m walking.req
    { src := cfg.topPort, dst := walking.req.src, respondTo := walking.req.id, page := walking.page,
      taskID := walking.req.taskID, originPort := originPortOf cfg walking.req }
  return (true, { m with toRemoveFromPTW := m.toRemoveFromPTW ++ [walkingIndex] })

/-- The walk goes to the migration queue, which only `L2gmmu` has. -/
def queues (cfg : Config) (walking : Transaction) : Bool :=
  cfg.kind == .l2gmmu && (walking.page.isMigrating || pageNeedMigrate walking)

def finalizePageWalk (m : GMMU cfg) (walkingIndex : Nat) (walking : Transaction) : Result cfg :=
  let walking := { walking with page := findPage m walking.req }
  let m := { m with walkingTranslations := m.walkingTranslations.set walkingIndex walking }
  if queues cfg walking then addTransactionToMigrationQueue m walkingIndex walking
  else doPageWalkHit m walkingIndex walking

/-- The body of the first loop of `walkPageTable`. -/
def walk (m : GMMU cfg) (i : Nat) : Result cfg :=
  match m.walkingTranslations[i]? with
  | none => .error "runtime error: index out of range"
  | some walking =>
    if walking.cycleLeft > 0 then
      .ok (true, { m with walkingTranslations := m.walkingTranslations.set i { walking with
        cycleLeft := walking.cycleLeft - 1 } })
    else if isLocal cfg (findPage m walking.req) then finalizePageWalk m i walking
    else .ok (processRemoteMemReq m i walking)

/-- The second loop of `walkPageTable`. -/
def removeWalked (m : GMMU cfg) : GMMU cfg :=
  { m with walkingTranslations := keep m.toRemoveFromPTW m.walkingTranslations, toRemoveFromPTW := [] }

def walkAll (m : GMMU cfg) : List Nat → Result cfg
  | [] => .ok (false, m)
  | i :: is => do
    let (progress, m) ← walk m i
    let (progress', m) ← walkAll m is
    return (progress || progress', m)

def walkPageTable (m : GMMU cfg) : Result cfg := do
  let (progress, m) ← walkAll m (List.range m.walkingTranslations.length)
  return (progress, removeWalked m)

/-! ## New requests -/

def sendReqToBottomPort (m : GMMU cfg) : Except String (GMMU cfg) :=
  match m.walkingTranslations[m.walkingTranslations.length - 1]? with
  | none => .error "runtime error: index out of range"
  | some lastTranslation =>
    if (findPage m lastTranslation.req).deviceID = cfg.deviceID then .ok m
    else .ok (removeWalked (processRemoteMemReq m (m.walkingTranslations.length - 1) lastTranslation).2)

/-- Whether `startWalking` forwards at once what is not local. -/
def predicts (cfg : Config) : Bool := cfg.kind != .gmmuneighbors && cfg.isPrediction

def startWalking (m : GMMU cfg) (req : TranslationReq) : Except String (GMMU cfg) :=
  let m := { m with walkingTranslations := m.walkingTranslations ++ [{ req, cycleLeft := cfg.latency }] }
  if predicts cfg then sendReqToBottomPort m else .ok m

def parseFromTop (m : GMMU cfg) : Result cfg :=
  if m.walkingTranslations.length ≥ cfg.maxRequestsInFlight then .ok (false, m) else
  match m.topPort.peek with
  | none => .ok (false, m)
  | some req => do
    let m ← startWalking { m with topPort := m.topPort.retrieve, log := m.log ++ [Event.reqReceive req] } req
    return (true, m)

/-! ## Responses from below -/

/-- The response that is passed on. It responds to the ID of the response. -/
def rspToTop (cfg : Config) (req : TranslationReq) (rsponse : Rsp) : TranslationRsp :=
  { src := cfg.topPort, dst := req.src, respondTo := rsponse.id, page := rsponse.page,
    taskID := match cfg.kind with
      | .gmmu => req.taskID
      | _ => ""
    originPort := originPortOf cfg req }

def handleTranslationRsp (m : GMMU cfg) (rsponse : Rsp) : Result cfg :=
  match m.remoteMemReqs rsponse.page.vAddr with
  | none => .error "runtime error: invalid memory address or nil pointer dereference"
  | some reqTransaction => do
    let m ← answer m reqTransaction.req (rspToTop cfg reqTransaction.req rsponse)
    return (true, { m with remoteMemReqs := Function.update m.remoteMemReqs rsponse.page.vAddr none })

def fetchFromBottom (m : GMMU cfg) : Result cfg := do
  let ok ← m.topSender.canSend 1
  if !ok then return (false, m) else
  match m.bottomPort.peek with
  | none => return (false, m)
  | some rsp => handleTranslationRsp { m with bottomPort := m.bottomPort.retrieve } rsp

def tick (m : GMMU cfg) : Result cfg := do
  let (p1, m) ← tickSender m
  let (p2, m) ← parseFromTop m
  let (p3, m) ← walkPageTable m
  let (p4, m) ← fetchFromBottom m
  return (p1 || p2 || p3 || p4, m)

/-! ## Calls -/

/-- The calls a tick is made of. -/
inductive Call
  | sender | parse | walk (i : Nat) | remove | fetch
deriving DecidableEq

def Call.exec (m : GMMU cfg) : Call → Result cfg
  | sender => tickSender m
  | parse => parseFromTop m
  | walk i => Gmmu.walk m i
  | remove => .ok (false, removeWalked m)
  | fetch => fetchFromBottom m

/-- The calls of a tick that follow `parse`, one walk for each translation there is then. -/
def walks (m : GMMU cfg) : List Call := (List.range m.walkingTranslations.length).map .walk ++ [.remove, .fetch]

/-- What is left to do of a tick after a call. -/
def todo (m : GMMU cfg) : Call → List Call → List Call
  | .parse, _ => walks m
  | _, ks => ks

/-! ## The GMMU and its surroundings -/

/-- `rsps` : the responses of the MMU below that have not arrived yet. What it has not answered are the requests that the
bottom port has sent. -/
structure System (cfg : Config) where
  gmmu : GMMU cfg
  rsps : List Rsp := []

namespace System

/-- A request arrives. -/
def request (s : System cfg) (req : TranslationReq) : System cfg :=
  match s.gmmu.topPort.recv req with
  | some topPort => { s with gmmu := { s.gmmu with topPort } }
  | none => s

def connect (s : System cfg) (top bottom : List Bool) : System cfg :=
  { s with gmmu := { s.gmmu with topPort := { s.gmmu.topPort with conn := top },
                                 bottomPort := { s.gmmu.bottomPort with conn := bottom } } }

/-- A page of the page table changes. -/
def setPage (s : System cfg) (page : Page) : System cfg :=
  { s with gmmu := { s.gmmu with pageTable := s.gmmu.pageTable.set page } }

/-- The MMU answers the `k`-th of the requests it has received with the page of its process and address. -/
def answer (s : System cfg) (k : Nat) (id : MsgID) (page : Page) : System cfg :=
  match s.gmmu.bottomPort.outgoing[k]? with
  | some req =>
    { s with
      gmmu := { s.gmmu with bottomPort := { s.gmmu.bottomPort with outgoing := s.gmmu.bottomPort.outgoing.eraseIdx k } }
      rsps := s.rsps ++ [{ id, dst := req.src, respondTo := req.id, page := { page with pid := req.pid, vAddr := req.vAddr },
                           taskID := req.taskID }] }
  | none => s

/-- The `k`-th response of the MMU arrives. -/
def deliver (s : System cfg) (k : Nat) : System cfg :=
  match s.rsps[k]? with
  | some rsp =>
    match s.gmmu.bottomPort.recv rsp with
    | some bottomPort => { s with gmmu := { s.gmmu with bottomPort }, rsps := s.rsps.eraseIdx k }
    | none => s
  | none => s

end System

/-- A run whose calls meet `G` reaches `s`, with the calls `ks` of a tick still to do. The requests are for pages that exist,
by the address of the page. -/
inductive Reaches (G : System cfg → Call → Prop) : System cfg → List Call → Prop
  | init (pageTable : PageTable) : Reaches G { gmmu := { pageTable } } []
  | request {s : System cfg} (req : TranslationReq) (h : Reaches G s [])
      (hpage : (s.gmmu.pageTable.find req.pid req.vAddr).isSome = true)
      (haligned : s.gmmu.pageTable.alignToPage req.vAddr = req.vAddr) : Reaches G (s.request req) []
  | connect {s : System cfg} (top bottom : List Bool) (h : Reaches G s []) : Reaches G (s.connect top bottom) []
  | setPage {s : System cfg} (page : Page) (h : Reaches G s []) : Reaches G (s.setPage page) []
  | answer {s : System cfg} (k : Nat) (id : MsgID) (page : Page) (h : Reaches G s []) : Reaches G (s.answer k id page) []
  | deliver {s : System cfg} (k : Nat) (h : Reaches G s []) : Reaches G (s.deliver k) []
  | tick {s : System cfg} (h : Reaches G s []) : Reaches G s [.sender, .parse]
  | call {s : System cfg} {k : Call} {ks : List Call} {p : Bool} {m : GMMU cfg} (h : Reaches G s (k :: ks)) (hG : G s k)
      (hexec : k.exec s.gmmu = .ok (p, m)) : Reaches G { s with gmmu := m } (todo m k ks)

end Akita.Vm.Gmmu
