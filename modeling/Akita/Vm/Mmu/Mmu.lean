import Akita.Vm.PageTable

/-!
# The MMU

`mmu.MMU` of `mem/vm/mmu/mmu.go`, with the driver that migrates pages. A tick sends one response, deals with the head of the
migration queue, walks the page table for each translation, processes the end of a migration, and takes new requests.

* `MMU` : the state, `tick` : `MMU.Tick`.

The IDs and task IDs generated for outgoing messages are left out.
-/

namespace Akita.Vm.Mmu
open Mem Sim

/-- The parameters of `Builder`. -/
structure Config where
  latency : Nat
  maxRequestsInFlight : Nat := 16
  migrationQueueSize : Nat := 4096
  topSenderCapacity : Nat := 4096
  topPort : PortID
  migrationPort : PortID
  migrationServiceProvider : PortID
  innerLoop : UInt64 → UInt64
  middleLoop : UInt64 → UInt64
  gmmuCacheTable : UInt64 → Option PortID

structure PageLoadMsg where
  src : PortID
  dst : PortID
  page : Page
deriving DecidableEq

/-- What goes out of the top port. -/
inductive TopMsg
  | rsp (rsp : TranslationRsp)
  | pageLoad (msg : PageLoadMsg)
deriving DecidableEq

/-- `vm.PageMigrationReqToDriver`, the map from devices to addresses as its list of pairs. -/
structure PageMigrationReqToDriver where
  src : PortID
  dst : PortID
  pid : PID
  pageSize : UInt64
  currPageHostGPU : UInt64
  gpuReqToVAddrMap : List (UInt64 × List VAddr)
  currAccessingGPUs : List UInt64
  respondToTop : Bool
deriving DecidableEq

structure PageMigrationRspFromDriver where
  vAddr : List VAddr := []
  rspToTop : Bool := false
deriving DecidableEq

structure Transaction where
  req : TranslationReq
  page : Page := {}
  cycleLeft : Nat
  migration : Option PageMigrationReqToDriver := none
deriving DecidableEq

/-- What is observed of a run. `handed` : a message was given to the top sender, and whether a `CanSend` of this tick covers
it; `answer` : a response to a request was given to the top sender; `migrate` : the migration of a page was asked of the
driver; `migrated` : the driver's answer for the page was taken. -/
inductive Event
  | reqReceive (req : TranslationReq)
  | handed (msg : TopMsg) (covered : Bool)
  | answer (req : TranslationReq) (rsp : TranslationRsp)
  | migrate (page : Page)
  | migrated (page : Page)
deriving DecidableEq

variable (cfg : Config)

/-- `MMU`. `credit` is the number of messages the last `CanSend` of the tick still covers. -/
structure MMU where
  topPort : Port 4096 TranslationReq TopMsg := {}
  migrationPort : Port 1 PageMigrationRspFromDriver PageMigrationReqToDriver := {}
  topSender : BufferedSender cfg.topSenderCapacity TopMsg := {}
  pageTable : PageTable
  walkingTranslations : List Transaction := []
  migrationQueue : List Transaction := []
  currentOnDemandMigration : Option Transaction := none
  isDoingMigration : Bool := false
  toRemoveFromPTW : List Nat := []
  pageAccessedByDeviceID : VAddr → List UInt64 := fun _ => []
  credit : Nat := 0
  log : List Event := []

variable {cfg : Config}

/-- The result of a stage: whether it made progress, and the MMU it leaves. -/
abbrev Result (cfg : Config) := Except String (Bool × MMU cfg)

/-! ## The top sender -/

/-- `topSender.CanSend(1)`. -/
def canSend (m : MMU cfg) : Result cfg := do
  let ok ← m.topSender.canSend 1
  return (ok, if ok then { m with credit := 1 } else m)

def send (m : MMU cfg) (msg : TopMsg) : Except String (MMU cfg) := do
  let topSender ← m.topSender.send msg
  return { m with topSender, credit := m.credit - 1, log := m.log ++ [Event.handed msg (0 < m.credit)] }

/-- `topSender.Tick`. -/
def tickSender (m : MMU cfg) : Result cfg :=
  match m.topSender.buffer.peek with
  | none => .ok (false, m)
  | some msg =>
    let (sent, topPort) := m.topPort.send msg
    if !sent then .ok (false, { m with topPort })
    else .ok (true, { m with topPort, topSender := { buffer := m.topSender.buffer.pop } })

/-! ## Walking -/

/-- The response to a request. -/
def rspOf (cfg : Config) (dst : PortID) (req : TranslationReq) (page : Page) (taskID : String) : TranslationRsp :=
  { src := cfg.topPort, dst, respondTo := req.id, page, taskID }

def pageNeedMigrate (walking : Transaction) : Bool :=
  walking.req.deviceID != walking.page.deviceID && walking.page.unified && !walking.page.isPinned

def addTransactionToMigrationQueue (m : MMU cfg) (walkingIndex : Nat) (walking : Transaction) : Result cfg :=
  if m.migrationQueue.length ≥ cfg.migrationQueueSize then .ok (false, m) else do
    let pageTable ← m.pageTable.update { walking.page with isMigrating := true }
    return (true, { m with
      toRemoveFromPTW := m.toRemoveFromPTW ++ [walkingIndex]
      migrationQueue := m.migrationQueue ++ [walking]
      pageTable })

def getNextLayerGPUID (vaddr totalID : UInt64) : UInt64 := (vaddr >>> 12) % totalID

/-- The page-load message that `sendToGMMU` builds for a loop of `totalID` GPUs. -/
def pageLoad (cfg : Config) (loop : UInt64 → UInt64) (totalID : UInt64) (vAddr : VAddr) (page : Page) :
    Except String TopMsg :=
  match cfg.gmmuCacheTable (loop (getNextLayerGPUID vAddr totalID)) with
  | some dst => .ok (.pageLoad { src := cfg.topPort, dst, page })
  | none => .error "No port found for device"

/-- The first branch of `sendToGMMU`. -/
def loadInner (m : MMU cfg) (walking : Transaction) (page : Page) : Except String (MMU cfg) :=
  if page.accessCounts > 1 then do
    let msg ← pageLoad cfg cfg.innerLoop 8 walking.req.vAddr page
    send m msg
  else .ok m

/-- The second branch of `sendToGMMU`. -/
def loadMiddle (m : MMU cfg) (walking : Transaction) (page : Page) : Except String (MMU cfg) :=
  if page.accessCounts > 2 then do
    let msg ← pageLoad cfg cfg.middleLoop 16 walking.req.vAddr page
    let m ← send m msg
    let pageTable ← m.pageTable.update { page with accessCounts := 0 }
    return { m with pageTable }
  else .ok m

def sendToGMMU (m : MMU cfg) (walking : Transaction) : Result cfg :=
  match m.pageTable.find walking.req.pid walking.req.vAddr with
  | none => .error "page not found"
  | some page => do
    let m ← loadInner m walking page
    let m ← loadMiddle m walking page
    return (decide (page.accessCounts > 1), m)

def doPageWalkHit (m : MMU cfg) (walkingIndex : Nat) (walking : Transaction) : Result cfg := do
  let (ok, m) ← canSend m
  if !ok then return (false, m) else
  let rsp := rspOf cfg walking.req.src walking.req walking.page walking.req.taskID
  let m ← send m (.rsp rsp)
  let pageTable ← m.pageTable.updateAccessCounts walking.req.pid walking.req.vAddr
  let (_, m) ← sendToGMMU { m with pageTable, log := m.log ++ [Event.answer walking.req rsp] } walking
  return (true, { m with toRemoveFromPTW := m.toRemoveFromPTW ++ [walkingIndex] })

def finalizePageWalk (m : MMU cfg) (walkingIndex : Nat) (walking : Transaction) : Result cfg :=
  match m.pageTable.find walking.req.pid walking.req.vAddr with
  | none => .error "page not found"
  | some page =>
    let walking := { walking with page }
    let m := { m with walkingTranslations := m.walkingTranslations.set walkingIndex walking }
    if page.isMigrating then addTransactionToMigrationQueue m walkingIndex walking
    else if pageNeedMigrate walking then addTransactionToMigrationQueue m walkingIndex walking
    else doPageWalkHit m walkingIndex walking

/-- The body of the first loop of `walkPageTable`. -/
def walk (m : MMU cfg) (i : Nat) : Result cfg :=
  match m.walkingTranslations[i]? with
  | none => .error "runtime error: index out of range"
  | some walking =>
    if walking.cycleLeft > 0 then
      .ok (true, { m with walkingTranslations := m.walkingTranslations.set i { walking with
        cycleLeft := walking.cycleLeft - 1 } })
    else finalizePageWalk m i walking

/-- The elements of a list whose index is not among `rm`. -/
def keep {α : Type} (rm : List Nat) (l : List α) : List α := (l.zipIdx.filter fun x => !rm.contains x.2).map Prod.fst

/-- The second loop of `walkPageTable`. -/
def removeWalked (m : MMU cfg) : MMU cfg :=
  { m with walkingTranslations := keep m.toRemoveFromPTW m.walkingTranslations, toRemoveFromPTW := [] }

def walkAll (m : MMU cfg) : List Nat → Result cfg
  | [] => .ok (false, m)
  | i :: is => do
    let (progress, m) ← walk m i
    let (progress', m) ← walkAll m is
    return (progress || progress', m)

def walkPageTable (m : MMU cfg) : Result cfg := do
  let (progress, m) ← walkAll m (List.range m.walkingTranslations.length)
  return (progress, removeWalked m)

/-! ## Migration -/

def sendTranlationRsp (m : MMU cfg) (t : Transaction) : Except String (MMU cfg) := do
  let rsp := rspOf cfg t.req.originPort t.req t.page ""
  let m ← send m (.rsp rsp)
  return { m with log := m.log ++ [Event.answer t.req rsp] }

def markPageAsNotMigratingIfNotInTheMigrationQueue (m : MMU cfg) (page : Page) : Except String (Page × MMU cfg) :=
  if m.migrationQueue.any (fun t => page.pAddr == t.page.pAddr) then .ok (page, m) else do
    let page := { page with isMigrating := false }
    let pageTable ← m.pageTable.update page
    return (page, { m with pageTable })

/-- The part of `sendMigrationToDriver` that asks the driver to migrate the page of the head `t` of the queue. -/
def requestMigration (m : MMU cfg) (t : Transaction) (migrationQueue : List Transaction) (page : Page) : Result cfg :=
  let accessed := m.pageAccessedByDeviceID page.vAddr ++ [page.deviceID]
  let m := { m with pageAccessedByDeviceID := Function.update m.pageAccessedByDeviceID page.vAddr accessed }
  let migrationReq : PageMigrationReqToDriver :=
    { src := cfg.migrationPort, dst := cfg.migrationServiceProvider, pid := page.pid, pageSize := page.pageSize,
      currPageHostGPU := page.deviceID, gpuReqToVAddrMap := [(t.req.deviceID, [t.req.vAddr])],
      currAccessingGPUs := accessed.eraseDups, respondToTop := true }
  let (sent, migrationPort) := m.migrationPort.send migrationReq
  if !sent then .ok (false, { m with migrationPort }) else do
    let page := { page with isMigrating := true }
    let pageTable ← m.pageTable.update page
    return (true, { m with
      migrationPort
      pageTable
      isDoingMigration := true
      currentOnDemandMigration := some { t with page, migration := some migrationReq }
      migrationQueue
      log := m.log ++ [Event.migrate page] })

def sendMigrationToDriver (m : MMU cfg) : Result cfg :=
  match m.migrationQueue with
  | [] => .ok (false, m)
  | t :: migrationQueue =>
    match m.pageTable.find t.req.pid t.req.vAddr with
    | none => .error "page not found"
    | some page =>
      if t.req.deviceID = page.deviceID ∨ page.isPinned then do
        let m ← sendTranlationRsp m { t with page }
        let (_, m) ← markPageAsNotMigratingIfNotInTheMigrationQueue { m with migrationQueue } page
        return (true, m)
      else if m.isDoingMigration then .ok (false, m)
      else requestMigration m t migrationQueue page

def processMigrationReturn (m : MMU cfg) : Result cfg :=
  match m.migrationPort.peek with
  | none => .ok (false, m)
  | some _ => do
    let (ok, m) ← canSend m
    if !ok then return (false, m) else
    match m.currentOnDemandMigration with
    | none => .error "runtime error: invalid memory address or nil pointer dereference"
    | some t =>
      match m.pageTable.find t.req.pid t.req.vAddr with
      | none => .error "page not found"
      | some page => do
        let m ← sendTranlationRsp { m with log := m.log ++ [Event.migrated page] } { t with page }
        let (page, m) ← markPageAsNotMigratingIfNotInTheMigrationQueue { m with isDoingMigration := false } page
        let pageTable ← m.pageTable.update { page with isPinned := true }
        return (true, { m with pageTable, migrationPort := m.migrationPort.retrieve })

/-! ## New requests -/

def startWalking (m : MMU cfg) (req : TranslationReq) : MMU cfg :=
  { m with walkingTranslations := m.walkingTranslations ++ [{ req, cycleLeft := cfg.latency }] }

/-- The loop of `parseFromTop`, over the messages that wait at the top port. -/
def parseAll (m : MMU cfg) : List TranslationReq → Bool × MMU cfg
  | [] => (false, m)
  | req :: reqs =>
    if m.walkingTranslations.length < cfg.maxRequestsInFlight then
      let m := startWalking { m with topPort := m.topPort.retrieve, log := m.log ++ [Event.reqReceive req] } req
      (true, (parseAll m reqs).2)
    else (false, m)

def parseFromTop (m : MMU cfg) : Result cfg := .ok (parseAll m m.topPort.buf.elements)

def tick (m : MMU cfg) : Result cfg := do
  let (p1, m) ← tickSender { m with credit := 0 }
  let (p2, m) ← sendMigrationToDriver m
  let (p3, m) ← walkPageTable m
  let (p4, m) ← processMigrationReturn m
  let (p5, m) ← parseFromTop m
  return (p1 || p2 || p3 || p4 || p5, m)

end Akita.Vm.Mmu
