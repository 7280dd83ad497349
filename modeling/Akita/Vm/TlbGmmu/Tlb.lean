import Akita.Vm.PageTable
import Akita.Vm.Tlb.Tlb
import Akita.Vm.TlbGmmu.CuckooFilter
import Akita.Vm.TlbMshr

/-!
# The GMMU TLB

`GMMUTLB` of `mem/vm/tlb_gmmu`. Local requests come to the top port; at the outside port arrive remote requests, responses of
the next layer and loaded pages. A miss goes to the lower level if the page is on the device, else to the next layer.

* `GMMUTLB` : the state, `tick` : `GMMUTLB.Tick`, `schedule` : its stage calls;
* `System` : the TLB with the answers under way to it;
* `Reaches R s ks` : a run by the rules `R` reaches `s`, with the calls `ks` of a tick still to do;
* `System.replay G s i` : the input `i` with `G` before each call of a tick, `Reaches.replay`.
-/

namespace Akita.Vm.TlbGmmu
open Mem Sim Function
open Vm.Tlb (SetImpl FlushReq ControlReq ControlRsp)

/-- The filter has buckets. -/
instance instNeZeroFilterSize : NeZero 256 := ⟨by decide⟩

/-- A layer of GPUs: the map from the numbers in the layer to the devices. -/
structure Layer where
  entries : List (UInt64 × UInt64) := []
  nodup : (entries.map Prod.fst).Nodup

namespace Layer

/-- `layer[id]`, zero when there is none. -/
def get (l : Layer) (id : UInt64) : UInt64 := (l.entries.lookup id).getD 0

/-- Whether the device is a value of the map. -/
def hasDevice (l : Layer) (deviceID : UInt64) : Bool := l.entries.any fun e => e.2 == deviceID

end Layer

/-- The parameters of `Builder`. -/
structure Config where
  numReqPerCycle : Nat
  numSets : Nat
  numWays : Nat
  pageSize : UInt64
  numMSHREntry : Nat
  deviceID : UInt64
  pageTable : PageTable
  lowModule : PortID
  ioMMUPort : PortID
  topPort : PortID
  bottomPort : PortID
  outsidePort : PortID
  gmmuCacheTable : UInt64 → Option PortID
  innerLayer : Layer
  middleLayer : Layer
  outerLayer : Layer

/-- What arrives at the outside port. -/
inductive OutsideMsg
  | req (req : TranslationReq)
  | rsp (rsp : TranslationRsp)
  | pageLoad (page : Page)
deriving DecidableEq

/-- What is sent from the outside port. -/
inductive OutsideOut
  | req (req : TranslationReq)
  | rsp (rsp : TranslationRsp)
deriving DecidableEq

/-- What the ports' hooks and the task tracer record, and what the filter does when a page is evicted. -/
inductive Event
  | topRetrieve (req : TranslationReq)
  | outsideRetrieve (msg : OutsideMsg)
  | topSend (rsp : TranslationRsp)
  | outsideSend (msg : OutsideOut)
  | reqInitiate (r : MshrRequest) (toRemote : Bool) (req : TranslationReq)
  | reqComplete (r : MshrRequest)
  | evict (oldPage : Page) (before after : CuckooFilter 256)

variable (cfg : Config)

/-- `GMMUTLB`. `rand n` are the random choices of the `n`-th insertion into the filter. -/
structure GMMUTLB where
  topPort : Port 90000 TranslationReq TranslationRsp := {}
  bottomPort : Port 90000 TranslationRsp TranslationReq := {}
  outsidePort : Port 90000000 OutsideMsg OutsideOut := {}
  controlPort : Port 1 ControlReq ControlRsp := {}
  sets : Nat → SetImpl
  mshr : Mshr cfg.numMSHREntry := {}
  respondingMSHREntry : List MshrEntry := []
  isPaused : Bool := false
  pageTable : PageTable
  cuckooFilter : CuckooFilter 256 := {}
  rand : Nat → Nat → Fin bucketSize
  nextInsert : Nat := 0
  nextID : MsgID := 0
  log : List Event := []

variable {cfg : Config}

/-- The result of a stage: whether it made progress, and the TLB it leaves. -/
abbrev Result (cfg : Config) := Except String (Bool × GMMUTLB cfg)

/-! ## Ports -/

namespace GMMUTLB

def record (t : GMMUTLB cfg) (e : Event) : GMMUTLB cfg := { t with log := t.log ++ [e] }

def sendTop (t : GMMUTLB cfg) (rsp : TranslationRsp) : Bool × GMMUTLB cfg :=
  let (sent, topPort) := t.topPort.send rsp
  (sent, { t with topPort, log := if sent then t.log ++ [Event.topSend rsp] else t.log })

def sendOutside (t : GMMUTLB cfg) (msg : OutsideOut) : Bool × GMMUTLB cfg :=
  let (sent, outsidePort) := t.outsidePort.send msg
  (sent, { t with outsidePort, log := if sent then t.log ++ [Event.outsideSend msg] else t.log })

/-- `topPort.Retrieve`. -/
def retrieveTop (t : GMMUTLB cfg) : GMMUTLB cfg :=
  { t with topPort := t.topPort.retrieve, log := t.log ++ t.topPort.peek.toList.map Event.topRetrieve }

/-- `OutsidePort.Retrieve`. -/
def retrieveOutside (t : GMMUTLB cfg) : GMMUTLB cfg :=
  { t with outsidePort := t.outsidePort.retrieve, log := t.log ++ t.outsidePort.peek.toList.map Event.outsideRetrieve }

/-- The port a request came to is relieved of it. -/
def retrieveReq (t : GMMUTLB cfg) (r : MshrRequest) : GMMUTLB cfg :=
  if r.localFlag then t.retrieveTop else if r.remoteFlag then t.retrieveOutside else t

end GMMUTLB

/-! ## Responses -/

/-- `respondMSHREntry` answers a local request. -/
def rspToTop (req : TranslationReq) (page : Page) : TranslationRsp :=
  { dst := req.src, respondTo := req.id, page, taskID := req.taskID, originPort := req.originPort }

/-- `respondMSHREntry` answers a remote request. -/
def rspToOutside (req : TranslationReq) (page : Page) : TranslationRsp :=
  { dst := req.originPort, respondTo := req.id, page, taskID := req.taskID, originPort := req.originPort }

/-- `sendRspToOutside` answers a remote request that hits. -/
def rspToOutsideHit (req : TranslationReq) (page : Page) : TranslationRsp :=
  { dst := req.src, respondTo := req.id, page, originPort := req.originPort }

/-- Sends the response to a request to its side; with both flags to both sides, the top first. -/
def sendRsp (t : GMMUTLB cfg) (r : MshrRequest) (toTop toOutside : TranslationRsp) : Bool × GMMUTLB cfg :=
  let (sent, t) := if r.localFlag then t.sendTop toTop else (true, t)
  if !sent then (false, t) else
  if r.remoteFlag then t.sendOutside (.rsp toOutside) else (true, t)

def respondMSHREntry (t : GMMUTLB cfg) : Result cfg :=
  match t.respondingMSHREntry with
  | [] => .ok (false, t)
  | e :: es =>
    match e.requests with
    | [] => .error "runtime error: index out of range"
    | r :: requests =>
      let (sent, t) := sendRsp t r (rspToTop r.request e.page) (rspToOutside r.request e.page)
      if !sent then .ok (false, t)
      else .ok (true, { t with
        respondingMSHREntry := if requests.isEmpty then es else { e with requests } :: es }.record (.reqComplete r))

/-! ## The next layer -/

def getNextLayerGPUID (vAddr : VAddr) (totalID : Nat) : Except String UInt64 :=
  if totalID = 0 then .error "runtime error: integer divide by zero" else .ok (UInt64.ofNat ((vAddr >>> 12).toNat % totalID))

/-- `MultiPageFinder.Find`. -/
def findPort (cfg : Config) (deviceID : UInt64) : Except String PortID :=
  match cfg.gmmuCacheTable deviceID with
  | some port => .ok port
  | none => .error "No port found for device"

/-- The port of the next layer that `sendToNextLayer` chooses. -/
def nextLayer (cfg : Config) (vAddr : VAddr) : Except String PortID :=
  if cfg.outerLayer.hasDevice cfg.deviceID then do
    let id ← getNextLayerGPUID vAddr cfg.middleLayer.entries.length
    findPort cfg (cfg.middleLayer.get id)
  else if cfg.middleLayer.hasDevice cfg.deviceID then do
    let id ← getNextLayerGPUID vAddr cfg.innerLayer.entries.length
    findPort cfg (cfg.innerLayer.get id)
  else if cfg.innerLayer.hasDevice cfg.deviceID then .ok cfg.ioMMUPort
  else .error "device not found"

/-- The copy of a request that goes to the next layer. A remote one keeps its origin, which it names as the sender. -/
def reqToNextLayer (cfg : Config) (id : MsgID) (dst : PortID) (r : MshrRequest) : TranslationReq :=
  { id, src := if r.remoteFlag then r.request.originPort else cfg.outsidePort, dst, vAddr := r.request.vAddr,
    pid := r.request.pid, taskID := r.request.taskID, deviceID := r.request.deviceID,
    originPort := if r.remoteFlag then r.request.originPort else cfg.outsidePort }

/-- `sendToNextLayer`: the request sent, or none. -/
def sendToNextLayer (t : GMMUTLB cfg) (r : MshrRequest) : Except String (Option TranslationReq × GMMUTLB cfg) := do
  let dst ← nextLayer cfg r.request.vAddr
  let req := reqToNextLayer cfg t.nextID dst r
  let (sent, t) := { t with nextID := t.nextID + 1 }.sendOutside (.req req)
  if !sent then return (none, t)
  else return (some req, (if r.remoteFlag then t.retrieveOutside else t.retrieveTop).record (.reqInitiate r true req))

/-! ## Looking up -/

def vAddrToSetID (cfg : Config) (vAddr : VAddr) : Except String Nat :=
  if cfg.pageSize = 0 ∨ cfg.numSets = 0 then .error "runtime error: integer divide by zero"
  else .ok ((vAddr / cfg.pageSize).toNat % cfg.numSets)

def handleTranslationHit (t : GMMUTLB cfg) (r : MshrRequest) (setID wayID : Nat) (page : Page) : Result cfg :=
  let (sent, t) := sendRsp t r (rspToTop r.request page) (rspToOutsideHit r.request page)
  if !sent then .ok (false, t) else do
    let set ← (t.sets setID).visit wayID
    let t := t.retrieveReq r
    return (true, { t with sets := update t.sets setID set }.record (.reqComplete r))

/-- The request that `fetchBottom` builds for the lower level. -/
def reqToBottom (cfg : Config) (id : MsgID) (req : TranslationReq) : TranslationReq :=
  { id, src := cfg.bottomPort, dst := cfg.lowModule, vAddr := req.vAddr, pid := req.pid, taskID := req.taskID,
    deviceID := req.deviceID, originPort := cfg.bottomPort }

/-- The entry of a miss. -/
def missEntry (r : MshrRequest) (fetch : TranslationReq) : MshrEntry :=
  { pid := r.request.pid, vAddr := r.request.vAddr, requests := [r], reqToBottom := some fetch }

def fetchBottom (t : GMMUTLB cfg) (r : MshrRequest) : Result cfg :=
  match t.pageTable.find r.request.pid r.request.vAddr with
  | none => .error "page not found"
  | some page =>
    if page.deviceID ≠ cfg.deviceID then
      match sendToNextLayer t r with
      | .error e => .error e
      | .ok (none, t) => .ok (false, t)
      | .ok (some req, t) =>
        if r.localFlag then do
          let mshr ← t.mshr.add (missEntry r req)
          return (true, { t with mshr })
        else .ok (true, t)
    else
      let req := reqToBottom cfg t.nextID r.request
      let (sent, bottomPort) := t.bottomPort.send req
      let t := { t with bottomPort, nextID := t.nextID + 1 }
      if !sent then .ok (false, t) else do
        let mshr ← t.mshr.add (missEntry r req)
        return (true, ({ t with mshr }.retrieveReq r).record (.reqInitiate r false req))

def handleTranslationMiss (t : GMMUTLB cfg) (r : MshrRequest) : Result cfg :=
  if t.mshr.isFull then .ok (false, t) else fetchBottom t r

def processTLBMSHRHit (t : GMMUTLB cfg) (r : MshrRequest) : Result cfg :=
  .ok (true, { t with mshr := t.mshr.join r }.retrieveReq r)

def processTranslation (t : GMMUTLB cfg) (req : TranslationReq) (localFlag remoteFlag : Bool) : Result cfg :=
  let r : MshrRequest := { request := req, localFlag, remoteFlag }
  match t.mshr.query req.pid req.vAddr with
  | some _ => processTLBMSHRHit t r
  | none => do
    let setID ← vAddrToSetID cfg req.vAddr
    match ← (t.sets setID).lookup req.pid req.vAddr with
    | some (wayID, page) => if page.valid then handleTranslationHit t r setID wayID page else handleTranslationMiss t r
    | none => handleTranslationMiss t r

def lookupFromTopPort (t : GMMUTLB cfg) : Result cfg :=
  match t.topPort.peek with
  | none => .ok (false, t)
  | some req => processTranslation t req true false

/-! ## Pages -/

/-- `Evict`, `Update` and `Visit`, as `processRsp` and `processPageLoadMsg` do them, with the page evicted. -/
def replace (s : SetImpl) (page : Page) : Except String (Page × SetImpl) :=
  match s.evict with
  | none => .error "failed to evict"
  | some (wayID, s') => do
    let oldPage := (s.blocks wayID).page
    let s' ← s'.update wayID page
    let s' ← s'.visit wayID
    return (oldPage, s')

/-- The filter after a page has been evicted, its fingerprint deleted when `deletes`. -/
def filterAfter (t : GMMUTLB cfg) (deletes : Bool) (oldPage : Page) : CuckooFilter 256 :=
  if deletes then (t.cuckooFilter.delete oldPage.vAddr).2 else t.cuckooFilter

/-- A page is put in its set in place of another, and in the filter; `deletes` tells from the page evicted whether its
fingerprint is deleted. -/
def install (t : GMMUTLB cfg) (page : Page) (deletes : Page → Bool) : Except String (GMMUTLB cfg) := do
  let setID ← vAddrToSetID cfg page.vAddr
  let (oldPage, set) ← replace (t.sets setID) page
  let cf := filterAfter t (deletes oldPage) oldPage
  return { t with
    sets := update t.sets setID set
    cuckooFilter := (cf.insert page.vAddr (t.rand t.nextInsert)).2
    nextInsert := t.nextInsert + 1
    log := t.log ++ [Event.evict oldPage t.cuckooFilter cf] }

/-- The port a response came to is relieved of it. -/
def retrieveRsp (t : GMMUTLB cfg) (bottom : Bool) : GMMUTLB cfg :=
  if bottom then { t with bottomPort := t.bottomPort.retrieve } else t.retrieveOutside

def processRsp (t : GMMUTLB cfg) (rsp : TranslationRsp) (bottom : Bool) : Result cfg :=
  match t.mshr.query rsp.page.pid rsp.page.vAddr with
  | none => .ok (true, retrieveRsp t bottom)
  | some e => do
    let t ← install t rsp.page fun oldPage => !oldPage.valid
    let mshr ← t.mshr.remove rsp.page.pid rsp.page.vAddr
    return (true, retrieveRsp { t with
      respondingMSHREntry := t.respondingMSHREntry ++ [{ e with page := rsp.page }], mshr } bottom)

def processPageLoadMsg (t : GMMUTLB cfg) (page : Page) : Result cfg := do
  let t ← install t page fun oldPage => oldPage != {}
  return (true, t.retrieveOutside)

def isInCuckooFilter (t : GMMUTLB cfg) (req : TranslationReq) : Bool := t.cuckooFilter.lookup req.vAddr

def lookupFromOutsidePort (t : GMMUTLB cfg) : Result cfg :=
  match t.outsidePort.peek with
  | none => .ok (false, t)
  | some (.req req) =>
    if isInCuckooFilter t req then processTranslation t req false true
    else
      match sendToNextLayer t { request := req, localFlag := false, remoteFlag := true } with
      | .error e => .error e
      | .ok (none, t) => .ok (false, t)
      | .ok (some _, t) => .ok (true, t)
  | some (.rsp rsp) => processRsp t rsp false
  | some (.pageLoad page) => processPageLoadMsg t page

def parseBottom (t : GMMUTLB cfg) : Result cfg :=
  match t.respondingMSHREntry with
  | _ :: _ => .ok (false, t)
  | [] =>
    match t.bottomPort.peek with
    | none => .ok (false, t)
    | some rsp => processRsp t rsp true

/-! ## Control -/

/-- The loop of `handleTLBFlush`. -/
def invalidateAll (cfg : Config) (pid : PID) : List VAddr → (Nat → SetImpl) → Except String (Nat → SetImpl)
  | [], sets => .ok sets
  | vAddr :: vAddrs, sets => do
    let setID ← vAddrToSetID cfg vAddr
    let (set, _) ← (sets setID).invalidate pid vAddr
    invalidateAll cfg pid vAddrs (update sets setID set)

def handleTLBFlush (t : GMMUTLB cfg) (req : FlushReq) : Result cfg :=
  let (sent, controlPort) := t.controlPort.send (.flush req.src)
  if !sent then .ok (false, { t with controlPort }) else do
    let sets ← invalidateAll cfg req.pid req.vAddr t.sets
    return (true, { t with controlPort, sets, mshr := t.mshr.reset, isPaused := true })

def handleTLBRestart (t : GMMUTLB cfg) (src : PortID) : Result cfg :=
  let (sent, controlPort) := t.controlPort.send (.restart src)
  if !sent then .ok (false, { t with controlPort })
  else .ok (true, { t with
    controlPort, isPaused := false, topPort := t.topPort.clear, bottomPort := t.bottomPort.clear })

def performCtrlReq (t : GMMUTLB cfg) : Result cfg :=
  match t.controlPort.peek with
  | none => .ok (false, t)
  | some (.flush req) => handleTLBFlush { t with controlPort := t.controlPort.retrieve } req
  | some (.restart _ src) => handleTLBRestart { t with controlPort := t.controlPort.retrieve } src

/-! ## Ticks -/

/-- One round of the second loop of `Tick`. -/
def lookupFromPorts (t : GMMUTLB cfg) : Result cfg := do
  let (p1, t) ← lookupFromTopPort t
  let (p2, t) ← lookupFromOutsidePort t
  return (p1 || p2, t)

def tick (t : GMMUTLB cfg) : Result cfg := do
  let (p1, t) ← performCtrlReq t
  if t.isPaused then return (p1, t) else
  let (p2, t) ← repeatStage respondMSHREntry cfg.numReqPerCycle t
  let (p3, t) ← repeatStage lookupFromPorts cfg.numReqPerCycle t
  let (p4, t) ← repeatStage parseBottom cfg.numReqPerCycle t
  return (p1 || p2 || p3 || p4, t)

/-- `reset`. -/
def newSets (cfg : Config) : Except String (Nat → SetImpl) := do
  let set ← SetImpl.new cfg.numWays
  return fun _ => set

def build (cfg : Config) (rand : Nat → Nat → Fin bucketSize) : Except String (GMMUTLB cfg) := do
  let sets ← newSets cfg
  return { sets, pageTable := cfg.pageTable, rand }

/-! ## Stage calls -/

/-- The calls a tick is made of. -/
inductive Call
  | ctrl | respond | top | outside | bottom
deriving DecidableEq

def Call.exec (k : Call) (t : GMMUTLB cfg) : Result cfg :=
  match k with
  | .ctrl => performCtrlReq t
  | .respond => if t.isPaused then .ok (false, t) else respondMSHREntry t
  | .top => if t.isPaused then .ok (false, t) else lookupFromTopPort t
  | .outside => if t.isPaused then .ok (false, t) else lookupFromOutsidePort t
  | .bottom => if t.isPaused then .ok (false, t) else parseBottom t

/-- The calls of a tick. -/
def schedule (n : Nat) : List Call :=
  .ctrl :: (List.replicate n .respond ++ (List.replicate n [Call.top, .outside]).flatten ++ List.replicate n .bottom)

/-! ## The TLB and its surroundings -/

/-- `answers` : the answers of the lower level, `outsideAnswers` : those of the next layer, that have not arrived yet. What
has been sent and not answered is in the ports' `outgoing`. -/
structure System (cfg : Config) where
  tlb : GMMUTLB cfg
  answers : List TranslationRsp := []
  outsideAnswers : List TranslationRsp := []

/-- What happens to a TLB between two ticks, or a tick. -/
inductive Input
  | request (req : TranslationReq)
  | outside (msg : OutsideMsg)
  | control (req : ControlReq)
  | connect (top bottom outside control : List Bool)
  | answer (k : Nat) (page : Page)
  | peer (k : Nat) (page : Page)
  | deliver (k : Nat)
  | deliverOutside (k : Nat)
  | tick
deriving DecidableEq

namespace System

/-- The answer to a request. -/
def rsp (req : TranslationReq) (page : Page) : TranslationRsp :=
  { dst := req.src, respondTo := req.id, page, taskID := req.taskID, originPort := req.originPort }

def request (s : System cfg) (req : TranslationReq) : System cfg :=
  match s.tlb.topPort.recv req with
  | some topPort => { s with tlb := { s.tlb with topPort } }
  | none => s

/-- A remote request or a loaded page arrives. -/
def outside (s : System cfg) (msg : OutsideMsg) : System cfg :=
  match s.tlb.outsidePort.recv msg with
  | some outsidePort => { s with tlb := { s.tlb with outsidePort } }
  | none => s

def control (s : System cfg) (req : ControlReq) : System cfg :=
  match s.tlb.controlPort.recv req with
  | some controlPort => { s with tlb := { s.tlb with controlPort } }
  | none => s

def connect (s : System cfg) (top bottom outside control : List Bool) : System cfg :=
  { s with tlb := { s.tlb with
      topPort := { s.tlb.topPort with conn := top }
      bottomPort := { s.tlb.bottomPort with conn := bottom }
      outsidePort := { s.tlb.outsidePort with conn := outside }
      controlPort := { s.tlb.controlPort with conn := control } } }

/-- The page table is changed by others. -/
def setPageTable (s : System cfg) (pageTable : PageTable) : System cfg := { s with tlb := { s.tlb with pageTable } }

/-- The lower level answers the `k`-th of the requests it has received. -/
def answer (s : System cfg) (k : Nat) (page : Page) : System cfg :=
  match s.tlb.bottomPort.outgoing[k]? with
  | some req =>
    { s with
      tlb := { s.tlb with bottomPort := { s.tlb.bottomPort with outgoing := s.tlb.bottomPort.outgoing.eraseIdx k } }
      answers := s.answers ++ [rsp req page] }
  | none => s

/-- The `k`-th message sent from the outside port is taken by who it is for. If it is a request that names this TLB as the
sender, the answer comes back here. -/
def peer (s : System cfg) (k : Nat) (page : Page) : System cfg :=
  match s.tlb.outsidePort.outgoing[k]? with
  | some msg =>
    { s with
      tlb := { s.tlb with outsidePort := { s.tlb.outsidePort with outgoing := s.tlb.outsidePort.outgoing.eraseIdx k } }
      outsideAnswers := match msg with
        | .req req => if req.src = cfg.outsidePort then s.outsideAnswers ++ [rsp req page] else s.outsideAnswers
        | .rsp _ => s.outsideAnswers }
  | none => s

/-- The `k`-th answer of the lower level arrives. -/
def deliver (s : System cfg) (k : Nat) : System cfg :=
  match s.answers[k]? with
  | some rsp =>
    match s.tlb.bottomPort.recv rsp with
    | some bottomPort => { s with tlb := { s.tlb with bottomPort }, answers := s.answers.eraseIdx k }
    | none => s
  | none => s

/-- The `k`-th answer of the next layer arrives. -/
def deliverOutside (s : System cfg) (k : Nat) : System cfg :=
  match s.outsideAnswers[k]? with
  | some rsp =>
    match s.tlb.outsidePort.recv (.rsp rsp) with
    | some outsidePort => { s with tlb := { s.tlb with outsidePort }, outsideAnswers := s.outsideAnswers.eraseIdx k }
    | none => s
  | none => s

def step (s : System cfg) : Input → Except String (System cfg)
  | .request req => .ok (s.request req)
  | .outside msg => .ok (s.outside msg)
  | .control req => .ok (s.control req)
  | .connect top bottom outside control => .ok (s.connect top bottom outside control)
  | .answer k page => .ok (s.answer k page)
  | .peer k page => .ok (s.peer k page)
  | .deliver k => .ok (s.deliver k)
  | .deliverOutside k => .ok (s.deliverOutside k)
  | .tick => do
    let (_, tlb) ← TlbGmmu.tick s.tlb
    return { s with tlb }

def run (s : System cfg) : List Input → Except String (System cfg)
  | [] => .ok s
  | i :: is => do
    let s ← s.step i
    run s is

end System

/-- `request`, `outside` and `control` : the messages that may arrive; `answer` : how the lower level and the next layer may
answer a request; `call` : what holds before a stage call. -/
structure Rules (cfg : Config) where
  request : TranslationReq → Prop
  outside : OutsideMsg → Prop
  control : ControlReq → Prop
  answer : TranslationReq → Page → Prop
  call : GMMUTLB cfg → Call → Prop

inductive Reaches (R : Rules cfg) : System cfg → List Call → Prop
  | init {t : GMMUTLB cfg} (rand : Nat → Nat → Fin bucketSize) (h : build cfg rand = .ok t) : Reaches R { tlb := t } []
  | request {s : System cfg} (req : TranslationReq) (h : Reaches R s []) (hreq : R.request req) : Reaches R (s.request req) []
  | outside {s : System cfg} (msg : OutsideMsg) (h : Reaches R s []) (hmsg : R.outside msg) : Reaches R (s.outside msg) []
  | control {s : System cfg} (req : ControlReq) (h : Reaches R s []) (hreq : R.control req) : Reaches R (s.control req) []
  | connect {s : System cfg} (top bottom outside control : List Bool) (h : Reaches R s []) :
      Reaches R (s.connect top bottom outside control) []
  | setPageTable {s : System cfg} (pageTable : PageTable) (h : Reaches R s [])
      (hpt : pageTable.log2PageSize = cfg.pageTable.log2PageSize) : Reaches R (s.setPageTable pageTable) []
  | answer {s : System cfg} (k : Nat) (page : Page) (h : Reaches R s [])
      (hk : ∀ req, s.tlb.bottomPort.outgoing[k]? = some req → R.answer req page) : Reaches R (s.answer k page) []
  | peer {s : System cfg} (k : Nat) (page : Page) (h : Reaches R s [])
      (hk : ∀ req, s.tlb.outsidePort.outgoing[k]? = some (.req req) → R.answer req page) : Reaches R (s.peer k page) []
  | deliver {s : System cfg} (k : Nat) (h : Reaches R s []) : Reaches R (s.deliver k) []
  | deliverOutside {s : System cfg} (k : Nat) (h : Reaches R s []) : Reaches R (s.deliverOutside k) []
  | tick {s : System cfg} (h : Reaches R s []) : Reaches R s (schedule cfg.numReqPerCycle)
  | call {s : System cfg} {k : Call} {ks : List Call} {p : Bool} {t : GMMUTLB cfg} (h : Reaches R s (k :: ks))
      (hk : R.call s.tlb k) (hexec : k.exec s.tlb = .ok (p, t)) : Reaches R { s with tlb := t } ks

/-! ## Replays -/

/-- A tick is done only if `G` holds before each of its calls. -/
def System.replay (G : GMMUTLB cfg → Call → Prop) [∀ t k, Decidable (G t k)] (s : System cfg) : Input → System cfg
  | .tick => ((guarded G Call.exec (schedule cfg.numReqPerCycle) s.tlb).map fun tlb => { s with tlb }).getD s
  | i => (s.step i).toOption.getD s

/-- The rules allow the input in every state. -/
def Rules.Allows (R : Rules cfg) : Input → Prop
  | .request req => R.request req
  | .outside msg => R.outside msg
  | .control req => R.control req
  | .answer _ page => ∀ req, R.answer req page
  | .peer _ page => ∀ req, R.answer req page
  | _ => True

theorem Reaches.replay {R : Rules cfg} {G : GMMUTLB cfg → Call → Prop} [∀ t k, Decidable (G t k)]
    (hG : ∀ t k, G t k → R.call t k) {s : System cfg} (h : Reaches R s []) {is : List Input} (his : ∀ i ∈ is, R.Allows i) :
    Reaches R (is.foldl (System.replay G) s) [] := by
  refine List.foldlRecOn (motive := fun s => Reaches R s []) is _ h fun s hs i hi => ?_
  have hallows := his i hi
  cases i with
  | request req => exact hs.request req hallows
  | outside msg => exact hs.outside msg hallows
  | control req => exact hs.control req hallows
  | connect top bottom outside control => exact hs.connect top bottom outside control
  | answer k page => exact hs.answer k page fun req _ => hallows req
  | peer k page => exact hs.peer k page fun req _ => hallows req
  | deliver k => exact hs.deliver k
  | deliverOutside k => exact hs.deliverOutside k
  | tick =>
    unfold System.replay
    cases ht : guarded G Call.exec (schedule cfg.numReqPerCycle) s.tlb with
    | none => exact hs
    | some t =>
      exact guarded_induct (I := fun t ks => Reaches R { s with tlb := t } ks) (fun h hk hexec => h.call (hG _ _ hk) hexec) ht
        (List.append_nil _ ▸ hs.tick)

end Akita.Vm.TlbGmmu
