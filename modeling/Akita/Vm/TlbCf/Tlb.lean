import Akita.Vm.PageTable
import Akita.Vm.Tlb.Tlb
import Akita.Vm.TlbCf.CuckooFilter
import Akita.Vm.TlbMshr

/-!
# The cuckoo filter TLB

`TLB` of `mem/vm/tlb_cf`. Local requests come to the top port, remote requests and responses of peers to the outside port,
responses and remove-MSHR messages of the lower level to the bottom port. What the filter does not find is meant for the
compression port.

* `TLB` : the state, `tick` : `TLB.Tick`, `schedule` : its stage calls;
* `Reaches R t ks` : a run by the rules `R` reaches `t`, with the calls `ks` of a tick still to do.
-/

namespace Akita.Vm.TlbCf
open Mem Sim
open Vm.Tlb (SetImpl FlushReq ControlReq ControlRsp)

/-- The parameters of `Builder`. `sum64` is what `hash/fnv` computes. -/
structure Config where
  numReqPerCycle : Nat
  numSets : Nat
  numWays : Nat
  pageSize : UInt64
  numMSHREntry : Nat
  deviceID : UInt64
  filterFlag : Bool
  pageTable : PageTable
  lowModule : PortID
  cmpModule : PortID
  bottomPort : PortID
  outsidePort : PortID
  cmpPort : PortID
  sum64 : List UInt8 → UInt64

/-- `vm.RemoveMSHRReq`, as far as it is read. -/
structure RemoveMSHRReq where
  vAddr : VAddr
  pid : PID
deriving DecidableEq

inductive OutsideMsg
  | req (req : TranslationReq)
  | rsp (rsp : TranslationRsp)
deriving DecidableEq

inductive BottomMsg
  | rsp (rsp : TranslationRsp)
  | remove (req : RemoveMSHRReq)
deriving DecidableEq

/-- A message at a port. -/
inductive Message
  | top (req : TranslationReq)
  | outside (msg : OutsideMsg)
  | bottom (msg : BottomMsg)
deriving DecidableEq

/-- What is observed of a run. `handle` : a stage has made progress with the message it looked at; `retrieve` : a message was
taken from its port; `fetch` : a request was sent for a miss, to the compression port or to the bottom port; `forward` : a
remote request was passed on; `responds` : an entry responds from now on, and what responded before; `remove` : an entry was
removed unanswered. -/
inductive Event
  | arrive (m : Message)
  | handle (m : Message)
  | retrieve (m : Message)
  | hit (r : MshrRequest)
  | join (r : MshrRequest)
  | fetch (r : MshrRequest) (toCmp : Bool) (req : TranslationReq)
  | forward (req newReq : TranslationReq)
  | complete (r : MshrRequest)
  | responds (old : Option MshrEntry) (e : MshrEntry)
  | remove (e : MshrEntry)
deriving DecidableEq

variable (cfg : Config)

/-- `TLB`. `rand n` are the random choices of the `n`-th insertion into the filter. -/
structure TLB where
  topPort : Port cfg.numReqPerCycle TranslationReq TranslationRsp := {}
  bottomPort : Port cfg.numReqPerCycle BottomMsg TranslationReq := {}
  outsidePort : Port 90000000 OutsideMsg TranslationRsp := {}
  controlPort : Port 1 ControlReq ControlRsp := {}
  cmpPort : Port 1 BottomMsg TranslationReq := {}
  sets : Nat → SetImpl
  mshr : Mshr cfg.numMSHREntry := {}
  respondingMSHREntry : Option MshrEntry := none
  isPaused : Bool := false
  filterFlag : Bool := false
  cf : Option CuckooFilter
  pageTable : PageTable
  rand : Nat → Bool × Nat
  nextInsert : Nat := 0
  nextID : MsgID := 0
  log : List Event := []

variable {cfg : Config}

/-- The result of a stage: whether it made progress, and the TLB it leaves. -/
abbrev Result (cfg : Config) := Except String (Bool × TLB cfg)

def nilDereference : String := "runtime error: invalid memory address or nil pointer dereference"

/-! ## Ports -/

namespace TLB

def record (t : TLB cfg) (e : Event) : TLB cfg := { t with log := t.log ++ [e] }

def sendTop (t : TLB cfg) (rsp : TranslationRsp) : Bool × TLB cfg :=
  let (sent, topPort) := t.topPort.send rsp
  (sent, { t with topPort })

def sendOutside (t : TLB cfg) (rsp : TranslationRsp) : Bool × TLB cfg :=
  let (sent, outsidePort) := t.outsidePort.send rsp
  (sent, { t with outsidePort })

def sendBottom (t : TLB cfg) (req : TranslationReq) : Bool × TLB cfg :=
  let (sent, bottomPort) := t.bottomPort.send req
  (sent, { t with bottomPort, nextID := t.nextID + 1 })

def sendCmp (t : TLB cfg) (req : TranslationReq) : Bool × TLB cfg :=
  let (sent, cmpPort) := t.cmpPort.send req
  (sent, { t with cmpPort, nextID := t.nextID + 1 })

/-- `topPort.Retrieve`. -/
def retrieveTop (t : TLB cfg) : TLB cfg :=
  { t with topPort := t.topPort.retrieve, log := t.log ++ t.topPort.peek.toList.map fun req => Event.retrieve (.top req) }

/-- `bottomPort.Retrieve`. -/
def retrieveBottom (t : TLB cfg) : TLB cfg :=
  { t with bottomPort := t.bottomPort.retrieve,
           log := t.log ++ t.bottomPort.peek.toList.map fun msg => Event.retrieve (.bottom msg) }

/-- `outsidePort.Retrieve`. -/
def retrieveOutside (t : TLB cfg) : TLB cfg :=
  { t with outsidePort := t.outsidePort.retrieve,
           log := t.log ++ t.outsidePort.peek.toList.map fun msg => Event.retrieve (.outside msg) }

/-- The port a request came to is relieved of it. -/
def retrieveReq (t : TLB cfg) (r : MshrRequest) : TLB cfg :=
  if r.localFlag then t.retrieveTop else if r.remoteFlag then t.retrieveOutside else t

end TLB

/-- A stage that makes progress has handled the message it looked at. -/
def handled (m : Message) : Result cfg → Result cfg
  | .ok (true, t) => .ok (true, t.record (.handle m))
  | .ok (false, t) => .ok (false, t)
  | .error e => .error e

/-! ## Responses -/

/-- `respondMSHREntry` answers a request; it answers both sides alike. -/
def rspOf (req : TranslationReq) (page : Page) : TranslationRsp :=
  { dst := req.src, respondTo := req.id, page, taskID := req.taskID }

/-- `sendRspToTop` and `sendRspToOutside` answer a request that hits. -/
def rspOfHit (req : TranslationReq) (page : Page) : TranslationRsp := { dst := req.src, respondTo := req.id, page }

/-- Sends the response to a request to its side; with both flags to both sides, the top first. -/
def sendRsp (t : TLB cfg) (r : MshrRequest) (rsp : TranslationRsp) : Bool × TLB cfg :=
  let (sent, t) := if r.localFlag then t.sendTop rsp else (true, t)
  if !sent then (false, t) else
  if r.remoteFlag then t.sendOutside rsp else (true, t)

def respondMSHREntry (t : TLB cfg) : Result cfg :=
  match t.respondingMSHREntry with
  | none => .ok (false, t)
  | some e =>
    match e.requests with
    | [] => .error "runtime error: index out of range"
    | r :: requests =>
      let (sent, t) := sendRsp t r (rspOf r.request e.page)
      if !sent then .ok (false, t)
      else .ok (true, { t with
        respondingMSHREntry := if requests.isEmpty then none else some { e with requests } }.record (.complete r))

/-! ## Looking up -/

def vAddrToSetID (cfg : Config) (vAddr : VAddr) : Except String Nat :=
  if cfg.pageSize = 0 ∨ cfg.numSets = 0 then .error "runtime error: integer divide by zero"
  else .ok ((vAddr / cfg.pageSize).toNat % cfg.numSets)

/-- `processTLBMSHRHit`, also with a nil entry. -/
def processTLBMSHRHit (t : TLB cfg) (mshrEntry : Option MshrEntry) (r : MshrRequest) : Result cfg :=
  match mshrEntry with
  | none => .error nilDereference
  | some _ => .ok (true, ({ t with mshr := t.mshr.join r }.record (.join r)).retrieveReq r)

/-- The entry of a miss. -/
def missEntry (r : MshrRequest) (fetch : TranslationReq) : MshrEntry :=
  { pid := r.request.pid, vAddr := r.request.vAddr, requests := [r], reqToBottom := some fetch }

/-- The request that `fetchLocalCmp` builds. -/
def reqToCmp (cfg : Config) (id : MsgID) (req : TranslationReq) : TranslationReq :=
  { id, src := cfg.bottomPort, dst := cfg.lowModule, vAddr := req.vAddr, pid := req.pid, taskID := req.taskID,
    deviceID := req.deviceID, originPort := cfg.outsidePort }

/-- The request that `fetchBottom` builds. -/
def reqToBottom (cfg : Config) (id : MsgID) (req : TranslationReq) : TranslationReq :=
  { id, src := cfg.bottomPort, dst := cfg.lowModule, vAddr := req.vAddr, pid := req.pid, taskID := req.taskID,
    deviceID := req.deviceID }

/-- `fetchLocalCmp` and `fetchBottom`: the request `fetch` is sent and an entry added. -/
def fetch (t : TLB cfg) (r : MshrRequest) (toCmp : Bool) (fetch : TranslationReq) : Result cfg :=
  let (sent, t) := if toCmp then t.sendCmp fetch else t.sendBottom fetch
  if !sent then .ok (false, t) else do
    let mshr ← t.mshr.add (missEntry r fetch)
    return (true, { t with mshr }.record (.fetch r toCmp fetch))

def fetchLocalCmp (t : TLB cfg) (r : MshrRequest) : Result cfg := fetch t r true (reqToCmp cfg t.nextID r.request)

def fetchBottom (t : TLB cfg) (r : MshrRequest) : Result cfg := fetch t r false (reqToBottom cfg t.nextID r.request)

/-- `processTLBMSHRMiss` and `handleTranslationMiss`. -/
def miss (t : TLB cfg) (r : MshrRequest) (fetch : TLB cfg → MshrRequest → Result cfg) : Result cfg :=
  if t.mshr.isFull then .ok (false, t) else do
    let (fetched, t) ← fetch t r
    if fetched then return (true, t.retrieveReq r) else return (false, t)

def processTLBMSHRMiss (t : TLB cfg) (r : MshrRequest) : Result cfg := miss t r fetchLocalCmp

def handleTranslationMiss (t : TLB cfg) (r : MshrRequest) : Result cfg := miss t r fetchBottom

def handleTranslationHit (t : TLB cfg) (r : MshrRequest) (setID wayID : Nat) (page : Page) : Result cfg :=
  let (sent, t) := sendRsp t r (rspOfHit r.request page)
  if !sent then .ok (false, t) else do
    let set ← (t.sets setID).visit wayID
    return (true, (({ t with sets := Function.update t.sets setID set }.retrieveReq r).record (.hit r)).record (.complete r))

/-- `handleLocalCF`. The entry is looked up, and the cases are the wrong way round. -/
def handleLocalCF (t : TLB cfg) (req : TranslationReq) : Result cfg :=
  let r : MshrRequest := { request := req, localFlag := true, remoteFlag := false }
  match t.mshr.query req.pid req.vAddr with
  | none => processTLBMSHRHit t none r
  | some _ => processTLBMSHRMiss t r

/-- `processTranslation` for a local request, its only use. -/
def processTranslation (t : TLB cfg) (req : TranslationReq) : Result cfg :=
  let r : MshrRequest := { request := req, localFlag := true, remoteFlag := false }
  match t.mshr.query req.pid req.vAddr with
  | some e => processTLBMSHRHit t (some e) r
  | none => do
    let setID ← vAddrToSetID cfg req.vAddr
    match ← (t.sets setID).lookup req.pid req.vAddr with
    | some (wayID, page) => if page.valid then handleTranslationHit t r setID wayID page else handleTranslationMiss t r
    | none => handleTranslationMiss t r

/-- The device of the page of a request, that of the zero page when there is none. -/
def deviceOf (t : TLB cfg) (req : TranslationReq) : UInt64 := ((t.pageTable.find req.pid req.vAddr).getD {}).deviceID

/-- Whether the filter finds the request and its page is on the device. -/
def passesFilter (t : TLB cfg) (cf : CuckooFilter) (req : TranslationReq) : Bool :=
  cf.lookup cfg.sum64 req.vAddr && deviceOf t req == cfg.deviceID

/-- The test that both kinds of requests undergo when the filter is on. -/
def filtered (t : TLB cfg) (req : TranslationReq) (found notFound : Result cfg) : Result cfg :=
  if t.filterFlag then
    match t.cf with
    | none => .error nilDereference
    | some cf => if passesFilter t cf req then found else notFound
  else found

def lookupFromTopPort (t : TLB cfg) : Result cfg :=
  match t.topPort.peek with
  | none => .ok (false, t)
  | some req => handled (.top req) (filtered t req (processTranslation t req) (handleLocalCF t req))

/-! ## Responses from below -/

/-- The filter after the page of a response. -/
def insertFilter (t : TLB cfg) (page : Page) : Except String (TLB cfg) :=
  if t.filterFlag then
    match t.cf with
    | none => .error nilDereference
    | some cf => do
      let (_, cf) ← cf.insert cfg.sum64 page.vAddr (t.rand t.nextInsert).1 (t.rand t.nextInsert).2
      return { t with cf := some cf, nextInsert := t.nextInsert + 1 }
  else .ok t

/-- `processRsp`. It relieves the bottom port, wherever the response came to. -/
def processRsp (t : TLB cfg) (rsp : TranslationRsp) : Result cfg :=
  match t.mshr.query rsp.page.pid rsp.page.vAddr with
  | none => .ok (true, t.retrieveBottom)
  | some e => do
    let setID ← vAddrToSetID cfg rsp.page.vAddr
    let (_, set) ← (t.sets setID).fill rsp.page
    let mshr ← t.mshr.remove rsp.page.pid rsp.page.vAddr
    let t ← insertFilter ({ t with
      sets := Function.update t.sets setID set
      respondingMSHREntry := some { e with page := rsp.page }
      mshr }.record (.responds t.respondingMSHREntry { e with page := rsp.page })).retrieveBottom rsp.page
    return (true, t)

def processRemoveMSHRReq (t : TLB cfg) (req : RemoveMSHRReq) : Result cfg :=
  match t.mshr.query req.pid req.vAddr with
  | none => .ok (true, t.retrieveBottom)
  | some e => do
    let mshr ← t.mshr.remove req.pid req.vAddr
    return (true, ({ t with mshr }.record (.remove e)).retrieveBottom)

def parseBottom (t : TLB cfg) : Result cfg :=
  match t.respondingMSHREntry with
  | some _ => .ok (false, t)
  | none =>
    match t.bottomPort.peek with
    | none => .ok (false, t)
    | some (.rsp rsp) => handled (.bottom (.rsp rsp)) (processRsp t rsp)
    | some (.remove req) => handled (.bottom (.remove req)) (processRemoveMSHRReq t req)

/-! ## The outside port -/

/-- The request that `handleRemoteCFMiss` builds. -/
def reqToPeer (cfg : Config) (id : MsgID) (req : TranslationReq) : TranslationReq :=
  { id, src := cfg.cmpPort, dst := cfg.cmpModule, vAddr := req.vAddr, pid := req.pid, taskID := req.taskID,
    deviceID := req.deviceID, originPort := req.originPort }

/-- `handleRemoteCFMiss`. No port is relieved of the request. -/
def handleRemoteCFMiss (t : TLB cfg) (req : TranslationReq) : Result cfg :=
  let newReq := reqToPeer cfg t.nextID req
  let (sent, t) := t.sendCmp newReq
  if !sent then .ok (false, t) else .ok (true, t.record (.forward req newReq))

def processRemoteTranslationReq (t : TLB cfg) (req : TranslationReq) : Result cfg :=
  let r : MshrRequest := { request := req, localFlag := false, remoteFlag := true }
  match t.mshr.query req.pid req.vAddr with
  | some e => processTLBMSHRHit t (some e) r
  | none => processTLBMSHRMiss t r

/-- `processRemoteTranslation`. It waits for a message at the top port. -/
def processRemoteTranslation (t : TLB cfg) (req : TranslationReq) : Result cfg :=
  match t.topPort.peek with
  | none => .ok (false, t)
  | some _ => filtered t req (processRemoteTranslationReq t req) (handleRemoteCFMiss t req)

def lookupFromOutsidePort (t : TLB cfg) : Result cfg :=
  match t.outsidePort.peek with
  | none => .ok (false, t)
  | some (.req req) => handled (.outside (.req req)) (processRemoteTranslation t req)
  | some (.rsp rsp) => handled (.outside (.rsp rsp)) (processRsp t rsp)

/-! ## Control -/

/-- The loop of `handleTLBFlush`. -/
def invalidateAll (cfg : Config) (pid : PID) : List VAddr → (Nat → SetImpl) → Except String (Nat → SetImpl)
  | [], sets => .ok sets
  | vAddr :: vAddrs, sets => do
    let setID ← vAddrToSetID cfg vAddr
    let (set, _) ← (sets setID).invalidate pid vAddr
    invalidateAll cfg pid vAddrs (Function.update sets setID set)

def handleTLBFlush (t : TLB cfg) (req : FlushReq) : Result cfg :=
  let (sent, controlPort) := t.controlPort.send (.flush req.src)
  if !sent then .ok (false, { t with controlPort }) else do
    let sets ← invalidateAll cfg req.pid req.vAddr t.sets
    return (true, { t with controlPort, sets, mshr := t.mshr.reset, isPaused := true })

def handleTLBRestart (t : TLB cfg) (src : PortID) : Result cfg :=
  let (sent, controlPort) := t.controlPort.send (.restart src)
  if !sent then .ok (false, { t with controlPort })
  else .ok (true, { t with
    controlPort, isPaused := false, topPort := t.topPort.clear, bottomPort := t.bottomPort.clear })

def performCtrlReq (t : TLB cfg) : Result cfg :=
  match t.controlPort.peek with
  | none => .ok (false, t)
  | some (.flush req) => handleTLBFlush { t with controlPort := t.controlPort.retrieve } req
  | some (.restart _ src) => handleTLBRestart { t with controlPort := t.controlPort.retrieve } src

/-! ## Ticks -/

/-- One round of the second loop of `Tick`. -/
def lookupFromPorts (t : TLB cfg) : Result cfg := do
  let (p1, t) ← lookupFromTopPort t
  let (p2, t) ← lookupFromOutsidePort t
  return (p1 || p2, t)

def tick (t : TLB cfg) : Result cfg := do
  let (p1, t) ← performCtrlReq t
  if t.isPaused then return (p1, t) else
  let (p2, t) ← repeatStage respondMSHREntry cfg.numReqPerCycle t
  let (p3, t) ← repeatStage lookupFromPorts cfg.numReqPerCycle t
  let (p4, t) ← repeatStage parseBottom cfg.numReqPerCycle t
  return (p1 || p2 || p3 || p4, t)

/-- `reset`. -/
def newSets (cfg : Config) : Except String (Nat → SetImpl) := do
  let set ← SetImpl.new cfg.numWays
  return fun _ => set

/-- `Builder.Build`. It makes the filter, but does not set `filterFlag`. -/
def build (cfg : Config) (rand : Nat → Bool × Nat) : Except String (TLB cfg) := do
  let sets ← newSets cfg
  return { sets, cf := if cfg.filterFlag then some {} else none, pageTable := cfg.pageTable, rand }

/-! ## Stage calls -/

/-- The calls a tick is made of. -/
inductive Call
  | ctrl | respond | top | outside | bottom
deriving DecidableEq

def Call.exec (k : Call) (t : TLB cfg) : Result cfg :=
  match k with
  | .ctrl => performCtrlReq t
  | .respond => if t.isPaused then .ok (false, t) else respondMSHREntry t
  | .top => if t.isPaused then .ok (false, t) else lookupFromTopPort t
  | .outside => if t.isPaused then .ok (false, t) else lookupFromOutsidePort t
  | .bottom => if t.isPaused then .ok (false, t) else parseBottom t

/-- The calls of a tick. -/
def schedule (n : Nat) : List Call :=
  .ctrl :: (List.replicate n .respond ++ (List.replicate n [Call.top, .outside]).flatten ++ List.replicate n .bottom)

/-! ## Arrivals -/

namespace TLB

def arriveTop (t : TLB cfg) (req : TranslationReq) : TLB cfg :=
  match t.topPort.recv req with
  | some topPort => { t with topPort }.record (.arrive (.top req))
  | none => t

def arriveOutside (t : TLB cfg) (msg : OutsideMsg) : TLB cfg :=
  match t.outsidePort.recv msg with
  | some outsidePort => { t with outsidePort }.record (.arrive (.outside msg))
  | none => t

def arriveBottom (t : TLB cfg) (msg : BottomMsg) : TLB cfg :=
  match t.bottomPort.recv msg with
  | some bottomPort => { t with bottomPort }.record (.arrive (.bottom msg))
  | none => t

def arriveControl (t : TLB cfg) (req : ControlReq) : TLB cfg :=
  match t.controlPort.recv req with
  | some controlPort => { t with controlPort }
  | none => t

def connect (t : TLB cfg) (top bottom outside cmp control : List Bool) : TLB cfg :=
  { t with
    topPort := { t.topPort with conn := top }
    bottomPort := { t.bottomPort with conn := bottom }
    outsidePort := { t.outsidePort with conn := outside }
    cmpPort := { t.cmpPort with conn := cmp }
    controlPort := { t.controlPort with conn := control } }

end TLB

/-- `control` : the control requests that may arrive; `call` : what holds before a stage call. -/
structure Rules (cfg : Config) where
  control : ControlReq → Prop
  call : TLB cfg → Call → Prop

/-- Any messages arrive at the top, outside and bottom ports at any time. `on` is the flag `filterFlag`, on only when there is
a filter; `Build` leaves it off. -/
inductive Reaches (R : Rules cfg) : TLB cfg → List Call → Prop
  | init {t : TLB cfg} (rand : Nat → Bool × Nat) (on : Bool) (h : build cfg rand = .ok t)
      (hon : on = true → cfg.filterFlag = true) : Reaches R { t with filterFlag := on } []
  | top {t : TLB cfg} (req : TranslationReq) (h : Reaches R t []) : Reaches R (t.arriveTop req) []
  | outside {t : TLB cfg} (msg : OutsideMsg) (h : Reaches R t []) : Reaches R (t.arriveOutside msg) []
  | bottom {t : TLB cfg} (msg : BottomMsg) (h : Reaches R t []) : Reaches R (t.arriveBottom msg) []
  | control {t : TLB cfg} (req : ControlReq) (h : Reaches R t []) (hreq : R.control req) : Reaches R (t.arriveControl req) []
  | connect {t : TLB cfg} (top bottom outside cmp control : List Bool) (h : Reaches R t []) :
      Reaches R (t.connect top bottom outside cmp control) []
  | setPageTable {t : TLB cfg} (pageTable : PageTable) (h : Reaches R t []) : Reaches R { t with pageTable } []
  | tick {t : TLB cfg} (h : Reaches R t []) : Reaches R t (schedule cfg.numReqPerCycle)
  | call {t t' : TLB cfg} {k : Call} {ks : List Call} {p : Bool} (h : Reaches R t (k :: ks)) (hk : R.call t k)
      (hexec : k.exec t = .ok (p, t')) : Reaches R t' ks

/-- A tick, if `G` holds before each of its calls. -/
def TLB.tickIf (G : TLB cfg → Call → Prop) [∀ t k, Decidable (G t k)] (t : TLB cfg) : TLB cfg :=
  (guarded G Call.exec (schedule cfg.numReqPerCycle) t).getD t

theorem Reaches.tickIf {R : Rules cfg} {G : TLB cfg → Call → Prop} [∀ t k, Decidable (G t k)] (hG : ∀ t k, G t k → R.call t k)
    {t : TLB cfg} (h : Reaches R t []) : Reaches R (t.tickIf G) [] := by
  unfold TLB.tickIf
  cases ht : guarded G Call.exec (schedule cfg.numReqPerCycle) t with
  | none => exact h
  | some t' =>
    exact guarded_induct (I := Reaches R) (fun h hk hexec => h.call (hG _ _ hk) hexec) ht (List.append_nil _ ▸ h.tick)

end Akita.Vm.TlbCf
