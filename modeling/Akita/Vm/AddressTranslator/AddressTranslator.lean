import Akita.Stages
import Akita.Vm.Protocol

/-!
# The address translator

`addresstranslator.AddressTranslator`, with the translation provider and the memory below it. A tick answers requests,
forwards the requests whose translations have come, asks for the translations of new requests, forwards a GL0 invalidation,
and handles a control message.

* `Translator` : the state, `tick` : `AddressTranslator.Tick`;
* `System` : the translator with the requests and responses under way below it, `Input`.

The generated task IDs and the `Info` field of requests are left out.
-/

namespace Akita.Vm.AddressTranslator
open Mem Sim

/-- The parameters of `Builder`. -/
structure Config where
  numReqPerCycle : Nat
  log2PageSize : Nat
  deviceID : UInt64 := 1
  bottomPort : PortID
  translationPort : PortID
  ctrlPort : PortID
  translationProvider : PortID
  lowModule : Nat → PortID

structure GL0InvalidateReq where
  id : MsgID
  src : PortID
  dst : PortID := 0
  pid : PID
deriving DecidableEq

structure GL0InvalidateRsp where
  dst : PortID
  respondTo : MsgID
deriving DecidableEq

/-- What goes down: requests. -/
inductive Req
  | access (req : AccessReq)
  | gl0 (req : GL0InvalidateReq)
deriving DecidableEq

/-- What comes back: responses. -/
inductive Rsp
  | access (rsp : AccessRsp Bytes)
  | gl0 (rsp : GL0InvalidateRsp)
deriving DecidableEq

structure ControlMsg where
  src : PortID
  dst : PortID := 0
  discardTransactions : Bool := false
  restart : Bool := false
  notifyDone : Bool := false
deriving DecidableEq

structure Transaction where
  incomingReqs : List AccessReq
  translationReq : TranslationReq
  translationRsp : Option TranslationRsp := none
  translationDone : Bool := false
deriving DecidableEq

structure ReqToBottom where
  reqFromTop : AccessReq
  reqToBottom : AccessReq
deriving DecidableEq

/-- What is observed of a run. `accept` : a request and its translation request; `forward` : a request goes down with the page
of its translation; `answer` : a request is answered with a response from below; `flush` and `restart` are acknowledgments. -/
inductive Event
  | accept (req : AccessReq) (translationReq : TranslationReq)
  | forward (combo : ReqToBottom) (translationReq : TranslationReq) (translationRsp : TranslationRsp)
  | answer (combo : ReqToBottom) (rsp rspToTop : AccessRsp Bytes)
  | gl0Accept (req : GL0InvalidateReq)
  | gl0Forward (req : GL0InvalidateReq)
  | gl0Answer (req : GL0InvalidateReq) (rsp : GL0InvalidateRsp)
  | flush
  | restart
deriving DecidableEq

variable (cfg : Config)

/-- `AddressTranslator`. -/
structure Translator where
  topPort : Port cfg.numReqPerCycle Req Rsp := {}
  bottomPort : Port cfg.numReqPerCycle Rsp Req := {}
  translationPort : Port cfg.numReqPerCycle TranslationRsp TranslationReq := {}
  ctrlPort : Port 1 ControlMsg ControlMsg := {}
  isFlushing : Bool := false
  transactions : List Transaction := []
  inflightReqToBottom : List ReqToBottom := []
  isWaitingOnGL0InvalidateRsp : Bool := false
  currentGL0InvReq : Option GL0InvalidateReq := none
  totalRequestsUponGL0InvArrival : Int := 0
  nextID : MsgID := 0
  log : List Event := []

variable {cfg : Config}

/-- The result of a stage: whether it made progress, and the translator it leaves. -/
abbrev Result (cfg : Config) := Except String (Bool × Translator cfg)

/-! ## Requests -/

def addrToPageID (cfg : Config) (addr : Nat) : Nat := addr / 2 ^ cfg.log2PageSize * 2 ^ cfg.log2PageSize

/-- The physical address: that of the page plus the offset within the page. -/
def translatedAddr (cfg : Config) (address : Nat) (page : Page) : Nat :=
  (page.pAddr.toNat + address % 2 ^ cfg.log2PageSize) % 2 ^ 64

def createTranslatedReq (cfg : Config) (id : MsgID) (req : AccessReq) (page : Page) : AccessReq :=
  match req with
  | .read r =>
    let addr := translatedAddr cfg r.address page
    .read { id, src := cfg.bottomPort, dst := cfg.lowModule addr, pid := 0, address := addr,
            accessByteSize := r.accessByteSize, canWaitForCoalesce := r.canWaitForCoalesce }
  | .write w =>
    let addr := translatedAddr cfg w.address page
    .write { id, src := cfg.bottomPort, dst := cfg.lowModule addr, pid := 0, address := addr, data := w.data,
             dirtyMask := w.dirtyMask, canWaitForCoalesce := w.canWaitForCoalesce }

/-- The translation request of `translate`. -/
def translationReqOf (cfg : Config) (id : MsgID) (req : AccessReq) : TranslationReq :=
  { id, src := cfg.translationPort, dst := cfg.translationProvider, vAddr := UInt64.ofNat (addrToPageID cfg req.address),
    pid := req.pid, deviceID := cfg.deviceID }

/-! ## Stages -/

def handleGL0InvalidateReq (t : Translator cfg) (req : GL0InvalidateReq) : Result cfg :=
  match t.currentGL0InvReq with
  | some _ => .ok (false, t)
  | none => .ok (true, { t with
      currentGL0InvReq := some req
      totalRequestsUponGL0InvArrival := t.transactions.length + t.inflightReqToBottom.length
      topPort := t.topPort.retrieve
      log := t.log ++ [Event.gl0Accept req] })

def translate (t : Translator cfg) : Result cfg :=
  match t.currentGL0InvReq with
  | some _ => .ok (false, t)
  | none =>
    match t.topPort.peek with
    | none => .ok (false, t)
    | some (.gl0 req) => handleGL0InvalidateReq t req
    | some (.access req) =>
      let transReq := translationReqOf cfg t.nextID req
      let (sent, translationPort) := t.translationPort.send transReq
      if !sent then .ok (false, { t with translationPort, nextID := t.nextID + 1 })
      else .ok (true, { t with
        translationPort
        nextID := t.nextID + 1
        transactions := t.transactions ++ [{ incomingReqs := [req], translationReq := transReq }]
        topPort := t.topPort.retrieve
        log := t.log ++ [Event.accept req transReq] })

/-- Whether a transaction waits for the translation with an ID. -/
def isFor (id : MsgID) (tr : Transaction) : Bool := tr.translationReq.id == id

def findTranslationByReqID (trs : List Transaction) (id : MsgID) : Option Transaction := trs.find? (isFor id)

/-- The first transaction with the ID changed through its pointer. -/
def modifyTranslation (id : MsgID) (f : Transaction → Transaction) : List Transaction → List Transaction
  | [] => []
  | tr :: trs => if isFor id tr then f tr :: trs else tr :: modifyTranslation id f trs

def parseTranslation (t : Translator cfg) : Result cfg :=
  match t.translationPort.peek with
  | none => .ok (false, t)
  | some transRsp =>
    match findTranslationByReqID t.transactions transRsp.respondTo with
    | none => .ok (true, { t with translationPort := t.translationPort.retrieve })
    | some tr =>
      let transactions := modifyTranslation transRsp.respondTo
        (fun tr => { tr with translationRsp := some transRsp, translationDone := true }) t.transactions
      match tr.incomingReqs with
      | [] => .error "runtime error: index out of range [0] with length 0"
      | reqFromTop :: incomingReqs =>
        let translatedReq := createTranslatedReq cfg t.nextID reqFromTop transRsp.page
        let (sent, bottomPort) := t.bottomPort.send (.access translatedReq)
        if !sent then .ok (false, { t with bottomPort, transactions, nextID := t.nextID + 1 })
        else .ok (true, { t with
          bottomPort
          nextID := t.nextID + 1
          inflightReqToBottom := t.inflightReqToBottom ++ [{ reqFromTop, reqToBottom := translatedReq }]
          transactions :=
            if incomingReqs.isEmpty then transactions.eraseP (isFor transRsp.respondTo)
            else modifyTranslation transRsp.respondTo (fun tr => { tr with incomingReqs }) transactions
          translationPort := t.translationPort.retrieve
          log := t.log ++ [Event.forward { reqFromTop, reqToBottom := translatedReq } tr.translationReq transRsp] })

/-- Whether a request in flight has the ID. -/
def isTo (id : MsgID) (r : ReqToBottom) : Bool := r.reqToBottom.id == id

/-- The response to the request from the top, with the payload of the response from the bottom. -/
def rspToTop (req : AccessReq) : AccessRsp Bytes → AccessRsp Bytes
  | .dataReady rsp => .dataReady { dst := req.src, respondTo := req.id, data := rsp.data }
  | .writeDone _ => .writeDone { dst := req.src, respondTo := req.id }

/-- The end of `respond`: while a GL0 invalidation waits, the response is counted. -/
def countResponse (t : Translator cfg) : Result cfg :=
  match t.currentGL0InvReq with
  | none => .ok (true, { t with bottomPort := t.bottomPort.retrieve })
  | some _ =>
    if t.totalRequestsUponGL0InvArrival - 1 < 0 then .error "Not possible"
    else .ok (true, { t with
      totalRequestsUponGL0InvArrival := t.totalRequestsUponGL0InvArrival - 1
      bottomPort := t.bottomPort.retrieve })

def respond (t : Translator cfg) : Result cfg :=
  match t.bottomPort.peek with
  | none => .ok (false, t)
  | some (.access rsp) =>
    match t.inflightReqToBottom.find? (isTo rsp.respondTo) with
    | none => countResponse t
    | some combo =>
      let (sent, topPort) := t.topPort.send (.access (rspToTop combo.reqFromTop rsp))
      if !sent then .ok (false, { t with topPort })
      else countResponse { t with
        topPort
        inflightReqToBottom := t.inflightReqToBottom.eraseP (isTo rsp.respondTo)
        log := t.log ++ [Event.answer combo rsp (rspToTop combo.reqFromTop rsp)] }
  | some (.gl0 _) =>
    match t.currentGL0InvReq with
    | none => .error "Cannot have rsp without req"
    | some req =>
      let rsp : GL0InvalidateRsp := { dst := req.src, respondTo := req.id }
      let (sent, topPort) := t.topPort.send (.gl0 rsp)
      if !sent then .ok (false, { t with topPort })
      else if t.totalRequestsUponGL0InvArrival ≠ 0 then .error "Something went wrong \n"
      else .ok (true, { t with
        topPort
        currentGL0InvReq := none
        isWaitingOnGL0InvalidateRsp := false
        bottomPort := t.bottomPort.retrieve
        log := t.log ++ [Event.gl0Answer req rsp] })

def doGL0Invalidate (t : Translator cfg) : Result cfg :=
  match t.currentGL0InvReq with
  | none => .ok (false, t)
  | some gl0 =>
    if t.isWaitingOnGL0InvalidateRsp then .ok (false, t)
    else if t.totalRequestsUponGL0InvArrival = 0 then
      let req : GL0InvalidateReq := { id := t.nextID, src := cfg.bottomPort, dst := cfg.lowModule 0, pid := gl0.pid }
      let (sent, bottomPort) := t.bottomPort.send (.gl0 req)
      if !sent then .ok (true, { t with bottomPort, nextID := t.nextID + 1 })
      else .ok (true, { t with
        bottomPort, nextID := t.nextID + 1, isWaitingOnGL0InvalidateRsp := true, log := t.log ++ [Event.gl0Forward gl0] })
    else .ok (true, t)

def handleFlushReq (t : Translator cfg) (req : ControlMsg) : Result cfg :=
  let (sent, ctrlPort) := t.ctrlPort.send { src := cfg.ctrlPort, dst := req.src, notifyDone := true }
  if !sent then .ok (false, { t with ctrlPort })
  else .ok (true, { t with
    ctrlPort := ctrlPort.retrieve, transactions := [], inflightReqToBottom := [], isFlushing := true, log :=
      t.log ++ [Event.flush] })

def handleRestartReq (t : Translator cfg) (req : ControlMsg) : Result cfg :=
  let (sent, ctrlPort) := t.ctrlPort.send { src := cfg.ctrlPort, dst := req.src, notifyDone := true }
  if !sent then .ok (false, { t with ctrlPort })
  else .ok (true, { t with
    topPort := t.topPort.clear, bottomPort := t.bottomPort.clear, translationPort := t.translationPort.clear, isFlushing :=
      false
    ctrlPort := ctrlPort.retrieve, log := t.log ++ [Event.restart] })

def handleCtrlRequest (t : Translator cfg) : Result cfg :=
  match t.ctrlPort.peek with
  | none => .ok (false, t)
  | some msg =>
    if msg.discardTransactions then handleFlushReq t msg
    else if msg.restart then handleRestartReq t msg
    else .error "never"

def runPipeline (t : Translator cfg) : Result cfg := do
  let (p1, t) ← repeatStage respond cfg.numReqPerCycle t
  let (p2, t) ← repeatStage parseTranslation cfg.numReqPerCycle t
  let (p3, t) ← repeatStage translate cfg.numReqPerCycle t
  let (p4, t) ← doGL0Invalidate t
  return (p1 || p2 || p3 || p4, t)

def tick (t : Translator cfg) : Result cfg := do
  let (p1, t) ← if t.isFlushing then .ok (false, t) else runPipeline t
  let (p2, t) ← handleCtrlRequest t
  return (p1 || p2, t)

/-! ## Calls -/

/-- The calls a tick is made of. -/
inductive Call
  | respond | parseTranslation | translate | gl0 | ctrl
deriving DecidableEq

def Call.exec (t : Translator cfg) : Call → Result cfg
  | respond => if t.isFlushing then .ok (false, t) else AddressTranslator.respond t
  | parseTranslation => if t.isFlushing then .ok (false, t) else AddressTranslator.parseTranslation t
  | translate => if t.isFlushing then .ok (false, t) else AddressTranslator.translate t
  | gl0 => if t.isFlushing then .ok (false, t) else doGL0Invalidate t
  | ctrl => handleCtrlRequest t

/-- The calls of a tick. -/
def schedule (n : Nat) : List Call :=
  List.replicate n .respond ++ List.replicate n .parseTranslation ++ List.replicate n .translate ++ [.gl0, .ctrl]

/-! ## The translator and its surroundings -/

/-- `memRsps`, `transRsps` : the responses of the memory and of the translation provider that have not arrived yet. The
requests they have not answered are those sent by the two ports. -/
structure System (cfg : Config) where
  translator : Translator cfg := {}
  memRsps : List Rsp := []
  transRsps : List TranslationRsp := []

/-- The memory's response to a request. -/
def memRspOf (data : Bytes) : Req → Rsp
  | .access (.read r) => .access (.dataReady { dst := r.src, respondTo := r.id, data })
  | .access (.write w) => .access (.writeDone { dst := w.src, respondTo := w.id })
  | .gl0 r => .gl0 { dst := r.src, respondTo := r.id }

/-- The provider's response to a request. -/
def transRspOf (req : TranslationReq) (page : Page) : TranslationRsp :=
  { dst := req.src, respondTo := req.id, page, taskID := req.taskID }

namespace System

/-- A request arrives at the top port. -/
def request (s : System cfg) (req : Req) : System cfg :=
  match s.translator.topPort.recv req with
  | some topPort => { s with translator := { s.translator with topPort } }
  | none => s

def control (s : System cfg) (msg : ControlMsg) : System cfg :=
  match s.translator.ctrlPort.recv msg with
  | some ctrlPort => { s with translator := { s.translator with ctrlPort } }
  | none => s

def connect (s : System cfg) (top bottom translation ctrl : List Bool) : System cfg :=
  { s with translator := { s.translator with
      topPort := { s.translator.topPort with conn := top }
      bottomPort := { s.translator.bottomPort with conn := bottom }
      translationPort := { s.translator.translationPort with conn := translation }
      ctrlPort := { s.translator.ctrlPort with conn := ctrl } } }

/-- The memory answers the `k`-th of the requests it has received. -/
def memAnswer (s : System cfg) (k : Nat) (data : Bytes) : System cfg :=
  match s.translator.bottomPort.outgoing[k]? with
  | some req =>
    { s with
      translator := { s.translator with
        bottomPort := { s.translator.bottomPort with outgoing := s.translator.bottomPort.outgoing.eraseIdx k } }
      memRsps := s.memRsps ++ [memRspOf data req] }
  | none => s

/-- The `k`-th response of the memory arrives at the bottom port. -/
def memDeliver (s : System cfg) (k : Nat) : System cfg :=
  match s.memRsps[k]? with
  | some rsp =>
    match s.translator.bottomPort.recv rsp with
    | some bottomPort => { s with translator := { s.translator with bottomPort }, memRsps := s.memRsps.eraseIdx k }
    | none => s
  | none => s

/-- The provider answers the `k`-th of the translation requests it has received. -/
def transAnswer (s : System cfg) (k : Nat) (page : Page) : System cfg :=
  match s.translator.translationPort.outgoing[k]? with
  | some req =>
    { s with
      translator := { s.translator with translationPort := { s.translator.translationPort with
        outgoing := s.translator.translationPort.outgoing.eraseIdx k } }
      transRsps := s.transRsps ++ [transRspOf req page] }
  | none => s

/-- The `k`-th response of the provider arrives at the translation port. -/
def transDeliver (s : System cfg) (k : Nat) : System cfg :=
  match s.transRsps[k]? with
  | some rsp =>
    match s.translator.translationPort.recv rsp with
    | some translationPort =>
      { s with translator := { s.translator with translationPort }, transRsps := s.transRsps.eraseIdx k }
    | none => s
  | none => s

end System

/-- A run whose calls meet `G` reaches `s`, with the calls `ks` of a tick still to do. -/
inductive Reaches (G : Translator cfg → Call → Prop) : System cfg → List Call → Prop
  | init : Reaches G {} []
  | request {s : System cfg} (req : Req) (h : Reaches G s []) : Reaches G (s.request req) []
  | control {s : System cfg} (msg : ControlMsg) (h : Reaches G s []) : Reaches G (s.control msg) []
  | connect {s : System cfg} (top bottom translation ctrl : List Bool) (h : Reaches G s []) :
      Reaches G (s.connect top bottom translation ctrl) []
  | memAnswer {s : System cfg} (k : Nat) (data : Bytes) (h : Reaches G s []) : Reaches G (s.memAnswer k data) []
  | memDeliver {s : System cfg} (k : Nat) (h : Reaches G s []) : Reaches G (s.memDeliver k) []
  | transAnswer {s : System cfg} (k : Nat) (page : Page) (h : Reaches G s []) : Reaches G (s.transAnswer k page) []
  | transDeliver {s : System cfg} (k : Nat) (h : Reaches G s []) : Reaches G (s.transDeliver k) []
  | tick {s : System cfg} (h : Reaches G s []) : Reaches G s (schedule cfg.numReqPerCycle)
  | call {s : System cfg} {k : Call} {ks : List Call} {p : Bool} {t : Translator cfg} (h : Reaches G s (k :: ks))
      (hG : G s.translator k) (hexec : k.exec s.translator = .ok (p, t)) : Reaches G { s with translator := t } ks

/-- A tick, if `G` holds before each of its calls. -/
def System.tickIf (G : Translator cfg → Call → Prop) [∀ t k, Decidable (G t k)] (s : System cfg) : System cfg :=
  ((guarded G (fun k t => Call.exec t k) (schedule cfg.numReqPerCycle) s.translator).map
    fun translator => { s with translator }).getD s

theorem Reaches.tickIf {G G' : Translator cfg → Call → Prop} [∀ t k, Decidable (G t k)] (hG : ∀ t k, G t k → G' t k)
    {s : System cfg} (h : Reaches G' s []) : Reaches G' (s.tickIf G) [] := by
  unfold System.tickIf
  cases ht : guarded G (fun k t => Call.exec t k) (schedule cfg.numReqPerCycle) s.translator with
  | none => exact h
  | some t =>
    exact guarded_induct (I := fun t ks => Reaches G' { s with translator := t } ks)
      (fun h hk hexec => h.call (hG _ _ hk) hexec) ht (List.append_nil _ ▸ h.tick)

end Akita.Vm.AddressTranslator
