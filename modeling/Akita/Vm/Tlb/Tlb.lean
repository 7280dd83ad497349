import Akita.Vm.Tlb.Set

/-!
# The TLB

`tlb.TLB` of `mem/vm/tlb`, with the lower level below it. A tick handles a control message and then, unless the TLB is
paused, answers requests of the entry that responds, looks up requests, and takes answers of the lower level.

* `TLB` : the state, `tick` : `TLB.Tick`, `schedule` : its stage calls;
* `System` : the TLB with the requests and answers under way below it;
* `Reaches R s ks` : a run by the rules `R` reaches `s`, with the calls `ks` of a tick still to do;
* `System.replay G s i` : the input `i` with `G` before each call of a tick, `Reaches.replay`.
-/

namespace Akita.Vm.Tlb
open Mem Sim Function
open List hiding set

/-- The parameters of `Builder`. -/
structure Config where
  numReqPerCycle : Nat
  numSets : Nat
  numWays : Nat
  pageSize : UInt64
  lowModule : PortID
  numMSHREntry : Nat

structure FlushReq where
  id : MsgID
  src : PortID
  vAddr : List VAddr
  pid : PID
deriving DecidableEq

inductive ControlReq
  | flush (req : FlushReq)
  | restart (id : MsgID) (src : PortID)
deriving DecidableEq

inductive ControlRsp
  | flush (dst : PortID)
  | restart (dst : PortID)
deriving DecidableEq

structure MSHREntry where
  pid : PID
  vAddr : VAddr
  requests : List TranslationReq := []
  reqToBottom : Option TranslationReq := none
  page : Page := {}
deriving DecidableEq

/-- What the task tracer and the ports' send hooks record, and the answers of the lower level. -/
inductive Event
  | reqReceive (req : TranslationReq)
  | reqComplete (req : TranslationReq)
  | topSend (rsp : TranslationRsp)
  | flushAck (req : FlushReq)
  | returned (rsp : TranslationRsp)
deriving DecidableEq

variable (cfg : Config)

structure TLB where
  topPort : Port cfg.numReqPerCycle TranslationReq TranslationRsp := {}
  bottomPort : Port cfg.numReqPerCycle TranslationRsp TranslationReq := {}
  controlPort : Port 1 ControlReq ControlRsp := {}
  sets : Nat → SetImpl
  mshr : List MSHREntry := []
  respondingMSHREntry : Option MSHREntry := none
  isPaused : Bool := false
  nextID : MsgID := 0
  log : List Event := []

variable {cfg : Config}

/-- The result of a stage: whether it made progress, and the TLB it leaves. -/
abbrev Result (cfg : Config) := Except String (Bool × TLB cfg)

/-! ## `mshrImpl` -/

namespace MSHR

def isFor (pid : PID) (vAddr : VAddr) (e : MSHREntry) : Bool := e.pid == pid && e.vAddr == vAddr

def query (entries : List MSHREntry) (pid : PID) (vAddr : VAddr) : Option MSHREntry := entries.find? (isFor pid vAddr)

def isEntryPresent (entries : List MSHREntry) (pid : PID) (vAddr : VAddr) : Bool := entries.any (isFor pid vAddr)

def isFull (cfg : Config) (entries : List MSHREntry) : Bool := cfg.numMSHREntry ≤ entries.length

/-- `Add`, with the entry as its caller completes it. -/
def add (cfg : Config) (entries : List MSHREntry) (e : MSHREntry) : Except String (List MSHREntry) :=
  if isEntryPresent entries e.pid e.vAddr then .error "entry already in mshr"
  else if isFull cfg entries then .error "MSHR is full"
  else .ok (entries ++ [e])

def remove (entries : List MSHREntry) (pid : PID) (vAddr : VAddr) : Except String (List MSHREntry) :=
  if isEntryPresent entries pid vAddr then .ok (entries.eraseP (isFor pid vAddr))
  else .error "trying to remove an non-exist entry"

/-- The first entry of the page gets one more request. -/
def join (req : TranslationReq) : List MSHREntry → List MSHREntry
  | [] => []
  | e :: entries =>
    if isFor req.pid req.vAddr e then { e with requests := e.requests ++ [req] } :: entries else e :: join req entries

end MSHR

/-! ## Stages -/

def vAddrToSetID (cfg : Config) (vAddr : VAddr) : Except String Nat :=
  if cfg.pageSize = 0 ∨ cfg.numSets = 0 then .error "runtime error: integer divide by zero"
  else .ok ((vAddr / cfg.pageSize).toNat % cfg.numSets)

def respondMSHREntry (t : TLB cfg) : Result cfg :=
  match t.respondingMSHREntry with
  | none => .ok (false, t)
  | some e =>
    match e.requests with
    | [] => .error "runtime error: index out of range [0] with length 0"
    | req :: requests =>
      let rspToTop : TranslationRsp :=
        { dst := req.src, respondTo := req.id, page := e.page, taskID := req.taskID, originPort := req.originPort }
      let (sent, topPort) := t.topPort.send rspToTop
      if !sent then .ok (false, { t with topPort })
      else .ok (true, { t with
        topPort
        respondingMSHREntry := if requests.isEmpty then none else some { e with requests }
        log := t.log ++ [Event.topSend rspToTop, .reqComplete req] })

def handleTranslationHit (t : TLB cfg) (req : TranslationReq) (setID wayID : Nat) (page : Page) : Result cfg :=
  let rsp : TranslationRsp := { dst := req.src, respondTo := req.id, page, originPort := req.originPort }
  let (sent, topPort) := t.topPort.send rsp
  if !sent then .ok (false, { t with topPort }) else do
    let set ← (t.sets setID).visit wayID
    return (true, { t with
      topPort := topPort.retrieve
      sets := update t.sets setID set
      log := t.log ++ [Event.topSend rsp, .reqReceive req, .reqComplete req] })

/-- The request that `fetchBottom` builds. -/
def reqToBottom (cfg : Config) (id : MsgID) (req : TranslationReq) : TranslationReq :=
  { id, src := 0, dst := cfg.lowModule, vAddr := req.vAddr, pid := req.pid, taskID := req.taskID, deviceID := req.deviceID }

def fetchBottom (t : TLB cfg) (req : TranslationReq) : Result cfg :=
  let fetchBottom := reqToBottom cfg t.nextID req
  let (sent, bottomPort) := t.bottomPort.send fetchBottom
  if !sent then .ok (false, { t with bottomPort, nextID := t.nextID + 1 }) else do
    let mshr ← MSHR.add cfg t.mshr { pid := req.pid, vAddr := req.vAddr, requests := [req], reqToBottom := some fetchBottom }
    return (true, { t with bottomPort, nextID := t.nextID + 1, mshr })

def handleTranslationMiss (t : TLB cfg) (req : TranslationReq) : Result cfg :=
  if MSHR.isFull cfg t.mshr then .ok (false, t) else do
    let (fetched, t) ← fetchBottom t req
    if fetched then return (true, { t with topPort := t.topPort.retrieve, log := t.log ++ [Event.reqReceive req] })
    else return (false, t)

def processTLBMSHRHit (t : TLB cfg) (req : TranslationReq) : Result cfg :=
  .ok (true, { t with
    mshr := MSHR.join req t.mshr
    topPort := t.topPort.retrieve
    log := t.log ++ [Event.reqReceive req] })

def lookup (t : TLB cfg) : Result cfg :=
  match t.topPort.peek with
  | none => .ok (false, t)
  | some req =>
    if MSHR.isEntryPresent t.mshr req.pid req.vAddr then processTLBMSHRHit t req else do
      let setID ← vAddrToSetID cfg req.vAddr
      match ← (t.sets setID).lookup req.pid req.vAddr with
      | some (wayID, page) =>
        if page.valid then handleTranslationHit t req setID wayID page else handleTranslationMiss t req
      | none => handleTranslationMiss t req

def parseBottom (t : TLB cfg) : Result cfg :=
  match t.respondingMSHREntry with
  | some _ => .ok (false, t)
  | none =>
    match t.bottomPort.peek with
    | none => .ok (false, t)
    | some rsp =>
      match MSHR.query t.mshr rsp.page.pid rsp.page.vAddr with
      | none => .ok (true, { t with bottomPort := t.bottomPort.retrieve })
      | some e => do
        let setID ← vAddrToSetID cfg rsp.page.vAddr
        let (_, set) ← (t.sets setID).fill rsp.page
        let mshr ← MSHR.remove t.mshr rsp.page.pid rsp.page.vAddr
        return (true, { t with
          sets := update t.sets setID set
          respondingMSHREntry := some { e with page := rsp.page }
          mshr
          bottomPort := t.bottomPort.retrieve })

/-- The loop of `handleTLBFlush`. -/
def invalidateAll (cfg : Config) (pid : PID) : List VAddr → (Nat → SetImpl) → Except String (Nat → SetImpl)
  | [], sets => .ok sets
  | vAddr :: vAddrs, sets => do
    let setID ← vAddrToSetID cfg vAddr
    let (set, _) ← (sets setID).invalidate pid vAddr
    invalidateAll cfg pid vAddrs (update sets setID set)

def handleTLBFlush (t : TLB cfg) (req : FlushReq) : Result cfg :=
  let (sent, controlPort) := t.controlPort.send (.flush req.src)
  if !sent then .ok (false, { t with controlPort }) else do
    let sets ← invalidateAll cfg req.pid req.vAddr t.sets
    return (true, { t with controlPort, sets, mshr := [], isPaused := true, log := t.log ++ [Event.flushAck req] })

def handleTLBRestart (t : TLB cfg) (src : PortID) : Result cfg :=
  let (sent, controlPort) := t.controlPort.send (.restart src)
  if !sent then .ok (false, { t with controlPort })
  else .ok (true, { t with
    controlPort, isPaused := false, topPort := t.topPort.clear, bottomPort := t.bottomPort.clear })

def performCtrlReq (t : TLB cfg) : Result cfg :=
  match t.controlPort.peek with
  | none => .ok (false, t)
  | some (.flush req) => handleTLBFlush { t with controlPort := t.controlPort.retrieve } req
  | some (.restart _ src) => handleTLBRestart { t with controlPort := t.controlPort.retrieve } src

def tick (t : TLB cfg) : Result cfg := do
  let (p1, t) ← performCtrlReq t
  if t.isPaused then return (p1, t) else
  let (p2, t) ← repeatStage respondMSHREntry cfg.numReqPerCycle t
  let (p3, t) ← repeatStage lookup cfg.numReqPerCycle t
  let (p4, t) ← repeatStage parseBottom cfg.numReqPerCycle t
  return (p1 || p2 || p3 || p4, t)

/-- `reset`. -/
def newSets (cfg : Config) : Except String (Nat → SetImpl) := do
  let set ← SetImpl.new cfg.numWays
  return fun _ => set

def build (cfg : Config) : Except String (TLB cfg) := do
  let sets ← newSets cfg
  return { sets }

/-! ## Stage calls -/

/-- The calls a tick is made of. -/
inductive Call
  | ctrl | respond | lookup | parse
deriving DecidableEq

def Call.exec (t : TLB cfg) : Call → Result cfg
  | ctrl => performCtrlReq t
  | respond => if t.isPaused then .ok (false, t) else respondMSHREntry t
  | lookup => if t.isPaused then .ok (false, t) else Tlb.lookup t
  | parse => if t.isPaused then .ok (false, t) else parseBottom t

/-- The calls of a tick. -/
def schedule (n : Nat) : List Call := .ctrl :: (replicate n .respond ++ replicate n .lookup ++ replicate n .parse)

/-! ## Steps -/

/-- The entry of a miss. -/
def missEntry (cfg : Config) (id : MsgID) (req : TranslationReq) : MSHREntry :=
  { pid := req.pid, vAddr := req.vAddr, requests := [req], reqToBottom := some (reqToBottom cfg id req) }

/-- The response to a request of an entry. -/
def rspOf (req : TranslationReq) (page : Page) : TranslationRsp :=
  { dst := req.src, respondTo := req.id, page, taskID := req.taskID, originPort := req.originPort }

/-- What a stage call other than `performCtrlReq` can do. -/
inductive Step (t : TLB cfg) : Call → TLB cfg → Prop
  | idle (c : Call) (top bottom : List Bool) (k : MsgID) (hk : t.nextID ≤ k) :
      Step t c { t with topPort := { t.topPort with conn := top }, bottomPort := { t.bottomPort with conn := bottom },
                        nextID := k }
  | respond (e : MSHREntry) (req : TranslationReq) (requests : List TranslationReq) (conn : List Bool)
      (he : t.respondingMSHREntry = some e) (hreqs : e.requests = req :: requests) :
      Step t .respond { t with
        topPort := { t.topPort with outgoing := t.topPort.outgoing ++ [rspOf req e.page], conn }
        respondingMSHREntry := if requests.isEmpty then none else some { e with requests }
        log := t.log ++ [Event.topSend (rspOf req e.page), .reqComplete req] }
  | hit (req : TranslationReq) (setID wayID : Nat) (page : Page) (set : SetImpl) (conn : List Bool)
      (hreq : t.topPort.peek = some req) (hset : vAddrToSetID cfg req.vAddr = .ok setID)
      (hlook : (t.sets setID).lookup req.pid req.vAddr = .ok (some (wayID, page))) (hvalid : page.valid = true)
      (hvisit : (t.sets setID).visit wayID = .ok set) :
      Step t .lookup { t with
        topPort := { buf := t.topPort.buf.pop, outgoing := t.topPort.outgoing ++ [{ rspOf req page with taskID := "" }],
                     conn }
        sets := update t.sets setID set
        log := t.log ++ [Event.topSend { rspOf req page with taskID := "" }, .reqReceive req, .reqComplete req] }
  | miss (req : TranslationReq) (conn : List Bool) (hreq : t.topPort.peek = some req)
      (habsent : MSHR.isEntryPresent t.mshr req.pid req.vAddr = false) :
      Step t .lookup { t with
        topPort := t.topPort.retrieve
        bottomPort := { t.bottomPort with outgoing := t.bottomPort.outgoing ++ [reqToBottom cfg t.nextID req], conn }
        mshr := t.mshr ++ [missEntry cfg t.nextID req]
        nextID := t.nextID + 1
        log := t.log ++ [Event.reqReceive req] }
  | join (req : TranslationReq) (hreq : t.topPort.peek = some req)
      (hpresent : MSHR.isEntryPresent t.mshr req.pid req.vAddr = true) :
      Step t .lookup { t with mshr := MSHR.join req t.mshr, topPort := t.topPort.retrieve,
                              log := t.log ++ [Event.reqReceive req] }
  | parse (rsp : TranslationRsp) (e : MSHREntry) (setID wayID : Nat) (set : SetImpl) (hnone : t.respondingMSHREntry = none)
      (hrsp : t.bottomPort.peek = some rsp) (he : MSHR.query t.mshr rsp.page.pid rsp.page.vAddr = some e)
      (hset : vAddrToSetID cfg rsp.page.vAddr = .ok setID) (hfill : (t.sets setID).fill rsp.page = .ok (wayID, set)) :
      Step t .parse { t with
        sets := update t.sets setID set
        respondingMSHREntry := some { e with page := rsp.page }
        mshr := t.mshr.eraseP (MSHR.isFor rsp.page.pid rsp.page.vAddr)
        bottomPort := t.bottomPort.retrieve }
  | drop (rsp : TranslationRsp) (hrsp : t.bottomPort.peek = some rsp)
      (he : MSHR.query t.mshr rsp.page.pid rsp.page.vAddr = none) :
      Step t .parse { t with bottomPort := t.bottomPort.retrieve }

/-- What `performCtrlReq` can do. -/
inductive CtrlStep (t : TLB cfg) : TLB cfg → Prop
  | idle (controlPort : Port 1 ControlReq ControlRsp) : CtrlStep t { t with controlPort }
  | flush (req : FlushReq) (sets : Nat → SetImpl) (controlPort : Port 1 ControlReq ControlRsp)
      (hreq : t.controlPort.peek = some (.flush req)) (hsent : (t.controlPort.send (.flush req.src)).1 = true)
      (hsets : invalidateAll cfg req.pid req.vAddr t.sets = .ok sets) :
      CtrlStep t { t with controlPort, sets, mshr := [], isPaused := true, log := t.log ++ [Event.flushAck req] }
  | restart (id : MsgID) (src : PortID) (controlPort : Port 1 ControlReq ControlRsp)
      (hreq : t.controlPort.peek = some (.restart id src)) :
      CtrlStep t { t with controlPort, isPaused := false, topPort := t.topPort.clear, bottomPort := t.bottomPort.clear }

variable {t t' : TLB cfg}

variable {k : Call}

theorem Step.isPaused (h : Step t k t') : t'.isPaused = t.isPaused := by cases h <;> rfl

theorem step_refl (t : TLB cfg) (k : Call) : Step t k t := .idle k t.topPort.conn t.bottomPort.conn t.nextID (le_refl _)

variable {p : Bool}

theorem respondMSHREntry_step (h : respondMSHREntry t = .ok (p, t')) : Step t .respond t' := by
  unfold respondMSHREntry at h
  cases he : t.respondingMSHREntry with
  | none =>
    rw [he] at h
    cases h
    exact step_refl t _
  | some e =>
    cases hreqs : e.requests with
    | nil => simp only [he, hreqs] at h; cases h
    | cons req requests =>
      simp only [he, hreqs] at h
      rcases t.topPort.send_eq (rspOf req e.page) with ⟨hsent, conn, hport⟩ | ⟨hsent, conn, hport⟩
      · simp only [rspOf] at hsent hport
        simp only [hsent, hport, if_bnot_true] at h
        cases h
        exact .respond e req requests conn he hreqs
      · simp only [rspOf] at hsent hport
        simp only [hsent, hport, if_bnot_false] at h
        cases h
        rw [← he]
        exact .idle _ conn t.bottomPort.conn t.nextID (le_refl _)

theorem handleTranslationMiss_step {req : TranslationReq} (hreq : t.topPort.peek = some req)
    (habsent : MSHR.isEntryPresent t.mshr req.pid req.vAddr = false) (h : handleTranslationMiss t req = .ok (p, t')) :
    Step t .lookup t' := by
  unfold handleTranslationMiss at h
  by_cases hfull : MSHR.isFull cfg t.mshr = true
  · rw [if_pos hfull] at h
    cases h
    exact step_refl t _
  · rw [if_neg hfull] at h
    unfold fetchBottom MSHR.add at h
    have hnot : MSHR.isEntryPresent t.mshr (missEntry cfg t.nextID req).pid (missEntry cfg t.nextID req).vAddr ≠ true := by
      show MSHR.isEntryPresent t.mshr req.pid req.vAddr ≠ true
      rw [habsent]
      nofun
    simp only [missEntry] at hnot
    rcases t.bottomPort.send_eq (reqToBottom cfg t.nextID req) with ⟨hsent, conn, hport⟩ | ⟨hsent, conn, hport⟩
    · simp only [hsent, hport, if_bnot_true, if_neg hnot, if_neg hfull] at h
      cases h
      exact .miss req conn hreq habsent
    · simp only [hsent, hport, if_bnot_false] at h
      cases h
      exact .idle _ t.topPort.conn conn (t.nextID + 1) (Nat.le_succ _)

theorem lookup_step (h : lookup t = .ok (p, t')) : Step t .lookup t' := by
  unfold lookup at h
  cases hreq : t.topPort.peek with
  | none =>
    rw [hreq] at h
    cases h
    exact step_refl t _
  | some req =>
    simp only [hreq] at h
    by_cases hpresent : MSHR.isEntryPresent t.mshr req.pid req.vAddr = true
    · rw [if_pos hpresent] at h
      cases h
      exact .join req hreq hpresent
    · rw [if_neg hpresent] at h
      have habsent : MSHR.isEntryPresent t.mshr req.pid req.vAddr = false := by simpa using hpresent
      obtain ⟨setID, hset, h⟩ := eq_ok_of_bind h
      obtain ⟨r, hlook, h⟩ := eq_ok_of_bind h
      cases r with
      | none => exact handleTranslationMiss_step hreq habsent h
      | some r =>
        obtain ⟨wayID, page⟩ := r
        by_cases hvalid : page.valid = true
        · simp only [hvalid, if_true, handleTranslationHit] at h
          rcases t.topPort.send_eq { rspOf req page with taskID := "" } with ⟨hsent, conn, hport⟩ | ⟨hsent, conn, hport⟩
          · simp only [rspOf] at hsent hport
            simp only [hsent, hport, if_bnot_true] at h
            obtain ⟨set, hvisit, h⟩ := eq_ok_of_bind h
            cases h
            exact .hit req setID wayID page set conn hreq hset hlook hvalid hvisit
          · simp only [rspOf] at hsent hport
            simp only [hsent, hport, if_bnot_false] at h
            cases h
            exact .idle _ conn t.bottomPort.conn t.nextID (le_refl _)
        · simp only [hvalid, Bool.false_eq_true, if_false] at h
          exact handleTranslationMiss_step hreq habsent h

theorem isEntryPresent_of_query {entries : List MSHREntry} {pid : PID} {vAddr : VAddr} {e : MSHREntry}
    (h : MSHR.query entries pid vAddr = some e) : MSHR.isEntryPresent entries pid vAddr = true :=
  any_eq_true.mpr ⟨e, mem_of_find?_eq_some h, find?_some h⟩

theorem parseBottom_step (h : parseBottom t = .ok (p, t')) : Step t .parse t' := by
  unfold parseBottom at h
  cases hnone : t.respondingMSHREntry with
  | some =>
    rw [hnone] at h
    cases h
    exact step_refl t _
  | none =>
    cases hrsp : t.bottomPort.peek with
    | none =>
      simp only [hnone, hrsp] at h
      cases h
      exact step_refl t _
    | some rsp =>
      cases he : MSHR.query t.mshr rsp.page.pid rsp.page.vAddr with
      | none =>
        simp only [hnone, hrsp, he] at h
        cases h
        rw [← hnone]
        exact .drop rsp hrsp he
      | some e =>
        have hrem : MSHR.remove t.mshr rsp.page.pid rsp.page.vAddr =
            .ok (t.mshr.eraseP (MSHR.isFor rsp.page.pid rsp.page.vAddr)) := by
          rw [MSHR.remove, if_pos (isEntryPresent_of_query he)]
        simp only [hnone, hrsp, he] at h
        obtain ⟨setID, hset, h⟩ := eq_ok_of_bind h
        obtain ⟨r, hfill, h⟩ := eq_ok_of_bind h
        rw [hrem] at h
        cases h
        exact .parse rsp e setID r.1 r.2 hnone hrsp he hset hfill

theorem performCtrlReq_step (h : performCtrlReq t = .ok (p, t')) : CtrlStep t t' := by
  unfold performCtrlReq at h
  cases hreq : t.controlPort.peek with
  | none =>
    rw [hreq] at h
    cases h
    exact .idle t.controlPort
  | some req =>
    cases req with
    | flush req =>
      simp only [hreq, handleTLBFlush] at h
      by_cases hsent : (t.controlPort.retrieve.send (.flush req.src)).1 = true
      · simp only [hsent, if_bnot_true] at h
        obtain ⟨sets, hsets, h⟩ := eq_ok_of_bind h
        cases h
        exact .flush req sets _ hreq (by rw [← Port.sent_retrieve]; exact hsent) hsets
      · simp only [hsent] at h
        cases h
        exact .idle _
    | restart id src =>
      simp only [hreq, handleTLBRestart] at h
      by_cases hsent : (t.controlPort.retrieve.send (.restart src)).1 = true
      · simp only [hsent, if_bnot_true] at h
        cases h
        exact .restart id src _ hreq
      · simp only [hsent] at h
        cases h
        exact .idle _

/-- **Every stage call does a step.** -/
theorem Call.step (h : k.exec t = .ok (p, t')) :
    k = .ctrl ∧ CtrlStep t t' ∨ t' = t ∨ t.isPaused = false ∧ Step t k t' := by
  have hguard : ∀ {f : TLB cfg → Result cfg}, (∀ t' p, f t = .ok (p, t') → Step t k t') →
      (if t.isPaused then .ok (false, t) else f t) = .ok (p, t') → t' = t ∨ t.isPaused = false ∧ Step t k t' := by
    intro f hf h
    by_cases hp : t.isPaused = true
    · rw [if_pos hp] at h
      cases h
      exact .inl rfl
    · rw [if_neg hp] at h
      exact .inr ⟨by simpa using hp, hf t' p h⟩
  cases k with
  | ctrl => exact .inl ⟨rfl, performCtrlReq_step h⟩
  | respond => exact .inr (hguard (fun _ _ => respondMSHREntry_step) h)
  | lookup => exact .inr (hguard (fun _ _ => lookup_step) h)
  | parse => exact .inr (hguard (fun _ _ => parseBottom_step) h)

/-! ## Ticks and calls -/

theorem splits_stage {f : Stage (TLB cfg)} (hf : ∀ t p t', f t = .ok (p, t') → Step t k t')
    (hk : ∀ t : TLB cfg, k.exec t = if t.isPaused then .ok (false, t) else f t) :
    Splits (·.isPaused = false) (fun k t => Call.exec t k) f [k] :=
  .call (fun t r ht h => (hf t r.1 r.2 h).isPaused.trans ht) fun t ht => by rw [hk, if_neg (by simp [ht])]

/-- **A tick is its stage calls in a row.** -/
theorem tick_eq_calls (t : TLB cfg) :
    (tick t).map Prod.snd = calls (fun k t => Call.exec t k) (schedule cfg.numReqPerCycle) t := by
  have hsched : schedule cfg.numReqPerCycle = [.ctrl] ++ ((replicate cfg.numReqPerCycle [Call.respond]).flatten ++
      ((replicate cfg.numReqPerCycle [Call.lookup]).flatten ++ (replicate cfg.numReqPerCycle [Call.parse]).flatten)) := by
    simp [schedule]
  rw [hsched, tick]
  refine map_snd_bind (map_snd_exec (fun k t => Call.exec t k) .ctrl t) fun (p, t) _ => ?_
  apply Splits.gated
  · intro p
    refine ((splits_stage (fun _ _ _ => respondMSHREntry_step) fun _ => rfl).times _).bind fun _ => ?_
    refine ((splits_stage (fun _ _ _ => lookup_step) fun _ => rfl).times _).bind fun _ => ?_
    exact ((splits_stage (fun _ _ _ => parseBottom_step) fun _ => rfl).times _).last fun _ => rfl
  · intro t ht k hk
    have hne : k ≠ .ctrl := by
      rintro rfl
      simp [mem_replicate] at hk
    cases k with
    | ctrl => exact absurd rfl hne
    | _ => exact if_pos ht

/-! ## The TLB and its surroundings -/

/-- `answers` : the answers of the lower level that have not arrived yet. The requests it has not answered are
`tlb.bottomPort.outgoing`. -/
structure System (cfg : Config) where
  tlb : TLB cfg
  answers : List TranslationRsp := []

inductive Input
  | request (req : TranslationReq)
  | control (req : ControlReq)
  | connect (top bottom control : List Bool)
  | answer (k : Nat) (page : Page)
  | deliver (k : Nat)
  | tick
deriving DecidableEq

namespace System

def request (s : System cfg) (req : TranslationReq) : System cfg :=
  match s.tlb.topPort.recv req with
  | some topPort => { s with tlb := { s.tlb with topPort } }
  | none => s

def control (s : System cfg) (req : ControlReq) : System cfg :=
  match s.tlb.controlPort.recv req with
  | some controlPort => { s with tlb := { s.tlb with controlPort } }
  | none => s

def connect (s : System cfg) (top bottom control : List Bool) : System cfg :=
  { s with tlb := { s.tlb with
      topPort := { s.tlb.topPort with conn := top }
      bottomPort := { s.tlb.bottomPort with conn := bottom }
      controlPort := { s.tlb.controlPort with conn := control } } }

/-- The lower level's answer to a request. -/
def rsp (req : TranslationReq) (page : Page) : TranslationRsp :=
  { dst := req.src, respondTo := req.id, page, taskID := req.taskID, originPort := req.originPort }

/-- The lower level answers the `k`-th of the requests it has received. -/
def answer (s : System cfg) (k : Nat) (page : Page) : System cfg :=
  match s.tlb.bottomPort.outgoing[k]? with
  | some req =>
    { s with
      tlb := { s.tlb with
        bottomPort := { s.tlb.bottomPort with outgoing := s.tlb.bottomPort.outgoing.eraseIdx k }
        log := s.tlb.log ++ [Event.returned (rsp req page)] }
      answers := s.answers ++ [rsp req page] }
  | none => s

/-- The `k`-th answer arrives at the bottom port. -/
def deliver (s : System cfg) (k : Nat) : System cfg :=
  match s.answers[k]? with
  | some rsp =>
    match s.tlb.bottomPort.recv rsp with
    | some bottomPort => { s with tlb := { s.tlb with bottomPort }, answers := s.answers.eraseIdx k }
    | none => s
  | none => s

def step (s : System cfg) : Input → Except String (System cfg)
  | .request req => .ok (s.request req)
  | .control req => .ok (s.control req)
  | .connect top bottom control => .ok (s.connect top bottom control)
  | .answer k page => .ok (s.answer k page)
  | .deliver k => .ok (s.deliver k)
  | .tick => do
    let (_, tlb) ← Tlb.tick s.tlb
    return { s with tlb }

def run (s : System cfg) : List Input → Except String (System cfg)
  | [] => .ok s
  | i :: is => do
    let s ← s.step i
    run s is

end System

/-- `request` and `control` : the messages that may arrive; `answer` : how the lower level may answer a request; `call` : what
holds before a stage call. -/
structure Rules (cfg : Config) where
  request : TranslationReq → Prop
  control : ControlReq → Prop
  answer : TranslationReq → Page → Prop
  call : TLB cfg → Call → Prop

inductive Reaches (R : Rules cfg) : System cfg → List Call → Prop
  | init {t : TLB cfg} (h : build cfg = .ok t) : Reaches R { tlb := t } []
  | request {s : System cfg} (req : TranslationReq) (h : Reaches R s []) (hreq : R.request req) : Reaches R (s.request req) []
  | control {s : System cfg} (req : ControlReq) (h : Reaches R s []) (hreq : R.control req) : Reaches R (s.control req) []
  | connect {s : System cfg} (top bottom control : List Bool) (h : Reaches R s []) :
      Reaches R (s.connect top bottom control) []
  | answer {s : System cfg} (k : Nat) (page : Page) (h : Reaches R s [])
      (hk : ∀ req, s.tlb.bottomPort.outgoing[k]? = some req → R.answer req page) : Reaches R (s.answer k page) []
  | deliver {s : System cfg} (k : Nat) (h : Reaches R s []) : Reaches R (s.deliver k) []
  | tick {s : System cfg} (h : Reaches R s []) : Reaches R s (schedule cfg.numReqPerCycle)
  | call {s : System cfg} {k : Call} {ks : List Call} {p : Bool} {t : TLB cfg} (h : Reaches R s (k :: ks))
      (hk : R.call s.tlb k) (hexec : k.exec s.tlb = .ok (p, t)) : Reaches R { s with tlb := t } ks

/-! ## Replays -/

/-- A tick is done only if `G` holds before each of its calls. -/
def System.replay (G : TLB cfg → Call → Prop) [∀ t k, Decidable (G t k)] (s : System cfg) : Input → System cfg
  | .tick => ((guarded G (fun k t => Call.exec t k) (schedule cfg.numReqPerCycle) s.tlb).map fun tlb => { s with tlb }).getD s
  | i => (s.step i).toOption.getD s

/-- The rules allow the input in every state. -/
def Rules.Allows (R : Rules cfg) : Input → Prop
  | .request req => R.request req
  | .control req => R.control req
  | .answer _ page => ∀ req, R.answer req page
  | _ => True

theorem Reaches.replay {R : Rules cfg} {G : TLB cfg → Call → Prop} [∀ t k, Decidable (G t k)] (hG : ∀ t k, G t k → R.call t k)
    {s : System cfg} (h : Reaches R s []) {is : List Input} (his : ∀ i ∈ is, R.Allows i) :
    Reaches R (is.foldl (System.replay G) s) [] := by
  refine foldlRecOn (motive := fun s => Reaches R s []) is _ h fun s hs i hi => ?_
  have hallows := his i hi
  cases i with
  | request req => exact hs.request req hallows
  | control req => exact hs.control req hallows
  | connect top bottom control => exact hs.connect top bottom control
  | answer k page => exact hs.answer k page fun req _ => hallows req
  | deliver k => exact hs.deliver k
  | tick =>
    unfold System.replay
    cases ht : guarded G (fun k t => Call.exec t k) (schedule cfg.numReqPerCycle) s.tlb with
    | none => exact hs
    | some t =>
      exact guarded_induct (I := fun t ks => Reaches R { s with tlb := t } ks) (fun h hk hexec => h.call (hG _ _ hk) hexec) ht
        (append_nil _ ▸ hs.tick)

end Akita.Vm.Tlb
