import Akita.Vm.TlbCf.Tlb

/-!
# Careful steps of the cuckoo filter TLB

* `Careful t k` : the call `k` does not come to a branch that loses a message;
* `Step t k t'` : what a careful call can do, `Call.step`; `tick_eq_calls` : a tick is its calls in a row.
-/

namespace Akita.Vm.TlbCf
open Mem Sim
open Vm.Tlb (SetImpl FlushReq ControlReq ControlRsp)
open Returns (bind error ok)
open TLB (record retrieveBottom retrieveReq sendCmp)

variable {cfg : Config}

/-! ## Careful calls -/

/-- The compression port's connection refuses the next message. -/
def CmpRefuses (t : TLB cfg) : Prop := t.cmpPort.conn.headD false = false

/-- The filter is off, or it finds the request and its page is on the device. -/
def Passes (t : TLB cfg) (req : TranslationReq) : Prop :=
  t.filterFlag = true → ∀ cf, t.cf = some cf → passesFilter t cf req = true

/-- `top` : a local request passes the filter, or has an entry and can go nowhere; `outside` : the message is a request, and
passes the filter or cannot be passed on. -/
def Careful (t : TLB cfg) : Call → Prop
  | .top => ∀ req, t.topPort.peek = some req →
      Passes t req ∨ (t.mshr.query req.pid req.vAddr).isSome = true ∧ (t.mshr.isFull = true ∨ CmpRefuses t)
  | .outside => ∀ msg, t.outsidePort.peek = some msg →
      ∃ req, msg = .req req ∧ (t.topPort.peek = none ∨ Passes t req ∨ CmpRefuses t)
  | _ => True

/-! ## Steps -/

/-- The request at the head of the port that the call looks at. -/
inductive Heads (t : TLB cfg) : Call → MshrRequest → Message → Prop
  | top (req : TranslationReq) (h : t.topPort.peek = some req) :
      Heads t .top { request := req, localFlag := true, remoteFlag := false } (.top req)
  | outside (req : TranslationReq) (h : t.outsidePort.peek = some (.req req)) :
      Heads t .outside { request := req, localFlag := false, remoteFlag := true } (.outside (.req req))

variable {t : TLB cfg} {r : MshrRequest} {m : Message} {k : Call}

theorem Heads.side (h : Heads t k r m) : r.remoteFlag = !r.localFlag := by
  cases h <;> rfl

/-- Only the connections and the next ID change. -/
def reconnect (t : TLB cfg) (top bottom outside cmp : List Bool) (id : MsgID) : TLB cfg :=
  { t with
    topPort := { t.topPort with conn := top }
    bottomPort := { t.bottomPort with conn := bottom }
    outsidePort := { t.outsidePort with conn := outside }
    cmpPort := { t.cmpPort with conn := cmp }
    nextID := id }

/-- A response has been sent to the side of the request. -/
def answered (t : TLB cfg) (r : MshrRequest) (rsp : TranslationRsp) (conn : List Bool) : TLB cfg :=
  if r.localFlag then { t with topPort := { t.topPort with outgoing := t.topPort.outgoing ++ [rsp], conn } }
  else { t with outsidePort := { t.outsidePort with outgoing := t.outsidePort.outgoing ++ [rsp], conn } }

/-- A request has been sent to the compression port or to the bottom port. -/
def sentTo (t : TLB cfg) (toCmp : Bool) (req : TranslationReq) (conn : List Bool) : TLB cfg :=
  if toCmp then { t with cmpPort := { t.cmpPort with outgoing := t.cmpPort.outgoing ++ [req], conn }, nextID := t.nextID + 1 }
  else { t with bottomPort := { t.bottomPort with outgoing := t.bottomPort.outgoing ++ [req], conn }, nextID := t.nextID + 1 }

/-- The port a message came to without it. -/
def popped (t : TLB cfg) : Message → TLB cfg
  | .top _ => { t with topPort := t.topPort.retrieve }
  | .outside _ => { t with outsidePort := t.outsidePort.retrieve }
  | .bottom _ => { t with bottomPort := t.bottomPort.retrieve }

/-- The message has been taken and handled after the events `events`. -/
def taken (t : TLB cfg) (m : Message) (events : List Event) : TLB cfg :=
  { popped t m with log := t.log ++ (events ++ [.retrieve m, .handle m]) }

/-- What a careful stage call other than `performCtrlReq` can do. -/
inductive Step (t : TLB cfg) : Call → TLB cfg → Prop
  | idle (k : Call) (top bottom outside cmp : List Bool) (id : MsgID) : Step t k (reconnect t top bottom outside cmp id)
  | respond (e : MshrEntry) (r : MshrRequest) (requests : List MshrRequest) (conn : List Bool)
      (he : t.respondingMSHREntry = some e) (hreqs : e.requests = r :: requests) (hside : r.remoteFlag = !r.localFlag) :
      Step t .respond { answered t r (rspOf r.request e.page) conn with
        respondingMSHREntry := if requests.isEmpty then none else some { e with requests }
        log := t.log ++ [.complete r] }
  | hit (req : TranslationReq) (setID wayID : Nat) (page : Page) (set : SetImpl) (conn : List Bool)
      (hreq : t.topPort.peek = some req) (hlook : (t.sets setID).lookup req.pid req.vAddr = .ok (some (wayID, page)))
      (hvalid : page.valid = true) (hvisit : (t.sets setID).visit wayID = .ok set) :
      Step t .top { taken t (.top req) [] with
        topPort := { buf := t.topPort.buf.pop, outgoing := t.topPort.outgoing ++ [rspOfHit req page], conn }
        sets := Function.update t.sets setID set
        log := t.log ++ [.retrieve (.top req), .hit { request := req, localFlag := true, remoteFlag := false },
          .complete { request := req, localFlag := true, remoteFlag := false }, .handle (.top req)] }
  | join (k : Call) (r : MshrRequest) (m : Message) (e : MshrEntry) (hhead : Heads t k r m)
      (he : t.mshr.query r.request.pid r.request.vAddr = some e) : Step t k { taken t m [.join r] with mshr := t.mshr.join r }
  | fetch (k : Call) (r : MshrRequest) (m : Message) (toCmp : Bool) (req : TranslationReq) (conn : List Bool)
      (hhead : Heads t k r m) (hkey : req.pid = r.request.pid ∧ req.vAddr = r.request.vAddr)
      (habsent : t.mshr.query r.request.pid r.request.vAddr = none) :
      Step t k { taken (sentTo t toCmp req conn) m [.fetch r toCmp req] with mshr := ⟨t.mshr.entries ++ [missEntry r req]⟩ }
  | drop (rsp : TranslationRsp) (hrsp : t.bottomPort.peek = some (.rsp rsp)) :
      Step t .bottom (taken t (.bottom (.rsp rsp)) [])
  | fill (rsp : TranslationRsp) (e : MshrEntry) (setID wayID : Nat) (set : SetImpl) (cf : Option CuckooFilter) (n : Nat)
      (hnone : t.respondingMSHREntry = none) (hrsp : t.bottomPort.peek = some (.rsp rsp))
      (he : t.mshr.query rsp.page.pid rsp.page.vAddr = some e) (hfill : (t.sets setID).fill rsp.page = .ok (wayID, set))
      (hcf : t.cf.isSome = true → cf.isSome = true) :
      Step t .bottom { taken t (.bottom (.rsp rsp)) [.responds none { e with page := rsp.page }] with
        sets := Function.update t.sets setID set
        respondingMSHREntry := some { e with page := rsp.page }
        mshr := ⟨t.mshr.entries.eraseP (MshrEntry.isFor rsp.page.pid rsp.page.vAddr)⟩
        cf := cf
        nextInsert := n }
  | removeNone (req : RemoveMSHRReq) (hmsg : t.bottomPort.peek = some (.remove req)) :
      Step t .bottom (taken t (.bottom (.remove req)) [])
  | remove (req : RemoveMSHRReq) (e : MshrEntry) (hmsg : t.bottomPort.peek = some (.remove req))
      (he : t.mshr.query req.pid req.vAddr = some e) :
      Step t .bottom { taken t (.bottom (.remove req)) [.remove e] with
        mshr := ⟨t.mshr.entries.eraseP (MshrEntry.isFor req.pid req.vAddr)⟩ }

theorem step_refl (t : TLB cfg) (k : Call) : Step t k t :=
  .idle k t.topPort.conn t.bottomPort.conn t.outsidePort.conn t.cmpPort.conn t.nextID

/-! ## Sending -/

/-- A request from one side is answered on this side, or the connection refuses. -/
theorem sendRsp_cases (t : TLB cfg) (hside : r.remoteFlag = !r.localFlag) (rsp : TranslationRsp) :
    (∃ conn, sendRsp t r rsp = (true, answered t r rsp conn)) ∨
    ∃ top outside, sendRsp t r rsp = (false, reconnect t top t.bottomPort.conn outside t.cmpPort.conn t.nextID) := by
  unfold sendRsp answered
  cases hlocal : r.localFlag with
  | true =>
    rw [hlocal] at hside
    unfold TLB.sendTop
    rcases t.topPort.send_eq rsp with ⟨hsent, conn, hport⟩ | ⟨hsent, conn, hport⟩
    · refine .inl ⟨conn, ?_⟩
      simp [hsent, hport, hside]
    · refine .inr ⟨conn, t.outsidePort.conn, ?_⟩
      simp [hsent, hport, reconnect]
  | false =>
    rw [hlocal] at hside
    unfold TLB.sendOutside
    rcases t.outsidePort.send_eq rsp with ⟨hsent, conn, hport⟩ | ⟨hsent, conn, hport⟩
    · refine .inl ⟨conn, ?_⟩
      simp [hsent, hport, hside]
    · refine .inr ⟨t.topPort.conn, conn, ?_⟩
      simp [hsent, hport, hside, reconnect]

theorem sendTo_cases (t : TLB cfg) (toCmp : Bool) (req : TranslationReq) :
    (∃ conn, (if toCmp then t.sendCmp req else t.sendBottom req) = (true, sentTo t toCmp req conn)) ∨
    ∃ bottom cmp, (if toCmp then t.sendCmp req else t.sendBottom req) =
      (false, reconnect t t.topPort.conn bottom t.outsidePort.conn cmp (t.nextID + 1)) := by
  cases toCmp with
  | true =>
    rcases t.cmpPort.send_eq req with ⟨hsent, conn, hport⟩ | ⟨hsent, conn, hport⟩
    · refine .inl ⟨conn, ?_⟩
      simp [sendCmp, sentTo, hsent, hport]
    · refine .inr ⟨t.bottomPort.conn, conn, ?_⟩
      simp [sendCmp, reconnect, hsent, hport]
  | false =>
    rcases t.bottomPort.send_eq req with ⟨hsent, conn, hport⟩ | ⟨hsent, conn, hport⟩
    · refine .inl ⟨conn, ?_⟩
      simp [TLB.sendBottom, sentTo, hsent, hport]
    · refine .inr ⟨conn, t.cmpPort.conn, ?_⟩
      simp [TLB.sendBottom, reconnect, hsent, hport]

/-! ## Stages -/

/-- What a handler does before it is known that the message has been handled. -/
def Acts (t : TLB cfg) (k : Call) (m : Message) (y : Bool × TLB cfg) : Prop :=
  if y.1 then Step t k (y.2.record (.handle m)) else Step t k y.2

theorem handled_acts {x : Result cfg} (h : Returns (Acts t k m) x) :
    Returns (fun y => Step t k y.2) (handled m x) := by
  cases x with
  | error => exact error _
  | ok y =>
    have hy := h y rfl
    obtain ⟨p, _⟩ := y
    cases p with
    | true | false => exact ok hy

theorem retrieveReq_eq {t t₀ : TLB cfg} (hhead : Heads t k r m) (htop : t₀.topPort.buf = t.topPort.buf)
    (houtside : t₀.outsidePort.buf = t.outsidePort.buf) :
    (t₀.retrieveReq r).record (.handle m) = { popped t₀ m with log := t₀.log ++ [.retrieve m, .handle m] } := by
  cases hhead with
  | top req h =>
    have hpeek : t₀.topPort.peek = some req := by rw [← h, Port.peek, Port.peek, htop]
    simp [retrieveReq, TLB.retrieveTop, record, popped, hpeek]
  | outside req h =>
    have hpeek : t₀.outsidePort.peek = some (.req req) := by rw [← h, Port.peek, Port.peek, houtside]
    simp [retrieveReq, TLB.retrieveOutside, record, popped, hpeek]

theorem respondMSHREntry_step (hsides : ∀ e, t.respondingMSHREntry = some e → ∀ r ∈ e.requests, r.remoteFlag = !r.localFlag) :
    Returns (fun x => Step t .respond x.2) (respondMSHREntry t) := by
  unfold respondMSHREntry
  cases hresp : t.respondingMSHREntry with
  | none => exact ok (step_refl t _)
  | some e =>
    dsimp only
    cases hreqs : e.requests with
    | nil => exact error _
    | cons r requests =>
      have hside : r.remoteFlag = !r.localFlag := hsides e hresp r (by rw [hreqs]; exact List.mem_cons_self)
      rcases sendRsp_cases t hside (rspOf r.request e.page) with ⟨conn, hsend⟩ | ⟨_, _, hsend⟩
      · simp only [hsend, if_bnot_true]
        have hstep := Step.respond e r requests conn hresp hreqs hside
        have hlog : (answered t r (rspOf r.request e.page) conn).log = t.log := by
          unfold answered
          split <;> rfl
        refine ok ?_
        rw [← hlog] at hstep
        exact hstep
      · simp only [hsend, if_bnot_false]
        exact ok (.idle _ _ _ _ _ _)

theorem processTLBMSHRHit_acts {e : MshrEntry} (hhead : Heads t k r m)
    (he : t.mshr.query r.request.pid r.request.vAddr = some e) : Returns (Acts t k m) (processTLBMSHRHit t (some e) r) := by
  refine ok ?_
  have hstep := Step.join k r m e hhead he
  have hpop := retrieveReq_eq hhead (show (record { t with mshr := t.mshr.join r } (.join r)).topPort.buf =
    t.topPort.buf from rfl) rfl
  show Step t k ((retrieveReq (record { t with mshr := t.mshr.join r } (.join r)) r).record (.handle m))
  rw [hpop]
  cases hhead <;> simpa [taken, popped, record] using hstep

theorem miss_acts (toCmp : Bool) (req : TranslationReq) (hhead : Heads t k r m)
    (hkey : req.pid = r.request.pid ∧ req.vAddr = r.request.vAddr)
    (habsent : t.mshr.query r.request.pid r.request.vAddr = none) :
    Returns (Acts t k m) (miss t r fun t r => fetch t r toCmp req) := by
  unfold miss
  by_cases hfull : t.mshr.isFull = true
  · rw [if_pos hfull]
    exact ok (step_refl t k)
  · rw [if_neg hfull]
    have hadd : t.mshr.add (missEntry r req) = .ok ⟨t.mshr.entries ++ [missEntry r req]⟩ :=
      Mshr.add_ok habsent (by simpa using hfull)
    unfold fetch
    rcases sendTo_cases t toCmp req with ⟨conn, hsend⟩ | ⟨_, _, hsend⟩
    · have hmshr : (sentTo t toCmp req conn).mshr = t.mshr := by cases toCmp <;> rfl
      simp only [hsend, if_bnot_true, hmshr, hadd]
      have hstep := Step.fetch k r m toCmp req conn hhead hkey habsent
      have hpop := retrieveReq_eq hhead
        (show (record { sentTo t toCmp req conn with mshr := ⟨t.mshr.entries ++ [missEntry r req]⟩ }
          (.fetch r toCmp req)).topPort.buf =
          t.topPort.buf by cases toCmp <;> rfl) (by cases toCmp <;> rfl)
      refine ok ?_
      show Step t k ((retrieveReq (record { sentTo t toCmp req conn with mshr := ⟨t.mshr.entries ++ [missEntry r req]⟩ }
        (.fetch r toCmp req)) r).record (.handle m))
      rw [hpop]
      cases hhead <;> cases toCmp <;> simpa [taken, popped, sentTo, record] using hstep
    · simp only [hsend, if_bnot_false]
      exact ok (.idle _ _ _ _ _ _)

variable {req : TranslationReq}

theorem processTranslation_acts (hreq : t.topPort.peek = some req) :
    Returns (Acts t .top (.top req)) (processTranslation t req) := by
  have hhead : Heads t .top { request := req, localFlag := true, remoteFlag := false } (.top req) := .top req hreq
  unfold processTranslation
  cases he : t.mshr.query req.pid req.vAddr with
  | some => exact processTLBMSHRHit_acts hhead he
  | none =>
    refine bind fun setID hset => bind fun found hlook => ?_
    have hmiss := miss_acts false (reqToBottom cfg t.nextID req) hhead ⟨rfl, rfl⟩ he
    cases found with
    | none => exact hmiss
    | some x =>
      obtain ⟨wayID, page⟩ := x
      by_cases hvalid : page.valid = true
      · simp only [if_pos hvalid]
        unfold handleTranslationHit
        rcases sendRsp_cases t hhead.side (rspOfHit req page) with ⟨conn, hsend⟩ | ⟨_, _, hsend⟩
        · simp only [hsend, if_bnot_true]
          refine bind fun set hvisit => ok ?_
          have hstep := Step.hit req setID wayID page set conn hreq hlook hvalid hvisit
          have hpeek : t.topPort.buf.peek = some req := hreq
          simpa [Acts, answered, retrieveReq, TLB.retrieveTop, record, Port.retrieve, Port.peek, hpeek, taken, popped]
            using hstep
        · simp only [hsend, if_bnot_false]
          exact ok (.idle _ _ _ _ _ _)
      · simp only [if_neg hvalid]
        exact hmiss

theorem processRemoteTranslationReq_acts (hreq : t.outsidePort.peek = some (.req req)) :
    Returns (Acts t .outside (.outside (.req req))) (processRemoteTranslationReq t req) := by
  have hhead : Heads t .outside { request := req, localFlag := false, remoteFlag := true } (.outside (.req req)) :=
    .outside req hreq
  unfold processRemoteTranslationReq
  cases he : t.mshr.query req.pid req.vAddr with
  | some => exact processTLBMSHRHit_acts hhead he
  | none => exact miss_acts true (reqToCmp cfg t.nextID req) hhead ⟨rfl, rfl⟩ he

theorem filtered_of_passes (h : Passes t req) (found notFound : Result cfg) :
    filtered t req found notFound = found ∨ filtered t req found notFound = .error nilDereference := by
  unfold filtered
  by_cases hflag : t.filterFlag = true
  · rw [if_pos hflag]
    cases hcf : t.cf with
    | none => exact .inr rfl
    | some cf => exact .inl (if_pos (h hflag cf hcf))
  · exact .inl (if_neg hflag)

theorem sendCmp_refused (h : CmpRefuses t) (req : TranslationReq) :
    ∃ conn, t.sendCmp req = (false, reconnect t t.topPort.conn t.bottomPort.conn t.outsidePort.conn conn (t.nextID + 1)) := by
  have hsent := Port.sent_eq t.cmpPort req
  rw [h] at hsent
  rcases t.cmpPort.send_eq req with ⟨hsent', conn, hport⟩ | ⟨-, conn, hport⟩
  · rw [hsent] at hsent'
    cases hsent'
  · exact ⟨conn, by simp [sendCmp, hsent, hport, reconnect]⟩

/-- A local request that has an entry and can go nowhere stays. -/
theorem handleLocalCF_stuck (hpresent : (t.mshr.query req.pid req.vAddr).isSome = true)
    (hstuck : t.mshr.isFull = true ∨ CmpRefuses t) :
    ∃ conn id, handleLocalCF t req =
      .ok (false, reconnect t t.topPort.conn t.bottomPort.conn t.outsidePort.conn conn id) := by
  obtain ⟨_, he⟩ := Option.isSome_iff_exists.mp hpresent
  unfold handleLocalCF
  simp only [he]
  unfold processTLBMSHRMiss miss
  by_cases hfull : t.mshr.isFull = true
  · rw [if_pos hfull]
    exact ⟨t.cmpPort.conn, t.nextID, rfl⟩
  · rw [if_neg hfull]
    obtain ⟨conn, hsend⟩ := sendCmp_refused (hstuck.resolve_left hfull) (reqToCmp cfg t.nextID req)
    simp only [fetchLocalCmp, fetch, if_true, hsend, Bool.not_false]
    exact ⟨conn, t.nextID + 1, rfl⟩

theorem lookupFromTopPort_step (hcareful : Careful t .top) : Returns (fun x => Step t .top x.2) (lookupFromTopPort t) := by
  unfold lookupFromTopPort
  cases hreq : t.topPort.peek with
  | none => exact ok (step_refl t _)
  | some req =>
    apply handled_acts
    rcases hcareful req hreq with hpasses | ⟨hpresent, hstuck⟩
    · rcases filtered_of_passes hpasses (processTranslation t req) (handleLocalCF t req) with hfound | hnil
      · rw [hfound]
        exact processTranslation_acts hreq
      · rw [hnil]
        exact error _
    · unfold filtered
      split
      · split
        · exact error _
        · split
          · exact processTranslation_acts hreq
          · obtain ⟨_, _, hlocal⟩ := handleLocalCF_stuck hpresent hstuck
            rw [hlocal]
            exact ok (.idle _ _ _ _ _ _)
      · exact processTranslation_acts hreq

theorem lookupFromOutsidePort_step (hcareful : Careful t .outside) :
    Returns (fun x => Step t .outside x.2) (lookupFromOutsidePort t) := by
  unfold lookupFromOutsidePort
  cases hmsg : t.outsidePort.peek with
  | none => exact ok (step_refl t _)
  | some msg =>
    obtain ⟨req, rfl, hpass⟩ := hcareful msg hmsg
    apply handled_acts
    unfold processRemoteTranslation
    cases htop : t.topPort.peek with
    | none => exact ok (step_refl t _)
    | some =>
      rcases hpass with hnone | hpasses | hrefuses
      · exact absurd (htop.symm.trans hnone) (Option.some_ne_none _)
      · rcases filtered_of_passes hpasses (processRemoteTranslationReq t req) (handleRemoteCFMiss t req) with hfound | hnil
        · simp only [hfound]
          exact processRemoteTranslationReq_acts hmsg
        · simp only [hnil]
          exact error _
      · simp only [filtered]
        split
        · split
          · exact error _
          · split
            · exact processRemoteTranslationReq_acts hmsg
            · obtain ⟨_, hsend⟩ := sendCmp_refused hrefuses (reqToPeer cfg t.nextID req)
              simp only [handleRemoteCFMiss, hsend, if_bnot_false]
              exact ok (.idle _ _ _ _ _ _)
        · exact processRemoteTranslationReq_acts hmsg

theorem insertFilter_returns (t : TLB cfg) (page : Page) :
    Returns (fun t' => ∃ cf n, t' = { t with cf := cf, nextInsert := n } ∧ (t.cf.isSome = true → cf.isSome = true))
      (insertFilter t page) := by
  unfold insertFilter
  split
  · split
    · exact error _
    next cf hcf => exact bind fun r _ => ok ⟨some r.2, t.nextInsert + 1, rfl, fun _ => rfl⟩
  · exact ok ⟨t.cf, t.nextInsert, rfl, id⟩

theorem processRsp_acts {rsp : TranslationRsp} (hnone : t.respondingMSHREntry = none)
    (hrsp : t.bottomPort.peek = some (.rsp rsp)) : Returns (Acts t .bottom (.bottom (.rsp rsp))) (processRsp t rsp) := by
  unfold processRsp
  cases he : t.mshr.query rsp.page.pid rsp.page.vAddr with
  | none =>
    refine ok ?_
    have hstep := Step.drop rsp hrsp
    simpa [Acts, retrieveBottom, record, hrsp, taken, popped] using hstep
  | some e =>
    refine bind fun setID hset => bind fun r hfill => bind fun mshr hmshr => bind fun t' ht' => ok ?_
    rw [Mshr.remove_of_query he, Except.ok.injEq] at hmshr
    subst hmshr
    obtain ⟨cf, n, rfl, hcf⟩ := insertFilter_returns _ _ t' ht'
    have hstep := Step.fill rsp e setID r.1 r.2 cf n hnone hrsp he hfill hcf
    simpa [Acts, retrieveBottom, record, hrsp, taken, popped, hnone] using hstep

theorem processRemoveMSHRReq_acts {req : RemoveMSHRReq} (hmsg : t.bottomPort.peek = some (.remove req)) :
    Returns (Acts t .bottom (.bottom (.remove req))) (processRemoveMSHRReq t req) := by
  unfold processRemoveMSHRReq
  cases he : t.mshr.query req.pid req.vAddr with
  | none =>
    refine ok ?_
    have hstep := Step.removeNone req hmsg
    simpa [Acts, retrieveBottom, record, hmsg, taken, popped] using hstep
  | some e =>
    refine bind fun mshr hmshr => ok ?_
    rw [Mshr.remove_of_query he, Except.ok.injEq] at hmshr
    subst hmshr
    have hstep := Step.remove req e hmsg he
    simpa [Acts, retrieveBottom, record, hmsg, taken, popped] using hstep

theorem parseBottom_step (t : TLB cfg) : Returns (fun x => Step t .bottom x.2) (parseBottom t) := by
  unfold parseBottom
  cases hresp : t.respondingMSHREntry with
  | some => exact ok (step_refl t _)
  | none =>
    cases hmsg : t.bottomPort.peek with
    | none => exact ok (step_refl t _)
    | some msg =>
      cases msg with
      | rsp => exact handled_acts (processRsp_acts hresp hmsg)
      | remove => exact handled_acts (processRemoveMSHRReq_acts hmsg)

/-- **Every careful stage call does a step**, except for control requests. -/
theorem Call.step {t t' : TLB cfg} {p : Bool} (hcareful : Careful t k)
    (hsides : ∀ e, t.respondingMSHREntry = some e → ∀ r ∈ e.requests, r.remoteFlag = !r.localFlag)
    (hcontrol : t.controlPort.peek = none) (h : k.exec t = .ok (p, t')) : t' = t ∨ Step t k t' := by
  have hguard : ∀ {f : Result cfg}, Returns (fun x => Step t k x.2) f →
      (if t.isPaused then .ok (false, t) else f) = .ok (p, t') → t' = t ∨ Step t k t' := by
    intro f hf h
    by_cases hp : t.isPaused = true
    · rw [if_pos hp] at h
      cases h
      exact .inl rfl
    · rw [if_neg hp] at h
      exact .inr (hf _ h)
  cases k with
  | ctrl =>
    rw [Call.exec, performCtrlReq, hcontrol] at h
    cases h
    exact .inl rfl
  | respond => exact hguard (respondMSHREntry_step hsides) h
  | top => exact hguard (lookupFromTopPort_step hcareful) h
  | outside => exact hguard (lookupFromOutsidePort_step hcareful) h
  | bottom => exact hguard (parseBottom_step t) h

end Akita.Vm.TlbCf
