import Akita.Vm.TlbGmmu.Tlb

/-!
# Steps of the GMMU TLB

* `Step t k t'` : what a call can do, `Call.step`;
* `tick_eq_calls` : a tick is its calls in a row.
-/

namespace Akita.Vm.TlbGmmu
open Mem Sim List
open Vm.Tlb (SetImpl FlushReq ControlReq ControlRsp)
open Returns (bind error ok)

variable {cfg : Config}

/-- The request at the head of the port that the call looks at. -/
inductive Heads (t : GMMUTLB cfg) : Call → MshrRequest → Prop
  | top (req : TranslationReq) (h : t.topPort.peek = some req) :
      Heads t .top { request := req, localFlag := true, remoteFlag := false }
  | outside (req : TranslationReq) (h : t.outsidePort.peek = some (.req req)) :
      Heads t .outside { request := req, localFlag := false, remoteFlag := true }

/-- The response at the head of the port that the call looks at, and whether it is the bottom port. -/
inductive HeadsRsp (t : GMMUTLB cfg) : Call → TranslationRsp → Bool → Prop
  | outside (rsp : TranslationRsp) (h : t.outsidePort.peek = some (.rsp rsp)) : HeadsRsp t .outside rsp false
  | bottom (rsp : TranslationRsp) (h : t.bottomPort.peek = some rsp) (hnone : t.respondingMSHREntry = []) :
      HeadsRsp t .bottom rsp true

/-- Only the connections and the next ID change. -/
def reconnect (t : GMMUTLB cfg) (top bottom outside : List Bool) (id : MsgID) : GMMUTLB cfg :=
  { t with
    topPort := { t.topPort with conn := top }
    bottomPort := { t.bottomPort with conn := bottom }
    outsidePort := { t.outsidePort with conn := outside }
    nextID := id }

/-- A response has been sent to the side of the request. -/
def answered (t : GMMUTLB cfg) (r : MshrRequest) (toTop toOutside : TranslationRsp) (conn : List Bool) : GMMUTLB cfg :=
  if r.localFlag then
    { t with topPort := { t.topPort with outgoing := t.topPort.outgoing ++ [toTop], conn } }.record (.topSend toTop)
  else
    { t with outsidePort := { t.outsidePort with outgoing := t.outsidePort.outgoing ++ [OutsideOut.rsp toOutside], conn }
               }.record
      (.outsideSend (.rsp toOutside))

/-- A request has been sent to the port `dst` of the next layer. -/
def sentOn (t : GMMUTLB cfg) (r : MshrRequest) (dst : PortID) (conn : List Bool) : GMMUTLB cfg :=
  { t with
    outsidePort := { t.outsidePort with
      outgoing := t.outsidePort.outgoing ++ [OutsideOut.req (reqToNextLayer cfg t.nextID dst r)], conn }
    nextID := t.nextID + 1 }.record (.outsideSend (.req (reqToNextLayer cfg t.nextID dst r)))

/-- The TLB after it has passed a request on to the port `dst` of the next layer. -/
def passed (t : GMMUTLB cfg) (r : MshrRequest) (dst : PortID) (conn : List Bool) : GMMUTLB cfg :=
  ((sentOn t r dst conn).retrieveReq r).record (.reqInitiate r true (reqToNextLayer cfg t.nextID dst r))

/-- The TLB after it has fetched the page of a request from the lower level. -/
def fetched (t : GMMUTLB cfg) (r : MshrRequest) (conn : List Bool) : GMMUTLB cfg :=
  ({ t with
    bottomPort := { t.bottomPort with outgoing := t.bottomPort.outgoing ++ [reqToBottom cfg t.nextID r.request], conn }
    nextID := t.nextID + 1
    mshr := ⟨t.mshr.entries ++ [missEntry r (reqToBottom cfg t.nextID r.request)]⟩ }.retrieveReq r).record
      (.reqInitiate r false (reqToBottom cfg t.nextID r.request))

/-- The TLB after a page has been put in the set `setID` in place of `oldPage`, and in the filter `cf`. -/
def installed (t : GMMUTLB cfg) (page : Page) (setID : Nat) (set : SetImpl) (oldPage : Page) (cf : CuckooFilter 256) :
    GMMUTLB cfg :=
  { t with
    sets := Function.update t.sets setID set
    cuckooFilter := (cf.insert page.vAddr (t.rand t.nextInsert)).2
    nextInsert := t.nextInsert + 1
    log := t.log ++ [Event.evict oldPage t.cuckooFilter cf] }

/-- The TLB after the response for an entry. -/
def filled (t : GMMUTLB cfg) (e : MshrEntry) (rsp : TranslationRsp) (bottom : Bool) : GMMUTLB cfg :=
  retrieveRsp { t with
    respondingMSHREntry := t.respondingMSHREntry ++ [{ e with page := rsp.page }]
    mshr := ⟨t.mshr.entries.eraseP (MshrEntry.isFor rsp.page.pid rsp.page.vAddr)⟩ } bottom

/-- A valid page of the request is held in its set. -/
def Held (t : GMMUTLB cfg) (req : TranslationReq) : Prop :=
  ∃ setID wayID page, vAddrToSetID cfg req.vAddr = .ok setID ∧ (t.sets setID).lookup req.pid req.vAddr =
    .ok (some (wayID, page)) ∧
    page.valid = true

/-- The page of the request is on the device of the TLB. -/
def OnDevice (t : GMMUTLB cfg) (req : TranslationReq) : Prop :=
  ∃ page, t.pageTable.find req.pid req.vAddr = some page ∧ page.deviceID = cfg.deviceID

/-- The filter lets the TLB look the request up, if it is a remote one. -/
def Filtered (t : GMMUTLB cfg) (r : MshrRequest) : Prop := r.remoteFlag = true → isInCuckooFilter t r.request = true

/-- What a stage call other than `performCtrlReq` can do. -/
inductive Step (t : GMMUTLB cfg) : Call → GMMUTLB cfg → Prop
  | idle (k : Call) (top bottom outside : List Bool) (id : MsgID) (hid : t.nextID ≤ id) :
      Step t k (reconnect t top bottom outside id)
  | respond (e : MshrEntry) (es : List MshrEntry) (r : MshrRequest) (requests : List MshrRequest) (conn : List Bool)
      (he : t.respondingMSHREntry = e :: es) (hreqs : e.requests = r :: requests) (hside : r.remoteFlag = !r.localFlag) :
      Step t .respond ({ answered t r (rspToTop r.request e.page) (rspToOutside r.request e.page) conn with
        respondingMSHREntry := if requests.isEmpty then es else { e with requests } :: es }.record (.reqComplete r))
  | hit (k : Call) (r : MshrRequest) (setID wayID : Nat) (page : Page) (set : SetImpl) (conn : List Bool)
      (hhead : Heads t k r) (hset : vAddrToSetID cfg r.request.vAddr = .ok setID)
      (hlook : (t.sets setID).lookup r.request.pid r.request.vAddr = .ok (some (wayID, page))) (hvalid : page.valid = true)
      (hvisit : (t.sets setID).visit wayID = .ok set) (hfilter : Filtered t r)
      (habsent : t.mshr.query r.request.pid r.request.vAddr = none) :
      Step t k ({ (answered t r (rspToTop r.request page) (rspToOutsideHit r.request page) conn).retrieveReq r with
        sets := Function.update t.sets setID set }.record (.reqComplete r))
  | join (k : Call) (r : MshrRequest) (e : MshrEntry) (hhead : Heads t k r)
      (he : t.mshr.query r.request.pid r.request.vAddr = some e) : Step t k ({ t with mshr := t.mshr.join r }.retrieveReq r)
  | fetch (k : Call) (r : MshrRequest) (conn : List Bool) (hhead : Heads t k r)
      (habsent : t.mshr.query r.request.pid r.request.vAddr = none) (hfilter : Filtered t r) (hmiss : ¬ Held t r.request)
      (hdevice : OnDevice t r.request) : Step t k (fetched t r conn)
  | fetchRemote (req : TranslationReq) (dst : PortID) (conn : List Bool) (hhead : t.topPort.peek = some req)
      (hdst : nextLayer cfg req.vAddr = .ok dst) (habsent : t.mshr.query req.pid req.vAddr = none) :
      Step t .top { passed t { request := req, localFlag := true, remoteFlag := false } dst conn with
        mshr := ⟨t.mshr.entries ++ [missEntry { request := req, localFlag := true, remoteFlag := false }
          (reqToNextLayer cfg t.nextID dst { request := req, localFlag := true, remoteFlag := false })]⟩ }
  | pass (req : TranslationReq) (dst : PortID) (conn : List Bool) (hhead : t.outsidePort.peek = some (.req req))
      (hdst : nextLayer cfg req.vAddr = .ok dst) :
      Step t .outside (passed t { request := req, localFlag := false, remoteFlag := true } dst conn)
  | drop (k : Call) (rsp : TranslationRsp) (bottom : Bool) (hhead : HeadsRsp t k rsp bottom)
      (habsent : t.mshr.query rsp.page.pid rsp.page.vAddr = none) : Step t k (retrieveRsp t bottom)
  | fill (k : Call) (rsp : TranslationRsp) (bottom : Bool) (e : MshrEntry) (t₁ : GMMUTLB cfg)
      (hhead : HeadsRsp t k rsp bottom) (he : t.mshr.query rsp.page.pid rsp.page.vAddr = some e)
      (hinstall : install t rsp.page (fun oldPage => !oldPage.valid) = .ok t₁) : Step t k (filled t₁ e rsp bottom)
  | load (page : Page) (t₁ : GMMUTLB cfg) (hhead : t.outsidePort.peek = some (.pageLoad page))
      (hinstall : install t page (fun oldPage => oldPage != {}) = .ok t₁) : Step t .outside t₁.retrieveOutside

/-- What `performCtrlReq` can do. -/
inductive CtrlStep (t : GMMUTLB cfg) : GMMUTLB cfg → Prop
  | idle (controlPort : Port 1 ControlReq ControlRsp) : CtrlStep t { t with controlPort }
  | flush (req : FlushReq) (sets : Nat → SetImpl) (controlPort : Port 1 ControlReq ControlRsp)
      (hreq : t.controlPort.peek = some (.flush req)) (hsent : (t.controlPort.send (.flush req.src)).1 = true)
      (hsets : invalidateAll cfg req.pid req.vAddr t.sets = .ok sets) :
      CtrlStep t { t with controlPort, sets, mshr := t.mshr.reset, isPaused := true }
  | restart (id : MsgID) (src : PortID) (controlPort : Port 1 ControlReq ControlRsp)
      (hreq : t.controlPort.peek = some (.restart id src)) :
      CtrlStep t { t with controlPort, isPaused := false, topPort := t.topPort.clear, bottomPort := t.bottomPort.clear }

theorem step_refl (t : GMMUTLB cfg) (k : Call) : Step t k t :=
  .idle k t.topPort.conn t.bottomPort.conn t.outsidePort.conn t.nextID (le_refl _)

/-! ## Sending -/

theorem sendTop_cases (t : GMMUTLB cfg) (rsp : TranslationRsp) :
    (∃ conn, t.sendTop rsp =
      (true, { t with topPort := { t.topPort with outgoing := t.topPort.outgoing ++ [rsp], conn } }.record (.topSend rsp))) ∨
    ∃ conn, t.sendTop rsp = (false, { t with topPort := { t.topPort with conn } }) := by
  unfold GMMUTLB.sendTop
  rcases t.topPort.send_eq rsp with ⟨hsent, conn, hport⟩ | ⟨hsent, conn, hport⟩
  · refine .inl ⟨conn, ?_⟩
    simp only [hsent, hport, if_true, GMMUTLB.record]
  · refine .inr ⟨conn, ?_⟩
    simp [hsent, hport]

theorem sendOutside_cases (t : GMMUTLB cfg) (msg : OutsideOut) :
    (∃ conn, t.sendOutside msg =
      (true, { t with outsidePort := { t.outsidePort with outgoing := t.outsidePort.outgoing ++ [msg], conn } }.record
        (.outsideSend msg))) ∨
    ∃ conn, t.sendOutside msg = (false, { t with outsidePort := { t.outsidePort with conn } }) := by
  unfold GMMUTLB.sendOutside
  rcases t.outsidePort.send_eq msg with ⟨hsent, conn, hport⟩ | ⟨hsent, conn, hport⟩
  · refine .inl ⟨conn, ?_⟩
    simp only [hsent, hport, if_true, GMMUTLB.record]
  · refine .inr ⟨conn, ?_⟩
    simp [hsent, hport]

variable {r : MshrRequest}

/-- A request from one side is answered on this side, or the connection refuses. -/
theorem sendRsp_cases (t : GMMUTLB cfg) (hside : r.remoteFlag = !r.localFlag) (toTop toOutside : TranslationRsp) :
    (∃ conn, sendRsp t r toTop toOutside = (true, answered t r toTop toOutside conn)) ∨
    ∃ top outside, sendRsp t r toTop toOutside = (false, reconnect t top t.bottomPort.conn outside t.nextID) := by
  unfold sendRsp answered
  cases hlocal : r.localFlag with
  | true =>
    rw [hlocal] at hside
    rcases sendTop_cases t toTop with ⟨conn, hsend⟩ | ⟨conn, hsend⟩
    · refine .inl ⟨conn, ?_⟩
      simp [hsend, hside]
    · refine .inr ⟨conn, t.outsidePort.conn, ?_⟩
      simp [hsend, reconnect]
  | false =>
    rw [hlocal] at hside
    rcases sendOutside_cases t (.rsp toOutside) with ⟨conn, hsend⟩ | ⟨conn, hsend⟩
    · refine .inl ⟨conn, ?_⟩
      simp [hsend, hside]
    · refine .inr ⟨t.topPort.conn, conn, ?_⟩
      simp [hsend, hside, reconnect]

theorem sendToNextLayer_cases (t : GMMUTLB cfg) (hside : r.remoteFlag = !r.localFlag) :
    Returns (fun x => (∃ conn, x = (none, reconnect t t.topPort.conn t.bottomPort.conn conn (t.nextID + 1))) ∨
      ∃ dst conn, nextLayer cfg r.request.vAddr = .ok dst ∧
        x = (some (reqToNextLayer cfg t.nextID dst r), passed t r dst conn)) (sendToNextLayer t r) := by
  refine bind fun dst hdst => ?_
  dsimp only
  rcases sendOutside_cases { t with nextID := t.nextID + 1 } (.req (reqToNextLayer cfg t.nextID dst r))
    with ⟨conn, hsend⟩ | ⟨conn, hsend⟩
  · rw [hsend]
    refine ok (.inr ⟨dst, conn, hdst, ?_⟩)
    unfold passed sentOn GMMUTLB.retrieveReq
    cases hlocal : r.localFlag with
    | true | false => simp [hside, hlocal]
  · rw [hsend]
    exact ok (.inl ⟨conn, rfl⟩)

/-! ## Stages -/

variable {t : GMMUTLB cfg} {k : Call}

theorem Heads.side (h : Heads t k r) : r.remoteFlag = !r.localFlag := by
  cases h <;> rfl

theorem respondMSHREntry_step (hsides : ∀ e ∈ t.respondingMSHREntry, ∀ r ∈ e.requests, r.remoteFlag = !r.localFlag) :
    Returns (fun x => Step t .respond x.2) (respondMSHREntry t) := by
  unfold respondMSHREntry
  cases hresp : t.respondingMSHREntry with
  | nil => exact ok (step_refl t _)
  | cons e es =>
    dsimp only
    cases hreqs : e.requests with
    | nil => exact error _
    | cons r requests =>
      have hside : r.remoteFlag = !r.localFlag :=
        hsides e (by rw [hresp]; exact mem_cons_self) r (by rw [hreqs]; exact mem_cons_self)
      rcases sendRsp_cases t hside (rspToTop r.request e.page) (rspToOutside r.request e.page)
        with ⟨conn, hsend⟩ | ⟨_, _, hsend⟩
      · simp only [hsend, if_bnot_true]
        exact ok (.respond e es r requests conn hresp hreqs hside)
      · simp only [hsend, if_bnot_false]
        exact ok (.idle _ _ _ _ _ (le_refl _))

theorem fetchBottom_step (hhead : Heads t k r) (hfilter : Filtered t r)
    (habsent : t.mshr.query r.request.pid r.request.vAddr = none) (hmiss : ¬ Held t r.request)
    (hfull : t.mshr.isFull = false) :
    Returns (fun x => Step t k x.2) (fetchBottom t r) := by
  have hadd : ∀ fetch, t.mshr.add (missEntry r fetch) = .ok ⟨t.mshr.entries ++ [missEntry r fetch]⟩ :=
    fun fetch => Mshr.add_ok habsent hfull
  unfold fetchBottom
  cases hfind : t.pageTable.find r.request.pid r.request.vAddr with
  | none => exact error _
  | some page =>
    by_cases hdevice : page.deviceID ≠ cfg.deviceID
    · simp only [if_pos hdevice]
      have hnext := sendToNextLayer_cases t hhead.side
      cases hsend : sendToNextLayer t r with
      | error => exact error _
      | ok x =>
        rcases hnext x hsend with ⟨conn, rfl⟩ | ⟨dst, conn, hdst, rfl⟩
        · exact ok (.idle _ _ _ _ _ (Nat.le_succ _))
        · cases hhead with
          | top req h =>
            have hmshr : (passed t { request := req, localFlag := true, remoteFlag := false } dst conn).mshr = t.mshr := rfl
            simp only [if_true, hmshr, hadd]
            exact ok (.fetchRemote req dst conn h hdst habsent)
          | outside req h =>
            simp only [Bool.false_eq_true, if_false]
            exact ok (.pass req dst conn h hdst)
    · simp only [if_neg hdevice]
      rcases t.bottomPort.send_eq (reqToBottom cfg t.nextID r.request) with ⟨hsent, conn, hport⟩ | ⟨hsent, conn, hport⟩
      · simp only [hsent, hport, if_bnot_true, hadd]
        exact ok (.fetch k r conn hhead habsent hfilter hmiss ⟨page, hfind, not_not.mp hdevice⟩)
      · simp only [hsent, hport, if_bnot_false]
        exact ok (.idle _ t.topPort.conn conn t.outsidePort.conn _ (Nat.le_succ _))

theorem handleTranslationMiss_step (hhead : Heads t k r) (hfilter : Filtered t r)
    (habsent : t.mshr.query r.request.pid r.request.vAddr = none) (hmiss : ¬ Held t r.request) :
    Returns (fun x => Step t k x.2) (handleTranslationMiss t r) := by
  unfold handleTranslationMiss
  by_cases hfull : t.mshr.isFull = true
  · rw [if_pos hfull]
    exact ok (step_refl t k)
  · rw [if_neg hfull]
    exact fetchBottom_step hhead hfilter habsent hmiss (by simpa using hfull)

theorem retrieveReq_sets (t : GMMUTLB cfg) (r : MshrRequest) : (t.retrieveReq r).sets = t.sets := by
  unfold GMMUTLB.retrieveReq
  split
  · rfl
  · split <;> rfl

theorem answered_sets (t : GMMUTLB cfg) (r : MshrRequest) (toTop toOutside : TranslationRsp) (conn : List Bool) :
    (answered t r toTop toOutside conn).sets = t.sets := by
  unfold answered
  split <;> rfl

variable {page : Page}

theorem handleTranslationHit_step {setID wayID : Nat} (hhead : Heads t k r) (hfilter : Filtered t r)
    (habsent : t.mshr.query r.request.pid r.request.vAddr = none) (hset : vAddrToSetID cfg r.request.vAddr = .ok setID)
    (hlook : (t.sets setID).lookup r.request.pid r.request.vAddr = .ok (some (wayID, page))) (hvalid : page.valid = true) :
    Returns (fun x => Step t k x.2) (handleTranslationHit t r setID wayID page) := by
  unfold handleTranslationHit
  rcases sendRsp_cases t hhead.side (rspToTop r.request page) (rspToOutsideHit r.request page)
    with ⟨conn, hsend⟩ | ⟨_, _, hsend⟩
  · simp only [hsend, if_bnot_true]
    refine bind fun set hvisit => ok ?_
    rw [answered_sets] at hvisit
    have hstep := Step.hit k r setID wayID page set conn hhead hset hlook hvalid hvisit hfilter habsent
    simpa only [retrieveReq_sets, answered_sets] using hstep
  · simp only [hsend, if_bnot_false]
    exact ok (.idle _ _ _ _ _ (le_refl _))

theorem processTranslation_step {req : TranslationReq} {localFlag remoteFlag : Bool}
    (hhead : Heads t k { request := req, localFlag, remoteFlag })
    (hfilter : Filtered t { request := req, localFlag, remoteFlag }) :
    Returns (fun x => Step t k x.2) (processTranslation t req localFlag remoteFlag) := by
  unfold processTranslation
  cases he : t.mshr.query req.pid req.vAddr with
  | some e => exact ok (.join k _ e hhead he)
  | none =>
    refine bind fun setID hset => bind fun found hlook => ?_
    -- what is found is in the set of the address
    have hheld : Held t req → ∃ wayID page, found = some (wayID, page) ∧ page.valid = true := by
      rintro ⟨setID', wayID, page, hset', hlook', hvalid⟩
      rw [hset, Except.ok.injEq] at hset'
      subst hset'
      rw [hlook, Except.ok.injEq] at hlook'
      exact ⟨wayID, page, hlook', hvalid⟩
    cases found with
    | none =>
      refine handleTranslationMiss_step hhead hfilter he fun h => ?_
      obtain ⟨_, _, hnone, -⟩ := hheld h
      cases hnone
    | some x =>
      obtain ⟨_, page⟩ := x
      by_cases hvalid : page.valid = true
      · simp only [if_pos hvalid]
        exact handleTranslationHit_step hhead hfilter he hset hlook hvalid
      · simp only [if_neg hvalid]
        refine handleTranslationMiss_step hhead hfilter he fun h => ?_
        obtain ⟨_, _, hsome, hvalid'⟩ := hheld h
        cases hsome
        exact hvalid hvalid'

theorem install_eq {t t₁ : GMMUTLB cfg} {deletes : Page → Bool} (h : install t page deletes = .ok t₁) :
    ∃ setID oldPage set, vAddrToSetID cfg page.vAddr = .ok setID ∧ replace (t.sets setID) page = .ok (oldPage, set) ∧
      t₁ = installed t page setID set oldPage (filterAfter t (deletes oldPage) oldPage) := by
  have hreturns : Returns (fun t₁ => ∃ setID oldPage set, vAddrToSetID cfg page.vAddr = .ok setID ∧
      replace (t.sets setID) page = .ok (oldPage, set) ∧
      t₁ = installed t page setID set oldPage (filterAfter t (deletes oldPage) oldPage)) (install t page deletes) :=
    bind fun setID hset => bind fun x hreplace => ok ⟨setID, x.1, x.2, hset, hreplace, rfl⟩
  exact hreturns t₁ h

theorem install_mshr {t t₁ : GMMUTLB cfg} {deletes : Page → Bool} (h : install t page deletes = .ok t₁) :
    t₁.mshr = t.mshr := by
  obtain ⟨_, _, _, -, -, rfl⟩ := install_eq h
  rfl

theorem processRsp_step {rsp : TranslationRsp} {bottom : Bool} (hhead : HeadsRsp t k rsp bottom) :
    Returns (fun x => Step t k x.2) (processRsp t rsp bottom) := by
  unfold processRsp
  cases he : t.mshr.query rsp.page.pid rsp.page.vAddr with
  | none => exact ok (.drop k rsp bottom hhead he)
  | some e =>
    refine bind fun t₁ hinstall => bind fun mshr hmshr => ok ?_
    rw [install_mshr hinstall, Mshr.remove_of_query he, Except.ok.injEq] at hmshr
    subst hmshr
    have hstep := Step.fill k rsp bottom e t₁ hhead he hinstall
    rw [filled, install_mshr hinstall] at hstep
    exact hstep

theorem lookupFromTopPort_step (t : GMMUTLB cfg) : Returns (fun x => Step t .top x.2) (lookupFromTopPort t) := by
  unfold lookupFromTopPort
  cases hreq : t.topPort.peek with
  | none => exact ok (step_refl t _)
  | some req => exact processTranslation_step (.top req hreq) fun h => Bool.noConfusion h

theorem lookupFromOutsidePort_step (t : GMMUTLB cfg) : Returns (fun x => Step t .outside x.2) (lookupFromOutsidePort t) := by
  unfold lookupFromOutsidePort
  cases hmsg : t.outsidePort.peek with
  | none => exact ok (step_refl t _)
  | some msg =>
    cases msg with
    | req req =>
      by_cases hin : isInCuckooFilter t req = true
      · simp only [if_pos hin]
        exact processTranslation_step (.outside req hmsg) fun _ => hin
      · simp only [if_neg hin]
        have hnext := sendToNextLayer_cases t (r := { request := req, localFlag := false, remoteFlag := true }) rfl
        cases hsend : sendToNextLayer t { request := req, localFlag := false, remoteFlag := true } with
        | error => exact error _
        | ok x =>
          rcases hnext x hsend with ⟨conn, rfl⟩ | ⟨dst, conn, hdst, rfl⟩
          · exact ok (.idle _ _ _ _ _ (Nat.le_succ _))
          · exact ok (.pass req dst conn hmsg hdst)
    | rsp rsp => exact processRsp_step (.outside rsp hmsg)
    | pageLoad page => exact bind fun t₁ hinstall => ok (.load page t₁ hmsg hinstall)

theorem parseBottom_step (t : GMMUTLB cfg) : Returns (fun x => Step t .bottom x.2) (parseBottom t) := by
  unfold parseBottom
  cases hresp : t.respondingMSHREntry with
  | cons => exact ok (step_refl t _)
  | nil =>
    cases hrsp : t.bottomPort.peek with
    | none => exact ok (step_refl t _)
    | some rsp => exact processRsp_step (.bottom rsp hrsp hresp)

theorem performCtrlReq_step (t : GMMUTLB cfg) : Returns (fun x => CtrlStep t x.2) (performCtrlReq t) := by
  unfold performCtrlReq
  cases hreq : t.controlPort.peek with
  | none => exact ok (.idle t.controlPort)
  | some req =>
    cases req with
    | flush req =>
      by_cases hsent : (t.controlPort.retrieve.send (.flush req.src)).1 = true
      · simp only [handleTLBFlush, hsent, if_bnot_true]
        refine bind fun sets hsets => ok (.flush req sets _ hreq ?_ hsets)
        rw [← Port.sent_retrieve]
        exact hsent
      · simp only [handleTLBFlush, hsent]
        exact ok (.idle _)
    | restart id src =>
      by_cases hsent : (t.controlPort.retrieve.send (.restart src)).1 = true
      · simp only [handleTLBRestart, hsent, if_bnot_true]
        exact ok (.restart id src _ hreq)
      · simp only [handleTLBRestart, hsent]
        exact ok (.idle _)

/-- **Every stage call does a step.** -/
theorem Call.step {t t' : GMMUTLB cfg} {p : Bool}
    (hsides : ∀ e ∈ t.respondingMSHREntry, ∀ r ∈ e.requests, r.remoteFlag = !r.localFlag) (h : k.exec t = .ok (p, t')) :
    k = .ctrl ∧ CtrlStep t t' ∨ t' = t ∨ t.isPaused = false ∧ Step t k t' := by
  have hguard : ∀ {f : Result cfg}, Returns (fun x => Step t k x.2) f →
      (if t.isPaused then .ok (false, t) else f) = .ok (p, t') → t' = t ∨ t.isPaused = false ∧ Step t k t' := by
    intro f hf h
    by_cases hp : t.isPaused = true
    · rw [if_pos hp] at h
      cases h
      exact .inl rfl
    · rw [if_neg hp] at h
      exact .inr ⟨by simpa using hp, hf _ h⟩
  cases k with
  | ctrl => exact .inl ⟨rfl, performCtrlReq_step t _ h⟩
  | respond => exact .inr (hguard (respondMSHREntry_step hsides) h)
  | top => exact .inr (hguard (lookupFromTopPort_step t) h)
  | outside => exact .inr (hguard (lookupFromOutsidePort_step t) h)
  | bottom => exact .inr (hguard (parseBottom_step t) h)

/-! ## Sides -/

/-- Each request that waits came from one side. -/
def Sided (t : GMMUTLB cfg) : Prop :=
  ∀ e, e ∈ t.mshr.entries ∨ e ∈ t.respondingMSHREntry → ∀ r ∈ e.requests, r.remoteFlag = !r.localFlag

theorem Sided.of_eq {t t' : GMMUTLB cfg} (h : Sided t) (hmshr : t'.mshr = t.mshr)
    (hresp : t'.respondingMSHREntry = t.respondingMSHREntry) : Sided t' := by
  unfold Sided
  rw [hmshr, hresp]
  exact h

theorem retrieveReq_mshr (t : GMMUTLB cfg) (r : MshrRequest) :
    (t.retrieveReq r).mshr = t.mshr ∧ (t.retrieveReq r).respondingMSHREntry = t.respondingMSHREntry := by
  unfold GMMUTLB.retrieveReq
  split
  · exact ⟨rfl, rfl⟩
  · split <;> exact ⟨rfl, rfl⟩

theorem retrieveRsp_mshr (t : GMMUTLB cfg) (bottom : Bool) :
    (retrieveRsp t bottom).mshr = t.mshr ∧ (retrieveRsp t bottom).respondingMSHREntry = t.respondingMSHREntry := by
  cases bottom <;> exact ⟨rfl, rfl⟩

theorem answered_mshr (t : GMMUTLB cfg) (r : MshrRequest) (toTop toOutside : TranslationRsp) (conn : List Bool) :
    (answered t r toTop toOutside conn).mshr = t.mshr ∧
      (answered t r toTop toOutside conn).respondingMSHREntry = t.respondingMSHREntry := by
  unfold answered
  split <;> exact ⟨rfl, rfl⟩

theorem passed_mshr (t : GMMUTLB cfg) (r : MshrRequest) (dst : PortID) (conn : List Bool) :
    (passed t r dst conn).mshr = t.mshr ∧ (passed t r dst conn).respondingMSHREntry = t.respondingMSHREntry :=
  retrieveReq_mshr (sentOn t r dst conn) r

theorem fetched_mshr (t : GMMUTLB cfg) (r : MshrRequest) (conn : List Bool) :
    (fetched t r conn).mshr = ⟨t.mshr.entries ++ [missEntry r (reqToBottom cfg t.nextID r.request)]⟩ ∧
      (fetched t r conn).respondingMSHREntry = t.respondingMSHREntry :=
  retrieveReq_mshr _ r

theorem Sided.add {t t' : GMMUTLB cfg} (h : Sided t) (hside : r.remoteFlag = !r.localFlag) (fetch : TranslationReq)
    (hmshr : t'.mshr = ⟨t.mshr.entries ++ [missEntry r fetch]⟩) (hresp : t'.respondingMSHREntry = t.respondingMSHREntry) :
    Sided t' := by
  intro e he r' hr'
  rw [hmshr, hresp] at he
  rcases he with he | he
  · rcases mem_append.mp he with he | he
    · exact h e (.inl he) r' hr'
    · rw [mem_singleton.mp he, missEntry, mem_singleton] at hr'
      rw [hr']
      exact hside
  · exact h e (.inr he) r' hr'

theorem Sided.step {t t' : GMMUTLB cfg} (h : Sided t) (hs : Step t k t') : Sided t' := by
  cases hs with
  | idle => exact h
  | respond e es r requests conn he hreqs =>
    obtain ⟨hmshr, -⟩ := answered_mshr t r (rspToTop r.request e.page) (rspToOutside r.request e.page) conn
    intro e' he' r' hr'
    change e' ∈ (answered t r _ _ conn).mshr.entries ∨ e' ∈ (if requests.isEmpty then es else { e with requests } :: es)
      at he'
    rw [hmshr] at he'
    rcases he' with he' | he'
    · exact h e' (.inl he') r' hr'
    · split at he'
      · exact h e' (.inr (by rw [he]; exact mem_cons_of_mem _ he')) r' hr'
      · rcases mem_cons.mp he' with rfl | he'
        · exact h e (.inr (by rw [he]; exact mem_cons_self)) r' (by rw [hreqs]; exact mem_cons_of_mem _ hr')
        · exact h e' (.inr (by rw [he]; exact mem_cons_of_mem _ he')) r' hr'
  | hit _ r _ _ page _ conn =>
    have hanswered := answered_mshr t r (rspToTop r.request page) (rspToOutsideHit r.request page) conn
    have hretrieve := retrieveReq_mshr (answered t r (rspToTop r.request page) (rspToOutsideHit r.request page) conn) r
    exact h.of_eq (hretrieve.1.trans hanswered.1) (hretrieve.2.trans hanswered.2)
  | join _ r _ hhead =>
    have hretrieve := retrieveReq_mshr { t with mshr := t.mshr.join r } r
    intro e' he' r' hr'
    rw [hretrieve.1, hretrieve.2] at he'
    rcases he' with he' | he'
    · rcases Mshr.mem_joinEntries he' with he' | ⟨e₀, he₀, -, -, rfl⟩
      · exact h e' (.inl he') r' hr'
      · rcases mem_append.mp hr' with hr' | hr'
        · exact h e₀ (.inl he₀) r' hr'
        · rw [mem_singleton.mp hr']
          exact hhead.side
    · exact h e' (.inr he') r' hr'
  | fetch _ r conn hhead =>
    exact h.add hhead.side _ (fetched_mshr t r conn).1 (fetched_mshr t r conn).2
  | fetchRemote _ dst conn => exact h.add rfl _ rfl (passed_mshr t _ dst conn).2
  | pass _ dst conn => exact h.of_eq (passed_mshr t _ dst conn).1 (passed_mshr t _ dst conn).2
  | drop _ _ bottom => exact h.of_eq (retrieveRsp_mshr t bottom).1 (retrieveRsp_mshr t bottom).2
  | fill _ _ bottom e _ _ he hinstall =>
    obtain ⟨_, _, _, -, -, rfl⟩ := install_eq hinstall
    intro e' he' r' hr'
    rw [filled, (retrieveRsp_mshr _ bottom).1, (retrieveRsp_mshr _ bottom).2] at he'
    rcases he' with he' | he'
    · exact h e' (.inl (mem_of_mem_eraseP he')) r' hr'
    · rcases mem_append.mp he' with he' | he'
      · exact h e' (.inr he') r' hr'
      · rw [mem_singleton.mp he'] at hr'
        exact h e (.inl (Mshr.mem_of_query he)) r' hr'
  | load _ _ _ hinstall =>
    obtain ⟨_, _, _, -, -, rfl⟩ := install_eq hinstall
    exact h

theorem Sided.ctrl {t t' : GMMUTLB cfg} (h : Sided t) (hs : CtrlStep t t') : Sided t' := by
  cases hs with
  | idle => exact h
  | flush =>
    rintro e (he | he) r hr
    · cases he
    · exact h e (.inr he) r hr
  | restart => exact h

/-! ## A tick is its calls -/

theorem Step.isPaused {t t' : GMMUTLB cfg} (h : Step t k t') : t'.isPaused = t.isPaused := by
  have hrsp : ∀ (t : GMMUTLB cfg) (bottom : Bool), (retrieveRsp t bottom).isPaused = t.isPaused := by
    intro t bottom
    cases bottom <;> rfl
  cases h with
  | idle => rfl
  | respond _ _ r _ conn =>
    show (answered t r _ _ conn).isPaused = _
    unfold answered
    split <;> rfl
  | hit | join | fetch => cases ‹_› <;> rfl
  | fetchRemote | pass => rfl
  | drop _ _ bottom => exact hrsp t bottom
  | fill _ _ bottom _ _ _ _ hinstall =>
    obtain ⟨_, _, _, -, -, rfl⟩ := install_eq hinstall
    exact hrsp _ bottom
  | load _ _ _ hinstall =>
    obtain ⟨_, _, _, -, -, rfl⟩ := install_eq hinstall
    rfl

theorem sendRsp_isPaused (t : GMMUTLB cfg) (r : MshrRequest) (toTop toOutside : TranslationRsp) :
    (sendRsp t r toTop toOutside).2.isPaused = t.isPaused := by
  unfold sendRsp
  cases r.localFlag with
  | true =>
    simp only [if_true]
    split
    · rfl
    · cases r.remoteFlag <;> rfl
  | false => cases r.remoteFlag <;> rfl

theorem exec_running (ht : t.isPaused = false) (x : Result cfg) : (if t.isPaused then .ok (false, t) else x) = x := by
  rw [if_neg (by rw [ht]; exact Bool.false_ne_true)]

theorem splits_stage {f : Stage (GMMUTLB cfg)} (hf : ∀ t, Returns (fun x => x.2.isPaused = t.isPaused) (f t))
    (hk : ∀ t : GMMUTLB cfg, k.exec t = if t.isPaused then .ok (false, t) else f t) :
    Splits (·.isPaused = false) Call.exec f [k] :=
  .call (fun t x ht hx => (hf t x hx).trans ht) fun t ht => by rw [hk, exec_running ht]

theorem splits_step {f : Stage (GMMUTLB cfg)} (hf : ∀ t, Returns (fun x => Step t k x.2) (f t))
    (hk : ∀ t : GMMUTLB cfg, k.exec t = if t.isPaused then .ok (false, t) else f t) :
    Splits (·.isPaused = false) Call.exec f [k] :=
  splits_stage (fun t x hx => (hf t x hx).isPaused) hk

theorem splits_lookups : Splits (fun t : GMMUTLB cfg => t.isPaused = false) Call.exec lookupFromPorts [.top, .outside] :=
  (splits_step lookupFromTopPort_step fun _ => rfl).bind fun _ =>
    (splits_step lookupFromOutsidePort_step fun _ => rfl).last fun _ => rfl

theorem respondMSHREntry_isPaused (t : GMMUTLB cfg) : Returns (fun x => x.2.isPaused = t.isPaused) (respondMSHREntry t) := by
  unfold respondMSHREntry
  split
  · exact ok rfl
  · split
    · exact error _
    · dsimp only
      split <;> exact ok (sendRsp_isPaused _ _ _ _)

/-- **A tick is its stage calls in a row.** -/
theorem tick_eq_calls (t : GMMUTLB cfg) :
    (tick t).map Prod.snd = calls Call.exec (schedule cfg.numReqPerCycle) t := by
  have hsched : schedule cfg.numReqPerCycle = [Call.ctrl] ++ ((replicate cfg.numReqPerCycle [Call.respond]).flatten ++
      ((replicate cfg.numReqPerCycle [Call.top, .outside]).flatten ++
        (replicate cfg.numReqPerCycle [Call.bottom]).flatten)) := by
    simp [schedule]
  rw [hsched, tick]
  refine map_snd_bind (map_snd_exec Call.exec .ctrl t) fun (p, t) _ => ?_
  apply Splits.gated
  · intro p
    refine ((splits_stage respondMSHREntry_isPaused fun _ => rfl).times _).bind fun _ => ?_
    refine (splits_lookups.times _).bind fun _ => ?_
    exact ((splits_step parseBottom_step fun _ => rfl).times _).last fun _ => rfl
  · intro t ht k hk
    have hne : k ≠ .ctrl := by
      rintro rfl
      simp [mem_replicate] at hk
    cases k with
    | ctrl => exact absurd rfl hne
    | _ => exact if_pos ht

/-! ## Runs -/

variable {s : System cfg} {R : Rules cfg}

/-- What does not depend on the ports and the page table and is kept by every call holds of the TLB in every run. -/
theorem tlb_of_reaches {P : GMMUTLB cfg → Prop} (hinit : ∀ rand t, build cfg rand = .ok t → P t)
    (hports : ∀ (t : GMMUTLB cfg) topPort bottomPort outsidePort controlPort pageTable, P t →
      P { t with topPort, bottomPort, outsidePort, controlPort, pageTable })
    (hcall : ∀ t k p t', P t → R.call t k → Call.exec k t = .ok (p, t') → P t') {ks : List Call} (h : Reaches R s ks) :
    P s.tlb := by
  induction h with
  | init rand hbuild => exact hinit rand _ hbuild
  | @request s req h hreq ih =>
    unfold System.request
    split
    · exact hports s.tlb _ s.tlb.bottomPort s.tlb.outsidePort s.tlb.controlPort s.tlb.pageTable ih
    · exact ih
  | @outside s msg h hmsg ih =>
    unfold System.outside
    split
    · exact hports s.tlb s.tlb.topPort s.tlb.bottomPort _ s.tlb.controlPort s.tlb.pageTable ih
    · exact ih
  | @control s req h hreq ih =>
    unfold System.control
    split
    · exact hports s.tlb s.tlb.topPort s.tlb.bottomPort s.tlb.outsidePort _ s.tlb.pageTable ih
    · exact ih
  | @connect s top bottom outside control h ih => exact hports s.tlb _ _ _ _ s.tlb.pageTable ih
  | @setPageTable s pageTable h hpt ih =>
    exact hports s.tlb s.tlb.topPort s.tlb.bottomPort s.tlb.outsidePort s.tlb.controlPort pageTable ih
  | @answer s k page h hk ih =>
    unfold System.answer
    split
    · exact hports s.tlb s.tlb.topPort _ s.tlb.outsidePort s.tlb.controlPort s.tlb.pageTable ih
    · exact ih
  | @peer s k page h hk ih =>
    unfold System.peer
    split
    · exact hports s.tlb s.tlb.topPort s.tlb.bottomPort _ s.tlb.controlPort s.tlb.pageTable ih
    · exact ih
  | @deliver s k h ih =>
    unfold System.deliver
    split
    · split
      · exact hports s.tlb s.tlb.topPort _ s.tlb.outsidePort s.tlb.controlPort s.tlb.pageTable ih
      · exact ih
    · exact ih
  | @deliverOutside s k h ih =>
    unfold System.deliverOutside
    split
    · split
      · exact hports s.tlb s.tlb.topPort s.tlb.bottomPort _ s.tlb.controlPort s.tlb.pageTable ih
      · exact ih
    · exact ih
  | tick _ ih => exact ih
  | @call s k ks p t h hk hexec ih => exact hcall _ k p t ih hk hexec

/-- Anything may happen. -/
def Rules.any (cfg : Config) : Rules cfg where
  request _ := True
  outside _ := True
  control _ := True
  answer _ _ := True
  call _ _ := True

theorem reaches_run {s s' : System cfg} (is : List Input) (h : Reaches (Rules.any cfg) s []) (hrun : s.run is = .ok s') :
    Reaches (Rules.any cfg) s' [] := by
  have hreplay : is.foldl (System.replay fun _ _ => True) s = s' := by
    clear h
    induction is generalizing s with
    | nil =>
      cases hrun
      rfl
    | cons i is ih =>
      obtain ⟨s₁, hstep, hrun⟩ := eq_ok_of_bind hrun
      rw [foldl_cons, ← ih hrun]
      congr 1
      cases i with
      | tick =>
        obtain ⟨r, htick, hstep⟩ := eq_ok_of_bind hstep
        cases hstep
        rw [System.replay, guarded_true, ← tick_eq_calls, htick]
        rfl
      | _ =>
        cases hstep
        rfl
  rw [← hreplay]
  exact h.replay (fun _ _ _ => trivial) fun i _ => by cases i <;> simp [Rules.Allows, Rules.any]

end Akita.Vm.TlbGmmu
