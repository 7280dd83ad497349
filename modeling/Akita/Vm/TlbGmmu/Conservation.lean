import Akita.Vm.TlbGmmu.Filter

/-!
# Conservation of local and remote requests

`Conserved t` : each request received is answered once, or is a remote one passed on once, or waits in one entry;
`Conserved.step` : a wary call keeps it so.
-/

namespace Akita.Vm.TlbGmmu
open Mem Sim List
open Vm.Tlb (SetImpl Sound ControlReq fill_ok visit_ok sound_update new_sound)
open Multiset (coe_add coe_singleton singleton_add)
open Event (evict outsideRetrieve reqComplete)

variable {cfg : Config}

/-! ## The log -/

namespace Event

def received? : Event → Option MshrRequest
  | .topRetrieve req => some { request := req, localFlag := true, remoteFlag := false }
  | .outsideRetrieve (.req req) => some { request := req, localFlag := false, remoteFlag := true }
  | _ => none

def completed? : Event → Option MshrRequest
  | .reqComplete r => some r
  | _ => none

def sentOn? : Event → Option MshrRequest
  | .reqInitiate r true _ => some r
  | _ => none

def topRsp? : Event → Option TranslationRsp
  | .topSend rsp => some rsp
  | _ => none

def outsideRsp? : Event → Option TranslationRsp
  | .outsideSend (.rsp rsp) => some rsp
  | _ => none

def outsideReq? : Event → Option TranslationReq
  | .outsideSend (.req req) => some req
  | _ => none

end Event

/-- The requests taken from the top port and the outside port. -/
def receivedOf (log : List Event) : List MshrRequest := log.filterMap Event.received?

/-- The requests answered. -/
def completedOf (log : List Event) : List MshrRequest := log.filterMap Event.completed?

/-- The requests for which one was sent to the next layer. -/
def sentOnOf (log : List Event) : List MshrRequest := log.filterMap Event.sentOn?

def topRspsOf (log : List Event) : List TranslationRsp := log.filterMap Event.topRsp?

def outsideRspsOf (log : List Event) : List TranslationRsp := log.filterMap Event.outsideRsp?

def outsideReqsOf (log : List Event) : List TranslationReq := log.filterMap Event.outsideReq?

/-! ## What holds in a run -/

/-- The response answers the request with a page for it. It goes back to the sender of a local request, to the origin of a
remote one. -/
structure Answers (r : MshrRequest) (rsp : TranslationRsp) : Prop where
  respondTo : rsp.respondTo = r.request.id
  dst : rsp.dst = if r.remoteFlag then r.request.originPort else r.request.src
  pid : rsp.page.pid = r.request.pid
  vAddr : rsp.page.vAddr = r.request.vAddr

/-- The request was sent for the other one to the layer that its address chooses. -/
def SentFor (cfg : Config) (r : MshrRequest) (req : TranslationReq) : Prop :=
  ∃ id dst, nextLayer cfg r.request.vAddr = .ok dst ∧ req = reqToNextLayer cfg id dst r

/-- The requests that wait in the MSHR and in the entries that respond. -/
def waiting (t : GMMUTLB cfg) : Multiset MshrRequest := t.mshr.waiting + ↑(t.respondingMSHREntry.flatMap MshrEntry.requests)

/-- `top` and `outside` : each side has got one response for each of its requests answered, in this order; `onward` : the next
layers have got one request for each of those sent on; `balance` : a request is answered once, or passed on once if it is
remote, or waits. -/
structure Conserved (t : GMMUTLB cfg) : Prop where
  top : List.Forall₂ Answers ((completedOf t.log).filter (·.localFlag)) (topRspsOf t.log)
  outside : List.Forall₂ Answers ((completedOf t.log).filter (·.remoteFlag)) (outsideRspsOf t.log)
  onward : List.Forall₂ (SentFor cfg) (sentOnOf t.log) (outsideReqsOf t.log)
  balance : (↑(receivedOf t.log) : Multiset MshrRequest) =
    ↑(completedOf t.log) + ↑((sentOnOf t.log).filter (·.remoteFlag)) + waiting t

/-- The address of a page. -/
def Aligned (cfg : Config) (vAddr : VAddr) : Prop := cfg.pageTable.alignToPage vAddr = vAddr

/-- What the code relies on in a remote request that it looks up and that joins no entry: one that hits was sent by its
origin, and one that is fetched is for the address of a page. -/
structure Translatable (t : GMMUTLB cfg) (req : TranslationReq) : Prop where
  hit : Held t req → req.src = req.originPort
  fetch : ¬ Held t req → OnDevice t req → Aligned cfg req.vAddr

/-- The remote request that the call looks up is translatable. -/
def Wary (t : GMMUTLB cfg) (k : Call) : Prop :=
  k = .outside → ∀ req, t.outsidePort.peek = some (.req req) → isInCuckooFilter t req = true →
    t.mshr.query req.pid req.vAddr = none →
    Translatable t req

/-- What the steps rely on. `aligned` : the requests that wait are for the addresses of pages. -/
structure Kept (t : GMMUTLB cfg) : Prop where
  sets : ∀ i, Sound cfg.numWays (fun _ => True) (t.sets i)
  entries : ∀ e ∈ t.mshr.entries, e.WellFormed ∧ e.reqToBottom.isSome = true
  keys : t.mshr.keys.Nodup
  responding : ∀ e ∈ t.respondingMSHREntry, e.WellFormed ∧ e.page.pid = e.pid ∧ e.page.vAddr = e.vAddr
  arriving : ∀ req ∈ t.topPort.buf.elements, Aligned cfg req.vAddr
  aligned : ∀ r ∈ waiting t, Aligned cfg r.request.vAddr
  control : t.controlPort.buf.elements = []
  running : t.isPaused = false

section
variable {t t' : GMMUTLB cfg} {k : Call} {r : MshrRequest}

/-! ## Requests and responses -/

/-- A step receives the requests `rs`, answers the requests `cs` and sends the requests `ps` on. -/
theorem Conserved.append (h : Conserved t) (rs cs ps : List MshrRequest) {events : List Event}
    (hlog : t'.log = t.log ++ events) (hreceived : receivedOf events = rs) (hcompleted : completedOf events = cs)
    (hsent : sentOnOf events = ps) (htop : List.Forall₂ Answers (cs.filter (·.localFlag)) (topRspsOf events))
    (houtside : List.Forall₂ Answers (cs.filter (·.remoteFlag)) (outsideRspsOf events))
    (honward : List.Forall₂ (SentFor cfg) ps (outsideReqsOf events))
    (hbalance : ↑rs + waiting t = ↑cs + ↑(ps.filter (·.remoteFlag)) + waiting t') : Conserved t' := by
  have hr : receivedOf t'.log = receivedOf t.log ++ rs := by
    rw [hlog, receivedOf, filterMap_append, ← hreceived]
    rfl
  have hc : completedOf t'.log = completedOf t.log ++ cs := by
    rw [hlog, completedOf, filterMap_append, ← hcompleted]
    rfl
  have hp : sentOnOf t'.log = sentOnOf t.log ++ ps := by
    rw [hlog, sentOnOf, filterMap_append, ← hsent]
    rfl
  constructor
  · rw [hc, filter_append, hlog, topRspsOf, filterMap_append]
    exact rel_append h.top htop
  · rw [hc, filter_append, hlog, outsideRspsOf, filterMap_append]
    exact rel_append h.outside houtside
  · rw [hp, hlog, outsideReqsOf, filterMap_append]
    exact rel_append h.onward honward
  · rw [hr, hc, hp, filter_append, ← coe_add, ← coe_add, ← coe_add, h.balance, add_assoc, add_comm (waiting t), hbalance]
    abel

/-- The request leaves its port. -/
def retrieval (r : MshrRequest) : Event := if r.localFlag then .topRetrieve r.request else .outsideRetrieve (.req r.request)

/-- The response goes to the side of the request. -/
def answering (r : MshrRequest) (toTop toOutside : TranslationRsp) : Event :=
  if r.localFlag then .topSend toTop else .outsideSend (.rsp toOutside)

theorem log_retrieveReq (hhead : Heads t k r) : (t.retrieveReq r).log = t.log ++ [retrieval r] := by
  cases hhead with
  | top _ h =>
    change t.log ++ t.topPort.peek.toList.map Event.topRetrieve = _
    rw [h]
    rfl
  | outside _ h =>
    change t.log ++ t.outsidePort.peek.toList.map outsideRetrieve = _
    rw [h]
    rfl

theorem log_answered (t : GMMUTLB cfg) (r : MshrRequest) (toTop toOutside : TranslationRsp) (conn : List Bool) :
    (answered t r toTop toOutside conn).log = t.log ++ [answering r toTop toOutside] := by
  unfold answered answering
  split <;> rfl

theorem Heads.translatable (hhead : Heads t k r) (hwary : Wary t k) (hremote : r.remoteFlag = true) (hfilter : Filtered t r)
    (habsent : t.mshr.query r.request.pid r.request.vAddr = none) : Translatable t r.request := by
  cases hhead with
  | top => cases hremote
  | outside req h => exact hwary rfl req h (hfilter rfl) habsent

theorem heads_congr (hhead : Heads t k r) (htop : t'.topPort.peek = t.topPort.peek)
    (houtside : t'.outsidePort.peek = t.outsidePort.peek) : Heads t' k r := by
  cases hhead with
  | top req h => exact .top req (htop.trans h)
  | outside req h => exact .outside req (houtside.trans h)

theorem heads_answered (hhead : Heads t k r) (toTop toOutside : TranslationRsp) (conn : List Bool) :
    Heads (answered t r toTop toOutside conn) k r := by
  unfold answered
  split
  · exact heads_congr hhead rfl rfl
  · exact heads_congr hhead rfl rfl

theorem waiting_congr (hmshr : t'.mshr = t.mshr) (hresp : t'.respondingMSHREntry = t.respondingMSHREntry) :
    waiting t' = waiting t := by
  rw [waiting, waiting, hmshr, hresp]

theorem waiting_answered (t : GMMUTLB cfg) (r : MshrRequest) (toTop toOutside : TranslationRsp) (conn : List Bool) :
    waiting (answered t r toTop toOutside conn) = waiting t := by
  obtain ⟨hmshr, hresp⟩ := answered_mshr t r toTop toOutside conn
  exact waiting_congr hmshr hresp

theorem waiting_retrieveReq (t : GMMUTLB cfg) (r : MshrRequest) : waiting (t.retrieveReq r) = waiting t := by
  obtain ⟨hmshr, hresp⟩ := retrieveReq_mshr t r
  exact waiting_congr hmshr hresp

theorem waiting_missEntry {fetch : TranslationReq} (hmshr : t'.mshr = ⟨t.mshr.entries ++ [missEntry r fetch]⟩)
    (hresp : t'.respondingMSHREntry = t.respondingMSHREntry) : waiting t' = r ::ₘ waiting t := by
  rw [waiting, hmshr, hresp, Mshr.waiting_add, waiting, missEntry, coe_singleton, ← singleton_add]
  abel

theorem filled_mshr (t : GMMUTLB cfg) (e : MshrEntry) (rsp : TranslationRsp) (bottom : Bool) :
    (filled t e rsp bottom).mshr = ⟨t.mshr.entries.eraseP (MshrEntry.isFor rsp.page.pid rsp.page.vAddr)⟩ ∧
      (filled t e rsp bottom).respondingMSHREntry = t.respondingMSHREntry ++ [{ e with page := rsp.page }] :=
        retrieveRsp_mshr _ bottom

/-- The entry that gets its page still waits. -/
theorem waiting_filled {t₁ : GMMUTLB cfg} {e : MshrEntry} {rsp : TranslationRsp} {bottom : Bool}
    (he : t.mshr.query rsp.page.pid rsp.page.vAddr = some e) (hmshr₁ : t₁.mshr = t.mshr)
    (hresp₁ : t₁.respondingMSHREntry = t.respondingMSHREntry) : waiting (filled t₁ e rsp bottom) = waiting t := by
  obtain ⟨hmshr, hresp⟩ := filled_mshr t₁ e rsp bottom
  rw [waiting, hmshr, hresp, hmshr₁, hresp₁, waiting, Mshr.waiting_remove he, flatMap_append, flatMap_singleton, ← coe_add]
  dsimp only
  abel

theorem side_cases (hside : r.remoteFlag = !r.localFlag) :
    (∃ req, r = { request := req, localFlag := true, remoteFlag := false }) ∨
    ∃ req, r = { request := req, localFlag := false, remoteFlag := true } := by
  obtain ⟨req, localFlag, remoteFlag⟩ := r
  cases localFlag with
  | true => exact .inl ⟨req, by rw [show remoteFlag = false from hside]⟩
  | false => exact .inr ⟨req, by rw [show remoteFlag = true from hside]⟩

theorem answers_sides (hside : r.remoteFlag = !r.localFlag) {toTop toOutside : TranslationRsp}
    (htop : r.remoteFlag = false → Answers r toTop) (houtside : r.remoteFlag = true → Answers r toOutside) {l : List Event}
    (hresttop : topRspsOf l = []) (hrestoutside : outsideRspsOf l = []) :
    List.Forall₂ Answers ([r].filter (·.localFlag)) (topRspsOf (answering r toTop toOutside :: l)) ∧
      List.Forall₂ Answers ([r].filter (·.remoteFlag)) (outsideRspsOf (answering r toTop toOutside :: l)) := by
  rcases side_cases hside with ⟨req, rfl⟩ | ⟨req, rfl⟩
  · refine ⟨?_, ?_⟩
    · change List.Forall₂ Answers [_] (toTop :: topRspsOf l)
      rw [hresttop]
      exact .cons (htop rfl) .nil
    · change List.Forall₂ Answers [] (outsideRspsOf l)
      rw [hrestoutside]
      exact .nil
  · refine ⟨?_, ?_⟩
    · change List.Forall₂ Answers [] (topRspsOf l)
      rw [hresttop]
      exact .nil
    · change List.Forall₂ Answers [_] (toOutside :: outsideRspsOf l)
      rw [hrestoutside]
      exact .cons (houtside rfl) .nil

theorem Conserved.wait (h : Conserved t) (hhead : Heads t k r) {rest : List Event}
    (hlog : t'.log = t.log ++ retrieval r :: rest)
    (hrest : receivedOf rest = [] ∧ completedOf rest = [] ∧ sentOnOf rest = [] ∧ topRspsOf rest = [] ∧
      outsideRspsOf rest = [] ∧ outsideReqsOf rest = [])
    (hwaiting : waiting t' = r ::ₘ waiting t) : Conserved t' := by
  obtain ⟨hreceived, hcompleted, hsent, htop, houtside, honward⟩ := hrest
  have htaken : receivedOf (retrieval r :: rest) = [r] ∧ completedOf (retrieval r :: rest) = [] ∧
      sentOnOf (retrieval r :: rest) = [] ∧
      topRspsOf (retrieval r :: rest) = [] ∧ outsideRspsOf (retrieval r :: rest) = [] ∧
      outsideReqsOf (retrieval r :: rest) = [] := by
    cases hhead with
    | top | outside => exact ⟨congrArg (_ :: ·) hreceived, hcompleted, hsent, htop, houtside, honward⟩
  obtain ⟨hreceived, hcompleted, hsent, htop, houtside, honward⟩ := htaken
  refine h.append [r] [] [] hlog hreceived hcompleted hsent (htop ▸ .nil) (houtside ▸ .nil) (honward ▸ .nil) ?_
  rw [hwaiting, ← singleton_add]
  simp

/-- A request is taken from its port and sent on to the layer that its address chooses. -/
theorem Conserved.sendOn (h : Conserved t) (hhead : Heads t k r) {dst : PortID} {conn : List Bool}
    (hdst : nextLayer cfg r.request.vAddr = .ok dst) (hlog : t'.log = (passed t r dst conn).log)
    (hwaiting : r.remoteFlag = false ∧ waiting t' = r ::ₘ waiting t ∨ r.remoteFlag = true ∧ waiting t' = waiting t) :
    Conserved t' := by
  have hlog' : t'.log = t.log ++ [Event.outsideSend (.req (reqToNextLayer cfg t.nextID dst r)), retrieval r,
      .reqInitiate r true (reqToNextLayer cfg t.nextID dst r)] := by
    have hsent : Heads (sentOn t r dst conn) k r := heads_congr hhead rfl rfl
    rw [hlog, passed, GMMUTLB.record, log_retrieveReq hsent, append_assoc]
    exact append_assoc t.log [_] _
  refine h.append [r] [] [r] hlog' ?_ ?_ ?_ ?_ ?_ ?_ ?_
  · cases hhead <;> rfl
  · cases hhead <;> rfl
  · cases hhead <;> rfl
  · cases hhead <;> exact .nil
  · cases hhead <;> exact .nil
  · cases hhead <;> exact .cons ⟨t.nextID, dst, hdst, rfl⟩ .nil
  · rcases hwaiting with ⟨hflag, hwaiting⟩ | ⟨hflag, hwaiting⟩ <;> rw [hwaiting, filter_singleton, hflag]
    · exact (singleton_add r _).trans (zero_add _).symm
    · exact congrArg (· + _) (zero_add _).symm

theorem answering_complete (hside : r.remoteFlag = !r.localFlag) (toTop toOutside : TranslationRsp) :
    receivedOf [answering r toTop toOutside, .reqComplete r] = [] ∧
    completedOf [answering r toTop toOutside, .reqComplete r] = [r] ∧
      sentOnOf [answering r toTop toOutside, .reqComplete r] = [] ∧
      outsideReqsOf [answering r toTop toOutside, .reqComplete r] = [] := by
  rcases side_cases hside with ⟨_, rfl⟩ | ⟨_, rfl⟩ <;> exact ⟨rfl, rfl, rfl, rfl⟩

theorem Conserved.step (h : Conserved t) (hkept : Kept t) (hwary : Wary t k) (hs : Step t k t') : Conserved t' := by
  cases hs with
  | idle => exact h.append [] [] [] (append_nil _).symm rfl rfl rfl .nil .nil .nil rfl
  | respond e es r requests conn he hreqs hside =>
    obtain ⟨hwell, hpid, haddr⟩ := hkept.responding e (by rw [he]; exact mem_cons_self)
    obtain ⟨hreq₁, hreq₂⟩ := hwell.pages r (by rw [hreqs]; exact mem_cons_self)
    have hlog : (answered t r (rspToTop r.request e.page) (rspToOutside r.request e.page) conn).log ++ [reqComplete r] =
        t.log ++ [answering r (rspToTop r.request e.page) (rspToOutside r.request e.page), .reqComplete r] := by
      rw [log_answered, append_assoc]
      rfl
    have htop : r.remoteFlag = false → Answers r (rspToTop r.request e.page) := fun hlocal =>
      ⟨rfl, by rw [hlocal]; rfl, hpid.trans hreq₁.symm, haddr.trans hreq₂.symm⟩
    have houtside : r.remoteFlag = true → Answers r (rspToOutside r.request e.page) := fun hremote =>
      ⟨rfl, by rw [hremote]; rfl, hpid.trans hreq₁.symm, haddr.trans hreq₂.symm⟩
    obtain ⟨htops, houtsides⟩ := answers_sides hside htop houtside (l := [reqComplete r]) rfl rfl
    have hquiet := answering_complete hside (rspToTop r.request e.page) (rspToOutside r.request e.page)
    refine h.append [] [r] [] hlog hquiet.1 hquiet.2.1 hquiet.2.2.1 htops houtsides (hquiet.2.2.2 ▸ .nil) ?_
    have hmshr := (answered_mshr t r (rspToTop r.request e.page) (rspToOutside r.request e.page) conn).1
    have hrest : (if requests.isEmpty then es else { e with requests } :: es).flatMap MshrEntry.requests =
        requests ++ es.flatMap MshrEntry.requests := by
      cases requests <;> simp
    change _ = _ + _ + ((answered t r (rspToTop r.request e.page) (rspToOutside r.request e.page) conn).mshr.waiting +
      ↑((if requests.isEmpty then es else { e with requests } :: es).flatMap MshrEntry.requests))
    rw [hmshr, hrest, waiting, he, flatMap_cons, hreqs, cons_append, ← Multiset.cons_coe, ← singleton_add, coe_singleton]
    simp only [filter_nil, Multiset.coe_nil, ← coe_add]
    abel
  | hit _ r setID wayID page _ conn hhead hset hlook hvalid _ hfilter habsent =>
    obtain ⟨_, hlook', hpage⟩ := (hkept.sets setID).lookup r.request.pid r.request.vAddr
    rw [hlook, Except.ok.injEq] at hlook'
    subst hlook'
    obtain ⟨-, hpid, haddr, -⟩ := hpage wayID page rfl
    have hlog : ((answered t r (rspToTop r.request page) (rspToOutsideHit r.request page) conn).retrieveReq r).log ++
        [reqComplete r] =
        t.log ++ [answering r (rspToTop r.request page) (rspToOutsideHit r.request page), retrieval r, .reqComplete r] := by
      rw [log_retrieveReq (heads_answered hhead _ _ _), log_answered, append_assoc, append_assoc]
      rfl
    have htop : r.remoteFlag = false → Answers r (rspToTop r.request page) :=
      fun hlocal => ⟨rfl, by rw [hlocal]; rfl, hpid, haddr⟩
    have houtside : r.remoteFlag = true → Answers r (rspToOutsideHit r.request page) := by
      intro hremote
      have horigin := (hhead.translatable hwary hremote hfilter habsent).hit ⟨setID, wayID, page, hset, hlook, hvalid⟩
      exact ⟨rfl, by rw [hremote]; exact horigin, hpid, haddr⟩
    have hwaiting : waiting ((answered t r (rspToTop r.request page) (rspToOutsideHit r.request page) conn).retrieveReq r) =
        waiting t :=
      (waiting_retrieveReq ..).trans (waiting_answered ..)
    refine h.append [r] [r] [] hlog ?_ ?_ ?_ ?_ ?_ ?_ ?_
    · cases hhead <;> rfl
    · cases hhead <;> rfl
    · cases hhead <;> rfl
    · exact (answers_sides hhead.side htop houtside (by cases hhead <;> rfl) (by cases hhead <;> rfl)).1
    · exact (answers_sides hhead.side htop houtside (by cases hhead <;> rfl) (by cases hhead <;> rfl)).2
    · cases hhead <;> exact .nil
    · change _ = _ + _ + waiting ((answered t r (rspToTop r.request page) (rspToOutsideHit r.request page) conn).retrieveReq
        r)
      rw [hwaiting]
      simp
  | join _ r _ hhead he =>
    have hlog : ({ t with mshr := t.mshr.join r }.retrieveReq r).log = t.log ++ [retrieval r] :=
      log_retrieveReq (heads_congr hhead rfl rfl)
    refine h.wait hhead hlog ⟨rfl, rfl, rfl, rfl, rfl, rfl⟩ ?_
    rw [waiting_retrieveReq, waiting, Mshr.waiting_join he, Multiset.cons_add]
    rfl
  | fetch k r conn hhead =>
    have hrecord : ∀ (t₁ : GMMUTLB cfg) (e : Event), Heads t₁ k r → ((t₁.retrieveReq r).record e).log = t₁.log ++
        retrieval r :: [e] := by
      intro t₁ e hhead₁
      rw [GMMUTLB.record, log_retrieveReq hhead₁, append_assoc]
      rfl
    have hlog : (fetched t r conn).log = t.log ++ retrieval r ::
        [Event.reqInitiate r false (reqToBottom cfg t.nextID r.request)] :=
      hrecord _ _ (heads_congr hhead rfl rfl)
    exact h.wait hhead hlog ⟨rfl, rfl, rfl, rfl, rfl, rfl⟩
      (waiting_missEntry (fetched_mshr t r conn).1 (fetched_mshr t r conn).2)
  | fetchRemote req dst conn hhead hdst =>
    exact h.sendOn (.top req hhead) hdst rfl (.inl ⟨rfl, waiting_missEntry rfl (passed_mshr t _ dst conn).2⟩)
  | pass req dst conn hhead hdst =>
    exact h.sendOn (.outside req hhead) hdst rfl
      (.inr ⟨rfl, waiting_congr (passed_mshr t _ dst conn).1 (passed_mshr t _ dst conn).2⟩)
  | drop _ rsp bottom hhead =>
    have hwaiting := waiting_congr (retrieveRsp_mshr t bottom).1 (retrieveRsp_mshr t bottom).2
    cases hhead with
    | outside rsp hrsp =>
      have hlog : (retrieveRsp t false).log = t.log ++ [outsideRetrieve (.rsp rsp)] := by
        change t.log ++ t.outsidePort.peek.toList.map outsideRetrieve = _
        rw [hrsp]
        rfl
      exact h.append [] [] [] hlog rfl rfl rfl .nil .nil .nil (by rw [hwaiting]; simp)
    | bottom => exact h.append [] [] [] (append_nil _).symm rfl rfl rfl .nil .nil .nil rfl
  | fill _ rsp bottom e _ hhead he hinstall =>
    obtain ⟨setID, oldPage, set, -, -, rfl⟩ := install_eq hinstall
    have hwaiting : waiting (filled (installed t rsp.page setID set oldPage (filterAfter t (!oldPage.valid) oldPage)) e rsp
        bottom) =
        waiting t := waiting_filled he rfl rfl
    cases hhead with
    | outside rsp hrsp =>
      have hlog : (filled (installed t rsp.page setID set oldPage (filterAfter t (!oldPage.valid) oldPage)) e rsp false).log =
          t.log ++ [evict oldPage t.cuckooFilter (filterAfter t (!oldPage.valid) oldPage), .outsideRetrieve (.rsp rsp)] := by
        change (t.log ++ [_]) ++ t.outsidePort.peek.toList.map outsideRetrieve = _
        rw [hrsp, append_assoc]
        rfl
      exact h.append [] [] [] hlog rfl rfl rfl .nil .nil .nil (by rw [hwaiting]; simp)
    | bottom => exact h.append [] [] [] rfl rfl rfl rfl .nil .nil .nil (by rw [hwaiting]; simp)
  | load page _ hhead hinstall =>
    obtain ⟨setID, oldPage, set, -, -, rfl⟩ := install_eq hinstall
    have hlog : (installed t page setID set oldPage (filterAfter t (oldPage != {}) oldPage)).retrieveOutside.log =
        t.log ++ [evict oldPage t.cuckooFilter (filterAfter t (oldPage != {}) oldPage),
          .outsideRetrieve (.pageLoad page)] := by
      change (t.log ++ [_]) ++ t.outsidePort.peek.toList.map outsideRetrieve = _
      rw [hhead, append_assoc]
      rfl
    exact h.append [] [] [] hlog rfl rfl rfl .nil .nil .nil rfl

end

end Akita.Vm.TlbGmmu
