import Akita.Vm.TlbCf.Steps
import Akita.Vm.Tlb.Conservation

/-!
# Messages of the cuckoo filter TLB

* `Consumed t` : what is retrieved is what is handled, once and from its port; each request goes one way and is answered once
  at most;
* `consumed_of_reaches` : so it is in every run of careful steps, which do not panic unless the TLB has no ways, sets or page
  size.
-/

namespace Akita.Vm.TlbCf
open Mem Sim Option List
open Vm.Tlb (SetImpl Sound fill_ok visit_ok sound_update new_sound forall₂_concat)
open Multiset (coe_add coe_nil coe_singleton singleton_add)
open Raises (error of_ok ok)

variable {cfg : Config}

/-! ## The log -/

def Message.top? : Message → Option TranslationReq
  | .top req => some req
  | _ => none

def Message.outside? : Message → Option OutsideMsg
  | .outside msg => some msg
  | _ => none

def Message.bottom? : Message → Option BottomMsg
  | .bottom msg => some msg
  | _ => none

/-- The request that a message is. -/
def Message.request? : Message → Option MshrRequest
  | .top req => some { request := req, localFlag := true, remoteFlag := false }
  | .outside (.req req) => some { request := req, localFlag := false, remoteFlag := true }
  | _ => none

namespace Event

def arrived? : Event → Option Message
  | .arrive m => some m
  | _ => none

def handled? : Event → Option Message
  | .handle m => some m
  | _ => none

def retrieved? : Event → Option Message
  | .retrieve m => some m
  | _ => none

def hit? : Event → Option MshrRequest
  | .hit r => some r
  | _ => none

def joined? : Event → Option MshrRequest
  | .join r => some r
  | _ => none

/-- The request for which a request was sent to the bottom port. -/
def toBottom? : Event → Option MshrRequest
  | .fetch r false _ => some r
  | _ => none

/-- The request for which a request was sent to the compression port. -/
def toCmp? : Event → Option MshrRequest
  | .fetch r true _ => some r
  | .forward req _ => some { request := req, localFlag := false, remoteFlag := true }
  | _ => none

def completed? : Event → Option MshrRequest
  | .complete r => some r
  | _ => none

def removed? : Event → Option MshrEntry
  | .remove e => some e
  | _ => none

def overwritten? : Event → Option MshrEntry
  | .responds old _ => old
  | _ => none

end Event

/-- The messages that have arrived. -/
def arrivedOf (log : List Event) : List Message := log.filterMap Event.arrived?

/-- The messages with which a stage has made progress. -/
def handledOf (log : List Event) : List Message := log.filterMap Event.handled?

/-- The messages taken from their ports. -/
def retrievedOf (log : List Event) : List Message := log.filterMap Event.retrieved?

/-- The requests taken from their ports. -/
def requestsOf (log : List Event) : List MshrRequest := (retrievedOf log).filterMap Message.request?

/-- The requests that hit. -/
def hitsOf (log : List Event) : List MshrRequest := log.filterMap Event.hit?

/-- The requests that joined an entry. -/
def joinedOf (log : List Event) : List MshrRequest := log.filterMap Event.joined?

/-- The requests sent on to the bottom port. -/
def toBottomOf (log : List Event) : List MshrRequest := log.filterMap Event.toBottom?

/-- The requests sent on to the compression port. -/
def toCmpOf (log : List Event) : List MshrRequest := log.filterMap Event.toCmp?

/-- The requests answered. -/
def completedOf (log : List Event) : List MshrRequest := log.filterMap Event.completed?

/-- The entries removed unanswered. -/
def removedOf (log : List Event) : List MshrEntry := log.filterMap Event.removed?

/-- The entries that responded when another one took their place. -/
def overwrittenOf (log : List Event) : List MshrEntry := log.filterMap Event.overwritten?

/-! ## What holds in a careful run -/

/-- The response answers the request with a page for it. -/
structure Answers (r : MshrRequest) (rsp : TranslationRsp) : Prop where
  respondTo : rsp.respondTo = r.request.id
  dst : rsp.dst = r.request.src
  pid : rsp.page.pid = r.request.pid
  vAddr : rsp.page.vAddr = r.request.vAddr

/-- The request asks for the page of the other one. -/
structure Asks (r : MshrRequest) (req : TranslationReq) : Prop where
  pid : req.pid = r.request.pid
  vAddr : req.vAddr = r.request.vAddr

/-- The requests that wait in the MSHR and in the entry that responds. -/
def waiting (t : TLB cfg) : Multiset MshrRequest :=
  t.mshr.waiting + ↑(t.respondingMSHREntry.toList.flatMap MshrEntry.requests)

/-- Each message is handled and retrieved once, and no port loses another one. -/
structure Delivered (t : TLB cfg) : Prop where
  handled : handledOf t.log = retrievedOf t.log
  top : (arrivedOf t.log).filterMap Message.top? = (retrievedOf t.log).filterMap Message.top? ++ t.topPort.buf.elements
  outside : (arrivedOf t.log).filterMap Message.outside? = (retrievedOf t.log).filterMap Message.outside? ++
    t.outsidePort.buf.elements
  bottom : (arrivedOf t.log).filterMap Message.bottom? = (retrievedOf t.log).filterMap Message.bottom? ++
    t.bottomPort.buf.elements

/-- `ways` : each request taken hits, joins an entry or is sent on, once; `answers` : it is answered once, or removed with its
entry, or waits; `overwritten` : no entry that responds is lost. -/
structure Balanced (t : TLB cfg) : Prop where
  ways : (↑(requestsOf t.log) : Multiset MshrRequest) =
    ↑(hitsOf t.log) + ↑(joinedOf t.log) + (↑(toBottomOf t.log) + ↑(toCmpOf t.log))
  answers : (↑(requestsOf t.log) : Multiset MshrRequest) =
    ↑(completedOf t.log) + ↑((removedOf t.log).flatMap MshrEntry.requests) + waiting t
  overwritten : overwrittenOf t.log = []

/-- What the ports have sent: a response for each request answered, in this order, and a request for each one sent on. -/
structure Sent (t : TLB cfg) : Prop where
  top : List.Forall₂ Answers ((completedOf t.log).filter (·.localFlag)) t.topPort.outgoing
  outside : List.Forall₂ Answers ((completedOf t.log).filter (·.remoteFlag)) t.outsidePort.outgoing
  bottom : List.Forall₂ Asks (toBottomOf t.log) t.bottomPort.outgoing
  cmp : List.Forall₂ Asks (toCmpOf t.log) t.cmpPort.outgoing

structure Consumed (t : TLB cfg) : Prop where
  delivered : Delivered t
  balanced : Balanced t
  sent : Sent t

/-- What the careful steps rely on. -/
structure Kept (t : TLB cfg) : Prop where
  sets : ∀ i, Sound cfg.numWays (fun _ => True) (t.sets i)
  entries : ∀ e ∈ t.mshr.entries, e.WellFormed
  responding : ∀ e, t.respondingMSHREntry = some e → e.WellFormed ∧ e.page.pid = e.pid ∧ e.page.vAddr = e.vAddr
  filter : t.filterFlag = true → t.cf.isSome = true
  control : t.controlPort.buf.elements = []
  running : t.isPaused = false

/-! ## Ports -/

section
variable {t t' : TLB cfg}

/-- The message is the first at its port. -/
def AtHead (t : TLB cfg) : Message → Prop
  | .top req => t.topPort.peek = some req
  | .outside msg => t.outsidePort.peek = some msg
  | .bottom msg => t.bottomPort.peek = some msg

variable {r : MshrRequest} {m : Message} {k : Call}

theorem Heads.atHead (h : Heads t k r m) : AtHead t m := by
  cases h with
  | top _ h => exact h
  | outside _ h => exact h

theorem Heads.request (h : Heads t k r m) : m.request? = some r := by
  cases h <;> rfl

/-- The messages that wait at the ports. -/
def bufs (t : TLB cfg) : List TranslationReq × List OutsideMsg × List BottomMsg :=
  (t.topPort.buf.elements, t.outsidePort.buf.elements, t.bottomPort.buf.elements)

variable {events : List Event}

theorem Delivered.quiet (h : Delivered t) (hlog : t'.log = t.log ++ events) (harrived : arrivedOf events = [])
    (hretrieved : retrievedOf events = []) (hhandled : handledOf events = []) (hbufs : bufs t' = bufs t) : Delivered t' := by
  have ha : arrivedOf t'.log = arrivedOf t.log := by
    rw [hlog, arrivedOf, filterMap_append, ← arrivedOf, ← arrivedOf, harrived, append_nil]
  have hr : retrievedOf t'.log = retrievedOf t.log := by
    rw [hlog, retrievedOf, filterMap_append, ← retrievedOf, ← retrievedOf, hretrieved, append_nil]
  have hh : handledOf t'.log = handledOf t.log := by
    rw [hlog, handledOf, filterMap_append, ← handledOf, ← handledOf, hhandled, append_nil]
  simp only [bufs, Prod.mk.injEq] at hbufs
  constructor
  · rw [hh, hr]
    exact h.handled
  · rw [ha, hr, hbufs.1]
    exact h.top
  · rw [ha, hr, hbufs.2.1]
    exact h.outside
  · rw [ha, hr, hbufs.2.2]
    exact h.bottom

/-- The first message of a port is taken and handled. -/
theorem Delivered.take (h : Delivered t) (hhead : AtHead t m) (hlog : t'.log = t.log ++ events)
    (harrived : arrivedOf events = []) (hretrieved : retrievedOf events = [m]) (hhandled : handledOf events = [m])
    (hbufs : bufs t' = bufs (popped t m)) : Delivered t' := by
  have ha : arrivedOf t'.log = arrivedOf t.log := by
    rw [hlog, arrivedOf, filterMap_append, ← arrivedOf, ← arrivedOf, harrived, append_nil]
  have hr : retrievedOf t'.log = retrievedOf t.log ++ [m] := by
    rw [hlog, retrievedOf, filterMap_append, ← retrievedOf, ← retrievedOf, hretrieved]
  have hh : handledOf t'.log = handledOf t.log ++ [m] := by
    rw [hlog, handledOf, filterMap_append, ← handledOf, ← handledOf, hhandled]
  simp only [bufs, Prod.mk.injEq] at hbufs
  -- the message moves from its buffer to what has been retrieved
  cases m with
  | top =>
    refine ⟨by rw [hh, hr, h.handled], ?_, ?_, ?_⟩
    · rw [ha, hr, hbufs.1, h.top, Buffer.peek_eq_some hhead, filterMap_append, append_assoc]
      rfl
    · rw [ha, hr, hbufs.2.1, h.outside, filterMap_append]
      exact congrArg (· ++ _) (append_nil _).symm
    · rw [ha, hr, hbufs.2.2, h.bottom, filterMap_append]
      exact congrArg (· ++ _) (append_nil _).symm
  | outside =>
    refine ⟨by rw [hh, hr, h.handled], ?_, ?_, ?_⟩
    · rw [ha, hr, hbufs.1, h.top, filterMap_append]
      exact congrArg (· ++ _) (append_nil _).symm
    · rw [ha, hr, hbufs.2.1, h.outside, Buffer.peek_eq_some hhead, filterMap_append, append_assoc]
      rfl
    · rw [ha, hr, hbufs.2.2, h.bottom, filterMap_append]
      exact congrArg (· ++ _) (append_nil _).symm
  | bottom =>
    refine ⟨by rw [hh, hr, h.handled], ?_, ?_, ?_⟩
    · rw [ha, hr, hbufs.1, h.top, filterMap_append]
      exact congrArg (· ++ _) (append_nil _).symm
    · rw [ha, hr, hbufs.2.1, h.outside, filterMap_append]
      exact congrArg (· ++ _) (append_nil _).symm
    · rw [ha, hr, hbufs.2.2, h.bottom, Buffer.peek_eq_some hhead, filterMap_append, append_assoc]
      rfl

theorem Delivered.step (h : Delivered t) (hs : Step t k t') : Delivered t' := by
  cases hs with
  | idle _ top bottom outside => exact ⟨h.handled, h.top, h.outside, h.bottom⟩
  | respond _ r =>
    refine h.quiet (show _ = t.log ++ [Event.complete r] from rfl) rfl rfl rfl ?_
    cases hlocal : r.localFlag <;> simp [bufs, answered, hlocal]
  | hit req _ _ _ _ _ hreq =>
    exact h.take (m := .top req) hreq rfl rfl rfl rfl rfl
  | join _ _ m _ hhead => exact h.take hhead.atHead rfl rfl rfl rfl (by cases m <;> rfl)
  | fetch _ r m toCmp req conn hhead =>
    have hlog : (sentTo t toCmp req conn).log = t.log := by cases toCmp <;> rfl
    have hevents : (taken (sentTo t toCmp req conn) m [.fetch r toCmp req]).log =
        t.log ++ [Event.fetch r toCmp req, .retrieve m, .handle m] := congrArg (· ++ _) hlog
    exact h.take hhead.atHead hevents rfl rfl rfl (by cases m <;> cases toCmp <;> rfl)
  | drop | fill => exact h.take (m := .bottom (.rsp ‹_›)) ‹_› rfl rfl rfl rfl rfl
  | removeNone | remove => exact h.take (m := .bottom (.remove ‹_›)) ‹_› rfl rfl rfl rfl rfl
/-! ## Requests -/

theorem requestsOf_eq (hretrieved : retrievedOf events = [m]) (hm : m.request? = some r) : requestsOf events = [r] := by
  rw [requestsOf, hretrieved, filterMap_cons_some hm]
  rfl

/-- A step takes the requests `rs`, answers the requests `cs` and removes the entries `es`. -/
theorem Balanced.append (h : Balanced t) (rs cs : List MshrRequest) (es : List MshrEntry) (hlog : t'.log = t.log ++ events)
    (hrequests : requestsOf events = rs) (hcompleted : completedOf events = cs) (hremoved : removedOf events = es)
    (hways : (↑rs : Multiset MshrRequest) = ↑(hitsOf events) + ↑(joinedOf events) +
      (↑(toBottomOf events) + ↑(toCmpOf events)))
    (hanswers : ↑rs + waiting t = ↑cs + ↑(es.flatMap MshrEntry.requests) + waiting t') (hover : overwrittenOf events = []) :
    Balanced t' := by
  have hr : requestsOf t'.log = requestsOf t.log ++ rs := by
    rw [hlog, requestsOf, retrievedOf, filterMap_append, filterMap_append, ← hrequests]
    rfl
  have hc : completedOf t'.log = completedOf t.log ++ cs := by
    rw [hlog, completedOf, filterMap_append, ← hcompleted]
    rfl
  have he : removedOf t'.log = removedOf t.log ++ es := by
    rw [hlog, removedOf, filterMap_append, ← hremoved]
    rfl
  have hw : (↑(hitsOf t'.log) : Multiset MshrRequest) + ↑(joinedOf t'.log) + (↑(toBottomOf t'.log) + ↑(toCmpOf t'.log)) =
      ↑(hitsOf t.log) + ↑(joinedOf t.log) + (↑(toBottomOf t.log) + ↑(toCmpOf t.log)) +
        (↑(hitsOf events) + ↑(joinedOf events) + (↑(toBottomOf events) + ↑(toCmpOf events))) := by
    simp only [hlog, hitsOf, joinedOf, toBottomOf, toCmpOf, filterMap_append, ← coe_add]
    abel
  constructor
  · rw [hw, ← hways, hr, ← coe_add, h.ways]
  · rw [hr, hc, he, flatMap_append, ← coe_add, ← coe_add, ← coe_add, h.answers, add_assoc, add_comm (waiting t), hanswers]
    abel
  · rw [hlog, overwrittenOf, filterMap_append, ← overwrittenOf, ← overwrittenOf, h.overwritten, hover]
    rfl

theorem Balanced.step (h : Balanced t) (hs : Step t k t') : Balanced t' := by
  cases hs with
  | idle => exact ⟨h.ways, h.answers, h.overwritten⟩
  | respond e r requests conn he hreqs =>
    refine h.append [] [r] [] (show _ = t.log ++ [Event.complete r] from rfl) rfl rfl rfl rfl ?_ rfl
    have hmshr : (answered t r (rspOf r.request e.page) conn).mshr = t.mshr := by
      unfold answered
      split <;> rfl
    have hrest : (toList (if requests.isEmpty then none else some { e with requests })).flatMap MshrEntry.requests =
        requests := by
      cases requests <;> simp
    simp only [waiting, hmshr, hrest, he, toList_some, flatMap_singleton, hreqs, flatMap_nil, coe_nil]
    rw [← Multiset.cons_coe, ← singleton_add, coe_singleton]
    abel
  | hit =>
    exact h.append [_] [_] [] rfl rfl rfl rfl rfl rfl rfl
  | join _ r m _ hhead he =>
    have hrequests : requestsOf [Event.join r, .retrieve m, .handle m] = [r] := requestsOf_eq rfl hhead.request
    refine h.append [r] [] [] (show _ = t.log ++ [Event.join r, .retrieve m, .handle m] from rfl) hrequests rfl rfl rfl ?_ rfl
    have hmshr : (popped t m).respondingMSHREntry = t.respondingMSHREntry := by cases m <;> rfl
    simp only [waiting, taken, hmshr, Mshr.waiting_join he, flatMap_nil, coe_nil, coe_singleton, ← singleton_add]
    abel
  | fetch _ r m toCmp req conn hhead =>
    have hrequests : requestsOf [Event.fetch r toCmp req, .retrieve m, .handle m] = [r] := requestsOf_eq rfl hhead.request
    have hlog : (sentTo t toCmp req conn).log = t.log := by cases toCmp <;> rfl
    refine h.append [r] [] [] (show _ = t.log ++ [Event.fetch r toCmp req, .retrieve m, .handle m] from congrArg
      (· ++ _) hlog) hrequests
      rfl rfl (by cases toCmp <;> rfl) ?_ rfl
    have hresp : (popped (sentTo t toCmp req conn) m).respondingMSHREntry = t.respondingMSHREntry := by
      cases m <;> cases toCmp <;> rfl
    simp only [waiting, taken, hresp, Mshr.waiting_add, missEntry, flatMap_nil, coe_nil, coe_singleton]
    abel
  | drop => exact h.append [] [] [] rfl rfl rfl rfl rfl rfl rfl
  | fill _ _ _ _ _ _ _ hnone _ he =>
    refine h.append [] [] [] rfl rfl rfl rfl rfl ?_ rfl
    simp only [waiting, hnone, Mshr.waiting_remove he, toList_none, toList_some, flatMap_nil, flatMap_singleton, coe_nil]
    abel
  | removeNone => exact h.append [] [] [] rfl rfl rfl rfl rfl rfl rfl
  | remove req e _ he =>
    refine h.append [] [] [e] rfl rfl rfl rfl rfl ?_ rfl
    have hresp : (taken t (.bottom (.remove req)) [Event.remove e]).respondingMSHREntry = t.respondingMSHREntry := rfl
    simp only [waiting, hresp, Mshr.waiting_remove he, flatMap_singleton, coe_nil]
    abel

/-! ## Responses and requests sent -/

theorem Sent.append (h : Sent t) (cs : List MshrRequest) (hlog : t'.log = t.log ++ events)
    (hcompleted : completedOf events = cs) {top outside : List TranslationRsp} {bottom cmp : List TranslationReq}
    (htop : t'.topPort.outgoing = t.topPort.outgoing ++ top) (htops : List.Forall₂ Answers (cs.filter (·.localFlag)) top)
    (houtside : t'.outsidePort.outgoing = t.outsidePort.outgoing ++ outside)
    (houtsides : List.Forall₂ Answers (cs.filter (·.remoteFlag)) outside)
    (hbottom : t'.bottomPort.outgoing = t.bottomPort.outgoing ++ bottom)
    (hbottoms : List.Forall₂ Asks (toBottomOf events) bottom) (hcmp : t'.cmpPort.outgoing = t.cmpPort.outgoing ++ cmp)
    (hcmps : List.Forall₂ Asks (toCmpOf events) cmp) : Sent t' := by
  have hc : completedOf t'.log = completedOf t.log ++ cs := by
    rw [hlog, completedOf, filterMap_append, ← hcompleted]
    rfl
  constructor
  · rw [hc, filter_append, htop]
    exact rel_append h.top htops
  · rw [hc, filter_append, houtside]
    exact rel_append h.outside houtsides
  · rw [hlog, toBottomOf, filterMap_append, hbottom]
    exact rel_append h.bottom hbottoms
  · rw [hlog, toCmpOf, filterMap_append, hcmp]
    exact rel_append h.cmp hcmps

theorem Sent.quiet (h : Sent t) (hlog : t'.log = t.log ++ events) (hcompleted : completedOf events = [])
    (hbottom : toBottomOf events = []) (hcmp : toCmpOf events = []) (htop' : t'.topPort.outgoing = t.topPort.outgoing)
    (houtside' : t'.outsidePort.outgoing = t.outsidePort.outgoing) (hbottom' : t'.bottomPort.outgoing = t.bottomPort.outgoing)
    (hcmp' : t'.cmpPort.outgoing = t.cmpPort.outgoing) : Sent t' := by
  refine h.append [] hlog hcompleted (htop'.trans (append_nil _).symm) .nil (houtside'.trans (append_nil _).symm) .nil
    (hbottom'.trans (append_nil _).symm) ?_ (hcmp'.trans (append_nil _).symm) ?_
  · rw [hbottom]
    exact .nil
  · rw [hcmp]
    exact .nil

theorem Sent.answer (h : Sent t) {rsp : TranslationRsp} (hside : r.remoteFlag = !r.localFlag) (hanswers : Answers r rsp)
    (hlog : t'.log = t.log ++ events) (hcompleted : completedOf events = [r]) (hbottom : toBottomOf events = [])
    (hcmp : toCmpOf events = []) (htop' : t'.topPort.outgoing = t.topPort.outgoing ++ if r.localFlag then [rsp] else [])
    (houtside' : t'.outsidePort.outgoing = t.outsidePort.outgoing ++ if r.localFlag then [] else [rsp])
    (hbottom' : t'.bottomPort.outgoing = t.bottomPort.outgoing) (hcmp' : t'.cmpPort.outgoing = t.cmpPort.outgoing) :
    Sent t' := by
  have hone : List.Forall₂ Answers [r] [rsp] := .cons hanswers .nil
  refine h.append [r] hlog hcompleted htop' ?_ houtside' ?_ (hbottom'.trans (append_nil _).symm) ?_
    (hcmp'.trans (append_nil _).symm) ?_
  · cases hlocal : r.localFlag with
    | true => simpa [hlocal] using hone
    | false => simp [hlocal]
  · cases hlocal : r.localFlag with
    | true => simp [hside, hlocal]
    | false => simpa [hside, hlocal] using hone
  · rw [hbottom]
    exact .nil
  · rw [hcmp]
    exact .nil

theorem Sent.step (h : Sent t) (hkept : Kept t) (hs : Step t k t') : Sent t' := by
  cases hs with
  | idle _ top bottom outside cmp => exact ⟨h.top, h.outside, h.bottom, h.cmp⟩
  | respond e r _ _ he hreqs hside =>
    obtain ⟨hwell, hpid, haddr⟩ := hkept.responding e he
    have hpage := hwell.pages r (by rw [hreqs]; exact mem_cons_self)
    have hanswers : Answers r (rspOf r.request e.page) := ⟨rfl, rfl, hpid.trans hpage.1.symm, haddr.trans hpage.2.symm⟩
    apply h.answer hside hanswers (show _ = t.log ++ [Event.complete r] from rfl) rfl rfl rfl
    all_goals cases hlocal : r.localFlag <;> simp [answered, hlocal]
  | hit req setID wayID page _ _ _ hlook =>
    obtain ⟨_, hlook', hpage⟩ := (hkept.sets setID).lookup req.pid req.vAddr
    rw [hlook, Except.ok.injEq] at hlook'
    subst hlook'
    obtain ⟨-, hpid, haddr, -⟩ := hpage wayID page rfl
    have hanswers : Answers { request := req, localFlag := true, remoteFlag := false } (rspOfHit req page) :=
      ⟨rfl, rfl, hpid, haddr⟩
    exact h.answer rfl hanswers rfl rfl rfl rfl rfl (append_nil _).symm rfl rfl
  | join _ r m =>
    exact h.quiet (show _ = t.log ++ [Event.join r, .retrieve m, .handle m] from rfl) rfl rfl rfl
      (by cases m <;> rfl) (by cases m <;> rfl) (by cases m <;> rfl) (by cases m <;> rfl)
  | fetch _ r m toCmp req conn _ hkey =>
    have hasks : List.Forall₂ Asks [r] [req] := .cons ⟨hkey.1, hkey.2⟩ .nil
    have hlog : (sentTo t toCmp req conn).log = t.log := by cases toCmp <;> rfl
    refine h.append [] (show _ = t.log ++ [Event.fetch r toCmp req, .retrieve m, .handle m] from congrArg (· ++ _) hlog) rfl
      (show _ = t.topPort.outgoing ++ [] from ?_) .nil (show _ = t.outsidePort.outgoing ++ [] from ?_) .nil
      (show _ = t.bottomPort.outgoing ++ (if toCmp then [] else [req]) from ?_) ?_
      (show _ = t.cmpPort.outgoing ++ (if toCmp then [req] else []) from ?_) ?_
    · cases m <;> cases toCmp <;> simp [taken, popped, sentTo]
    · cases m <;> cases toCmp <;> simp [taken, popped, sentTo]
    · cases m <;> cases toCmp <;> simp [taken, popped, sentTo]
    · cases toCmp with
      | true => exact .nil
      | false => exact hasks
    · cases m <;> cases toCmp <;> simp [taken, popped, sentTo]
    · cases toCmp with
      | true => exact hasks
      | false => exact .nil
  | drop | fill | removeNone | remove => exact h.quiet rfl rfl rfl rfl rfl rfl rfl rfl

/-! ## What careful steps rely on -/

theorem wellFormed_missEntry (hside : r.remoteFlag = !r.localFlag) (req : TranslationReq) :
    (missEntry r req).WellFormed := by
  refine ⟨cons_ne_nil _ _, fun r' hr' => ?_, fun r' hr' => ?_⟩
  · rw [mem_singleton.mp hr']
    exact hside
  · rw [mem_singleton.mp hr']
    exact ⟨rfl, rfl⟩

theorem Kept.step (h : Kept t) (hs : Step t k t') : Kept t' := by
  cases hs with
  | idle | drop | removeNone => exact ⟨h.sets, h.entries, h.responding, h.filter, h.control, h.running⟩
  | respond e r requests conn he hreqs =>
    have hsame : ∀ rsp, Kept (answered t r rsp conn) := by
      intro rsp
      unfold answered
      split
      · exact ⟨h.sets, h.entries, h.responding, h.filter, h.control, h.running⟩
      · exact ⟨h.sets, h.entries, h.responding, h.filter, h.control, h.running⟩
    obtain ⟨hsets, hentries, -, hfilter, hcontrol, hrunning⟩ := hsame (rspOf r.request e.page)
    refine ⟨hsets, hentries, fun e' he' => ?_, hfilter, hcontrol, hrunning⟩
    obtain ⟨hwell, hpage⟩ := h.responding e he
    cases requests with
    | nil => cases he'
    | cons r' requests =>
      cases he'
      have hmem : ∀ r₁ ∈ r' :: requests, r₁ ∈ e.requests := by
        intro r₁ hr₁
        rw [hreqs]
        exact mem_cons_of_mem _ hr₁
      exact ⟨⟨cons_ne_nil _ _, fun r₁ hr₁ => hwell.sides r₁ (hmem r₁ hr₁), fun r₁ hr₁ => hwell.pages r₁ (hmem r₁ hr₁)⟩, hpage⟩
  | hit req setID wayID page _ _ _ hlook _ hvisit =>
    obtain ⟨_, hlook', hpage⟩ := (h.sets setID).lookup req.pid req.vAddr
    rw [hlook, Except.ok.injEq] at hlook'
    subst hlook'
    obtain ⟨set', hvisit', hsound⟩ := (h.sets setID).visit (hpage wayID page rfl).1
    rw [hvisit, Except.ok.injEq] at hvisit'
    subst hvisit'
    exact ⟨sound_update (P := fun _ _ => True) h.sets hsound, h.entries, h.responding, h.filter, h.control, h.running⟩
  | join _ _ m _ hhead =>
    have hentries := Mshr.wellFormed_join h.entries hhead.side
    cases m <;> exact ⟨h.sets, hentries, h.responding, h.filter, h.control, h.running⟩
  | fetch _ r m toCmp req _ hhead =>
    have hentries : ∀ e ∈ t.mshr.entries ++ [missEntry r req], e.WellFormed := by
      exact forall_mem_append.mpr ⟨h.entries, forall_mem_singleton.mpr (wellFormed_missEntry hhead.side req)⟩
    cases m <;> cases toCmp <;> exact ⟨h.sets, hentries, h.responding, h.filter, h.control, h.running⟩
  | fill _ e setID _ _ _ _ _ _ he hfill hcf =>
    obtain ⟨_, _, hfill', hsound⟩ := (h.sets setID).fill ((h.sets setID).pos_of_fill hfill) fun _ => trivial
    rw [hfill, Except.ok.injEq, Prod.mk.injEq] at hfill'
    obtain ⟨rfl, rfl⟩ := hfill'
    obtain ⟨hnonempty, hsides, hpages⟩ := h.entries e (Mshr.mem_of_query he)
    obtain ⟨hpid, haddr⟩ := Mshr.key_of_query he
    refine ⟨sound_update (P := fun _ _ => True) h.sets hsound, fun e' he' => h.entries e' (mem_of_mem_eraseP he'), ?_,
      fun hflag => hcf (h.filter hflag), h.control, h.running⟩
    intro e' he'
    cases he'
    exact ⟨⟨hnonempty, hsides, hpages⟩, hpid.symm, haddr.symm⟩
  | remove =>
    exact ⟨h.sets, fun e' he' => h.entries e' (mem_of_mem_eraseP he'), h.responding, h.filter, h.control, h.running⟩

/-! ## Panics -/

/-- The TLB has no page size, no sets or no ways. -/
def ConfigPanic (cfg : Config) (e : String) : Prop :=
  e = "runtime error: integer divide by zero" ∧ (cfg.pageSize = 0 ∨ cfg.numSets = 0) ∨ e = "failed to evict" ∧ cfg.numWays = 0

variable {P : String → Prop}

theorem raises_handled {x : Result cfg} (h : Raises P x) : Raises P (handled m x) := by
  cases x with
  | error e => exact error (h e rfl)
  | ok y =>
    obtain ⟨p, _⟩ := y
    cases p <;> exact ok _

theorem raises_vAddrToSetID (vAddr : VAddr) : Raises (ConfigPanic cfg) (vAddrToSetID cfg vAddr) := by
  unfold vAddrToSetID
  split
  next hzero => exact error (.inl ⟨rfl, hzero⟩)
  next => exact ok _

theorem raises_fill {set : SetImpl} (hset : Sound cfg.numWays (fun _ => True) set) (page : Page) :
    Raises (ConfigPanic cfg) (set.fill page) := by
  rcases Nat.eq_zero_or_pos cfg.numWays with hzero | hpos
  · have hnil : set.visitList = [] := perm_nil.mp (by simpa [hzero] using hset.visitList)
    rw [SetImpl.fill, SetImpl.evict, hnil]
    exact error (.inr ⟨rfl, hzero⟩)
  · obtain ⟨w, set', hfill, -⟩ : ∃ w set', set.fill page = .ok (w, set') ∧ Sound cfg.numWays (fun _ => True) set' :=
      hset.fill hpos fun _ => trivial
    exact of_ok hfill

theorem raises_miss (habsent : t.mshr.query r.request.pid r.request.vAddr = none) (toCmp : Bool)
    (req : TranslationReq) : Raises P (miss t r fun t r => fetch t r toCmp req) := by
  unfold miss
  by_cases hfull : t.mshr.isFull = true
  · rw [if_pos hfull]
    exact ok _
  · rw [if_neg hfull]
    have hadd : t.mshr.add (missEntry r req) = .ok ⟨t.mshr.entries ++ [missEntry r req]⟩ :=
      Mshr.add_ok habsent (by simpa using hfull)
    unfold fetch
    rcases sendTo_cases t toCmp req with ⟨conn, hsend⟩ | ⟨_, _, hsend⟩
    · have hmshr : (sentTo t toCmp req conn).mshr = t.mshr := by cases toCmp <;> rfl
      simp only [hsend, if_bnot_true, hmshr, hadd]
      exact ok _
    · simp only [hsend, if_bnot_false]
      exact ok _

theorem Kept.raises_processTranslation (h : Kept t) (req : TranslationReq) :
    Raises (ConfigPanic cfg) (processTranslation t req) := by
  unfold processTranslation
  cases he : t.mshr.query req.pid req.vAddr with
  | some => exact ok _
  | none =>
    refine Raises.bind (raises_vAddrToSetID _) fun setID hset => ?_
    obtain ⟨found, hlook, hpage⟩ := (h.sets setID).lookup req.pid req.vAddr
    refine Raises.bind (of_ok hlook) fun found' hfound => ?_
    rw [hlook, Except.ok.injEq] at hfound
    subst hfound
    have hmiss : Raises (ConfigPanic cfg)
        (handleTranslationMiss t { request := req, localFlag := true, remoteFlag := false }) :=
      raises_miss he false (reqToBottom cfg t.nextID req)
    cases found with
    | none => exact hmiss
    | some x =>
      obtain ⟨wayID, page⟩ := x
      obtain ⟨_, hvisit, -⟩ := (h.sets setID).visit (hpage wayID page rfl).1
      dsimp only
      split
      · unfold handleTranslationHit
        rcases sendRsp_cases t (r := { request := req, localFlag := true, remoteFlag := false }) rfl (rspOfHit req page) with
          ⟨conn, hsend⟩ | ⟨top, outside, hsend⟩
        · simp only [hsend, if_bnot_true]
          exact Raises.bind (of_ok hvisit) fun _ _ => ok _
        · simp only [hsend, if_bnot_false]
          exact ok _
      · exact hmiss

theorem Kept.raises_filtered (h : Kept t) {req : TranslationReq} {found notFound : Result cfg} (hfound : Raises P found)
    (hnot : ¬ Passes t req → Raises P notFound) : Raises P (filtered t req found notFound) := by
  unfold filtered
  by_cases hflag : t.filterFlag = true
  · obtain ⟨cf, hcf⟩ := isSome_iff_exists.mp (h.filter hflag)
    simp only [hflag, hcf, if_true]
    by_cases hpass : passesFilter t cf req = true
    · rw [if_pos hpass]
      exact hfound
    · rw [if_neg hpass]
      exact hnot fun hpasses => hpass (hpasses hflag cf hcf)
  · rw [if_neg hflag]
    exact hfound

theorem raises_insertFilter (hfilter : t.filterFlag = true → t.cf.isSome = true) (page : Page) :
    Raises P (insertFilter t page) := by
  unfold insertFilter
  by_cases hflag : t.filterFlag = true
  · obtain ⟨cf, hcf⟩ := isSome_iff_exists.mp (hfilter hflag)
    obtain ⟨_, hinsert⟩ := cf.insert_ok page.vAddr (t.rand t.nextInsert).1 (t.rand t.nextInsert).2
    simp only [hflag, hcf, if_true]
    exact Raises.bind (of_ok hinsert) fun _ _ => ok _
  · rw [if_neg hflag]
    exact ok _

theorem Kept.raises_processRsp (h : Kept t) (rsp : TranslationRsp) : Raises (ConfigPanic cfg) (processRsp t rsp) := by
  unfold processRsp
  cases he : t.mshr.query rsp.page.pid rsp.page.vAddr with
  | none => exact ok _
  | some =>
    refine Raises.bind (raises_vAddrToSetID _) fun setID _ => Raises.bind (raises_fill (h.sets setID) _) fun r _ => ?_
    refine Raises.bind (of_ok (Mshr.remove_of_query he)) fun mshr _ => ?_
    refine Raises.bind (raises_insertFilter ?_ _) fun t' _ => ok _
    exact h.filter

/-- A careful call panics only when there is no page size, no set or no way. -/
theorem Kept.raises (h : Kept t) (hcareful : Careful t k) : Raises (ConfigPanic cfg) (k.exec t) := by
  have hguard : ∀ {f : Result cfg}, Raises (ConfigPanic cfg) f →
      Raises (ConfigPanic cfg) (if t.isPaused then .ok (false, t) else f) := by
    intro f hf
    rw [h.running]
    exact hf
  cases k with
  | ctrl =>
    have hpeek : t.controlPort.peek = none := by rw [Port.peek, Buffer.peek, h.control]; rfl
    rw [Call.exec, performCtrlReq, hpeek]
    exact ok _
  | respond =>
    refine hguard ?_
    unfold respondMSHREntry
    cases hresp : t.respondingMSHREntry with
    | none => exact ok _
    | some e =>
      obtain ⟨hwell, -⟩ := h.responding e hresp
      obtain ⟨_, _, hreqs⟩ := exists_cons_of_ne_nil hwell.nonempty
      dsimp only
      rw [hreqs]
      dsimp only
      split <;> exact ok _
  | top =>
    refine hguard ?_
    unfold lookupFromTopPort
    cases hreq : t.topPort.peek with
    | none => exact ok _
    | some req =>
      refine raises_handled (h.raises_filtered (h.raises_processTranslation req) fun hpass => ?_)
      obtain ⟨hpresent, hstuck⟩ := (hcareful req hreq).resolve_left hpass
      obtain ⟨_, _, hlocal⟩ := handleLocalCF_stuck hpresent hstuck
      rw [hlocal]
      exact ok _
  | outside =>
    refine hguard ?_
    unfold lookupFromOutsidePort
    cases hmsg : t.outsidePort.peek with
    | none => exact ok _
    | some msg =>
      obtain ⟨req, rfl, -⟩ := hcareful msg hmsg
      refine raises_handled ?_
      unfold processRemoteTranslation
      split
      · exact ok _
      · refine h.raises_filtered ?_ fun _ => ?_
        · unfold processRemoteTranslationReq
          cases he : t.mshr.query req.pid req.vAddr with
          | some => exact ok _
          | none => exact raises_miss he true (reqToCmp cfg t.nextID req)
        · unfold handleRemoteCFMiss
          dsimp only
          split <;> exact ok _
  | bottom =>
    refine hguard ?_
    unfold parseBottom
    cases hresp : t.respondingMSHREntry with
    | some => exact ok _
    | none =>
      cases hmsg : t.bottomPort.peek with
      | none => exact ok _
      | some msg =>
        cases msg with
        | rsp rsp => exact raises_handled (h.raises_processRsp rsp)
        | remove req =>
          refine raises_handled ?_
          unfold processRemoveMSHRReq
          cases he : t.mshr.query req.pid req.vAddr with
          | none => exact ok _
          | some => exact Raises.bind (of_ok (Mshr.remove_of_query he)) fun mshr _ => ok _

/-! ## Arrivals -/

theorem Delivered.arrive (h : Delivered t) (hlog : t'.log = t.log ++ [.arrive m])
    (htop : t'.topPort.buf.elements = t.topPort.buf.elements ++ m.top?.toList)
    (houtside : t'.outsidePort.buf.elements = t.outsidePort.buf.elements ++ m.outside?.toList)
    (hbottom : t'.bottomPort.buf.elements = t.bottomPort.buf.elements ++ m.bottom?.toList) : Delivered t' := by
  have ha : arrivedOf t'.log = arrivedOf t.log ++ [m] := by
    rw [hlog, arrivedOf, filterMap_append]
    rfl
  have hr : retrievedOf t'.log = retrievedOf t.log := by
    rw [hlog, retrievedOf, filterMap_append]
    exact append_nil _
  have hh : handledOf t'.log = handledOf t.log := by
    rw [hlog, handledOf, filterMap_append]
    exact append_nil _
  constructor
  · rw [hh, hr]
    exact h.handled
  · rw [ha, hr, htop, filterMap_concat, h.top, append_assoc]
  · rw [ha, hr, houtside, filterMap_concat, h.outside, append_assoc]
  · rw [ha, hr, hbottom, filterMap_concat, h.bottom, append_assoc]

theorem Consumed.arrive (h : Consumed t) (hlog : t'.log = t.log ++ [.arrive m]) (hdelivered : Delivered t')
    (hmshr : t'.mshr = t.mshr) (hresp : t'.respondingMSHREntry = t.respondingMSHREntry)
    (htop : t'.topPort.outgoing = t.topPort.outgoing) (houtside : t'.outsidePort.outgoing = t.outsidePort.outgoing)
    (hbottom : t'.bottomPort.outgoing = t.bottomPort.outgoing) (hcmp : t'.cmpPort.outgoing = t.cmpPort.outgoing) :
    Consumed t' := by
  refine ⟨hdelivered, ?_, h.sent.quiet hlog rfl rfl rfl htop houtside hbottom hcmp⟩
  refine h.balanced.append [] [] [] hlog rfl rfl rfl rfl ?_ rfl
  simp only [waiting, hmshr, hresp, flatMap_nil, coe_nil, add_zero]

end

/-! ## Runs -/

/-- No control requests; every call is careful. -/
def Rules.careful (cfg : Config) : Rules cfg where
  control _ := False
  call := Careful

/-- No control requests. -/
def Rules.plain (cfg : Config) : Rules cfg where
  control _ := False
  call _ _ := True

theorem consumed_and_kept {t : TLB cfg} {ks : List Call} (h : Reaches (Rules.careful cfg) t ks) : Consumed t ∧ Kept t := by
  induction h with
  | @init t rand on hbuild hon =>
    obtain ⟨_, hnew, hsound⟩ := new_sound cfg.numWays fun _ => True
    simp only [build, newSets, hnew, bind, Except.bind, pure, Except.pure, Except.ok.injEq] at hbuild
    subst hbuild
    refine ⟨⟨⟨rfl, rfl, rfl, rfl⟩, ⟨rfl, rfl, rfl⟩, ⟨.nil, .nil, .nil, .nil⟩⟩, fun _ => hsound, forall_mem_nil _,
      fun e he => absurd he.symm (some_ne_none e), fun hflag => ?_, rfl, rfl⟩
    simp [hon hflag]
  | @top t req h ih =>
    obtain ⟨hc, hk⟩ := ih
    unfold TLB.arriveTop
    split
    next topPort hrecv =>
      have hport := Port.recv_eq hrecv
      subst hport
      refine ⟨hc.arrive (m := .top req) rfl ?_ rfl rfl rfl rfl rfl rfl, hk.sets, hk.entries, hk.responding, hk.filter,
        hk.control, hk.running⟩
      exact hc.delivered.arrive (m := .top req) rfl rfl (append_nil _).symm (append_nil _).symm
    next => exact ⟨hc, hk⟩
  | @outside t msg h ih =>
    obtain ⟨hc, hk⟩ := ih
    unfold TLB.arriveOutside
    split
    next outsidePort hrecv =>
      have hport := Port.recv_eq hrecv
      subst hport
      refine ⟨hc.arrive (m := .outside msg) rfl ?_ rfl rfl rfl rfl rfl rfl, hk.sets, hk.entries, hk.responding, hk.filter,
        hk.control, hk.running⟩
      exact hc.delivered.arrive (m := .outside msg) rfl (append_nil _).symm rfl (append_nil _).symm
    next => exact ⟨hc, hk⟩
  | @bottom t msg h ih =>
    obtain ⟨hc, hk⟩ := ih
    unfold TLB.arriveBottom
    split
    next bottomPort hrecv =>
      have hport := Port.recv_eq hrecv
      subst hport
      refine ⟨hc.arrive (m := .bottom msg) rfl ?_ rfl rfl rfl rfl rfl rfl, hk.sets, hk.entries, hk.responding, hk.filter,
        hk.control, hk.running⟩
      exact hc.delivered.arrive (m := .bottom msg) rfl (append_nil _).symm (append_nil _).symm rfl
    next => exact ⟨hc, hk⟩
  | control _ _ hreq => exact absurd hreq id
  | @connect t top bottom outside cmp control h ih =>
    obtain ⟨⟨⟨hhandled, htop, houtside, hbottom⟩, ⟨hways, hanswers, hover⟩, hsent⟩, hk⟩ := ih
    exact ⟨⟨⟨hhandled, htop, houtside, hbottom⟩, ⟨hways, hanswers, hover⟩,
      ⟨hsent.top, hsent.outside, hsent.bottom, hsent.cmp⟩⟩,
      hk.sets, hk.entries, hk.responding, hk.filter, hk.control, hk.running⟩
  | @setPageTable t pageTable h ih =>
    obtain ⟨⟨⟨hhandled, htop, houtside, hbottom⟩, ⟨hways, hanswers, hover⟩, hsent⟩, hk⟩ := ih
    exact ⟨⟨⟨hhandled, htop, houtside, hbottom⟩, ⟨hways, hanswers, hover⟩,
      ⟨hsent.top, hsent.outside, hsent.bottom, hsent.cmp⟩⟩,
      hk.sets, hk.entries, hk.responding, hk.filter, hk.control, hk.running⟩
  | tick _ ih => exact ih
  | @call t t' k ks p h hk hexec ih =>
    obtain ⟨hc, hkept⟩ := ih
    have hpeek : t.controlPort.peek = none := by
      rw [Port.peek, Buffer.peek, hkept.control]
      rfl
    rcases Call.step hk (fun e he => (hkept.responding e he).1.sides) hpeek hexec with rfl | hs
    · exact ⟨hc, hkept⟩
    · exact ⟨⟨hc.delivered.step hs, hc.balanced.step hs, hc.sent.step hkept hs⟩, hkept.step hs⟩

/-- **Every message is consumed once and every request answered once at most** in every run of careful steps, and these do not
panic for another reason than the configuration. -/
theorem consumed_of_reaches {t : TLB cfg} {ks : List Call} (h : Reaches (Rules.careful cfg) t ks) :
    Consumed t ∧ ∀ k, Careful t k → Raises (ConfigPanic cfg) (k.exec t) := by
  obtain ⟨hc, hkept⟩ := consumed_and_kept h
  exact ⟨hc, fun k hcareful => hkept.raises hcareful⟩

/-- A TLB of one way. -/
def tiny : Config where
  numReqPerCycle := 1
  numSets := 1
  numWays := 1
  pageSize := 4096
  numMSHREntry := 1
  deviceID := 1
  filterFlag := false
  pageTable := .empty
  lowModule := 20
  cmpModule := 21
  bottomPort := 2
  outsidePort := 3
  cmpPort := 4
  sum64 := fnv

theorem reaches_build {R : Rules cfg} {rand : Nat → Bool × Nat} {t : TLB cfg} (h : build cfg rand = .ok t) :
    Reaches R t [] := by
  have hoff : { t with filterFlag := false } = t := by
    unfold build at h
    obtain ⟨_, hsets, h⟩ := eq_ok_of_bind h
    cases h
    rfl
  rw [← hoff]
  exact .init rand false h fun hon => absurd hon Bool.false_ne_true

def rspOfPeer : TranslationRsp := { dst := 3, respondTo := 5, page := { pid := 1, vAddr := 8192, valid := true } }

def rspOfBottom : TranslationRsp := { dst := 2, respondTo := 6, page := { pid := 1, vAddr := 4096, valid := true } }

def OutsideMsg.isReq : OutsideMsg → Bool
  | .req _ => true
  | .rsp _ => false

/-- The filter is off, and no peer has responded. -/
def Tame (t : TLB cfg) (_ : Call) : Prop := t.filterFlag = false ∧ ∀ msg ∈ t.outsidePort.peek, msg.isReq = true

instance (t : TLB cfg) (k : Call) : Decidable (Tame t k) := inferInstanceAs (Decidable (_ ∧ ∀ msg ∈ t.outsidePort.peek, _))

theorem Tame.careful {t : TLB cfg} {k : Call} (h : Tame t k) : Careful t k := by
  have hpasses : ∀ req, Passes t req := fun _ hon => absurd hon (by simp [h.1])
  cases k with
  | top => exact fun req _ => .inl (hpasses req)
  | outside =>
    intro msg hmsg
    cases msg with
    | req req => exact ⟨req, rfl, .inr (.inl (hpasses req))⟩
    | rsp => cases h.2 _ hmsg
  | _ => trivial

def reqOfTop : TranslationReq := { id := 7, src := 9, vAddr := 4096, pid := 1 }

def reqOfPeer : TranslationReq := { reqOfTop with id := 8, src := 5 }

def reqNext : TranslationReq := { reqOfTop with id := 9, vAddr := 8192 }

/-- A local and a remote request for a page wait for one response, and get it; then the next local request is fetched. -/
def served (t : TLB tiny) : TLB tiny :=
  let joined := ((((t.connect [true] [true, true] [true] [] []).arriveTop reqOfTop).tickIf Tame).arriveTop
    reqNext).arriveOutside (.req reqOfPeer)
  ((((joined.tickIf Tame).arriveBottom (.rsp rspOfBottom)).tickIf Tame).tickIf Tame).tickIf Tame

theorem reaches_served {rand : Nat → Bool × Nat} {t : TLB tiny} (h : build tiny rand = .ok t) :
    Reaches (Rules.careful tiny) (served t) [] := by
  have hcareful : ∀ t k, Tame t k → (Rules.careful tiny).call t k := fun _ _ => Tame.careful
  have hjoined := (((((reaches_build h).connect [true] [true, true] [true] [] []).top reqOfTop).tickIf hcareful).top
    reqNext).outside (.req reqOfPeer)
  exact ((((hjoined.tickIf hcareful).bottom (.rsp rspOfBottom)).tickIf hcareful).tickIf hcareful).tickIf hcareful

theorem consumed_of_reaches_served : ∃ t, build tiny (fun _ => (false, 0)) = .ok t ∧
    handledOf (served t).log = [.top reqOfTop, .outside (.req reqOfPeer), .bottom (.rsp rspOfBottom), .top reqNext] ∧
    completedOf (served t).log = [{ request := reqOfTop, localFlag := true, remoteFlag := false },
      { request := reqOfPeer, localFlag := false, remoteFlag := true }] ∧ Consumed (served t) :=
  ⟨_, rfl, by decide +kernel, by decide +kernel, (consumed_of_reaches (reaches_served rfl)).1⟩

/-- The response of a peer is handled while another response waits at the bottom port: the one below is lost, the other one
stays. -/
theorem loses_response : ∃ t, Reaches (Rules.plain tiny) t [.bottom] ∧ handledOf t.log = [.outside (.rsp rspOfPeer)] ∧
    retrievedOf t.log = [.bottom (.rsp rspOfBottom)] ∧ ¬ Consumed t := by
  obtain ⟨t, hreach, hhandled, hretrieved⟩ : ∃ t, Reaches (Rules.plain tiny) t [.bottom] ∧
      handledOf t.log = [.outside (.rsp rspOfPeer)] ∧ retrievedOf t.log = [.bottom (.rsp rspOfBottom)] := by
    have harrived := Reaches.outside (.rsp rspOfPeer) (.bottom (.rsp rspOfBottom)
      (@reaches_build tiny (Rules.plain tiny) (fun _ => (false, 0)) _ rfl))
    exact ⟨_, .call (.call (.call (.call (.tick harrived) trivial rfl) trivial rfl) trivial rfl) trivial rfl, rfl, rfl⟩
  refine ⟨t, hreach, hhandled, hretrieved, fun h => ?_⟩
  have hsame := h.delivered.handled
  rw [hhandled, hretrieved] at hsame
  cases hsame

end Akita.Vm.TlbCf
