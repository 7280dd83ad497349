import Akita.Vm.AddressTranslator.Conservation

/-!
# GL0 invalidations in the address translator

* `Sound t k` : the call `k` meets the condition: a flush finds no GL0 invalidation, a restart drops no response that is
  waited for, and while a GL0 invalidation waits only responses to requests in flight are counted;
* `Counts t` : the counter counts the requests not answered yet, and each GL0 invalidation is forwarded and answered once, in
  order;
* `Ledger t memRsps transRsps` : what the translator waits for is under way.

`invalidations_complete` : all of this in every run whose calls meet the condition.
-/

namespace Akita.Vm.AddressTranslator
open Mem Sim
open Multiset (add_cons cons_add cons_coe count_cons_of_ne count_cons_self count_pos le_add_left map map_le_map mem_add
  mem_cons mem_cons_of_mem mem_cons_self nodup_of_le notMem_zero)
open List hiding count_cons_of_ne count_cons_self isEmpty_iff map mem_cons
open Option hiding map map_map

variable {cfg : Config}

/-! ## What is logged -/

namespace Event

def gl0Accepted? : Event → Option GL0InvalidateReq
  | gl0Accept req => some req
  | _ => none

def gl0Forwarded? : Event → Option GL0InvalidateReq
  | gl0Forward req => some req
  | _ => none

def gl0Answered? : Event → Option GL0InvalidateReq
  | gl0Answer req _ => some req
  | _ => none

def gl0Rsp? : Event → Option GL0InvalidateRsp
  | gl0Answer _ rsp => some rsp
  | _ => none

end Event

def Rsp.gl0? : Rsp → Option GL0InvalidateRsp
  | access _ => none
  | gl0 rsp => some rsp

/-! ## The condition -/

/-- Which request a message of the bottom port is about, `none` for the GL0 invalidation. -/
def reqTag : Req → Option MsgID
  | .access req => some req.id
  | .gl0 _ => none

def rspTag : Rsp → Option MsgID
  | .access rsp => some rsp.respondTo
  | .gl0 _ => none

/-- No response that waits at a port is waited for. -/
structure Unawaited (t : Translator cfg) : Prop where
  translations : ∀ tr ∈ t.transactions, tr.translationReq.id ∉ t.translationPort.buf.elements.map (·.respondTo)
  inflight : ∀ c ∈ t.inflightReqToBottom, some c.reqToBottom.id ∉ t.bottomPort.buf.elements.map rspTag
  gl0 : t.isWaitingOnGL0InvalidateRsp = true → none ∉ t.bottomPort.buf.elements.map rspTag

def Sound (t : Translator cfg) : Call → Prop
  | .respond => t.isFlushing = false → t.currentGL0InvReq.isSome = true → ∀ rsp, t.bottomPort.peek = some (.access rsp) →
      t.inflightReqToBottom.find? (isTo rsp.respondTo) ≠ none
  | .ctrl => t.ctrlPort.conn.headD false = true → ∀ msg, t.ctrlPort.peek = some msg →
      (msg.discardTransactions = true → t.currentGL0InvReq = none) ∧ (msg.discardTransactions = false → Unawaited t)
  | _ => True

/-! ## The counter -/

/-- `count` : the counter; `waiting` : a GL0 invalidation that is waited for has been forwarded with nothing left to answer;
`flushing` : nothing is left while the translator flushes; `accepted`, `forwarded` : the GL0 invalidations are forwarded and
answered in order, the last one is under way; `responses` : the responses sent; `closed`, `opened` : after a flush, and after
a restart that follows it. -/
structure Counts (t : Translator cfg) : Prop where
  count : t.currentGL0InvReq.isSome = true → t.totalRequestsUponGL0InvArrival = t.transactions.length +
    t.inflightReqToBottom.length
  waiting : t.isWaitingOnGL0InvalidateRsp = true → t.currentGL0InvReq.isSome = true ∧ t.totalRequestsUponGL0InvArrival = 0
  flushing : t.isFlushing = true → t.currentGL0InvReq = none ∧ t.transactions = [] ∧ t.inflightReqToBottom = []
  accepted : t.log.filterMap Event.gl0Accepted? = t.log.filterMap Event.gl0Answered? ++ t.currentGL0InvReq.toList
  forwarded : t.log.filterMap Event.gl0Forwarded? =
    t.log.filterMap Event.gl0Answered? ++ if t.isWaitingOnGL0InvalidateRsp then t.currentGL0InvReq.toList else []
  responses : t.topPort.outgoing.filterMap Rsp.gl0? = t.log.filterMap Event.gl0Rsp?
  answers : t.log.filterMap Event.gl0Rsp? = (t.log.filterMap Event.gl0Answered?).map
    fun req => { dst := req.src, respondTo := req.id }
  closed : ∀ l, t.log = l ++ [Event.flush] → t.isFlushing = true
  opened : ∀ l, t.log = l ++ [Event.flush, Event.restart] → t.isFlushing = false ∧ t.currentGL0InvReq = none

theorem Counts.of_same {t t' : Translator cfg} (h : Counts t) (hcurrent : t'.currentGL0InvReq = t.currentGL0InvReq)
    (hwaiting : t'.isWaitingOnGL0InvalidateRsp = t.isWaitingOnGL0InvalidateRsp) (hflushing : t'.isFlushing = t.isFlushing)
    (htotal : t.currentGL0InvReq.isSome = true → t'.totalRequestsUponGL0InvArrival = t.totalRequestsUponGL0InvArrival)
    (hlength : t'.transactions.length = t.transactions.length) (hinflight : t'.inflightReqToBottom = t.inflightReqToBottom)
    (hlog : t'.log = t.log) (htop : t'.topPort.outgoing = t.topPort.outgoing) : Counts t' := by
  refine ⟨?_, ?_, ?_, ?_, ?_, ?_, ?_, ?_, ?_⟩
  · intro hsome
    rw [hcurrent] at hsome
    rw [htotal hsome, hlength, hinflight]
    exact h.count hsome
  · intro hwait
    rw [hwaiting] at hwait
    obtain ⟨hsome, hzero⟩ := h.waiting hwait
    rw [hcurrent, htotal hsome]
    exact ⟨hsome, hzero⟩
  · intro hflush
    rw [hflushing] at hflush
    obtain ⟨hnone, htransactions, hnil⟩ := h.flushing hflush
    rw [hcurrent, hinflight]
    exact ⟨hnone, length_eq_zero_iff.mp (by rw [hlength, htransactions, length_nil]), hnil⟩
  · rw [hlog, hcurrent]
    exact h.accepted
  · rw [hlog, hcurrent, hwaiting]
    exact h.forwarded
  · rw [hlog, htop]
    exact h.responses
  · rw [hlog]
    exact h.answers
  · rw [hlog, hflushing]
    exact h.closed
  · rw [hlog, hflushing, hcurrent]
    exact h.opened

variable {t : Translator cfg}

variable {e : Event}

theorem not_closed {log l : List Event} (hlog : t.log = log ++ [e]) (he : e ≠ Event.flush) :
    t.log ≠ l ++ [Event.flush] := by
  rw [hlog]
  exact fun heq => he (singleton_inj.mp (append_inj_right' heq rfl))

theorem not_opened {log l : List Event} (hlog : t.log = log ++ [e]) (he : e ≠ Event.restart) :
    t.log ≠ l ++ [Event.flush, Event.restart] := by
  rw [hlog, show l ++ [Event.flush, Event.restart] = (l ++ [Event.flush]) ++ [Event.restart] by simp]
  exact fun heq => he (singleton_inj.mp (append_inj_right' heq rfl))

/-- One more event other than a flush and a restart, on a translator that does not flush. -/
theorem Counts.concat {t t' : Translator cfg} (h : Counts t) (hrun : t.isFlushing = false) (hlog : t'.log = t.log ++ [e])
    (hflush : e ≠ Event.flush) (hrestart : e ≠ Event.restart) (hflushing : t'.isFlushing = t.isFlushing)
    (count : t'.currentGL0InvReq.isSome = true → t'.totalRequestsUponGL0InvArrival = t'.transactions.length +
      t'.inflightReqToBottom.length)
    (waiting : t'.isWaitingOnGL0InvalidateRsp = true → t'.currentGL0InvReq.isSome = true ∧
      t'.totalRequestsUponGL0InvArrival = 0)
    (accepted : t.log.filterMap Event.gl0Accepted? ++ e.gl0Accepted?.toList = t.log.filterMap Event.gl0Answered? ++
      e.gl0Answered?.toList ++ t'.currentGL0InvReq.toList)
    (forwarded : t.log.filterMap Event.gl0Forwarded? ++ e.gl0Forwarded?.toList = t.log.filterMap Event.gl0Answered? ++
      e.gl0Answered?.toList ++ if t'.isWaitingOnGL0InvalidateRsp then t'.currentGL0InvReq.toList else [])
    (htop : t'.topPort.outgoing.filterMap Rsp.gl0? = t.topPort.outgoing.filterMap Rsp.gl0? ++ e.gl0Rsp?.toList)
    (hrsp : e.gl0Rsp?.toList = e.gl0Answered?.toList.map fun req => { dst := req.src, respondTo := req.id }) : Counts t' := by
  refine ⟨count, waiting, ?_, ?_, ?_, ?_, ?_, fun l heq => absurd heq (not_closed hlog hflush),
    fun l heq => absurd heq (not_opened hlog hrestart)⟩
  · rw [hflushing, hrun]
    exact fun hf => absurd hf Bool.false_ne_true
  · rw [hlog, filterMap_concat, filterMap_concat]
    exact accepted
  · rw [hlog, filterMap_concat, filterMap_concat]
    exact forwarded
  · rw [hlog, filterMap_concat, htop, h.responses]
  · rw [hlog, filterMap_concat, filterMap_concat, h.answers, hrsp, map_append]

/-- An event that is neither of a GL0 invalidation nor of a flush, on a translator that does not flush. -/
theorem Counts.of_other {t t' : Translator cfg} (h : Counts t) (hrun : t.isFlushing = false) (hlog : t'.log = t.log ++ [e])
    (hflush : e ≠ Event.flush) (hrestart : e ≠ Event.restart) (haccepted : e.gl0Accepted? = none)
    (hforwarded : e.gl0Forwarded? = none) (hanswered : e.gl0Answered? = none) (hrsp : e.gl0Rsp? = none)
    (hcurrent : t'.currentGL0InvReq = t.currentGL0InvReq)
    (hwaiting : t'.isWaitingOnGL0InvalidateRsp = t.isWaitingOnGL0InvalidateRsp) (hflushing : t'.isFlushing = t.isFlushing)
    (hcount : t.currentGL0InvReq.isSome = true → t.totalRequestsUponGL0InvArrival = t.transactions.length +
      t.inflightReqToBottom.length → t'.totalRequestsUponGL0InvArrival = t'.transactions.length +
        t'.inflightReqToBottom.length)
    (hzero : t.isWaitingOnGL0InvalidateRsp = true → t.currentGL0InvReq.isSome = true → t.totalRequestsUponGL0InvArrival = 0 →
      t'.totalRequestsUponGL0InvArrival = 0)
    (htop : t'.topPort.outgoing.filterMap Rsp.gl0? = t.topPort.outgoing.filterMap Rsp.gl0?) : Counts t' := by
  refine h.concat hrun hlog hflush hrestart hflushing ?_ ?_ ?_ ?_ ?_ ?_
  · rw [hcurrent]
    exact fun hsome => hcount hsome (h.count hsome)
  · rw [hwaiting, hcurrent]
    exact fun hwait => ⟨(h.waiting hwait).1, hzero hwait (h.waiting hwait).1 (h.waiting hwait).2⟩
  · rw [haccepted, hanswered, hcurrent, toList_none, append_nil, append_nil]
    exact h.accepted
  · rw [hforwarded, hanswered, hcurrent, hwaiting, toList_none, append_nil, append_nil]
    exact h.forwarded
  · rw [hrsp, htop, toList_none, append_nil]
  · rw [hrsp, hanswered]
    rfl

/-- A stage other than the control stage. A GL0 response at the head is one that is waited for. -/
theorem Counts.step {t t' : Translator cfg} {k : Call} (h : Counts t) (hi : Inv t) (hrun : t.isFlushing = false)
    (hG : Sound t k) (hpeek : ∀ rsp, t.bottomPort.peek = some (.gl0 rsp) → t.isWaitingOnGL0InvalidateRsp = true)
    (hs : Step t k t') : Counts t' := by
  cases hs with
  | idle _ _ _ _ _ _ _ hcore =>
    have hlength := congrArg length hcore
    rw [length_map, length_map] at hlength
    exact h.of_same rfl rfl rfl (fun _ => rfl) hlength rfl rfl rfl
  | accept _ _ hfree =>
    refine h.of_other hrun rfl (fun he => Event.noConfusion he) (fun he => Event.noConfusion he) rfl rfl rfl rfl rfl rfl rfl
      ?_ ?_ rfl
    · intro hsome
      rw [hfree] at hsome
      exact absurd hsome Bool.false_ne_true
    · exact fun _ _ hzero => hzero
  | gl0Accept _ hfree =>
    have hwait : t.isWaitingOnGL0InvalidateRsp = false := by
      by_contra hwait
      have hsome := (h.waiting (by simpa using hwait)).1
      rw [hfree] at hsome
      exact Bool.false_ne_true hsome
    have haccepted := h.accepted
    have hforwarded := h.forwarded
    rw [hfree, toList_none, append_nil] at haccepted
    rw [hwait, if_neg Bool.false_ne_true, append_nil] at hforwarded
    refine h.concat hrun rfl (fun he => Event.noConfusion he) (fun he => Event.noConfusion he) rfl (fun _ => rfl) ?_ ?_ ?_
      (append_nil _).symm rfl
    · intro hwait'
      rw [hwait] at hwait'
      exact absurd hwait' Bool.false_ne_true
    · simp only [haccepted, Event.gl0Accepted?, Event.gl0Answered?, toList_none, append_nil]
    · simp only [hforwarded, hwait, Event.gl0Forwarded?, Event.gl0Answered?, toList_none, append_nil, Bool.false_eq_true,
        if_false]
  | unknown => exact h.of_same rfl rfl rfl (fun _ => rfl) rfl rfl rfl rfl
  | forward _ _ _ reqs transactions _ _ hfind hreqs hcore =>
    have hnil : reqs = [] := hi.reqs_nil hfind hreqs
    have hlength : transactions.length + 1 = t.transactions.length := by
      have hlength := congrArg length (hcore hnil)
      rw [length_map, length_map] at hlength
      rw [hlength]
      exact length_eraseP hfind
    refine h.of_other hrun rfl (fun he => Event.noConfusion he) (fun he => Event.noConfusion he) rfl rfl rfl rfl rfl rfl rfl
      ?_
      (fun _ _ hzero => hzero) rfl
    intro _ hcount
    show t.totalRequestsUponGL0InvArrival = transactions.length + (t.inflightReqToBottom ++ [_]).length
    rw [hcount, length_append, length_singleton, ← hlength]
    omega
  | answer rsp combo total _ _ hfind htotal =>
    have hlength := length_eraseP hfind
    have htop : (t.topPort.outgoing ++ [Rsp.access (rspToTop combo.reqFromTop rsp)]).filterMap Rsp.gl0? =
        t.topPort.outgoing.filterMap Rsp.gl0? := (filterMap_append ..).trans (append_nil _)
    have hcounted : t.currentGL0InvReq.isSome = true → total = t.totalRequestsUponGL0InvArrival - 1 := by
      intro hsome
      rcases htotal with ⟨hnone, -⟩ | ⟨-, -, heq⟩
      · rw [hnone] at hsome
        exact absurd hsome Bool.false_ne_true
      · exact heq
    refine h.of_other hrun rfl (fun he => Event.noConfusion he) (fun he => Event.noConfusion he) rfl rfl rfl rfl rfl rfl rfl
      ?_ ?_ htop
    · intro hsome hcount
      simp only [hcounted hsome, hcount]
      omega
    · intro _ hsome hzero
      -- a GL0 invalidation has been forwarded, so that no request was left to answer
      have hcount := h.count hsome
      omega
  | stale rsp _ hrsp hfind htotal =>
    rcases htotal with ⟨_, rfl⟩ | ⟨hsome, -⟩
    · exact h.of_same rfl rfl rfl (fun _ => rfl) rfl rfl rfl rfl
    · exact absurd hfind (hG hrun hsome rsp hrsp)
  | gl0Answer rsp _ _ hrsp hreq =>
    have haccepted := h.accepted
    have hforwarded := h.forwarded
    rw [hreq, toList_some] at haccepted hforwarded
    rw [if_pos (hpeek rsp hrsp)] at hforwarded
    refine h.concat hrun rfl (fun he => Event.noConfusion he) (fun he => Event.noConfusion he) rfl
      (fun hsome => absurd hsome Bool.false_ne_true)
      (fun hwait => absurd hwait Bool.false_ne_true) ?_ ?_ (filterMap_append ..) rfl
    · rw [haccepted]
      rfl
    · rw [hforwarded]
      rfl
  | gl0Forward _ _ hreq hwait hzero =>
    have hforwarded := h.forwarded
    rw [hwait, if_neg Bool.false_ne_true, append_nil] at hforwarded
    refine h.concat hrun rfl (fun he => Event.noConfusion he) (fun he => Event.noConfusion he) rfl h.count
      (fun _ => ⟨?_, hzero⟩) ?_ ?_ (append_nil _).symm rfl
    · rw [hreq]
      rfl
    · simp only [h.accepted, Event.gl0Accepted?, Event.gl0Answered?, toList_none, append_nil]
    · simp only [hforwarded, hreq, Event.gl0Forwarded?, Event.gl0Answered?, toList_none, append_nil, if_true]

theorem Counts.ctrlStep {t t' : Translator cfg} (h : Counts t) (hG : Sound t .ctrl) (hs : CtrlStep t t') : Counts t' := by
  have hwait_of_none : t.currentGL0InvReq = none → t.isWaitingOnGL0InvalidateRsp = true → False := by
    intro hnone hwait
    have hsome := (h.waiting hwait).1
    rw [hnone] at hsome
    exact Bool.false_ne_true hsome
  -- what a flush and a restart do not log
  have hlogged : ∀ e : Event, (e = Event.flush ∨ e = Event.restart) →
      ((t.log ++ [e]).filterMap Event.gl0Accepted? = t.log.filterMap Event.gl0Accepted? ∧
        (t.log ++ [e]).filterMap Event.gl0Forwarded? = t.log.filterMap Event.gl0Forwarded?) ∧
      (t.log ++ [e]).filterMap Event.gl0Answered? = t.log.filterMap Event.gl0Answered? ∧
        (t.log ++ [e]).filterMap Event.gl0Rsp? = t.log.filterMap Event.gl0Rsp? := by
    intro e he
    simp only [filterMap_concat]
    rcases he with rfl | rfl
    · simp [Event.gl0Accepted?, Event.gl0Forwarded?, Event.gl0Answered?, Event.gl0Rsp?]
    · simp [Event.gl0Accepted?, Event.gl0Forwarded?, Event.gl0Answered?, Event.gl0Rsp?]
  cases hs with
  | idle => exact h.of_same rfl rfl rfl (fun _ => rfl) rfl rfl rfl rfl
  | flush msg _ hmsg hflush hsent =>
    have hnone : t.currentGL0InvReq = none := (hG hsent msg hmsg).1 hflush
    obtain ⟨⟨haccepted, hforwarded⟩, hanswered, hrsp⟩ := hlogged Event.flush (.inl rfl)
    refine ⟨fun hsome => ?_, fun hwait => (hwait_of_none hnone hwait).elim, fun _ => ⟨hnone, rfl, rfl⟩, ?_, ?_,
      ?_, ?_, fun _ _ => rfl, fun l heq => ?_⟩
    · rw [hnone] at hsome
      exact absurd hsome Bool.false_ne_true
    · rw [haccepted, hanswered]
      exact h.accepted
    · rw [hforwarded, hanswered]
      exact h.forwarded
    · rw [hrsp]
      exact h.responses
    · rw [hrsp, hanswered]
      exact h.answers
    · exact absurd heq (not_opened rfl (fun he => Event.noConfusion he))
  | restart =>
    obtain ⟨⟨haccepted, hforwarded⟩, hanswered, hrsp⟩ := hlogged Event.restart (.inr rfl)
    refine ⟨h.count, h.waiting, fun hf => absurd hf Bool.false_ne_true, ?_, ?_, ?_, ?_, fun l heq => ?_,
      fun l heq => ⟨rfl, ?_⟩⟩
    · rw [haccepted, hanswered]
      exact h.accepted
    · rw [hforwarded, hanswered]
      exact h.forwarded
    · rw [hrsp]
      exact h.responses
    · rw [hrsp, hanswered]
      exact h.answers
    · exact absurd heq (not_closed rfl (fun he => Event.noConfusion he))
    · rw [show l ++ [Event.flush, Event.restart] = (l ++ [Event.flush]) ++ [Event.restart] by simp] at heq
      exact (h.flushing (h.closed l (append_inj' heq rfl).1)).1

/-! ## What is under way -/

/-- The translation requests under way. -/
def provided (t : Translator cfg) (transRsps : List TranslationRsp) : Multiset MsgID :=
  ↑(t.translationPort.outgoing.map (·.id)) + ↑(transRsps.map (·.respondTo)) +
    ↑(t.translationPort.buf.elements.map (·.respondTo))

/-- The requests to the memory under way. -/
def below (t : Translator cfg) (memRsps : List Rsp) : Multiset (Option MsgID) :=
  ↑(t.bottomPort.outgoing.map reqTag) + ↑(memRsps.map rspTag) + ↑(t.bottomPort.buf.elements.map rspTag)

structure Ledger (t : Translator cfg) (memRsps : List Rsp) (transRsps : List TranslationRsp) : Prop where
  translations : ∀ c ∈ t.transactions.map core, c.2.id ∈ provided t transRsps
  inflight : ∀ c ∈ t.inflightReqToBottom, some c.reqToBottom.id ∈ below t memRsps
  gl0 : (below t memRsps).count none = if t.isWaitingOnGL0InvalidateRsp then 1 else 0

theorem Ledger.of_same {t t' : Translator cfg} {memRsps memRsps' : List Rsp} {transRsps transRsps' : List TranslationRsp}
    (h : Ledger t memRsps transRsps) (hcore : t'.transactions.map core = t.transactions.map core)
    (hinflight : t'.inflightReqToBottom = t.inflightReqToBottom)
    (hwaiting : t'.isWaitingOnGL0InvalidateRsp = t.isWaitingOnGL0InvalidateRsp)
    (hprovided : provided t' transRsps' = provided t transRsps) (hbelow : below t' memRsps' = below t memRsps) :
    Ledger t' memRsps' transRsps' := by
  refine ⟨?_, ?_, ?_⟩
  · rw [hcore, hprovided]
    exact h.translations
  · rw [hinflight, hbelow]
    exact h.inflight
  · rw [hbelow, hwaiting]
    exact h.gl0

theorem provided_of_peek {rsp : TranslationRsp} (hrsp : t.translationPort.peek = some rsp)
    (transRsps : List TranslationRsp) : provided t transRsps = rsp.respondTo ::ₘ
      (↑(t.translationPort.outgoing.map (·.id)) + ↑(transRsps.map (·.respondTo)) +
        ↑(t.translationPort.retrieve.buf.elements.map (·.respondTo))) := by
  rw [provided, Buffer.peek_eq_some hrsp, map_cons, ← cons_coe, add_cons]
  rfl

theorem below_of_peek {rsp : Rsp} (hrsp : t.bottomPort.peek = some rsp) (memRsps : List Rsp) :
    below t memRsps = rspTag rsp ::ₘ
      (↑(t.bottomPort.outgoing.map reqTag) + ↑(memRsps.map rspTag) + ↑(t.bottomPort.retrieve.buf.elements.map rspTag)) := by
  rw [below, Buffer.peek_eq_some hrsp, map_cons, ← cons_coe, add_cons]
  rfl

theorem Inv.nodup_transactions (h : Inv t) : (t.transactions.map fun tr => (core tr).2.id).Nodup := by
  have hle : (↑(waiting t) : Multiset (AccessReq × TranslationReq)) ≤ ↑(t.log.filterMap Event.accepted?) :=
    le_trans (le_add_left _ _) (h.since [] t.log rfl (.inl rfl)).forwards
  have hids : (waiting t).map (·.2.id) = (t.transactions.map core).map (·.2.id) := by
    have hsingle := h.single
    rw [waiting]
    generalize t.transactions.map core = cores at hsingle
    induction cores with
    | nil => rfl
    | cons c _ ih =>
      obtain ⟨req, hc⟩ := hsingle c mem_cons_self
      rw [waitingOf, filterMap_cons_some (b := (req, c.2)) (by rw [hc]; rfl), map_cons, map_cons]
      exact congrArg _ (ih fun c hc => hsingle c (mem_cons_of_mem _ hc))
  have hnodup : ((waiting t).map (·.2.id)).Nodup :=
    nodup_of_le (map_le_map (f := fun x : AccessReq × TranslationReq => x.2.id) hle) h.distinct.1
  rw [hids, map_map] at hnodup
  exact hnodup

theorem Inv.nodup_inflight (h : Inv t) : (t.inflightReqToBottom.map (·.reqToBottom.id)).Nodup := by
  have hle : (↑t.inflightReqToBottom : Multiset ReqToBottom) ≤ ↑(t.log.filterMap Event.combo?) :=
    le_trans (le_add_left _ _) (h.since [] t.log rfl (.inl rfl)).answers
  exact nodup_of_le (map_le_map (f := fun c : ReqToBottom => c.reqToBottom.id) hle) h.distinct.2

theorem ne_of_mem_eraseP {α β : Type} {f : α → β} {l : List α} {p : α → Bool} {x y : α} (hnodup : (l.map f).Nodup)
    (hfind : l.find? p = some x) (hy : y ∈ l.eraseP p) : f y ≠ f x := by
  have hcons : (f x ::ₘ map f ↑(l.eraseP p)).Nodup := by
    rw [← Multiset.map_cons, ← coe_eraseP hfind]
    exact hnodup
  intro heq
  exact (Multiset.nodup_cons.mp hcons).1 (heq ▸ Multiset.mem_map_of_mem f hy)

theorem below_concat {req : Req} (t' : Translator cfg) (memRsps : List Rsp)
    (houtgoing : t'.bottomPort.outgoing = t.bottomPort.outgoing ++ [req]) (hbuf : t'.bottomPort.buf = t.bottomPort.buf) :
    below t' memRsps = reqTag req ::ₘ below t memRsps := by
  rw [below, below, houtgoing, hbuf, map_append, map_singleton, coe_concat, cons_add, cons_add]

variable {transRsps : List TranslationRsp} {memRsps : List Rsp}

theorem Ledger.step {t t' : Translator cfg} {k : Call}
    (h : Ledger t memRsps transRsps) (hi : Inv t) (hs : Step t k t') : Ledger t' memRsps transRsps := by
  cases hs with
  | idle _ _ _ _ _ _ _ hcore => exact h.of_same hcore rfl rfl rfl rfl
  | accept req conn =>
    refine ⟨fun c hc => ?_, h.inflight, h.gl0⟩
    have hprovided : provided { t with translationPort := { t.translationPort with
        outgoing := t.translationPort.outgoing ++ [translationReqOf cfg t.nextID req], conn } } transRsps =
        t.nextID ::ₘ provided t transRsps := by
      rw [provided, provided, map_append, map_singleton, coe_concat, cons_add, cons_add]
      rfl
    refine (congrArg (c.2.id ∈ ·) hprovided).mpr ?_
    rw [map_append, map_singleton, mem_append, mem_singleton] at hc
    rcases hc with hc | rfl
    · exact mem_cons_of_mem (h.translations c hc)
    · exact mem_cons_self _ _
  | gl0Accept => exact h.of_same rfl rfl rfl rfl rfl
  | unknown _ hrsp hfind =>
    refine ⟨fun c hc => ?_, h.inflight, h.gl0⟩
    have hmem := h.translations c hc
    rw [provided_of_peek hrsp] at hmem
    refine (mem_cons.mp hmem).resolve_left ?_
    obtain ⟨tr, htr, rfl⟩ := mem_map.mp hc
    have hfor := List.find?_eq_none.mp hfind tr htr
    simpa [isFor, core] using hfor
  | forward rsp tr req _ _ conn hrsp hfind hreqs hcore =>
    have hbelow := below_concat { t with bottomPort := { t.bottomPort with
      outgoing := t.bottomPort.outgoing ++ [.access (createTranslatedReq cfg t.nextID req rsp.page)], conn } } memRsps rfl rfl
    refine ⟨fun c hc => ?_, fun c hc => ?_, ?_⟩
    · rw [hcore (hi.reqs_nil hfind hreqs)] at hc
      obtain ⟨x, hx, rfl⟩ := mem_map.mp hc
      have hmem := h.translations (core x) (List.mem_map_of_mem (eraseP_subset hx))
      rw [provided_of_peek hrsp] at hmem
      refine (mem_cons.mp hmem).resolve_left fun heq => ?_
      have hto : (core tr).2.id = rsp.respondTo := by
        have hfor := List.find?_some hfind
        exact beq_iff_eq.mp hfor
      exact ne_of_mem_eraseP hi.nodup_transactions hfind hx (heq.trans hto.symm)
    · refine (congrArg (some c.reqToBottom.id ∈ ·) hbelow).mpr ?_
      rcases mem_append.mp hc with hc | hc
      · exact mem_cons_of_mem (h.inflight c hc)
      · rw [mem_singleton.mp hc]
        exact mem_cons_self _ _
    · refine (congrArg (Multiset.count none) hbelow).trans ?_
      rw [reqTag, count_cons_of_ne (some_ne_none _).symm]
      exact h.gl0
  | answer rsp combo _ _ hrsp hfind =>
    have hbelow := below_of_peek hrsp memRsps
    refine ⟨h.translations, fun c hc => ?_, ?_⟩
    · have hmem := h.inflight c (eraseP_subset hc)
      rw [hbelow] at hmem
      refine (mem_cons.mp hmem).resolve_left fun heq => ?_
      have hto : combo.reqToBottom.id = rsp.respondTo := by
        have hfor := List.find?_some hfind
        exact beq_iff_eq.mp hfor
      exact ne_of_mem_eraseP hi.nodup_inflight hfind hc ((some.inj heq).trans hto.symm)
    · have hcount := h.gl0
      rw [hbelow, rspTag, count_cons_of_ne (some_ne_none _).symm] at hcount
      exact hcount
  | stale _ _ hrsp hfind =>
    have hbelow := below_of_peek hrsp memRsps
    refine ⟨h.translations, fun c hc => ?_, ?_⟩
    · have hmem := h.inflight c hc
      rw [hbelow] at hmem
      refine (mem_cons.mp hmem).resolve_left fun heq => ?_
      have hfor := List.find?_eq_none.mp hfind c hc
      exact hfor (beq_iff_eq.mpr (some.inj heq))
    · have hcount := h.gl0
      rw [hbelow, rspTag, count_cons_of_ne (some_ne_none _).symm] at hcount
      exact hcount
  | gl0Answer _ _ _ hrsp =>
    have hbelow := below_of_peek hrsp memRsps
    refine ⟨h.translations, fun c hc => ?_, ?_⟩
    · have hmem := h.inflight c hc
      rw [hbelow] at hmem
      exact (mem_cons.mp hmem).resolve_left (some_ne_none _)
    · have hcount := h.gl0
      rw [hbelow, rspTag, count_cons_self] at hcount
      have hle : (if t.isWaitingOnGL0InvalidateRsp = true then 1 else 0) ≤ 1 := by
        split
        · exact le_refl 1
        · exact Nat.zero_le 1
      rw [if_neg Bool.false_ne_true]
      exact Nat.le_zero.mp (Nat.le_of_succ_le_succ (hcount.trans_le hle))
  | gl0Forward req conn _ hwait =>
    have hbelow := below_concat { t with bottomPort := { t.bottomPort with
      outgoing := t.bottomPort.outgoing ++
        [.gl0 { id := t.nextID, src := cfg.bottomPort, dst := cfg.lowModule 0, pid := req.pid }], conn } }
      memRsps rfl rfl
    refine ⟨h.translations, fun c hc => ?_, ?_⟩
    · exact (congrArg (some c.reqToBottom.id ∈ ·) hbelow).mpr (mem_cons_of_mem (h.inflight c hc))
    · refine (congrArg (Multiset.count none) hbelow).trans ?_
      have hcount := h.gl0
      rw [hwait, if_neg Bool.false_ne_true] at hcount
      rw [reqTag, count_cons_self, hcount]
      rfl

theorem Ledger.waiting_of_peek (h : Ledger t memRsps transRsps)
    {rsp : GL0InvalidateRsp} (hrsp : t.bottomPort.peek = some (.gl0 rsp)) : t.isWaitingOnGL0InvalidateRsp = true := by
  have hcount := h.gl0
  rw [below_of_peek hrsp, rspTag, count_cons_self] at hcount
  by_contra hwait
  rw [if_neg hwait] at hcount
  omega

/-- A restart that drops no response that is waited for. -/
theorem Ledger.restart {t t' : Translator cfg} (h : Ledger t memRsps transRsps) (hunawaited : Unawaited t)
    (htransactions : t'.transactions = t.transactions) (hinflight : t'.inflightReqToBottom = t.inflightReqToBottom)
    (hwaiting : t'.isWaitingOnGL0InvalidateRsp = t.isWaitingOnGL0InvalidateRsp)
    (htranslation : t'.translationPort = t.translationPort.clear) (hbottom : t'.bottomPort = t.bottomPort.clear) :
    Ledger t' memRsps transRsps := by
  have hprovided : provided t transRsps = provided t' transRsps + ↑(t.translationPort.buf.elements.map (·.respondTo)) := by
    rw [provided, provided, htranslation]
    exact congrArg (· + _) (add_zero _).symm
  have hbelow : below t memRsps = below t' memRsps + ↑(t.bottomPort.buf.elements.map rspTag) := by
    rw [below, below, hbottom]
    exact congrArg (· + _) (add_zero _).symm
  refine ⟨fun c hc => ?_, fun c hc => ?_, ?_⟩
  · rw [htransactions] at hc
    have hmem := h.translations c hc
    rw [hprovided] at hmem
    refine (mem_add.mp hmem).resolve_right ?_
    obtain ⟨tr, htr, rfl⟩ := mem_map.mp hc
    exact hunawaited.translations tr htr
  · rw [hinflight] at hc
    have hmem := h.inflight c hc
    rw [hbelow] at hmem
    exact (mem_add.mp hmem).resolve_right (hunawaited.inflight c hc)
  · have hcount := h.gl0
    rw [hbelow, Multiset.count_add] at hcount
    rw [hwaiting]
    -- a GL0 response at the port is one that is waited for, and then it is not there
    have hzero : Multiset.count none (↑(t.bottomPort.buf.elements.map rspTag) : Multiset (Option MsgID)) = 0 := by
      by_contra hne
      have hmem := count_pos.mp (Nat.pos_of_ne_zero hne)
      by_cases hwait : t.isWaitingOnGL0InvalidateRsp = true
      · exact hunawaited.gl0 hwait hmem
      · rw [if_neg hwait] at hcount
        omega
    omega

theorem Ledger.ctrlStep {t t' : Translator cfg} (h : Ledger t memRsps transRsps)
    (hG : Sound t .ctrl) (hs : CtrlStep t t') : Ledger t' memRsps transRsps := by
  cases hs with
  | idle => exact h.of_same rfl rfl rfl rfl rfl
  | flush =>
    exact ⟨forall_mem_nil _, forall_mem_nil _, h.gl0⟩
  | restart msg _ hmsg hrestart hsent => exact h.restart ((hG hsent msg hmsg).2 hrestart) rfl rfl rfl rfl rfl

/-! ## The surroundings -/

@[simp] theorem rspTag_memRspOf (data : Bytes) (req : Req) : rspTag (memRspOf data req) = reqTag req := by
  cases req with
  | access req => cases req <;> rfl
  | gl0 => rfl

variable {s : System cfg}

section
variable (h : Ledger s.translator s.memRsps s.transRsps) (k : Nat)
include h k

theorem Ledger.memAnswer (data : Bytes) :
    Ledger (s.memAnswer k data).translator (s.memAnswer k data).memRsps (s.memAnswer k data).transRsps := by
  unfold System.memAnswer
  split
  next req hreq =>
    refine h.of_same rfl rfl rfl rfl ?_
    have hout : (↑(s.translator.bottomPort.outgoing.map reqTag) : Multiset (Option MsgID)) =
        reqTag req ::ₘ ↑((s.translator.bottomPort.outgoing.eraseIdx k).map reqTag) :=
          congrArg (map reqTag) (coe_eraseIdx hreq)
    simp only [below, map_append, map_singleton, coe_concat, rspTag_memRspOf, hout, cons_add, add_cons]
  next => exact h

theorem Ledger.memDeliver :
    Ledger (s.memDeliver k).translator (s.memDeliver k).memRsps (s.memDeliver k).transRsps := by
  unfold System.memDeliver
  split
  next rsp hrsp =>
    split
    next bottomPort hrecv =>
      refine h.of_same rfl rfl rfl rfl ?_
      have hrsps : (↑(s.memRsps.map rspTag) : Multiset (Option MsgID)) =
          rspTag rsp ::ₘ ↑((s.memRsps.eraseIdx k).map rspTag) :=
        congrArg (map rspTag) (coe_eraseIdx hrsp)
      simp only [below, Port.recv_eq hrecv, map_append, map_singleton, coe_concat, hrsps, cons_add, add_cons]
    next => exact h
  next => exact h

theorem Ledger.transAnswer (page : Page) :
    Ledger (s.transAnswer k page).translator (s.transAnswer k page).memRsps (s.transAnswer k page).transRsps := by
  unfold System.transAnswer
  split
  next req hreq =>
    refine h.of_same rfl rfl rfl ?_ rfl
    have hout : (↑(s.translator.translationPort.outgoing.map (·.id)) : Multiset MsgID) =
        req.id ::ₘ ↑((s.translator.translationPort.outgoing.eraseIdx k).map (·.id)) :=
      congrArg (map TranslationReq.id) (coe_eraseIdx hreq)
    simp only [provided, map_append, map_singleton, coe_concat, transRspOf, hout, cons_add, add_cons]
  next => exact h

theorem Ledger.transDeliver :
    Ledger (s.transDeliver k).translator (s.transDeliver k).memRsps (s.transDeliver k).transRsps := by
  unfold System.transDeliver
  split
  next rsp hrsp =>
    split
    next translationPort hrecv =>
      refine h.of_same rfl rfl rfl ?_ rfl
      have hrsps : (↑(s.transRsps.map (·.respondTo)) : Multiset MsgID) =
          rsp.respondTo ::ₘ ↑((s.transRsps.eraseIdx k).map (·.respondTo)) :=
        congrArg (map TranslationRsp.respondTo) (coe_eraseIdx hrsp)
      simp only [provided, Port.recv_eq hrecv, map_append, map_singleton, coe_concat, hrsps, cons_add, add_cons]
    next => exact h
  next => exact h

end

/-! ## Runs -/

theorem Counts.init : Counts ({} : Translator cfg) :=
  ⟨fun h => absurd h Bool.false_ne_true, fun h => absurd h Bool.false_ne_true, fun h => absurd h Bool.false_ne_true, rfl, rfl,
    rfl, rfl, fun l heq => absurd heq (by simp), fun l heq => absurd heq (by simp)⟩

theorem Ledger.init : Ledger ({} : Translator cfg) [] [] :=
  ⟨forall_mem_nil _, forall_mem_nil _, rfl⟩

theorem counts_of_reaches {ks : List Call} (h : Reaches Sound s ks) :
    Counts s.translator ∧ Ledger s.translator s.memRsps s.transRsps := by
  induction h with
  | init => exact ⟨.init, .init⟩
  | @request s req h ih =>
    unfold System.request
    split
    next topPort hrecv =>
      exact ⟨ih.1.of_same rfl rfl rfl (fun _ => rfl) rfl rfl rfl (by rw [Port.recv_eq hrecv]),
        ih.2.of_same rfl rfl rfl rfl rfl⟩
    next => exact ih
  | @control s msg h ih =>
    unfold System.control
    split
    next => exact ⟨ih.1.of_same rfl rfl rfl (fun _ => rfl) rfl rfl rfl rfl, ih.2.of_same rfl rfl rfl rfl rfl⟩
    next => exact ih
  | connect _ _ _ _ _ ih =>
    exact ⟨ih.1.of_same rfl rfl rfl (fun _ => rfl) rfl rfl rfl rfl, ih.2.of_same rfl rfl rfl rfl rfl⟩
  | @memAnswer s k data h ih =>
    refine ⟨?_, ih.2.memAnswer k data⟩
    unfold System.memAnswer
    split
    next => exact ih.1.of_same rfl rfl rfl (fun _ => rfl) rfl rfl rfl rfl
    next => exact ih.1
  | @memDeliver s k h ih =>
    refine ⟨?_, ih.2.memDeliver k⟩
    unfold System.memDeliver
    split
    next =>
      split
      next => exact ih.1.of_same rfl rfl rfl (fun _ => rfl) rfl rfl rfl rfl
      next => exact ih.1
    next => exact ih.1
  | @transAnswer s k page h ih =>
    refine ⟨?_, ih.2.transAnswer k page⟩
    unfold System.transAnswer
    split
    next => exact ih.1.of_same rfl rfl rfl (fun _ => rfl) rfl rfl rfl rfl
    next => exact ih.1
  | @transDeliver s k h ih =>
    refine ⟨?_, ih.2.transDeliver k⟩
    unfold System.transDeliver
    split
    next =>
      split
      next => exact ih.1.of_same rfl rfl rfl (fun _ => rfl) rfl rfl rfl rfl
      next => exact ih.1
    next => exact ih.1
  | tick _ ih => exact ih
  | @call s k ks p t h hG hexec ih =>
    have hi := inv_of_reaches h
    rcases Call.step hexec with ⟨rfl, hs⟩ | rfl | ⟨hrun, hs⟩
    · exact ⟨ih.1.ctrlStep hG hs, ih.2.ctrlStep hG hs⟩
    · exact ih
    · exact ⟨ih.1.step hi hrun hG (fun _ hrsp => ih.2.waiting_of_peek hrsp) hs, ih.2.step hi hs⟩

/-- `count` : the counter counts the requests whose responses have not been taken, and each of them is under way; `accepted`,
`forwarded`, `responses` : the GL0 invalidations are forwarded and answered in the order they were accepted, once each, the
last one being under way; `pending` : one that has been forwarded is under way; `answerable` : its response is answered;
`settled` : when nothing is under way, one that waits is forwarded; `reopened` : after a flush and a restart, requests are
accepted. -/
structure Completes (s : System cfg) : Prop where
  count : s.translator.currentGL0InvReq.isSome = true →
    s.translator.totalRequestsUponGL0InvArrival = s.translator.transactions.length + s.translator.inflightReqToBottom.length
  outstanding : (∀ tr ∈ s.translator.transactions, tr.translationReq.id ∈ provided s.translator s.transRsps) ∧
    ∀ c ∈ s.translator.inflightReqToBottom, some c.reqToBottom.id ∈ below s.translator s.memRsps
  accepted : s.translator.log.filterMap Event.gl0Accepted? =
    s.translator.log.filterMap Event.gl0Answered? ++ s.translator.currentGL0InvReq.toList
  forwarded : s.translator.log.filterMap Event.gl0Forwarded? = s.translator.log.filterMap Event.gl0Answered? ++
    if s.translator.isWaitingOnGL0InvalidateRsp then s.translator.currentGL0InvReq.toList else []
  responses : s.translator.topPort.outgoing.filterMap Rsp.gl0? =
    (s.translator.log.filterMap Event.gl0Answered?).map fun req => { dst := req.src, respondTo := req.id }
  pending : s.translator.isWaitingOnGL0InvalidateRsp = true → none ∈ below s.translator s.memRsps
  answerable : ∀ rsp, s.translator.bottomPort.peek = some (.gl0 rsp) → s.translator.topPort.conn.headD false = true →
    ∃ req t', s.translator.currentGL0InvReq = some req ∧ respond s.translator = .ok (true, t') ∧
      t'.log = s.translator.log ++ [Event.gl0Answer req { dst := req.src, respondTo := req.id }]
  settled : provided s.translator s.transRsps = 0 → below s.translator s.memRsps = 0 →
    ∀ req, s.translator.currentGL0InvReq = some req →
    s.translator.bottomPort.conn.headD false = true →
    ∃ t', doGL0Invalidate s.translator = .ok (true, t') ∧ t'.log = s.translator.log ++ [Event.gl0Forward req]
  reopened : ∀ l, s.translator.log = l ++ [Event.flush, Event.restart] → s.translator.isFlushing = false ∧
    s.translator.currentGL0InvReq = none ∧ ∀ req, s.translator.topPort.peek = some (.access req) →
      s.translator.translationPort.conn.headD false = true → ∃ t', translate s.translator = .ok (true, t') ∧
        t'.log = s.translator.log ++ [Event.accept req (translationReqOf cfg s.translator.nextID req)]

theorem translate_accepts {req : AccessReq} (hfree : t.currentGL0InvReq = none)
    (hreq : t.topPort.peek = some (.access req)) (hconn : t.translationPort.conn.headD false = true) :
    ∃ t', translate t = .ok (true, t') ∧ t'.log = t.log ++ [Event.accept req (translationReqOf cfg t.nextID req)] := by
  have hsent := (t.translationPort.sent_eq (translationReqOf cfg t.nextID req)).trans hconn
  simp only [translate, hfree, hreq, hsent, if_bnot_true]
  exact ⟨_, rfl, rfl⟩

theorem respond_answers {rsp : GL0InvalidateRsp} {req : GL0InvalidateReq} (hrsp : t.bottomPort.peek = some (.gl0 rsp))
    (hreq : t.currentGL0InvReq = some req) (hzero : t.totalRequestsUponGL0InvArrival = 0)
    (hconn : t.topPort.conn.headD false = true) :
    ∃ t', respond t = .ok (true, t') ∧ t'.log = t.log ++ [Event.gl0Answer req { dst := req.src, respondTo := req.id }] := by
  have hsent := (t.topPort.sent_eq (.gl0 { dst := req.src, respondTo := req.id })).trans hconn
  simp only [respond, hrsp, hreq, hsent, hzero, if_bnot_true, ne_eq, not_true_eq_false]
  exact ⟨_, rfl, rfl⟩

theorem doGL0Invalidate_forwards {req : GL0InvalidateReq} (hreq : t.currentGL0InvReq = some req)
    (hwait : t.isWaitingOnGL0InvalidateRsp = false) (hzero : t.totalRequestsUponGL0InvArrival = 0)
    (hconn : t.bottomPort.conn.headD false = true) :
    ∃ t', doGL0Invalidate t = .ok (true, t') ∧ t'.log = t.log ++ [Event.gl0Forward req] := by
  have hsent := (t.bottomPort.sent_eq
    (.gl0 { id := t.nextID, src := cfg.bottomPort, dst := cfg.lowModule 0, pid := req.pid })).trans hconn
  simp only [doGL0Invalidate, hreq, hwait, hzero, hsent, if_bnot_true, if_true]
  exact ⟨_, rfl, rfl⟩

/-- **GL0 invalidations complete** in every run in which a flush finds none of them, no restart drops a response that is
waited for, and only responses to requests in flight are counted. -/
theorem invalidations_complete {s : System cfg} {ks : List Call} (h : Reaches Sound s ks) : Completes s := by
  obtain ⟨hc, hl⟩ := counts_of_reaches h
  refine ⟨hc.count, ⟨fun tr htr => hl.translations _ (List.mem_map_of_mem htr), hl.inflight⟩, hc.accepted, hc.forwarded,
    hc.responses.trans hc.answers, ?_, ?_, ?_, ?_⟩
  · intro hwait
    have hcount := hl.gl0
    rw [if_pos hwait] at hcount
    exact count_pos.mp (by omega)
  · intro rsp hrsp hconn
    obtain ⟨hsome, hzero⟩ := hc.waiting (hl.waiting_of_peek hrsp)
    obtain ⟨req, hreq⟩ := isSome_iff_exists.mp hsome
    obtain ⟨t', hrespond, hlog⟩ := respond_answers hrsp hreq hzero hconn
    exact ⟨req, t', hreq, hrespond, hlog⟩
  · intro hprovided hbelow req hreq hconn
    have htransactions : s.translator.transactions = [] := by
      apply eq_nil_iff_forall_not_mem.mpr
      intro tr htr
      have hmem := hl.translations _ (List.mem_map_of_mem htr)
      rw [hprovided] at hmem
      exact notMem_zero _ hmem
    have hinflight : s.translator.inflightReqToBottom = [] := by
      apply eq_nil_iff_forall_not_mem.mpr
      intro c hmem
      have hmem := hl.inflight c hmem
      rw [hbelow] at hmem
      exact notMem_zero _ hmem
    have hwait : s.translator.isWaitingOnGL0InvalidateRsp = false := by
      by_contra hwait
      have hcount := hl.gl0
      rw [if_pos (by simpa using hwait), hbelow] at hcount
      exact absurd hcount (by decide)
    have hzero := hc.count (by rw [hreq]; rfl)
    rw [htransactions, hinflight] at hzero
    exact doGL0Invalidate_forwards hreq hwait hzero hconn
  · intro l heq
    obtain ⟨hrun, hfree⟩ := hc.opened l heq
    exact ⟨hrun, hfree, fun req hreq hconn => translate_accepts hfree hreq hconn⟩

/-- No GL0 invalidation waits, or the response that is taken is for a request in flight; a message of the control port finds
none, and a restart finds nothing in flight. -/
def Calm (t : Translator cfg) : Call → Prop
  | .respond => t.currentGL0InvReq.isNone = true ∨
      ∀ rsp ∈ t.bottomPort.peek.bind Rsp.access?, (t.inflightReqToBottom.find? (isTo rsp.respondTo)).isSome = true
  | .ctrl => ∀ msg ∈ t.ctrlPort.peek, t.currentGL0InvReq.isNone = true ∧ t.isWaitingOnGL0InvalidateRsp = false ∧
      (msg.discardTransactions = false → t.transactions.isEmpty = true ∧ t.inflightReqToBottom.isEmpty = true)
  | _ => True

instance (t : Translator cfg) : (k : Call) → Decidable (Calm t k)
  | .respond => inferInstanceAs (Decidable (_ ∨ ∀ rsp ∈ t.bottomPort.peek.bind Rsp.access?, _ = true))
  | .ctrl => inferInstanceAs (Decidable (∀ msg ∈ t.ctrlPort.peek, _ ∧ _ ∧ (_ → _)))
  | .parseTranslation | .translate | .gl0 => inferInstanceAs (Decidable True)

theorem Calm.sound {t : Translator cfg} {k : Call} (h : Calm t k) : Sound t k := by
  cases k with
  | respond =>
    intro _ hsome rsp hrsp hfind
    rcases h with h | h
    · rw [isNone_iff_eq_none.mp h] at hsome
      cases hsome
    · have hfound := h rsp (by rw [hrsp]; rfl)
      rw [hfind] at hfound
      cases hfound
  | ctrl =>
    intro _ msg hmsg
    obtain ⟨hnone, hwait, hempty⟩ := h msg hmsg
    refine ⟨fun _ => isNone_iff_eq_none.mp hnone, fun hrestart => ?_⟩
    obtain ⟨htransactions, hinflight⟩ := hempty hrestart
    rw [List.isEmpty_iff] at htransactions hinflight
    exact ⟨by simp [htransactions], by simp [hinflight], by simp [hwait]⟩
  | _ => trivial

theorem invalidations_complete_restarted :
    ∃ s s' : System single, counted Calm = s ∧ s.translator.currentGL0InvReq = some gl0Req ∧
    s.translator.totalRequestsUponGL0InvArrival = 1 ∧ Completes s ∧ restarted Calm = s' ∧
    s'.translator.log.filterMap Event.gl0Answered? = [gl0Req] ∧ s'.translator.log.getLast? = some Event.restart ∧
    Completes s' :=
  ⟨_, _, rfl, by decide +kernel, by decide +kernel, invalidations_complete (reaches_counted fun _ _ => Calm.sound), rfl,
    by decide +kernel, by decide +kernel, invalidations_complete (reaches_restarted fun _ _ => Calm.sound)⟩

/-- A GL0 invalidation waits for a read when the translator is flushed and restarted. Nothing is left to answer, but the
invalidation and its counter are, and no request is accepted any more. -/
theorem invalidation_outlives_flush : ∃ s : System single, Reaches (fun _ _ => True) s [] ∧
    (∃ l, s.translator.log = l ++ [Event.flush, Event.restart]) ∧ s.translator.transactions = [] ∧
    s.translator.inflightReqToBottom = [] ∧
    s.translator.currentGL0InvReq.isSome = true ∧ s.translator.totalRequestsUponGL0InvArrival = 1 ∧
    translate s.translator = .ok (false, s.translator) ∧ ¬Completes s := by
  have hread := Reaches.request (.access (.read { id := 7, src := 5, pid := 1, address := 0x1234, accessByteSize := 4 }))
    (.connect [] [] [true] [true, true] (@Reaches.init single (fun _ _ => True)))
  have haccepted := reaches_tick hread (rfl : calls _ _ _ = .ok _)
  have hcounted := reaches_tick (.request (.gl0 { id := 8, src := 5, pid := 1 }) haccepted) (rfl : calls _ _ _ = .ok _)
  have hflushed := reaches_tick (.control { src := 6, discardTransactions := true } hcounted) (rfl : calls _ _ _ = .ok _)
  have hrestarted := reaches_tick (.control { src := 6, restart := true } hflushed) (rfl : calls _ _ _ = .ok _)
  refine ⟨_, hrestarted, ⟨[_, _], rfl⟩, rfl, rfl, rfl, rfl, rfl, fun hcompletes => ?_⟩
  exact absurd (hcompletes.count rfl) (by decide)

end Akita.Vm.AddressTranslator
