import Akita.Vm.AddressTranslator.AddressTranslator

/-!
# Steps of the address translator

* `Step t k t'` : what a stage other than the control stage can do;
* `CtrlStep t t'` : what the control stage can do;
* `Call.step` : every call does one of these; `tick_eq_calls` : a tick is its calls in a row.
-/

namespace Akita.Vm.AddressTranslator
open Mem Sim List
open Returns (error ok)

variable {cfg : Config}

/-- What a transaction is for, without the translation it has got. -/
def core (tr : Transaction) : List AccessReq × TranslationReq := (tr.incomingReqs, tr.translationReq)

/-- How `respond` counts a response. -/
def Counted (t : Translator cfg) (total : Int) : Prop :=
  t.currentGL0InvReq = none ∧ total = t.totalRequestsUponGL0InvArrival ∨
  t.currentGL0InvReq.isSome = true ∧ 0 < t.totalRequestsUponGL0InvArrival ∧ total = t.totalRequestsUponGL0InvArrival - 1

inductive Step (t : Translator cfg) : Call → Translator cfg → Prop
  | idle (k : Call) (top bottom translation : List Bool) (id : MsgID) (transactions : List Transaction) (hid : t.nextID ≤ id)
      (hcore : transactions.map core = t.transactions.map core) :
      Step t k { t with
        topPort := { t.topPort with conn := top }, bottomPort := { t.bottomPort with conn := bottom }
        translationPort := { t.translationPort with conn := translation }, nextID := id, transactions }
  | accept (req : AccessReq) (conn : List Bool) (hfree : t.currentGL0InvReq = none)
      (hreq : t.topPort.peek = some (.access req)) :
      Step t .translate { t with
        translationPort := { t.translationPort with
          outgoing := t.translationPort.outgoing ++ [translationReqOf cfg t.nextID req], conn }
        nextID := t.nextID + 1
        transactions := t.transactions ++ [{ incomingReqs := [req], translationReq := translationReqOf cfg t.nextID req }]
        topPort := t.topPort.retrieve
        log := t.log ++ [Event.accept req (translationReqOf cfg t.nextID req)] }
  | gl0Accept (req : GL0InvalidateReq) (hfree : t.currentGL0InvReq = none) (hreq : t.topPort.peek = some (.gl0 req)) :
      Step t .translate { t with
        currentGL0InvReq := some req
        totalRequestsUponGL0InvArrival := t.transactions.length + t.inflightReqToBottom.length
        topPort := t.topPort.retrieve
        log := t.log ++ [Event.gl0Accept req] }
  | unknown (rsp : TranslationRsp) (hrsp : t.translationPort.peek = some rsp)
      (hfind : findTranslationByReqID t.transactions rsp.respondTo = none) :
      Step t .parseTranslation { t with translationPort := t.translationPort.retrieve }
  | forward (rsp : TranslationRsp) (tr : Transaction) (req : AccessReq) (reqs : List AccessReq)
      (transactions : List Transaction) (conn : List Bool) (hrsp : t.translationPort.peek = some rsp)
      (hfind : findTranslationByReqID t.transactions rsp.respondTo = some tr) (hreqs : tr.incomingReqs = req :: reqs)
      (hcore : reqs = [] → transactions.map core = (t.transactions.eraseP (isFor rsp.respondTo)).map core) :
      Step t .parseTranslation { t with
        bottomPort := { t.bottomPort with
          outgoing := t.bottomPort.outgoing ++ [.access (createTranslatedReq cfg t.nextID req rsp.page)], conn }
        nextID := t.nextID + 1
        inflightReqToBottom := t.inflightReqToBottom ++ [⟨req, createTranslatedReq cfg t.nextID req rsp.page⟩]
        transactions
        translationPort := t.translationPort.retrieve
        log := t.log ++ [Event.forward ⟨req, createTranslatedReq cfg t.nextID req rsp.page⟩ tr.translationReq rsp] }
  | answer (rsp : AccessRsp Bytes) (combo : ReqToBottom) (total : Int) (conn : List Bool)
      (hrsp : t.bottomPort.peek = some (.access rsp)) (hfind : t.inflightReqToBottom.find? (isTo rsp.respondTo) = some combo)
      (htotal : Counted t total) :
      Step t .respond { t with
        topPort := { t.topPort with outgoing := t.topPort.outgoing ++ [.access (rspToTop combo.reqFromTop rsp)], conn }
        inflightReqToBottom := t.inflightReqToBottom.eraseP (isTo rsp.respondTo)
        totalRequestsUponGL0InvArrival := total
        bottomPort := t.bottomPort.retrieve
        log := t.log ++ [Event.answer combo rsp (rspToTop combo.reqFromTop rsp)] }
  | stale (rsp : AccessRsp Bytes) (total : Int) (hrsp : t.bottomPort.peek = some (.access rsp))
      (hfind : t.inflightReqToBottom.find? (isTo rsp.respondTo) = none) (htotal : Counted t total) :
      Step t .respond { t with totalRequestsUponGL0InvArrival := total, bottomPort := t.bottomPort.retrieve }
  | gl0Answer (rsp : GL0InvalidateRsp) (req : GL0InvalidateReq) (conn : List Bool)
      (hrsp : t.bottomPort.peek = some (.gl0 rsp)) (hreq : t.currentGL0InvReq = some req)
      (hzero : t.totalRequestsUponGL0InvArrival = 0) :
      Step t .respond { t with
        topPort := { t.topPort with outgoing := t.topPort.outgoing ++ [.gl0 { dst := req.src, respondTo := req.id }], conn }
        currentGL0InvReq := none
        isWaitingOnGL0InvalidateRsp := false
        bottomPort := t.bottomPort.retrieve
        log := t.log ++ [Event.gl0Answer req { dst := req.src, respondTo := req.id }] }
  | gl0Forward (req : GL0InvalidateReq) (conn : List Bool) (hreq : t.currentGL0InvReq = some req)
      (hwait : t.isWaitingOnGL0InvalidateRsp = false) (hzero : t.totalRequestsUponGL0InvArrival = 0) :
      Step t .gl0 { t with
        bottomPort := { t.bottomPort with
          outgoing := t.bottomPort.outgoing ++
            [.gl0 { id := t.nextID, src := cfg.bottomPort, dst := cfg.lowModule 0, pid := req.pid }], conn }
        nextID := t.nextID + 1
        isWaitingOnGL0InvalidateRsp := true
        log := t.log ++ [Event.gl0Forward req] }

inductive CtrlStep (t : Translator cfg) : Translator cfg → Prop
  | idle (ctrlPort : Port 1 ControlMsg ControlMsg) : CtrlStep t { t with ctrlPort }
  | flush (msg : ControlMsg) (ctrlPort : Port 1 ControlMsg ControlMsg) (hmsg : t.ctrlPort.peek = some msg)
      (hflush : msg.discardTransactions = true) (hsent : t.ctrlPort.conn.headD false = true) :
      CtrlStep t { t with ctrlPort, transactions := [], inflightReqToBottom := [], isFlushing := true,
                          log := t.log ++ [Event.flush] }
  | restart (msg : ControlMsg) (ctrlPort : Port 1 ControlMsg ControlMsg) (hmsg : t.ctrlPort.peek = some msg)
      (hrestart : msg.discardTransactions = false) (hsent : t.ctrlPort.conn.headD false = true) :
      CtrlStep t { t with
        topPort := t.topPort.clear, bottomPort := t.bottomPort.clear, translationPort := t.translationPort.clear
        isFlushing := false, ctrlPort, log := t.log ++ [Event.restart] }

theorem step_refl (t : Translator cfg) (k : Call) : Step t k t :=
  .idle k t.topPort.conn t.bottomPort.conn t.translationPort.conn t.nextID t.transactions (le_refl _) rfl

theorem countResponse_returns (t : Translator cfg) :
    Returns (fun r => ∃ total, Counted t total ∧
      r.2 = { t with totalRequestsUponGL0InvArrival := total, bottomPort := t.bottomPort.retrieve })
      (countResponse t) := by
  unfold countResponse
  cases hgl0 : t.currentGL0InvReq with
  | none => exact ok ⟨_, .inl ⟨hgl0, rfl⟩, by rw [← hgl0]⟩
  | some =>
    simp only
    split
    · exact error _
    · exact ok ⟨_, .inr ⟨by rw [hgl0]; rfl, by omega, rfl⟩, by rw [← hgl0]⟩

theorem respond_step (t : Translator cfg) : Returns (fun r => Step t .respond r.2) (respond t) := by
  unfold respond
  cases hrsp : t.bottomPort.peek with
  | none => exact ok (step_refl t _)
  | some rsp =>
    cases rsp with
    | access rsp =>
      cases hfind : t.inflightReqToBottom.find? (isTo rsp.respondTo) with
      | none =>
        simp only [hfind]
        intro r hr
        obtain ⟨total, htotal, h⟩ := countResponse_returns t r hr
        rw [h]
        exact .stale rsp total hrsp hfind htotal
      | some combo =>
        rcases t.topPort.send_eq (.access (rspToTop combo.reqFromTop rsp)) with ⟨hsent, conn, hport⟩ | ⟨hsent, conn, hport⟩
        · simp only [hfind, hsent, hport, if_bnot_true]
          intro r hr
          obtain ⟨total, htotal, h⟩ := countResponse_returns _ r hr
          rw [h]
          exact .answer rsp combo total conn hrsp hfind htotal
        · simp only [hfind, hsent, hport, if_bnot_false]
          exact ok (.idle _ conn t.bottomPort.conn t.translationPort.conn t.nextID t.transactions (le_refl _) rfl)
    | gl0 rsp =>
      cases hreq : t.currentGL0InvReq with
      | none => exact error _
      | some req =>
        rcases t.topPort.send_eq (.gl0 { dst := req.src, respondTo := req.id })
          with ⟨hsent, conn, hport⟩ | ⟨hsent, conn, hport⟩
        · simp only [hsent, hport, if_bnot_true]
          split
          · exact error _
          next hzero => exact ok (.gl0Answer rsp req conn hrsp hreq (by simpa using hzero))
        · simp only [hsent, hport, if_bnot_false]
          rw [← hreq]
          exact ok (.idle _ conn t.bottomPort.conn t.translationPort.conn t.nextID t.transactions (le_refl _) rfl)

theorem translate_step (t : Translator cfg) : Returns (fun r => Step t .translate r.2) (translate t) := by
  unfold translate
  cases hfree : t.currentGL0InvReq with
  | some => exact ok (step_refl t _)
  | none =>
    cases hreq : t.topPort.peek with
    | none => exact ok (step_refl t _)
    | some req =>
      cases req with
      | gl0 req =>
        simp only [handleGL0InvalidateReq, hfree]
        exact ok (.gl0Accept req hfree hreq)
      | access req =>
        rcases t.translationPort.send_eq (translationReqOf cfg t.nextID req) with ⟨hsent, conn, hport⟩ | ⟨hsent, conn, hport⟩
        · simp only [hsent, hport, if_bnot_true]
          rw [← hfree]
          exact ok (.accept req conn hfree hreq)
        · simp only [hsent, hport, if_bnot_false]
          rw [← hfree]
          exact ok (.idle _ t.topPort.conn t.bottomPort.conn conn (t.nextID + 1) t.transactions (Nat.le_succ _) rfl)

theorem doGL0Invalidate_step (t : Translator cfg) : Returns (fun r => Step t .gl0 r.2) (doGL0Invalidate t) := by
  unfold doGL0Invalidate
  cases hreq : t.currentGL0InvReq with
  | none => exact ok (step_refl t _)
  | some req =>
    simp only
    split
    next => exact ok (step_refl t _)
    next hwait =>
      split
      next hzero =>
        rcases t.bottomPort.send_eq (.gl0 { id := t.nextID, src := cfg.bottomPort, dst := cfg.lowModule 0, pid := req.pid })
          with
          ⟨hsent, conn, hport⟩ | ⟨hsent, conn, hport⟩
        · simp only [hsent, hport, if_bnot_true]
          rw [← hreq]
          exact ok (.gl0Forward req conn hreq (by simpa using hwait) hzero)
        · simp only [hsent, hport, if_bnot_false]
          rw [← hreq]
          exact ok (.idle _ t.topPort.conn conn t.translationPort.conn (t.nextID + 1) t.transactions (Nat.le_succ _) rfl)
      next => exact ok (step_refl t _)

/-! ## The translation stage -/

theorem map_core_modifyTranslation (id : MsgID) {f : Transaction → Transaction} (hf : ∀ tr, core (f tr) = core tr)
    (trs : List Transaction) : (modifyTranslation id f trs).map core = trs.map core := by
  induction trs with
  | nil => rfl
  | cons tr _ ih =>
    by_cases h : isFor id tr = true
    · simp only [modifyTranslation, if_pos h, map_cons, hf]
    · simp only [modifyTranslation, if_neg h, map_cons, ih]

theorem map_core_eraseP (id : MsgID) (trs : List Transaction) :
    (trs.eraseP (isFor id)).map core = (trs.map core).eraseP (fun c => c.2.id == id) := by
  rw [eraseP_map]
  rfl

theorem parseTranslation_step (t : Translator cfg) :
    Returns (fun r => Step t .parseTranslation r.2) (parseTranslation t) := by
  unfold parseTranslation
  cases hrsp : t.translationPort.peek with
  | none => exact ok (step_refl t _)
  | some rsp =>
    cases hfind : findTranslationByReqID t.transactions rsp.respondTo with
    | none =>
      simp only [hfind]
      exact ok (.unknown rsp hrsp hfind)
    | some tr =>
      have hcore : (modifyTranslation rsp.respondTo
          (fun tr => { tr with translationRsp := some rsp, translationDone := true })
          t.transactions).map core = t.transactions.map core :=
        map_core_modifyTranslation _ (f := fun tr => { tr with translationRsp := some rsp, translationDone := true })
          (fun _ => rfl) _
      cases hreqs : tr.incomingReqs with
      | nil =>
        simp only [hfind, hreqs]
        exact error _
      | cons req reqs =>
        rcases t.bottomPort.send_eq (.access (createTranslatedReq cfg t.nextID req rsp.page)) with
          ⟨hsent, conn, hport⟩ | ⟨hsent, conn, hport⟩
        · simp only [hfind, hreqs, hsent, hport, if_bnot_true]
          apply ok
          apply Step.forward rsp tr req reqs _ conn hrsp hfind hreqs
          intro hnil
          simp only [hnil, isEmpty_nil, if_true, map_core_eraseP, hcore]
        · simp only [hfind, hreqs, hsent, hport, if_bnot_false]
          exact ok (.idle _ t.topPort.conn conn t.translationPort.conn (t.nextID + 1) _ (Nat.le_succ _) hcore)

/-! ## The control stage -/

theorem handleCtrlRequest_step (t : Translator cfg) : Returns (fun r => CtrlStep t r.2) (handleCtrlRequest t) := by
  unfold handleCtrlRequest
  cases hmsg : t.ctrlPort.peek with
  | none => exact ok (.idle t.ctrlPort)
  | some msg =>
    by_cases hflush : msg.discardTransactions = true
    · simp only [hflush, if_true, handleFlushReq]
      split
      · exact ok (.idle _)
      next hsent => exact ok (.flush msg _ hmsg hflush (by simpa [Port.sent_eq] using hsent))
    · simp only [hflush, Bool.false_eq_true, if_false]
      by_cases hrestart : msg.restart = true
      · simp only [hrestart, if_true, handleRestartReq]
        split
        · exact ok (.idle _)
        next hsent => exact ok (.restart msg _ hmsg (by simpa using hflush) (by simpa [Port.sent_eq] using hsent))
      · simp only [hrestart, Bool.false_eq_true, if_false]
        exact error _

variable {k : Call}

theorem Call.step {t t' : Translator cfg} {p : Bool} (h : k.exec t = .ok (p, t')) :
    k = .ctrl ∧ CtrlStep t t' ∨ t' = t ∨ t.isFlushing = false ∧ Step t k t' := by
  have hidle : ∀ f : Result cfg, (if t.isFlushing then .ok (false, t) else f) = .ok (p, t') →
      Returns (fun r => Step t k r.2) f →
      t' = t ∨ t.isFlushing = false ∧ Step t k t' := by
    intro f hf hstep
    cases hflush : t.isFlushing with
    | true =>
      rw [if_pos hflush] at hf
      cases hf
      exact .inl rfl
    | false =>
      rw [if_neg (by simp [hflush])] at hf
      exact .inr ⟨rfl, hstep _ hf⟩
  cases k with
  | respond => exact .inr (hidle _ h (respond_step t))
  | parseTranslation => exact .inr (hidle _ h (parseTranslation_step t))
  | translate => exact .inr (hidle _ h (translate_step t))
  | gl0 => exact .inr (hidle _ h (doGL0Invalidate_step t))
  | ctrl => exact .inl ⟨rfl, handleCtrlRequest_step t _ h⟩

theorem Step.isFlushing {t t' : Translator cfg} (h : Step t k t') : t'.isFlushing = t.isFlushing := by
  cases h <;> rfl

/-! ## A tick -/

variable {t : Translator cfg}

theorem splits_stage {f : Stage (Translator cfg)} (hf : ∀ t, Returns (fun r => Step t k r.2) (f t))
    (hk : ∀ t : Translator cfg, k.exec t = if t.isFlushing then .ok (false, t) else f t) :
    Splits (·.isFlushing = false) (fun k t => Call.exec t k) f [k] :=
  .call (fun t r ht hr => (hf t r hr).isFlushing.trans ht) fun t ht => by rw [hk, if_neg (by simp [ht])]

/-- A tick is its calls in a row. -/
theorem tick_eq_calls (t : Translator cfg) :
    (tick t).map Prod.snd = calls (fun k t => Call.exec t k) (schedule cfg.numReqPerCycle) t := by
  have hsched : schedule cfg.numReqPerCycle = ((replicate cfg.numReqPerCycle [Call.respond]).flatten ++
      ((replicate cfg.numReqPerCycle [Call.parseTranslation]).flatten ++
      ((replicate cfg.numReqPerCycle [Call.translate]).flatten ++ [.gl0]))) ++ [Call.ctrl] := by
    simp [schedule]
  have hpipeline : Splits (fun t : Translator cfg => t.isFlushing = false) (fun k t => Call.exec t k) runPipeline _ :=
    ((splits_stage respond_step fun _ => rfl).times cfg.numReqPerCycle).bind fun _ =>
    ((splits_stage parseTranslation_step fun _ => rfl).times cfg.numReqPerCycle).bind fun _ =>
    ((splits_stage translate_step fun _ => rfl).times cfg.numReqPerCycle).bind fun _ =>
    (splits_stage doGL0Invalidate_step fun _ => rfl).last fun _ => rfl
  rw [hsched, tick]
  have hgate := Splits.gated (fun _ => hpipeline) (fun t ht k hk => ?_) false t
  · cases hflush : t.isFlushing <;> rw [hflush] at hgate <;>
      exact map_snd_bind hgate fun r _ => map_snd_last (map_snd_exec (fun k t => Call.exec t k) .ctrl r.2) fun _ => rfl
  · have hctrl : k ≠ .ctrl := by
      rintro rfl
      simp [mem_replicate] at hk
    cases k with
    | ctrl => exact absurd rfl hctrl
    | _ => exact if_pos ht

/-- A tick that returns. -/
theorem reaches_tick {s : System cfg} (h : Reaches (fun _ _ => True) s [])
    (hcalls : calls (fun k t => Call.exec t k) (schedule cfg.numReqPerCycle) s.translator = .ok t) :
    Reaches (fun _ _ => True) { s with translator := t } [] :=
  calls_induct (I := fun t ks => Reaches (fun _ _ => True) { s with translator := t } ks)
    (fun h hexec => h.call trivial hexec) hcalls (append_nil _ ▸ h.tick)

end Akita.Vm.AddressTranslator
