import Akita.Multisets
import Akita.Vm.AddressTranslator.Steps

/-!
# Conservation of requests in the address translator

* `Cut l` : the log `l` is empty or ends with the acknowledgment of a flush;
* `Since t r` : what has been logged since a cut, with what waits in the two lists: a request is forwarded once for its
  acceptance and answered once for its forwarding;
* `Inv s` : the invariant of a run.

`requests_conserved` : all of this in every run, with the contents of the requests and responses.
-/

namespace Akita.Vm.AddressTranslator
open Mem Sim List Option
open Multiset (add_cons coe_add coe_nil cons_add cons_le_cons le_add_right mem_of_le)

variable {cfg : Config}

/-! ## What is logged -/

namespace Event

def accepted? : Event → Option (AccessReq × TranslationReq)
  | accept req translationReq => some (req, translationReq)
  | _ => none

def forwarded? : Event → Option (AccessReq × TranslationReq)
  | forward combo translationReq _ => some (combo.reqFromTop, translationReq)
  | _ => none

def combo? : Event → Option ReqToBottom
  | forward combo _ _ => some combo
  | _ => none

def answered? : Event → Option ReqToBottom
  | answer combo _ _ => some combo
  | _ => none

def rspToTop? : Event → Option (AccessRsp Bytes)
  | answer _ _ rspToTop => some rspToTop
  | _ => none

end Event

def Req.access? : Req → Option AccessReq
  | access req => some req
  | gl0 _ => none

def Rsp.access? : Rsp → Option (AccessRsp Bytes)
  | access rsp => some rsp
  | gl0 _ => none

/-- The requests of the transactions, each with its translation request. -/
def waitingOf (cores : List (List AccessReq × TranslationReq)) : List (AccessReq × TranslationReq) :=
  cores.filterMap fun c => c.1.head?.map fun req => (req, c.2)

def waiting (t : Translator cfg) : List (AccessReq × TranslationReq) := waitingOf (t.transactions.map core)

def Cut (l : List Event) : Prop := l = [] ∨ ∃ l', l = l' ++ [Event.flush]

structure Since (t : Translator cfg) (r : List Event) : Prop where
  forwards : (↑(r.filterMap Event.forwarded?) : Multiset (AccessReq × TranslationReq)) + ↑(waiting t) ≤
    ↑(r.filterMap Event.accepted?)
  answers : (↑(r.filterMap Event.answered?) : Multiset ReqToBottom) + ↑t.inflightReqToBottom ≤ ↑(r.filterMap Event.combo?)

/-- `req` goes down as `req'`: to the physical address of the page plus the offset, with the size, data and mask it has. -/
def Translated (cfg : Config) (page : Page) : AccessReq → AccessReq → Prop
  | .read r, .read r' =>
    r'.address = (page.pAddr.toNat + r.address % 2 ^ cfg.log2PageSize) % 2 ^ 64 ∧ r'.dst = cfg.lowModule r'.address ∧
      r'.accessByteSize = r.accessByteSize ∧ r'.canWaitForCoalesce = r.canWaitForCoalesce
  | .write w, .write w' =>
    w'.address = (page.pAddr.toNat + w.address % 2 ^ cfg.log2PageSize) % 2 ^ 64 ∧ w'.dst = cfg.lowModule w'.address ∧
      w'.data = w.data ∧ w'.dirtyMask = w.dirtyMask ∧ w'.canWaitForCoalesce = w.canWaitForCoalesce
  | _, _ => False

/-- `rsp'` answers `req` with what `rsp` carries. -/
def Relays (req : AccessReq) : AccessRsp Bytes → AccessRsp Bytes → Prop
  | .dataReady rsp, .dataReady rsp' => rsp'.respondTo = req.id ∧ rsp'.dst = req.src ∧ rsp'.data = rsp.data
  | .writeDone _, .writeDone rsp' => rsp'.respondTo = req.id ∧ rsp'.dst = req.src
  | _, _ => False

/-- What an event says of its messages. -/
def Event.Sound (cfg : Config) : Event → Prop
  | accept req translationReq => translationReq = translationReqOf cfg translationReq.id req
  | forward combo translationReq rsp =>
    translationReq = translationReqOf cfg translationReq.id combo.reqFromTop ∧ rsp.respondTo = translationReq.id ∧
      Translated cfg rsp.page combo.reqFromTop combo.reqToBottom
  | answer combo rsp rspToTop => rsp.respondTo = combo.reqToBottom.id ∧ Relays combo.reqFromTop rsp rspToTop
  | _ => True

theorem translated_createTranslatedReq (id : MsgID) (req : AccessReq) (page : Page) :
    Translated cfg page req (createTranslatedReq cfg id req page) := by
  cases req with
  | read => exact ⟨rfl, rfl, rfl, rfl⟩
  | write => exact ⟨rfl, rfl, rfl, rfl, rfl⟩

@[simp] theorem id_createTranslatedReq (id : MsgID) (req : AccessReq) (page : Page) :
    (createTranslatedReq cfg id req page).id = id := by
  cases req <;> rfl

theorem relays_rspToTop (req : AccessReq) (rsp : AccessRsp Bytes) : Relays req rsp (rspToTop req rsp) := by
  cases rsp with
  | dataReady => exact ⟨rfl, rfl, rfl⟩
  | writeDone => exact ⟨rfl, rfl⟩

/-! ## The invariant -/

structure Inv (t : Translator cfg) : Prop where
  single : ∀ c ∈ t.transactions.map core, ∃ req, c = ([req], translationReqOf cfg c.2.id req)
  since : ∀ l r, t.log = l ++ r → Cut l → Since t r
  fresh : (∀ x ∈ t.log.filterMap Event.accepted?, x.2.id < t.nextID) ∧ ∀ c ∈ t.log.filterMap Event.combo?,
    c.reqToBottom.id < t.nextID
  distinct : ((t.log.filterMap Event.accepted?).map (·.2.id)).Nodup ∧
    ((t.log.filterMap Event.combo?).map (·.reqToBottom.id)).Nodup
  sound : ∀ e ∈ t.log, e.Sound cfg
  top : t.topPort.outgoing.filterMap Rsp.access? = t.log.filterMap Event.rspToTop?
  bottom : (↑(t.bottomPort.outgoing.filterMap Req.access?) : Multiset AccessReq) ≤
    ↑((t.log.filterMap Event.combo?).map (·.reqToBottom))

/-- One more event other than a flush, seen from every cut before it. -/
theorem since_concat {t t' : Translator cfg} {e : Event} (h : ∀ l r, t.log = l ++ r → Cut l → Since t r)
    (hlog : t'.log = t.log ++ [e]) (he : e ≠ Event.flush) (hstep : ∀ r, Since t r → Since t' (r ++ [e])) :
    ∀ l r, t'.log = l ++ r → Cut l → Since t' r := by
  intro l r heq hcut
  rw [hlog] at heq
  rcases eq_nil_or_concat r with rfl | ⟨r, _, rfl⟩
  · rw [append_nil] at heq
    rcases hcut with rfl | ⟨_, rfl⟩
    · exact absurd heq (by simp)
    · exact absurd (append_inj_right' heq rfl) (by simpa using he)
  · rw [concat_eq_append, ← append_assoc] at heq
    obtain ⟨hl, hx⟩ := append_inj' heq rfl
    rw [concat_eq_append, ← hx]
    exact hstep r (h l r hl hcut)

theorem Inv.of_same {t t' : Translator cfg} (h : Inv t) (hcore : t'.transactions.map core = t.transactions.map core)
    (hinflight : t'.inflightReqToBottom = t.inflightReqToBottom) (hid : t.nextID ≤ t'.nextID) (hlog : t'.log = t.log)
    (htop : t'.topPort.outgoing = t.topPort.outgoing)
    (hbottom : (↑(t'.bottomPort.outgoing.filterMap Req.access?) : Multiset AccessReq) ≤
      ↑(t.bottomPort.outgoing.filterMap Req.access?)) :
    Inv t' := by
  refine ⟨?_, ?_, ?_, ?_, ?_, ?_, ?_⟩
  · rw [hcore]
    exact h.single
  · intro l r heq hcut
    rw [hlog] at heq
    have hsince := h.since l r heq hcut
    refine ⟨?_, ?_⟩
    · rw [waiting, hcore]
      exact hsince.forwards
    · rw [hinflight]
      exact hsince.answers
  · rw [hlog]
    exact ⟨fun x hx => lt_of_lt_of_le (h.fresh.1 x hx) hid, fun c hc => lt_of_lt_of_le (h.fresh.2 c hc) hid⟩
  · rw [hlog]
    exact h.distinct
  · rw [hlog]
    exact h.sound
  · rw [hlog, htop]
    exact h.top
  · rw [hlog]
    exact hbottom.trans h.bottom

theorem Inv.of_other {t t' : Translator cfg} (h : Inv t) {e : Event} (hlog : t'.log = t.log ++ [e]) (he : e ≠ Event.flush)
    (haccept : e.accepted? = none) (hforward : e.forwarded? = none) (hcombo : e.combo? = none) (hanswer : e.answered? = none)
    (hrsp : e.rspToTop? = none) (hsound : e.Sound cfg) (hcore : t'.transactions.map core = t.transactions.map core)
    (hinflight : t'.inflightReqToBottom = t.inflightReqToBottom) (hid : t.nextID ≤ t'.nextID)
    (htop : t'.topPort.outgoing.filterMap Rsp.access? = t.topPort.outgoing.filterMap Rsp.access?)
    (hbottom : t'.bottomPort.outgoing.filterMap Req.access? = t.bottomPort.outgoing.filterMap Req.access?) : Inv t' := by
  refine ⟨?_, ?_, ?_, ?_, ?_, ?_, ?_⟩
  · rw [hcore]
    exact h.single
  · refine since_concat h.since hlog he (fun r hr => ⟨?_, ?_⟩)
    · rw [filterMap_concat, filterMap_concat, haccept, hforward, toList_none, append_nil, append_nil, waiting, hcore]
      exact hr.forwards
    · rw [filterMap_concat, filterMap_concat, hcombo, hanswer, toList_none, append_nil, append_nil, hinflight]
      exact hr.answers
  · rw [hlog, filterMap_concat, filterMap_concat, haccept, hcombo, toList_none, append_nil, toList_none, append_nil]
    exact ⟨fun x hx => lt_of_lt_of_le (h.fresh.1 x hx) hid, fun c hc => lt_of_lt_of_le (h.fresh.2 c hc) hid⟩
  · rw [hlog, filterMap_concat, filterMap_concat, haccept, hcombo, toList_none, append_nil, toList_none, append_nil]
    exact h.distinct
  · rw [hlog]
    exact forall_mem_append.mpr ⟨h.sound, forall_mem_singleton.mpr hsound⟩
  · rw [hlog, filterMap_concat, hrsp, toList_none, append_nil, htop]
    exact h.top
  · rw [hlog, filterMap_concat, hcombo, toList_none, append_nil, hbottom]
    exact h.bottom

/-! ## Steps -/

theorem nodup_map_concat {α : Type} {f : α → Nat} {l : List α} {a : α} (h : (l.map f).Nodup) (hlt : ∀ x ∈ l, f x < f a) :
    ((l ++ [a]).map f).Nodup := by
  rw [map_append, nodup_append]
  refine ⟨h, nodup_singleton _, fun b hb c hc => ?_⟩
  obtain ⟨x, hx, rfl⟩ := mem_map.mp hb
  rw [mem_singleton.mp hc]
  exact Nat.ne_of_lt (hlt x hx)

theorem waiting_concat (t : Translator cfg) (tr : Transaction) :
    waitingOf ((t.transactions ++ [tr]).map core) = waiting t ++
      (tr.incomingReqs.head?.map fun req => (req, tr.translationReq)).toList := by
  rw [map_append]
  exact filterMap_concat _ _ _

variable {t : Translator cfg}

variable {tr : Transaction} {req : AccessReq}

theorem waiting_eraseP {id : MsgID} {reqs : List AccessReq}
    (hfind : findTranslationByReqID t.transactions id = some tr) (hreqs : tr.incomingReqs = req :: reqs) :
    (↑(waiting t) : Multiset (AccessReq × TranslationReq)) =
      (req, tr.translationReq) ::ₘ ↑(waitingOf ((t.transactions.eraseP (isFor id)).map core)) := by
  have hcores := congrArg (Multiset.map core) (coe_eraseP hfind)
  have hwaiting := congrArg (Multiset.filterMap fun c : List AccessReq × TranslationReq =>
    c.1.head?.map fun req => (req, c.2)) hcores
  rw [Multiset.map_cons, Multiset.filterMap_cons_some (b := (req, tr.translationReq))] at hwaiting
  · exact hwaiting
  · simp [core, hreqs]

theorem Inv.accept (h : Inv t) (req : AccessReq) (t' : Translator cfg)
    (htransactions : t'.transactions = t.transactions ++
      [{ incomingReqs := [req], translationReq := translationReqOf cfg t.nextID req }])
    (hinflight : t'.inflightReqToBottom = t.inflightReqToBottom) (hid : t'.nextID = t.nextID + 1)
    (hlog : t'.log = t.log ++ [Event.accept req (translationReqOf cfg t.nextID req)])
    (htop : t'.topPort.outgoing = t.topPort.outgoing)
    (hbottom : t'.bottomPort.outgoing = t.bottomPort.outgoing) : Inv t' := by
  have haccepted : t'.log.filterMap Event.accepted? = t.log.filterMap Event.accepted? ++
      [(req, translationReqOf cfg t.nextID req)] := by
    rw [hlog, filterMap_concat]
    rfl
  have hcombos : t'.log.filterMap Event.combo? = t.log.filterMap Event.combo? := by
    rw [hlog, filterMap_concat]
    exact append_nil _
  refine ⟨?_, ?_, ⟨?_, ?_⟩, ⟨?_, ?_⟩, ?_, ?_, ?_⟩
  · intro c hc
    rw [htransactions, map_append] at hc
    rcases mem_append.mp hc with hc | hc
    · exact h.single c hc
    · rw [map_singleton, mem_singleton] at hc
      rw [hc]
      exact ⟨req, rfl⟩
  · refine since_concat h.since hlog (fun he => Event.noConfusion he) (fun r hr => ⟨?_, ?_⟩)
    · have hw : waiting t' = waiting t ++ [(req, translationReqOf cfg t.nextID req)] := by
        rw [waiting, htransactions, waiting_concat]
        rfl
      rw [filterMap_concat, filterMap_concat, hw]
      simp only [Event.accepted?, Event.forwarded?, toList_none, toList_some, append_nil, coe_concat, add_cons]
      exact cons_le_cons _ hr.forwards
    · rw [filterMap_concat, filterMap_concat, hinflight]
      simp only [Event.answered?, Event.combo?, toList_none, append_nil]
      exact hr.answers
  · rw [haccepted, hid]
    exact forall_mem_append.mpr ⟨fun x hx => Nat.lt_succ_of_lt (h.fresh.1 x hx),
      forall_mem_singleton.mpr (Nat.lt_succ_self _)⟩
  · rw [hcombos, hid]
    exact fun c hc => Nat.lt_succ_of_lt (h.fresh.2 c hc)
  · rw [haccepted]
    exact nodup_map_concat h.distinct.1 h.fresh.1
  · rw [hcombos]
    exact h.distinct.2
  · rw [hlog]
    exact forall_mem_append.mpr ⟨h.sound, forall_mem_singleton.mpr rfl⟩
  · rw [hlog, filterMap_concat, htop]
    exact h.top.trans (append_nil _).symm
  · rw [hcombos, hbottom]
    exact h.bottom

theorem Inv.forward (h : Inv t) {rsp : TranslationRsp} (t' : Translator cfg)
    (hfind : findTranslationByReqID t.transactions rsp.respondTo = some tr) (hreqs : tr.incomingReqs = [req])
    (hcore : t'.transactions.map core = (t.transactions.eraseP (isFor rsp.respondTo)).map core)
    (hinflight : t'.inflightReqToBottom = t.inflightReqToBottom ++ [⟨req, createTranslatedReq cfg t.nextID req rsp.page⟩])
    (hid : t'.nextID = t.nextID + 1)
    (hlog : t'.log = t.log ++ [Event.forward ⟨req, createTranslatedReq cfg t.nextID req rsp.page⟩ tr.translationReq rsp])
    (htop : t'.topPort.outgoing = t.topPort.outgoing)
    (hbottom : t'.bottomPort.outgoing = t.bottomPort.outgoing ++
      [Req.access (createTranslatedReq cfg t.nextID req rsp.page)]) :
    Inv t' := by
  have haccepted : t'.log.filterMap Event.accepted? = t.log.filterMap Event.accepted? := by
    rw [hlog, filterMap_concat]
    exact append_nil _
  have hcombos : t'.log.filterMap Event.combo? =
      t.log.filterMap Event.combo? ++ [⟨req, createTranslatedReq cfg t.nextID req rsp.page⟩] := by
    rw [hlog, filterMap_concat]
    rfl
  have hmem : tr ∈ t.transactions := mem_of_find?_eq_some hfind
  have hto : tr.translationReq.id = rsp.respondTo := by
    have hfor := find?_some hfind
    exact beq_iff_eq.mp hfor
  have htr : tr.translationReq = translationReqOf cfg tr.translationReq.id req := by
    obtain ⟨_, heq⟩ := h.single (core tr) (mem_map_of_mem hmem)
    simp only [core, hreqs, Prod.mk.injEq, cons.injEq, and_true] at heq
    rw [heq.1]
    exact heq.2
  refine ⟨?_, ?_, ⟨?_, ?_⟩, ⟨?_, ?_⟩, ?_, ?_, ?_⟩
  · rw [hcore]
    intro c hc
    obtain ⟨x, hx, rfl⟩ := mem_map.mp hc
    exact h.single _ (mem_map_of_mem (eraseP_subset hx))
  · refine since_concat h.since hlog (fun he => Event.noConfusion he) (fun r hr => ⟨?_, ?_⟩)
    · have hforwards := hr.forwards
      rw [waiting_eraseP hfind hreqs, ← hcore] at hforwards
      rw [filterMap_concat, filterMap_concat]
      simp only [Event.accepted?, Event.forwarded?, toList_none, toList_some, append_nil, coe_concat, cons_add]
      rwa [add_cons] at hforwards
    · rw [filterMap_concat, filterMap_concat, hinflight]
      simp only [Event.answered?, Event.combo?, toList_none, toList_some, append_nil, coe_concat, add_cons]
      exact cons_le_cons _ hr.answers
  · rw [haccepted, hid]
    exact fun x hx => Nat.lt_succ_of_lt (h.fresh.1 x hx)
  · rw [hcombos, hid]
    intro c hc
    rcases mem_append.mp hc with hc | hc
    · exact Nat.lt_succ_of_lt (h.fresh.2 c hc)
    · rw [mem_singleton.mp hc, id_createTranslatedReq]
      exact Nat.lt_succ_self _
  · rw [haccepted]
    exact h.distinct.1
  · rw [hcombos]
    refine nodup_map_concat h.distinct.2 fun c hc => ?_
    rw [id_createTranslatedReq]
    exact h.fresh.2 c hc
  · rw [hlog]
    exact forall_mem_append.mpr ⟨h.sound, forall_mem_singleton.mpr ⟨htr, hto.symm, translated_createTranslatedReq _ _ _⟩⟩
  · rw [hlog, filterMap_concat, htop]
    exact h.top.trans (append_nil _).symm
  · rw [hcombos, hbottom, filterMap_append, map_append, ← coe_add, ← coe_add]
    exact Multiset.add_le_add_right h.bottom

theorem Inv.answer (h : Inv t) {rsp : AccessRsp Bytes} {combo : ReqToBottom} (t' : Translator cfg)
    (hfind : t.inflightReqToBottom.find? (isTo rsp.respondTo) = some combo) (htransactions : t'.transactions = t.transactions)
    (hinflight : t'.inflightReqToBottom = t.inflightReqToBottom.eraseP (isTo rsp.respondTo)) (hid : t'.nextID = t.nextID)
    (hlog : t'.log = t.log ++ [Event.answer combo rsp (rspToTop combo.reqFromTop rsp)])
    (htop : t'.topPort.outgoing = t.topPort.outgoing ++ [Rsp.access (rspToTop combo.reqFromTop rsp)])
    (hbottom : t'.bottomPort.outgoing = t.bottomPort.outgoing) : Inv t' := by
  have haccepted : t'.log.filterMap Event.accepted? = t.log.filterMap Event.accepted? := by
    rw [hlog, filterMap_concat]
    exact append_nil _
  have hcombos : t'.log.filterMap Event.combo? = t.log.filterMap Event.combo? := by
    rw [hlog, filterMap_concat]
    exact append_nil _
  refine ⟨?_, ?_, ?_, ?_, ?_, ?_, ?_⟩
  · rw [htransactions]
    exact h.single
  · refine since_concat h.since hlog (fun he => Event.noConfusion he) (fun r hr => ⟨?_, ?_⟩)
    · rw [filterMap_concat, filterMap_concat, waiting, htransactions]
      simp only [Event.accepted?, Event.forwarded?, toList_none, append_nil]
      exact hr.forwards
    · have hanswers := hr.answers
      rw [coe_eraseP hfind, ← hinflight, add_cons] at hanswers
      rw [filterMap_concat, filterMap_concat]
      simp only [Event.answered?, Event.combo?, toList_none, toList_some, append_nil, coe_concat, cons_add]
      exact hanswers
  · rw [haccepted, hcombos, hid]
    exact h.fresh
  · rw [haccepted, hcombos]
    exact h.distinct
  · rw [hlog]
    intro x hx
    rcases mem_append.mp hx with hx | hx
    · exact h.sound x hx
    · rw [mem_singleton.mp hx]
      have hto := find?_some hfind
      exact ⟨(beq_iff_eq.mp hto).symm, relays_rspToTop _ _⟩
  · rw [hlog, filterMap_concat, htop, filterMap_append, h.top]
    rfl
  · rw [hcombos, hbottom]
    exact h.bottom

/-- An acknowledged flush empties both lists, so that nothing is left of what came before. -/
theorem Inv.flush (h : Inv t) (t' : Translator cfg) (htransactions : t'.transactions = [])
    (hinflight : t'.inflightReqToBottom = []) (hid : t'.nextID = t.nextID) (hlog : t'.log = t.log ++ [Event.flush])
    (htop : t'.topPort.outgoing = t.topPort.outgoing) (hbottom : t'.bottomPort.outgoing = t.bottomPort.outgoing) :
    Inv t' := by
  have hsame : t'.log.filterMap Event.accepted? = t.log.filterMap Event.accepted? ∧
      t'.log.filterMap Event.combo? = t.log.filterMap Event.combo? := by
    rw [hlog, filterMap_concat, filterMap_concat]
    exact ⟨append_nil _, append_nil _⟩
  refine ⟨?_, ?_, ?_, ?_, ?_, ?_, ?_⟩
  · rw [htransactions]
    exact forall_mem_nil _
  · intro l r heq hcut
    have hwaiting : waiting t' = [] := by
      rw [waiting, htransactions]
      rfl
    rw [hlog] at heq
    rcases eq_nil_or_concat r with rfl | ⟨r, x, rfl⟩
    · refine ⟨?_, ?_⟩
      · rw [hwaiting]
        exact le_refl _
      · rw [hinflight]
        exact le_refl _
    · rw [concat_eq_append, ← append_assoc] at heq
      obtain ⟨hl, hx⟩ := append_inj' heq rfl
      rw [singleton_inj.mp hx.symm, concat_eq_append]
      have hsince := h.since l r hl hcut
      refine ⟨?_, ?_⟩
      · rw [filterMap_concat, filterMap_concat, hwaiting]
        simp only [Event.accepted?, Event.forwarded?, toList_none, append_nil, coe_nil, add_zero]
        exact le_trans (le_add_right _ _) hsince.forwards
      · rw [filterMap_concat, filterMap_concat, hinflight]
        simp only [Event.answered?, Event.combo?, toList_none, append_nil, coe_nil, add_zero]
        exact le_trans (le_add_right _ _) hsince.answers
  · rw [hsame.1, hsame.2, hid]
    exact h.fresh
  · rw [hsame.1, hsame.2]
    exact h.distinct
  · rw [hlog]
    exact forall_mem_append.mpr ⟨h.sound, forall_mem_singleton.mpr trivial⟩
  · rw [hlog, filterMap_concat, htop]
    exact h.top.trans (append_nil _).symm
  · rw [hsame.2, hbottom]
    exact h.bottom

theorem Inv.reqs_nil (h : Inv t) {id : MsgID} {reqs : List AccessReq}
    (hfind : findTranslationByReqID t.transactions id = some tr) (hreqs : tr.incomingReqs = req :: reqs) : reqs = [] := by
  obtain ⟨_, heq⟩ := h.single (core tr) (mem_map_of_mem (mem_of_find?_eq_some hfind))
  simp only [core, hreqs, Prod.mk.injEq, cons.injEq] at heq
  exact heq.1.2

theorem Inv.step {t t' : Translator cfg} {k : Call} (h : Inv t) (hs : Step t k t') : Inv t' := by
  cases hs with
  | idle _ _ _ _ _ _ hid hcore => exact h.of_same hcore rfl hid rfl rfl (le_refl _)
  | accept req => exact h.accept req _ rfl rfl rfl rfl rfl rfl
  | gl0Accept =>
    exact h.of_other rfl (fun he => Event.noConfusion he) rfl rfl rfl rfl rfl trivial rfl rfl (le_refl _) rfl rfl
  | unknown | stale => exact h.of_same rfl rfl (le_refl _) rfl rfl (le_refl _)
  | forward _ _ _ _ _ _ _ hfind hreqs hcore =>
    obtain rfl := h.reqs_nil hfind hreqs
    exact h.forward _ hfind hreqs (hcore rfl) rfl rfl rfl rfl rfl
  | answer _ _ _ _ _ hfind => exact h.answer _ hfind rfl rfl rfl rfl rfl rfl
  | gl0Answer =>
    refine h.of_other rfl (fun he => Event.noConfusion he) rfl rfl rfl rfl rfl trivial rfl rfl (le_refl _) ?_ rfl
    exact (filterMap_append ..).trans (append_nil _)
  | gl0Forward =>
    refine h.of_other rfl (fun he => Event.noConfusion he) rfl rfl rfl rfl rfl trivial rfl rfl (Nat.le_succ _) rfl ?_
    exact (filterMap_append ..).trans (append_nil _)

theorem Inv.ctrlStep {t t' : Translator cfg} (h : Inv t) (hs : CtrlStep t t') : Inv t' := by
  cases hs with
  | idle => exact h.of_same rfl rfl (le_refl _) rfl rfl (le_refl _)
  | flush => exact h.flush _ rfl rfl rfl rfl rfl rfl
  | restart =>
    exact h.of_other rfl (fun he => Event.noConfusion he) rfl rfl rfl rfl rfl trivial rfl rfl (le_refl _) rfl rfl

theorem Inv.call {t t' : Translator cfg} {k : Call} {p : Bool} (h : Inv t) (hexec : k.exec t = .ok (p, t')) : Inv t' := by
  rcases Call.step hexec with ⟨-, hs⟩ | rfl | ⟨-, hs⟩
  · exact h.ctrlStep hs
  · exact h
  · exact h.step hs

/-! ## Runs -/

theorem Inv.init : Inv ({} : Translator cfg) := by
  refine ⟨forall_mem_nil _, fun l r heq _ => ?_, ⟨forall_mem_nil _, forall_mem_nil _⟩, ⟨nodup_nil, nodup_nil⟩,
    forall_mem_nil _, rfl, le_refl _⟩
  obtain ⟨rfl, rfl⟩ := append_eq_nil_iff.mp heq.symm
  exact ⟨le_refl _, le_refl _⟩

/-- What the surroundings do to the ports: messages arrive, the connections change their answers, requests are taken away. -/
theorem Inv.ports (h : Inv t) (topPort : Port cfg.numReqPerCycle Req Rsp) (bottomPort : Port cfg.numReqPerCycle Rsp Req)
    (translationPort : Port cfg.numReqPerCycle TranslationRsp TranslationReq) (ctrlPort : Port 1 ControlMsg ControlMsg)
    (htop : topPort.outgoing = t.topPort.outgoing) (hbottom : bottomPort.outgoing.Sublist t.bottomPort.outgoing) :
    Inv { t with topPort, bottomPort, translationPort, ctrlPort } :=
  h.of_same rfl rfl (le_refl _) rfl htop (hbottom.filterMap _).subperm

theorem inv_of_reaches {G : Translator cfg → Call → Prop} {s : System cfg} {ks : List Call} (h : Reaches G s ks) :
    Inv s.translator := by
  induction h with
  | init => exact .init
  | @request s req h ih =>
    unfold System.request
    split
    next topPort hrecv => exact ih.ports topPort _ _ _ (by rw [Port.recv_eq hrecv]) (List.Sublist.refl _)
    next => exact ih
  | @control s msg h ih =>
    unfold System.control
    split
    next ctrlPort hrecv => exact ih.ports _ _ _ ctrlPort rfl (List.Sublist.refl _)
    next => exact ih
  | @connect s top bottom translation ctrl h ih => exact ih.ports _ _ _ _ rfl (List.Sublist.refl _)
  | @memAnswer s k data h ih =>
    unfold System.memAnswer
    split
    next => exact ih.ports _ _ _ _ rfl (eraseIdx_sublist _ k)
    next => exact ih
  | @memDeliver s k h ih =>
    unfold System.memDeliver
    split
    next =>
      split
      next bottomPort hrecv =>
        refine ih.ports _ bottomPort _ _ rfl ?_
        rw [Port.recv_eq hrecv]
      next => exact ih
    next => exact ih
  | @transAnswer s k page h ih =>
    unfold System.transAnswer
    split
    next => exact ih.ports _ _ _ _ rfl (List.Sublist.refl _)
    next => exact ih
  | @transDeliver s k h ih =>
    unfold System.transDeliver
    split
    next =>
      split
      next translationPort hrecv => exact ih.ports _ _ translationPort _ rfl (List.Sublist.refl _)
      next => exact ih
    next => exact ih
  | tick _ ih => exact ih
  | call _ _ hexec ih => exact ih.call hexec

/-- `accepts`, `bottoms` : the IDs of the translation requests and of the requests forwarded are distinct, so that a request
forwarded or answered twice would be listed twice; `forwards`, `answers` : since the start, and since any acknowledged flush,
each request accepted has been forwarded at most once, and each request forwarded has been answered at most once; `discarded`
: what is forwarded or answered after an acknowledged flush was not accepted before it; `sound` : the requests and responses
have the contents they should have; `top`, `bottom` : the responses sent are the answers, and the requests under way are ones
forwarded. -/
structure Conserved (t : Translator cfg) : Prop where
  accepts : ((t.log.filterMap Event.accepted?).map (·.2.id)).Nodup
  bottoms : ((t.log.filterMap Event.combo?).map (·.reqToBottom.id)).Nodup
  forwards : ∀ l r, t.log = l ++ r → Cut l →
    (↑(r.filterMap Event.forwarded?) : Multiset (AccessReq × TranslationReq)) ≤ ↑(r.filterMap Event.accepted?)
  answers : ∀ l r, t.log = l ++ r → Cut l → (↑(r.filterMap Event.answered?) : Multiset ReqToBottom) ≤
    ↑(r.filterMap Event.combo?)
  discarded : ∀ l r, t.log = l ++ Event.flush :: r →
    (∀ x ∈ r.filterMap Event.forwarded?, x ∉ l.filterMap Event.accepted?) ∧
      ∀ combo ∈ r.filterMap Event.answered?, ∃ translationReq rsp, Event.forward combo translationReq rsp ∈ r ∧
        (combo.reqFromTop, translationReq) ∉ l.filterMap Event.accepted?
  sound : ∀ e ∈ t.log, e.Sound cfg
  top : t.topPort.outgoing.filterMap Rsp.access? = t.log.filterMap Event.rspToTop?
  bottom : (↑(t.bottomPort.outgoing.filterMap Req.access?) : Multiset AccessReq) ≤
    ↑((t.log.filterMap Event.combo?).map (·.reqToBottom))

theorem Inv.forwarded_after (h : Inv t) {l r : List Event} (hlog : t.log = l ++ Event.flush :: r)
    {x : AccessReq × TranslationReq} (hx : x ∈ r.filterMap Event.forwarded?) : x ∉ l.filterMap Event.accepted? := by
  have hlog' : t.log = (l ++ [Event.flush]) ++ r := by
    rw [hlog, append_assoc]
    rfl
  have hafter : x ∈ r.filterMap Event.accepted? :=
    mem_of_le (le_trans (le_add_right _ _) (h.since _ r hlog' (.inr ⟨l, rfl⟩)).forwards) hx
  intro hbefore
  have hdistinct := h.distinct.1
  rw [hlog', filterMap_append, filterMap_append, map_append, map_append] at hdistinct
  exact (nodup_append.mp hdistinct).2.2 _ (mem_append_left _ (mem_map_of_mem hbefore)) _ (mem_map_of_mem hafter) rfl

theorem Inv.answered_after (h : Inv t) {l r : List Event} (hlog : t.log = l ++ Event.flush :: r) {combo : ReqToBottom}
    (hcombo : combo ∈ r.filterMap Event.answered?) : ∃ translationReq rsp, Event.forward combo translationReq rsp ∈ r ∧
      (combo.reqFromTop, translationReq) ∉ l.filterMap Event.accepted? := by
  have hlog' : t.log = (l ++ [Event.flush]) ++ r := by
    rw [hlog, append_assoc]
    rfl
  have hforward : combo ∈ r.filterMap Event.combo? :=
    mem_of_le (le_trans (le_add_right _ _) (h.since _ r hlog' (.inr ⟨l, rfl⟩)).answers) hcombo
  obtain ⟨e, he, hcombo⟩ := mem_filterMap.mp hforward
  cases e with
  | forward _ translationReq rsp =>
    cases hcombo
    exact ⟨translationReq, rsp, he, h.forwarded_after hlog (mem_filterMap.mpr ⟨_, he, rfl⟩)⟩
  | _ => cases hcombo

/-- **Conservation.** In every run, across flushes and restarts, no request is forwarded or answered twice, or after a flush
that found it accepted. -/
theorem accesses_conserved {G : Translator cfg → Call → Prop} {s : System cfg} {ks : List Call} (h : Reaches G s ks) :
    Conserved s.translator := by
  have hi := inv_of_reaches h
  exact ⟨hi.distinct.1, hi.distinct.2, fun l r heq hcut => le_trans (le_add_right _ _) (hi.since l r heq hcut).forwards,
    fun l r heq hcut => le_trans (le_add_right _ _) (hi.since l r heq hcut).answers,
    fun l r heq => ⟨fun x hx => hi.forwarded_after heq hx, fun combo hcombo => hi.answered_after heq hcombo⟩,
    hi.sound, hi.top, hi.bottom⟩

/-- A translator of pages of 4 KiB, one request a cycle. -/
def single : Config :=
  { numReqPerCycle := 1, log2PageSize := 12, bottomPort := 0, translationPort := 1, ctrlPort := 2, translationProvider := 3,
    lowModule := fun _ => 4 }

def readReq (id : MsgID) : Req := .access (.read { id, src := 5, pid := 1, address := 0x1234, accessByteSize := 4 })

def gl0Req : GL0InvalidateReq := { id := 8, src := 5, pid := 1 }

section
variable (G : Translator single → Call → Prop) [∀ t k, Decidable (G t k)]

/-- A read waits for its translation, and a GL0 invalidation for the read. -/
def counted : System single :=
  (((((({} : System single).connect [true, true] [true, true] [true, true] [true, true]).request (readReq 7)).tickIf
    G).request
    (.gl0 gl0Req)).tickIf G)

/-- The read is forwarded and answered, and then the invalidation. -/
def invalidated : System single :=
  ((((((((counted G).transAnswer 0 { pid := 1, vAddr := 0x1000, pAddr := 0x2000, valid := true }).transDeliver 0).tickIf
    G).memAnswer 0
    [1, 2, 3, 4]).memDeliver 0).tickIf G).memAnswer 0 []).memDeliver 0 |>.tickIf G

/-- A second read is accepted and flushed. -/
def restarted : System single :=
  ((((((invalidated G).request (readReq 9)).tickIf G).control { src := 6, discardTransactions := true }).tickIf G).control
    { src := 6, restart := true }).tickIf G

variable {G} {G' : Translator single → Call → Prop} (hG : ∀ t k, G t k → G' t k)
include hG

theorem reaches_counted : Reaches G' (counted G) [] :=
  (((Reaches.init.connect [true, true] [true, true] [true, true] [true, true]).request (readReq 7)).tickIf hG |>.request
    (.gl0 gl0Req)).tickIf hG

theorem reaches_restarted : Reaches G' (restarted G) [] := by
  have hforwarded := (((reaches_counted hG).transAnswer 0
    { pid := 1, vAddr := 0x1000, pAddr := 0x2000, valid := true }).transDeliver 0).tickIf hG
  have hanswered := ((hforwarded.memAnswer 0 [1, 2, 3, 4]).memDeliver 0).tickIf hG
  have hinvalidated := ((hanswered.memAnswer 0 []).memDeliver 0).tickIf hG
  have hflushed := ((hinvalidated.request (readReq 9)).tickIf hG).control { src := 6, discardTransactions := true }
  exact ((hflushed.tickIf hG).control { src := 6, restart := true }).tickIf hG

end

theorem accesses_conserved_restarted : ∃ s, restarted (fun _ _ => True) = s ∧
    (s.translator.log.filterMap Event.accepted?).map (fun x => x.1.id) = [7, 9] ∧
    (s.translator.log.filterMap Event.answered?).length = 1 ∧ Event.restart ∈ s.translator.log ∧ Conserved s.translator :=
  ⟨_, rfl, by decide +kernel, by decide +kernel, by decide +kernel, accesses_conserved (reaches_restarted fun _ _ => id)⟩

end Akita.Vm.AddressTranslator
