import Akita.Vm.Tlb.Shootdown
import Akita.Multisets

/-!
# Conservation of translation requests

`Inv t answers` : each accepted request is answered or waits in one entry; the MSHR entries and the requests under way below
match one to one; the pages in the sets and in the entry that responds were returned by the lower level.

`answered_of_reaches` : in every run without control requests each request is answered at most once, with a page the lower
level returned for it.
-/

namespace Akita.Vm.Tlb
open Mem Sim Option Function
open Multiset (add_cons card coe_add coe_eq_coe coe_nil cons_add cons_coe map_cons mem_coe nodup_cons)
open List hiding getElem?_eq_some_iff map_cons nodup_cons
open Event (reqReceive returned topSend)

variable {cfg : Config}

def Event.received? : Event → Option TranslationReq
  | .reqReceive req => some req
  | _ => none

def Event.completed? : Event → Option TranslationReq
  | .reqComplete req => some req
  | _ => none

def Event.page? : Event → Option Page
  | .returned rsp => some rsp.page
  | _ => none

/-- The requests accepted. -/
def receivedOf (log : List Event) : List TranslationReq := log.filterMap Event.received?

/-- The requests answered. -/
def completedOf (log : List Event) : List TranslationReq := log.filterMap Event.completed?

/-- The pages the lower level has returned. -/
def returnedOf (log : List Event) : List Page := log.filterMap Event.page?

/-- The response answers the request, with a page returned for it. -/
structure Answers (log : List Event) (req : TranslationReq) (rsp : TranslationRsp) : Prop where
  respondTo : rsp.respondTo = req.id
  dst : rsp.dst = req.src
  pid : rsp.page.pid = req.pid
  vAddr : rsp.page.vAddr = req.vAddr
  returned : rsp.page ∈ returnedOf log

/-- What identifies a request under way to the lower level: its ID and its page. -/
abbrev Pending := MsgID × PID × VAddr

def pendingOfReq (req : TranslationReq) : Pending := (req.id, req.pid, req.vAddr)

def pendingOfRsp (rsp : TranslationRsp) : Pending := (rsp.respondTo, rsp.page.pid, rsp.page.vAddr)

/-- The request an entry waits for. -/
def pendingOfEntry (e : MSHREntry) : Pending := ((e.reqToBottom.map (·.id)).getD 0, e.pid, e.vAddr)

/-- The requests that wait in the MSHR and in the entry that responds. -/
def waiting (t : TLB cfg) : Multiset TranslationReq :=
  ↑(t.mshr.flatMap (·.requests)) + ↑(t.respondingMSHREntry.toList.flatMap (·.requests))

/-- The requests under way below: sent and not answered, or answered and not taken by the TLB. -/
def outstanding (t : TLB cfg) (answers : List TranslationRsp) : Multiset Pending :=
  ↑(t.bottomPort.outgoing.map pendingOfReq) + ↑((answers ++ t.bottomPort.buf.elements).map pendingOfRsp)

structure Inv (t : TLB cfg) (answers : List TranslationRsp) : Prop where
  sets : ∀ i, Sound cfg.numWays (· ∈ returnedOf t.log) (t.sets i)
  responses : List.Forall₂ (Answers t.log) (completedOf t.log) t.topPort.outgoing
  balance : (↑(receivedOf t.log) : Multiset TranslationReq) = ↑(completedOf t.log) + waiting t
  entries : ∀ e ∈ t.mshr, e.requests ≠ [] ∧ ∀ req ∈ e.requests, req.pid = e.pid ∧ req.vAddr = e.vAddr
  keys : (t.mshr.map fun e => (e.pid, e.vAddr)).Nodup
  responding : ∀ e, t.respondingMSHREntry = some e → e.requests ≠ [] ∧ e.page ∈ returnedOf t.log ∧
    ∀ req ∈ e.requests, req.pid = e.page.pid ∧ req.vAddr = e.page.vAddr
  pending : (↑(t.mshr.map pendingOfEntry) : Multiset Pending) = outstanding t answers
  fresh : ∀ x ∈ outstanding t answers, x.1 < t.nextID
  nodup : ((outstanding t answers).map Prod.fst).Nodup
  arrived : ∀ rsp, rsp ∈ answers ∨ rsp ∈ t.bottomPort.buf.elements → rsp.page ∈ returnedOf t.log
  control : t.controlPort.buf.elements = []
  running : t.isPaused = false

section
variable {log : List Event}

theorem receivedOf_append (l : List Event) : receivedOf (log ++ l) = receivedOf log ++ receivedOf l := filterMap_append

theorem completedOf_append (l : List Event) : completedOf (log ++ l) = completedOf log ++ completedOf l :=
  filterMap_append

theorem returnedOf_mono (p : Page) (h : p ∈ returnedOf log) (l : List Event) : p ∈ returnedOf (log ++ l) := by
  unfold returnedOf
  rw [filterMap_append]
  exact mem_append_left _ h

theorem Answers.mono {req : TranslationReq} {rsp : TranslationRsp} (h : Answers log req rsp) (l : List Event) :
    Answers (log ++ l) req rsp :=
  ⟨h.respondTo, h.dst, h.pid, h.vAddr, returnedOf_mono _ h.returned l⟩

end

/-! ## Entries -/

section
variable {entries : List MSHREntry} {e : MSHREntry} {req : TranslationReq}

variable {vAddr : VAddr} {pid : PID}

theorem isFor_iff : MSHR.isFor pid vAddr e = true ↔ e.pid = pid ∧ e.vAddr = vAddr := by
  simp [MSHR.isFor]

theorem map_join {β : Type} {f : MSHREntry → β} (hf : ∀ (e : MSHREntry) rs, f { e with requests := rs } = f e)
    (req : TranslationReq) : (MSHR.join req entries).map f = entries.map f := by
  induction entries with
  | nil => rfl
  | cons _ _ ih =>
    unfold MSHR.join
    split
    · rw [List.map_cons, List.map_cons, hf]
    · rw [List.map_cons, List.map_cons, ih]

theorem requests_join (h : MSHR.isEntryPresent entries req.pid req.vAddr = true) :
    (↑((MSHR.join req entries).flatMap (·.requests)) : Multiset TranslationReq) =
      req ::ₘ ↑(entries.flatMap (·.requests)) := by
  induction entries with
  | nil => simp [MSHR.isEntryPresent] at h
  | cons _ entries ih =>
    unfold MSHR.join
    split
    next =>
      rw [flatMap_cons, flatMap_cons, ← coe_add]
      dsimp only
      rw [coe_concat, cons_add, coe_add]
    next hne =>
      have hrest : MSHR.isEntryPresent entries req.pid req.vAddr = true := by
        simpa [MSHR.isEntryPresent, Bool.eq_false_iff.mpr hne] using h
      simp only [flatMap_cons, ← coe_add, ih hrest, add_cons]

theorem mem_join (h : e ∈ MSHR.join req entries) : e ∈ entries ∨
    ∃ e₀ ∈ entries, MSHR.isFor req.pid req.vAddr e₀ = true ∧ e = { e₀ with requests := e₀.requests ++ [req] } := by
  induction entries with
  | nil => exact .inl h
  | cons e₀ _ ih =>
    unfold MSHR.join at h
    split at h
    next hfor =>
      rcases mem_cons.mp h with rfl | h
      · exact .inr ⟨e₀, mem_cons_self, hfor, rfl⟩
      · exact .inl (mem_cons_of_mem _ h)
    next =>
      rcases mem_cons.mp h with rfl | h
      · exact .inl mem_cons_self
      · rcases ih h with h | ⟨e₁, he₁, h⟩
        · exact .inl (mem_cons_of_mem _ h)
        · exact .inr ⟨e₁, mem_cons_of_mem _ he₁, h⟩

/-- An entry without requests can be told from the others: the entry of a page is taken out of the table. -/
theorem perm_of_query (h : MSHR.query entries pid vAddr = some e) :
    entries.Perm (e :: entries.eraseP (MSHR.isFor pid vAddr)) :=
  coe_eq_coe.mp (by rw [← cons_coe]; exact coe_eraseP h)

theorem query_isFor (h : MSHR.query entries pid vAddr = some e) : e.pid = pid ∧ e.vAddr = vAddr :=
  isFor_iff.mp (find?_some h)

end

/-! ## Steps -/

section
variable {t t' : TLB cfg} {answers : List TranslationRsp}

variable {rsp : TranslationRsp}

theorem Inv.entry_of_answer (h : Inv t answers) (hrsp : t.bottomPort.peek = some rsp) :
    ∃ e, MSHR.query t.mshr rsp.page.pid rsp.page.vAddr = some e ∧ pendingOfEntry e = pendingOfRsp rsp := by
  have hmem : pendingOfRsp rsp ∈ outstanding t answers := by
    unfold outstanding
    rw [Buffer.peek_eq_some hrsp]
    simp
  rw [← h.pending, mem_coe] at hmem
  obtain ⟨e, he, hpend⟩ := mem_map.mp hmem
  have hkey : e.pid = rsp.page.pid ∧ e.vAddr = rsp.page.vAddr := by
    simp only [pendingOfEntry, pendingOfRsp, Prod.mk.injEq] at hpend
    exact hpend.2
  have hsome : (MSHR.query t.mshr rsp.page.pid rsp.page.vAddr).isSome := find?_isSome.mpr ⟨e, he, isFor_iff.mpr hkey⟩
  obtain ⟨e', he'⟩ := isSome_iff_exists.mp hsome
  have hkey' := query_isFor he'
  -- the table has one entry for each page
  have heq : e' = e := by
    apply inj_on_of_nodup_map h.keys (mem_of_find?_eq_some he') he
    rw [Prod.mk.injEq]
    exact ⟨hkey'.1.trans hkey.1.symm, hkey'.2.trans hkey.2.symm⟩
  exact ⟨e', he', heq ▸ hpend⟩

theorem forall₂_concat {α β : Type} {R : α → β → Prop} {l : List α} {m : List β} {a : α} {b : β} (h : List.Forall₂ R l m)
    (hab : R a b) : List.Forall₂ R (l ++ [a]) (m ++ [b]) :=
  rel_append h (.cons hab .nil)

section
variable (h : Inv t answers)
include h

theorem Inv.idle (top bottom : List Bool) {k : MsgID} (hk : t.nextID ≤ k) :
    Inv { t with topPort := { t.topPort with conn := top }, bottomPort := { t.bottomPort with conn := bottom }, nextID := k }
      answers :=
  { h with fresh := fun x hx => lt_of_lt_of_le (h.fresh x hx) hk }

theorem Inv.respond {e : MSHREntry} {req : TranslationReq} {requests : List TranslationReq} (conn : List Bool)
    (he : t.respondingMSHREntry = some e) (hreqs : e.requests = req :: requests) :
    Inv { t with
      topPort := { t.topPort with outgoing := t.topPort.outgoing ++ [rspOf req e.page], conn }
      respondingMSHREntry := if requests.isEmpty then none else some { e with requests }
      log := t.log ++ [topSend (rspOf req e.page), .reqComplete req] } answers := by
  obtain ⟨-, hpage, hsame⟩ := h.responding e he
  have hmono : ∀ p, p ∈ returnedOf t.log → p ∈ returnedOf (t.log ++ [topSend (rspOf req e.page), .reqComplete req]) :=
    fun p hp => returnedOf_mono p hp _
  have hcomp : completedOf (t.log ++ [topSend (rspOf req e.page), .reqComplete req]) = completedOf t.log ++ [req] :=
    completedOf_append _
  have hrecv : receivedOf (t.log ++ [topSend (rspOf req e.page), .reqComplete req]) = receivedOf t.log :=
    (receivedOf_append _).trans (append_nil _)
  refine ⟨fun i => (h.sets i).imp hmono, ?_, ?_, h.entries, h.keys, ?_, h.pending, h.fresh, h.nodup,
    fun rsp hrsp => hmono _ (h.arrived rsp hrsp), h.control, h.running⟩
  · rw [hcomp]
    refine forall₂_concat (h.responses.imp fun _ _ hans => hans.mono _) ⟨rfl, rfl, ?_, ?_, hmono _ hpage⟩
    · exact (hsame req (by rw [hreqs]; exact mem_cons_self)).1.symm
    · exact (hsame req (by rw [hreqs]; exact mem_cons_self)).2.symm
  · have hrest : (↑(toList (if requests.isEmpty then none else some { e with requests })
        |>.flatMap (·.requests)) : Multiset TranslationReq) = ↑requests := by
      cases requests <;> simp
    dsimp only
    rw [hcomp, hrecv, h.balance, coe_concat]
    unfold waiting
    dsimp only
    rw [hrest, he, toList_some, flatMap_singleton, hreqs, ← cons_coe, add_cons, add_cons, cons_add]
  · intro x hx
    cases requests with
    | nil => cases hx
    | cons =>
      cases hx
      exact ⟨cons_ne_nil _ _, hmono _ hpage, fun q hq => hsame q (by rw [hreqs]; exact mem_cons_of_mem _ hq)⟩

theorem Inv.hit {req : TranslationReq} {setID wayID : Nat} {page : Page} {set : SetImpl} (conn : List Bool)
    (hlook : (t.sets setID).lookup req.pid req.vAddr = .ok (some (wayID, page))) (hvalid : page.valid = true)
    (hvisit : (t.sets setID).visit wayID = .ok set) :
    Inv { t with
      topPort := { buf := t.topPort.buf.pop, outgoing := t.topPort.outgoing ++ [{ rspOf req page with taskID := "" }], conn }
      sets := update t.sets setID set
      log := t.log ++ [topSend { rspOf req page with taskID := "" }, .reqReceive req, .reqComplete req] } answers := by
  obtain ⟨_, hlook', hr⟩ := (h.sets setID).lookup req.pid req.vAddr
  rw [hlook, Except.ok.injEq] at hlook'
  obtain ⟨hway, hpid, haddr, hreturned⟩ := hr wayID page hlook'.symm
  obtain ⟨_, hvisit', hsound⟩ := (h.sets setID).visit hway
  rw [hvisit, Except.ok.injEq] at hvisit'
  subst hvisit'
  have hmono : ∀ p, p ∈ returnedOf t.log →
      p ∈ returnedOf (t.log ++ [topSend { rspOf req page with taskID := "" }, .reqReceive req, .reqComplete req]) :=
    fun p hp => returnedOf_mono p hp _
  have hcomp : completedOf (t.log ++ [topSend { rspOf req page with taskID := "" }, .reqReceive req, .reqComplete req]) =
      completedOf t.log ++ [req] := completedOf_append _
  have hrecv : receivedOf (t.log ++ [topSend { rspOf req page with taskID := "" }, .reqReceive req, .reqComplete req]) =
      receivedOf t.log ++ [req] := receivedOf_append _
  refine ⟨fun i => (sound_update (P := fun _ => (· ∈ returnedOf t.log)) h.sets hsound i).imp hmono, ?_, ?_, h.entries, h.keys,
    fun e he => ?_, h.pending, h.fresh, h.nodup, fun rsp hrsp => hmono _ (h.arrived rsp hrsp), h.control, h.running⟩
  · rw [hcomp]
    exact forall₂_concat (h.responses.imp fun _ _ hans => hans.mono _) ⟨rfl, rfl, hpid, haddr, hmono _ (hreturned hvalid)⟩
  · dsimp only
    rw [hcomp, hrecv, coe_concat, coe_concat, h.balance, cons_add]
    rfl
  · obtain ⟨hne, hpage, hsame⟩ := h.responding e he
    exact ⟨hne, hmono _ hpage, hsame⟩

theorem Inv.miss {req : TranslationReq} (conn : List Bool) (habsent : MSHR.isEntryPresent t.mshr req.pid req.vAddr = false) :
    Inv { t with
      topPort := t.topPort.retrieve
      bottomPort := { t.bottomPort with outgoing := t.bottomPort.outgoing ++ [reqToBottom cfg t.nextID req], conn }
      mshr := t.mshr ++ [missEntry cfg t.nextID req]
      nextID := t.nextID + 1
      log := t.log ++ [reqReceive req] } answers := by
  have hmono : ∀ p, p ∈ returnedOf t.log → p ∈ returnedOf (t.log ++ [reqReceive req]) :=
    fun p hp => returnedOf_mono p hp _
  have hcomp : completedOf (t.log ++ [reqReceive req]) = completedOf t.log := (completedOf_append _).trans (append_nil _)
  have hrecv : receivedOf (t.log ++ [reqReceive req]) = receivedOf t.log ++ [req] := receivedOf_append _
  -- one more request is under way below, with an ID not used yet
  have hout : outstanding { t with
      topPort := t.topPort.retrieve
      bottomPort := { t.bottomPort with outgoing := t.bottomPort.outgoing ++ [reqToBottom cfg t.nextID req], conn }
      mshr := t.mshr ++ [missEntry cfg t.nextID req]
      nextID := t.nextID + 1
      log := t.log ++ [reqReceive req] } answers = (t.nextID, req.pid, req.vAddr) ::ₘ outstanding t answers := by
    unfold outstanding
    rw [map_append, map_singleton, coe_concat, cons_add]
    rfl
  refine ⟨fun i => (h.sets i).imp hmono, ?_, ?_, fun e he => ?_, ?_, fun e he => ?_, ?_, ?_, ?_,
    fun rsp hrsp => hmono _ (h.arrived rsp hrsp), h.control, h.running⟩
  · rw [hcomp]
    exact h.responses.imp fun _ _ hans => hans.mono _
  · dsimp only
    rw [hcomp, hrecv, coe_concat, h.balance]
    unfold waiting
    rw [flatMap_append, flatMap_singleton]
    dsimp only [missEntry]
    rw [coe_concat, cons_add, add_cons]
  · rcases mem_append.mp he with he | he
    · exact h.entries e he
    · rw [mem_singleton.mp he]
      refine ⟨cons_ne_nil _ _, fun r hr => ?_⟩
      rw [mem_singleton.mp hr]
      exact ⟨rfl, rfl⟩
  · rw [map_append, map_singleton]
    refine List.Nodup.append h.keys (nodup_singleton _) (disjoint_singleton.mpr fun hmem => ?_)
    obtain ⟨e, he, hkey⟩ := mem_map.mp hmem
    have hpresent : MSHR.isEntryPresent t.mshr req.pid req.vAddr = true :=
      any_eq_true.mpr ⟨e, he, isFor_iff.mpr (Prod.mk.inj hkey)⟩
    rw [habsent] at hpresent
    cases hpresent
  · obtain ⟨hne, hpage, hsame⟩ := h.responding e he
    exact ⟨hne, hmono _ hpage, hsame⟩
  · rw [hout, map_append, map_singleton, coe_concat, h.pending]
    rfl
  · rw [hout]
    intro x hx
    rcases Multiset.mem_cons.mp hx with rfl | hx
    · exact Nat.lt_succ_self _
    · exact Nat.lt_succ_of_lt (h.fresh x hx)
  · rw [hout, map_cons, nodup_cons]
    refine ⟨fun hmem => ?_, h.nodup⟩
    obtain ⟨x, hx, hid⟩ := Multiset.mem_map.mp hmem
    exact absurd (h.fresh x hx) (by rw [hid]; exact lt_irrefl _)

theorem Inv.join {req : TranslationReq} (hpresent : MSHR.isEntryPresent t.mshr req.pid req.vAddr = true) :
    Inv { t with mshr := MSHR.join req t.mshr, topPort := t.topPort.retrieve, log := t.log ++ [reqReceive req] } answers := by
  have hmono : ∀ p, p ∈ returnedOf t.log → p ∈ returnedOf (t.log ++ [reqReceive req]) :=
    fun p hp => returnedOf_mono p hp _
  have hcomp : completedOf (t.log ++ [reqReceive req]) = completedOf t.log := (completedOf_append _).trans (append_nil _)
  have hrecv : receivedOf (t.log ++ [reqReceive req]) = receivedOf t.log ++ [req] := receivedOf_append _
  refine ⟨fun i => (h.sets i).imp hmono, ?_, ?_, fun e he => ?_, ?_, fun e he => ?_, ?_, h.fresh, h.nodup,
    fun rsp hrsp => hmono _ (h.arrived rsp hrsp), h.control, h.running⟩
  · rw [hcomp]
    exact h.responses.imp fun _ _ hans => hans.mono _
  · dsimp only
    rw [hcomp, hrecv, coe_concat, h.balance]
    unfold waiting
    rw [requests_join hpresent, cons_add, add_cons]
  · rcases mem_join he with he | ⟨e₀, he₀, hfor, rfl⟩
    · exact h.entries e he
    · refine ⟨by simp, fun r hr => ?_⟩
      rcases mem_append.mp hr with hr | hr
      · exact (h.entries e₀ he₀).2 r hr
      · rw [mem_singleton.mp hr]
        exact ⟨(isFor_iff.mp hfor).1.symm, (isFor_iff.mp hfor).2.symm⟩
  · rw [map_join fun _ _ => rfl]
    exact h.keys
  · obtain ⟨hne, hpage, hsame⟩ := h.responding e he
    exact ⟨hne, hmono _ hpage, hsame⟩
  · rw [map_join fun _ _ => rfl]
    exact h.pending

/-- An answer arrives: the entry of its page is the one that responds now. -/
theorem Inv.parse {e : MSHREntry} {setID wayID : Nat} {set : SetImpl}
    (hnone : t.respondingMSHREntry = none) (hrsp : t.bottomPort.peek = some rsp)
    (he : MSHR.query t.mshr rsp.page.pid rsp.page.vAddr = some e) (hfill : (t.sets setID).fill rsp.page = .ok (wayID, set)) :
    Inv { t with
      sets := update t.sets setID set
      respondingMSHREntry := some { e with page := rsp.page }
      mshr := t.mshr.eraseP (MSHR.isFor rsp.page.pid rsp.page.vAddr)
      bottomPort := t.bottomPort.retrieve } answers := by
  have hbuf := Buffer.peek_eq_some hrsp
  have hreturned := h.arrived rsp (.inr (by rw [hbuf]; exact mem_cons_self))
  obtain ⟨_, _, hfill', hsound⟩ := (h.sets setID).fill ((h.sets setID).pos_of_fill hfill) fun _ => hreturned
  rw [hfill, Except.ok.injEq, Prod.mk.injEq] at hfill'
  obtain ⟨rfl, rfl⟩ := hfill'
  have hmem : e ∈ t.mshr := mem_of_find?_eq_some he
  have hperm := perm_of_query he
  have hkey := query_isFor he
  obtain ⟨_, he', hpend⟩ := h.entry_of_answer hrsp
  rw [he, some.injEq] at he'
  subst he'
  -- one request less is under way below: that of the entry
  have hout : outstanding t answers = pendingOfRsp rsp ::ₘ outstanding { t with
      sets := update t.sets setID set
      respondingMSHREntry := some { e with page := rsp.page }
      mshr := t.mshr.eraseP (MSHR.isFor rsp.page.pid rsp.page.vAddr)
      bottomPort := t.bottomPort.retrieve } answers := by
    unfold outstanding
    rw [hbuf, map_append, List.map_cons, ← coe_add, ← cons_coe, add_cons, add_cons, map_append, ← coe_add]
    rfl
  have hfresh := h.fresh
  have hnodup := h.nodup
  rw [hout] at hfresh hnodup
  rw [map_cons, nodup_cons] at hnodup
  refine ⟨sound_update (P := fun _ => (· ∈ returnedOf t.log)) h.sets hsound, h.responses, ?_,
    fun x hx => h.entries x (mem_of_mem_eraseP hx), ?_, fun x hx => ?_, ?_,
    fun x hx => hfresh x (Multiset.mem_cons_of_mem hx), hnodup.2, fun r hr => h.arrived r (hr.imp_right fun hr => ?_),
    h.control, h.running⟩
  · rw [h.balance]
    unfold waiting
    rw [hnone, coe_eq_coe.mpr (hperm.flatMap_right _), flatMap_cons, ← coe_add]
    simp only [toList_none, flatMap_nil, toList_some, flatMap_singleton, coe_nil, add_zero]
    rw [add_comm (↑e.requests : Multiset TranslationReq)]
  · exact h.keys.sublist (eraseP_sublist.map _)
  · cases hx
    refine ⟨(h.entries e hmem).1, hreturned, fun r hr => ?_⟩
    rw [← hkey.1, ← hkey.2]
    exact (h.entries e hmem).2 r hr
  · have hpending := h.pending
    rw [hout, coe_eq_coe.mpr (hperm.map _), List.map_cons, ← cons_coe, hpend, Multiset.cons_inj_right] at hpending
    exact hpending
  · rw [hbuf]
    exact mem_cons_of_mem _ hr

theorem Inv.step {k : Call} (hs : Step t k t') : Inv t' answers := by
  cases hs with
  | idle _ top bottom _ hk' => exact h.idle top bottom hk'
  | respond _ _ _ conn he hreqs => exact h.respond conn he hreqs
  | hit _ _ _ _ _ conn _ _ hlook hvalid hvisit => exact h.hit conn hlook hvalid hvisit
  | miss _ conn _ habsent => exact h.miss conn habsent
  | join _ _ hpresent => exact h.join hpresent
  | parse _ _ _ _ _ hnone hrsp he _ hfill => exact h.parse hnone hrsp he hfill
  | drop _ hrsp he =>
    obtain ⟨_, he', -⟩ := h.entry_of_answer hrsp
    rw [he] at he'
    cases he'

end

/-! ## Inputs -/

theorem Inv.of_ports (h : Inv t answers) (buf : Buffer cfg.numReqPerCycle TranslationReq) (top bottom control : List Bool) :
    Inv { t with
      topPort := { t.topPort with buf, conn := top }
      bottomPort := { t.bottomPort with conn := bottom }
      controlPort := { t.controlPort with conn := control } } answers :=
  { h with sets := h.sets }

/-- The lower level answers a request with a page of the request. -/
theorem Inv.answer (h : Inv t answers) {k : Nat} {req : TranslationReq} {page : Page}
    (hk : t.bottomPort.outgoing[k]? = some req) (hpid : page.pid = req.pid) (haddr : page.vAddr = req.vAddr) :
    Inv { t with
      bottomPort := { t.bottomPort with outgoing := t.bottomPort.outgoing.eraseIdx k }
      log := t.log ++ [returned (System.rsp req page)] } (answers ++ [System.rsp req page]) := by
  have hmono : ∀ p, p ∈ returnedOf t.log → p ∈ returnedOf (t.log ++ [returned (System.rsp req page)]) :=
    fun p hp => returnedOf_mono p hp _
  have hcomp : completedOf (t.log ++ [returned (System.rsp req page)]) = completedOf t.log :=
    (completedOf_append _).trans (append_nil _)
  have hrecv : receivedOf (t.log ++ [returned (System.rsp req page)]) = receivedOf t.log :=
    (receivedOf_append _).trans (append_nil _)
  have hlast : page ∈ returnedOf (t.log ++ [returned (System.rsp req page)]) := by
    unfold returnedOf
    rw [filterMap_append]
    exact mem_append_right _ mem_cons_self
  -- what was a request below is an answer below
  have hout : outstanding { t with
      bottomPort := { t.bottomPort with outgoing := t.bottomPort.outgoing.eraseIdx k }
      log := t.log ++ [returned (System.rsp req page)] } (answers ++ [System.rsp req page]) = outstanding t answers := by
    have hsame : pendingOfRsp (System.rsp req page) = pendingOfReq req := by
      unfold pendingOfRsp pendingOfReq System.rsp
      rw [hpid, haddr]
    obtain ⟨hlt, hget⟩ := List.getElem?_eq_some_iff.mp hk
    have hperm := List.getElem_cons_eraseIdx_perm hlt
    rw [hget] at hperm
    unfold outstanding
    dsimp only
    rw [coe_eq_coe.mpr (hperm.symm.map pendingOfReq), map_append, map_append, map_append, map_singleton,
      hsame, List.map_cons, ← coe_add, coe_concat, ← cons_coe, ← coe_add, cons_add, cons_add, add_cons]
  refine ⟨fun i => (h.sets i).imp hmono, ?_, ?_, h.entries, h.keys, fun e he => ?_, ?_, ?_, ?_, fun rsp hrsp => ?_, h.control,
    h.running⟩
  · rw [hcomp]
    exact h.responses.imp fun _ _ hans => hans.mono _
  · dsimp only
    rw [hcomp, hrecv]
    exact h.balance
  · obtain ⟨hne, hpage, hsame⟩ := h.responding e he
    exact ⟨hne, hmono _ hpage, hsame⟩
  · rw [hout]
    exact h.pending
  · rw [hout]
    exact h.fresh
  · rw [hout]
    exact h.nodup
  · rcases hrsp with hrsp | hrsp
    · rcases mem_append.mp hrsp with hrsp | hrsp
      · exact hmono _ (h.arrived rsp (.inl hrsp))
      · rw [mem_singleton.mp hrsp]
        exact hlast
    · exact hmono _ (h.arrived rsp (.inr hrsp))

theorem Inv.deliver (h : Inv t answers) {k : Nat} (hk : answers[k]? = some rsp) :
    Inv { t with bottomPort := { t.bottomPort with buf := ⟨t.bottomPort.buf.elements ++ [rsp]⟩ } } (answers.eraseIdx k) := by
  obtain ⟨hlt, hget⟩ := List.getElem?_eq_some_iff.mp hk
  have hperm := List.getElem_cons_eraseIdx_perm hlt
  rw [hget] at hperm
  have hout : outstanding { t with bottomPort := { t.bottomPort with buf := ⟨t.bottomPort.buf.elements ++ [rsp]⟩ } }
      (answers.eraseIdx k) = outstanding t answers := by
    unfold outstanding
    dsimp only
    rw [← append_assoc, map_append, map_append, map_append, map_singleton, coe_concat, ← coe_add,
      ← coe_add, coe_eq_coe.mpr (hperm.symm.map pendingOfRsp), List.map_cons, ← cons_coe, cons_add]
  refine ⟨h.sets, h.responses, h.balance, h.entries, h.keys, h.responding, ?_, ?_, ?_, fun r hr => ?_, h.control, h.running⟩
  · rw [hout]
    exact h.pending
  · rw [hout]
    exact h.fresh
  · rw [hout]
    exact h.nodup
  · rcases hr with hr | hr
    · exact h.arrived r (.inl (mem_of_mem_eraseIdx hr))
    · rcases mem_append.mp hr with hr | hr
      · exact h.arrived r (.inr hr)
      · rw [mem_singleton.mp hr]
        exact h.arrived rsp (.inl (mem_of_getElem? hk))

theorem Inv.performCtrlReq (h : Inv t answers) {p : Bool} (hexec : performCtrlReq t = .ok (p, t')) : t' = t := by
  have hnone : t.controlPort.peek = none := by rw [Port.peek, Buffer.peek, h.control]; rfl
  rw [Tlb.performCtrlReq, hnone] at hexec
  cases hexec
  rfl

end

/-! ## Runs -/

/-- Any requests, no control requests, and a lower level that answers with valid pages of the requests. -/
def Rules.plain (cfg : Config) : Rules cfg where
  request _ := True
  control _ := False
  answer req page := page.pid = req.pid ∧ page.vAddr = req.vAddr ∧ page.valid = true
  call _ _ := True

theorem inv_of_reaches {s : System cfg} {ks : List Call} (h : Reaches (Rules.plain cfg) s ks) : Inv s.tlb s.answers := by
  induction h with
  | init hbuild =>
    obtain ⟨_, hnew, hsound⟩ := new_sound cfg.numWays (· ∈ returnedOf [])
    simp only [build, newSets, hnew, bind, Except.bind, pure, Except.pure, Except.ok.injEq] at hbuild
    subst hbuild
    refine ⟨fun _ => hsound, .nil, rfl, fun e he => absurd he not_mem_nil, nodup_nil, fun e he => ?_, rfl,
      fun x hx => absurd hx (Multiset.notMem_zero x), Multiset.nodup_zero, fun r hr => ?_, rfl, rfl⟩
    · cases he
    · rcases hr with hr | hr <;> exact absurd hr not_mem_nil
  | @request s req h hreq ih =>
    unfold System.request Port.recv
    split
    next heq =>
      split at heq
      · cases heq
        exact ih.of_ports _ s.tlb.topPort.conn s.tlb.bottomPort.conn s.tlb.controlPort.conn
      · cases heq
    next => exact ih
  | control _ _ hreq => exact hreq.elim
  | connect top bottom control _ ih => exact ih.of_ports _ top bottom control
  | answer _ _ _ hk ih =>
    unfold System.answer
    split
    next req heq => exact ih.answer heq (hk req heq).1 (hk req heq).2.1
    next => exact ih
  | deliver _ _ ih =>
    unfold System.deliver Port.recv
    split
    next rsp heq =>
      split
      next hrecv =>
        split at hrecv
        · cases hrecv
          exact ih.deliver heq
        · cases hrecv
      next => exact ih
    next => exact ih
  | tick _ ih => exact ih
  | call _ _ hexec ih =>
    rcases Call.step hexec with ⟨rfl, -⟩ | rfl | ⟨-, hs⟩
    · rw [ih.performCtrlReq hexec]
      exact ih
    · exact ih
    · exact ih.step hs

/-- `responses` : the responses answer the requests answered, one each, in this order; `once` : a request accepted is answered
at most once; `entries` : an MSHR entry has one request under way below; `settled` : when nothing is under way and no entry
responds, every request accepted has been answered. -/
structure Answered (s : System cfg) : Prop where
  responses : List.Forall₂ (Answers s.tlb.log) (completedOf s.tlb.log) s.tlb.topPort.outgoing
  once : (↑(completedOf s.tlb.log) : Multiset TranslationReq) ≤ ↑(receivedOf s.tlb.log)
  entries : ∀ e ∈ s.tlb.mshr, pendingOfEntry e ∈ outstanding s.tlb s.answers ∧
    (outstanding s.tlb s.answers).countP (fun x => x.2 = (e.pid, e.vAddr)) = 1
  settled : outstanding s.tlb s.answers = 0 → s.tlb.respondingMSHREntry = none →
    (↑(completedOf s.tlb.log) : Multiset TranslationReq) = ↑(receivedOf s.tlb.log)

/-- **Exactly one answer.** In every run without control requests, each request is answered at most once, with a page the
lower level returned for it; and when nothing is under way below and no entry responds, each has been answered. -/
theorem answered_of_reaches {s : System cfg} {ks : List Call} (h : Reaches (Rules.plain cfg) s ks) : Answered s := by
  have hi := inv_of_reaches h
  refine ⟨hi.responses, ?_, fun e he => ⟨?_, ?_⟩, fun hzero hnone => ?_⟩
  · rw [hi.balance]
    exact Multiset.le_add_right _ _
  · rw [← hi.pending, mem_coe]
    exact mem_map_of_mem he
  · rw [← hi.pending, Multiset.coe_countP, countP_map]
    -- one entry for each page
    have hcount := count_eq_one_of_mem hi.keys (mem_map_of_mem he)
    rw [count, countP_map] at hcount
    rw [← hcount]
    refine countP_congr fun x _ => ?_
    simp [pendingOfEntry]
  · have hnil : s.tlb.mshr = [] := by
      have hcard := congrArg card hi.pending
      rw [hzero] at hcard
      simpa using hcard
    rw [hi.balance, waiting, hnil, hnone, toList_none, flatMap_nil, coe_nil, add_zero, add_zero]

/-- Two requests for a page wait for one answer. -/
def waiting₂ (t : TLB tiny) : System tiny :=
  [.connect [true, true, true] [true, true] [], .request (reqFor 7), .tick, .request (reqFor 8), .tick].foldl
    (System.replay fun _ _ => True) { tlb := t }

/-- They get it. -/
def joined (t : TLB tiny) : System tiny :=
  [.deliver 0, .tick, .tick, .tick].foldl (System.replay fun _ _ => True) ((waiting₂ t).answer 0 (pageAt 4096))

theorem reaches_joined {t : TLB tiny} (ht : build tiny = .ok t) : Reaches (Rules.plain tiny) (joined t) [] := by
  have hwaiting : Reaches (Rules.plain tiny) (waiting₂ t) [] :=
    .replay (fun _ _ _ => trivial) (.init ht) (by simp [Rules.Allows, Rules.plain])
  have hreq : (waiting₂ t).tlb.bottomPort.outgoing = [reqToBottom tiny 0 (reqFor 7)] := by
    cases ht
    decide +kernel
  refine .replay (fun _ _ _ => trivial) (.answer 0 (pageAt 4096) hwaiting fun req h => ?_) (by simp [Rules.Allows])
  rw [hreq] at h
  cases h
  exact ⟨rfl, rfl, rfl⟩

theorem answered_of_reaches_joined : ∃ t, build tiny = .ok t ∧ completedOf (joined t).tlb.log = [reqFor 7, reqFor 8] ∧
    outstanding (joined t).tlb (joined t).answers = 0 ∧ Answered (joined t) :=
  ⟨_, rfl, by decide +kernel, by decide +kernel, answered_of_reaches (reaches_joined rfl)⟩

/-- **What the TLB keeps**, in every run without control requests: the sets, and the entry that responds, have only pages that
the lower level returned; an entry waits for each page asked for below, with the requests for it; and no ID is under way
twice. -/
theorem returned_of_reaches {s : System cfg} {ks : List Call} (h : Reaches (Rules.plain cfg) s ks) :
    (∀ i, Sound cfg.numWays (· ∈ returnedOf s.tlb.log) (s.tlb.sets i)) ∧
      (∀ e ∈ s.tlb.respondingMSHREntry, e.requests ≠ [] ∧ e.page ∈ returnedOf s.tlb.log ∧
        ∀ req ∈ e.requests, req.pid = e.page.pid ∧ req.vAddr = e.page.vAddr) ∧
      (∀ e ∈ s.tlb.mshr, e.requests ≠ [] ∧ ∀ req ∈ e.requests, req.pid = e.pid ∧ req.vAddr = e.vAddr) ∧
      (↑(s.tlb.mshr.map pendingOfEntry) : Multiset Pending) = outstanding s.tlb s.answers ∧
      ((outstanding s.tlb s.answers).map Prod.fst).Nodup :=
  have hi := inv_of_reaches h
  ⟨hi.sets, hi.responding, hi.entries, hi.pending, hi.nodup⟩

/-- The page is kept, and a request for another page is under way. -/
theorem returned_of_reaches_joined : ∃ t, build tiny = .ok t ∧ ∃ s,
    [.request { reqFor 9 with vAddr := 8192 }, .tick].foldl (System.replay fun _ _ => True) (joined t) = s ∧
    returnedOf s.tlb.log = [pageAt 4096] ∧ s.tlb.mshr.length = 1 ∧ (∀ i, Sound 1 (· ∈ returnedOf s.tlb.log) (s.tlb.sets i)) ∧
    (↑(s.tlb.mshr.map pendingOfEntry) : Multiset Pending) = outstanding s.tlb s.answers := by
  refine ⟨_, rfl, _, rfl, by decide +kernel, by decide +kernel, ?_⟩
  have h := returned_of_reaches (.replay (G := fun _ _ => True) (fun _ _ _ => trivial) (reaches_joined rfl)
    (by simp [Rules.Allows, Rules.plain] :
      ∀ i ∈ [.request { reqFor 9 with vAddr := 8192 }, .tick], (Rules.plain tiny).Allows i))
  exact ⟨h.1, h.2.2.2.1⟩

end Akita.Vm.Tlb
