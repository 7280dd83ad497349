import Akita.Multisets
import Akita.Vm.Mmu.Runs

/-!
# Conservation of translation requests in the MMU

* `keep` : what the removal list leaves of the walks;
* `Ordered m ks` : each walk of the tick is finished at most once, and removed at the end of the loop;
* `Inv m` : each accepted request is answered, walking, queued or the one whose migration is under way.

`requests_conserved` : all of this in every run.
-/

namespace Akita.Vm.Mmu
open Mem Sim
open Multiset (add_cons coe_add cons_add cons_coe singleton_add)
open List hiding getElem?_eq_some_iff
open Prod (fst snd)

variable {cfg : Config}

/-! ## Removal -/

section keep

variable {α β : Type}

variable {i : Nat}

theorem coe_keep_concat_from {rm : List Nat} (hrm : i ∉ rm) (l : List α) (k : Nat) {x : α} (hk : k ≤ i)
    (hx : l[i - k]? = some x) :
    (↑(((l.zipIdx k).filter fun y => !rm.contains y.2).map fst) : Multiset α) =
      x ::ₘ ↑(((l.zipIdx k).filter fun y => !(rm ++ [i]).contains y.2).map fst) := by
  induction l generalizing k with
  | nil => simp at hx
  | cons y l ih =>
    rw [zipIdx_cons]
    by_cases hik : k = i
    · subst hik
      rw [Nat.sub_self] at hx
      cases hx
      -- the indices that follow are larger
      have hrest : ((l.zipIdx (k + 1)).filter fun y => !(rm ++ [k]).contains y.2) =
          (l.zipIdx (k + 1)).filter fun y => !rm.contains y.2 := by
        apply filter_congr
        intro z hz
        have hle := le_snd_of_mem_zipIdx hz
        simp only [contains_eq_mem, mem_append, mem_singleton]
        have hne : z.2 ≠ k := by omega
        simp [hne]
      rw [filter_cons_of_pos (by simpa using hrm), filter_cons_of_neg (by simp), hrest, map_cons, cons_coe]
    · have hlt : k + 1 ≤ i := by omega
      have hx' : l[i - (k + 1)]? = some x := by
        rw [show i - k = i - (k + 1) + 1 by omega, getElem?_cons_succ] at hx
        exact hx
      have ih := ih (k + 1) hlt hx'
      have hcontains : (rm ++ [i]).contains k = rm.contains k := by
        simp [hik]
      by_cases hmem : rm.contains k = true
      · rw [filter_cons_of_neg (by simp only [hmem]; decide), filter_cons_of_neg (by simp only [hcontains, hmem]; decide), ih]
      · have hmem : rm.contains k = false := by simpa using hmem
        rw [filter_cons_of_pos (by simp only [hmem]; decide), filter_cons_of_pos (by simp only [hcontains, hmem]; decide),
          map_cons, map_cons, ← cons_coe, ← cons_coe, ih, Multiset.cons_swap]

theorem coe_keep_concat {rm : List Nat} (hrm : i ∉ rm) {l : List α} {x : α} (hx : l[i]? = some x) :
    (↑(keep rm l) : Multiset α) = x ::ₘ ↑(keep (rm ++ [i]) l) :=
  coe_keep_concat_from hrm l 0 (Nat.zero_le i) hx

theorem keep_nil (l : List α) : keep [] l = l := by
  simp [keep]

theorem keep_map (f : α → β) (rm : List Nat) (l : List α) : keep rm (l.map f) = (keep rm l).map f := by
  simp only [keep, zipIdx_map, filter_map, map_map]
  rfl

theorem map_set_of_eq {f : α → β} {l : List α} {x x' : α} (hi : l[i]? = some x) (hf : f x' = f x) :
    (l.set i x').map f = l.map f := by
  apply ext_getElem?
  intro j
  rw [getElem?_map, getElem?_map, getElem?_set]
  by_cases hij : i = j
  · subst hij
    obtain ⟨hlt, -⟩ := List.getElem?_eq_some_iff.mp hi
    rw [if_pos rfl, if_pos hlt, hi]
    exact congrArg some hf
  · rw [if_neg hij]

end keep

/-! ## The order of the calls -/

/-- `walks` : the walks still to do are of the list and not removed; `nodup` : each call is done once; `last` : no walk is
done after the removal, which comes before the new requests; `removal` : the removal follows the walks. -/
structure Ordered (m : MMU cfg) (ks : List Call) : Prop where
  walks : ∀ i, Call.walk i ∈ ks → i < m.walkingTranslations.length ∧ i ∉ m.toRemoveFromPTW
  nodup : ks.Nodup
  last : ks.Pairwise fun k l => (k = .remove → ∀ i, l ≠ .walk i) ∧ (k = .parse → l ≠ .remove)
  removal : (∃ i, Call.walk i ∈ ks) ∨ m.toRemoveFromPTW ≠ [] → .remove ∈ ks
  distinct : m.toRemoveFromPTW.Nodup
  inRange : ∀ i ∈ m.toRemoveFromPTW, i < m.walkingTranslations.length

variable {ks : List Call}

theorem Ordered.of_same {m m' : MMU cfg} (h : Ordered m ks)
    (hlen : m'.walkingTranslations.length = m.walkingTranslations.length) (hrm : m'.toRemoveFromPTW = m.toRemoveFromPTW) :
    Ordered m' ks := by
  refine ⟨fun i hi => ?_, h.nodup, h.last, ?_, ?_, ?_⟩
  · rw [hlen, hrm]
    exact h.walks i hi
  · rw [hrm]
    exact h.removal
  · rw [hrm]
    exact h.distinct
  · rw [hlen, hrm]
    exact h.inRange

theorem Ordered.toRemove_nil {m : MMU cfg} (h : Ordered m ks) (hks : .remove ∉ ks) : m.toRemoveFromPTW = [] := by
  by_contra hne
  exact hks (h.removal (.inr hne))

theorem Ordered.schedule {m : MMU cfg} (h : Ordered m []) : Ordered m (schedule m) := by
  have hnil := h.toRemove_nil not_mem_nil
  refine ⟨?_, ?_, ?_, fun _ => by simp [Mmu.schedule], h.distinct, h.inRange⟩
  · intro i hi
    simp only [Mmu.schedule, mem_append, mem_map, mem_range, mem_cons, not_mem_nil, or_false, reduceCtorEq,
      false_or, Call.walk.injEq] at hi
    obtain ⟨j, hj, rfl⟩ := hi
    rw [hnil]
    exact ⟨hj, not_mem_nil⟩
  · have hwalks : ((range m.walkingTranslations.length).map Call.walk).Nodup :=
      nodup_range.map fun i j hij => Call.walk.inj hij
    simp [Mmu.schedule, nodup_append, hwalks]
  · have hwalks : (range m.walkingTranslations.length).Pairwise fun _ _ => True := pairwise_of_forall fun _ _ => trivial
    simp [Mmu.schedule, pairwise_append, pairwise_map, hwalks]

variable {k : Call}

theorem Ordered.tail_of_same {m m' : MMU cfg} (h : Ordered m (k :: ks)) (hk : k ≠ .remove)
    (hlen : m.walkingTranslations.length ≤ m'.walkingTranslations.length) (hrm : m'.toRemoveFromPTW = m.toRemoveFromPTW) :
    Ordered m' ks := by
  refine ⟨fun i hi => ?_, (nodup_cons.mp h.nodup).2, h.last.tail, fun hne => ?_, ?_, fun i hi => ?_⟩
  · have hwalk := h.walks i (mem_cons_of_mem _ hi)
    rw [hrm]
    exact ⟨by omega, hwalk.2⟩
  · rw [hrm] at hne
    have hremove := h.removal (hne.imp_left fun ⟨i, hi⟩ => ⟨i, mem_cons_of_mem _ hi⟩)
    exact (mem_cons.mp hremove).resolve_left (Ne.symm hk)
  · rw [hrm]
    exact h.distinct
  · rw [hrm] at hi
    have := h.inRange i hi
    omega

variable {i : Nat}

theorem Ordered.tail_of_walk {m m' : MMU cfg} (h : Ordered m (.walk i :: ks))
    (hlen : m'.walkingTranslations.length = m.walkingTranslations.length)
    (hrm : m'.toRemoveFromPTW = m.toRemoveFromPTW ++ [i]) : Ordered m' ks := by
  obtain ⟨_, hnew⟩ := h.walks i mem_cons_self
  have hnodup := nodup_cons.mp h.nodup
  refine ⟨fun j hj => ?_, hnodup.2, h.last.tail, fun _ => ?_, ?_, fun j hj => ?_⟩
  · have hwalk := h.walks j (mem_cons_of_mem _ hj)
    have hne : j ≠ i := by
      rintro rfl
      exact hnodup.1 hj
    rw [hlen, hrm]
    exact ⟨hwalk.1, by simp [hwalk.2, hne]⟩
  · have hremove := h.removal (.inl ⟨i, mem_cons_self⟩)
    exact (mem_cons.mp hremove).resolve_left Call.noConfusion
  · rw [hrm, nodup_append]
    exact ⟨h.distinct, nodup_singleton i, fun a ha b hb hab => hnew (by rw [mem_singleton.mp hb] at hab; rwa [← hab])⟩
  · rw [hrm] at hj
    rw [hlen]
    rcases mem_append.mp hj with hj | hj
    · exact h.inRange j hj
    · rwa [mem_singleton.mp hj]

theorem Ordered.tail_of_remove {m : MMU cfg} (h : Ordered m (.remove :: ks)) : Ordered (removeWalked m) ks := by
  have hlast := (pairwise_cons.mp h.last).1
  refine ⟨fun i hi => absurd rfl ((hlast _ hi).1 rfl i), (nodup_cons.mp h.nodup).2, h.last.tail, ?_,
    nodup_nil, forall_mem_nil _⟩
  rintro (⟨i, hi⟩ | hne)
  · exact absurd rfl ((hlast _ hi).1 rfl i)
  · exact absurd rfl hne

theorem Ordered.step {m m' : MMU cfg} (h : Ordered m (k :: ks)) (hs : Step m k m') : Ordered m' ks := by
  cases hs with
  | idle _ hk => exact h.tail_of_same hk (le_refl _) rfl
  | sent | resolve | migrate => exact h.tail_of_same Call.noConfusion (le_refl _) rfl
  | countdown | stay => exact h.tail_of_same Call.noConfusion (by simp) rfl
  | enqueue | hit => exact h.tail_of_walk (by simp) rfl
  | remove => exact h.tail_of_remove
  | migrationReturn => exact h.tail_of_same Call.noConfusion (le_refl _) rfl
  | start => exact h.tail_of_same Call.noConfusion (by simp) rfl

/-! ## Conservation -/

def Event.received? : Event → Option TranslationReq
  | .reqReceive req => some req
  | _ => none

def Event.answered? : Event → Option (TranslationReq × TranslationRsp)
  | .answer req rsp => some (req, rsp)
  | _ => none

def TopMsg.rsp? : TopMsg → Option TranslationRsp
  | .rsp r => some r
  | .pageLoad _ => none

/-- The requests accepted. -/
def receivedOf (log : List Event) : List TranslationReq := log.filterMap Event.received?

/-- The requests answered, with their answers. -/
def answersOf (log : List Event) : List (TranslationReq × TranslationRsp) := log.filterMap Event.answered?

/-- Everything handed to the top sender so far. -/
def handed (m : MMU cfg) : List TopMsg := m.topPort.outgoing ++ m.topSender.buffer.elements

/-- The response answers the request, with the page of its process and address. -/
structure Answers (pt : PageTable) (req : TranslationReq) (rsp : TranslationRsp) : Prop where
  respondTo : rsp.respondTo = req.id
  pid : rsp.page.pid = req.pid
  vAddr : rsp.page.vAddr = pt.alignToPage req.vAddr

/-- The requests that walk, without those to be removed. -/
def walkingReqs (m : MMU cfg) : List TranslationReq := keep m.toRemoveFromPTW (m.walkingTranslations.map (·.req))

/-- The request whose migration is under way. -/
def migratingReq (m : MMU cfg) : Option TranslationReq :=
  if m.isDoingMigration then m.currentOnDemandMigration.map (·.req) else none

/-- The requests accepted and not answered. -/
def waiting (m : MMU cfg) : Multiset TranslationReq :=
  ↑(walkingReqs m) + ↑(m.migrationQueue.map (·.req)) + ↑(migratingReq m).toList

/-- `balance` : each accepted request is answered or waits in one place; `owed` : the driver owes an answer, or its answer
waits, exactly while a migration is under way. -/
structure Inv (m : MMU cfg) : Prop where
  answers : ∀ a ∈ answersOf m.log, Answers m.pageTable a.1 a.2
  responses : (handed m).filterMap TopMsg.rsp? = (answersOf m.log).map snd
  balance : (↑(receivedOf m.log) : Multiset TranslationReq) = ↑((answersOf m.log).map fst) + waiting m
  owed : m.migrationPort.outgoing.length + m.migrationPort.buf.elements.length = if m.isDoingMigration then 1 else 0
  current : m.isDoingMigration = true → m.currentOnDemandMigration.isSome = true

variable {req : TranslationReq}

/-- What the change of the page table leaves of the address of a page. -/
theorem Answers.of_align {pt pt' : PageTable} {rsp : TranslationRsp} (h : Answers pt req rsp)
    (halign : ∀ addr, pt'.alignToPage addr = pt.alignToPage addr) : Answers pt' req rsp :=
  ⟨h.respondTo, h.pid, by rw [halign]; exact h.vAddr⟩

theorem answers_rspOf (cfg : Config) {pt : PageTable} {page : Page} (h : pt.find req.pid req.vAddr = some page) (dst : PortID)
    (taskID : String) : Answers pt req (rspOf cfg dst req page taskID) :=
  ⟨rfl, (PageTable.key_of_find h).1, (PageTable.key_of_find h).2⟩

theorem Inv.of_same {m m' : MMU cfg} (h : Inv m) (hreceived : receivedOf m'.log = receivedOf m.log)
    (hanswers : answersOf m'.log = answersOf m.log) (hhanded : handed m' = handed m)
    (halign : ∀ addr, m'.pageTable.alignToPage addr = m.pageTable.alignToPage addr) (hwait : waiting m' = waiting m)
    (howed : m'.migrationPort.outgoing.length + m'.migrationPort.buf.elements.length = if m'.isDoingMigration then 1 else 0)
    (hcurrent : m'.isDoingMigration = true → m'.currentOnDemandMigration.isSome = true) : Inv m' := by
  refine ⟨?_, ?_, ?_, howed, hcurrent⟩
  · rw [hanswers]
    exact fun a ha => (h.answers a ha).of_align halign
  · rw [hhanded, hanswers]
    exact h.responses
  · rw [hreceived, hanswers, hwait]
    exact h.balance

theorem Inv.answer {m m' : MMU cfg} {rsp : TranslationRsp} (h : Inv m) (hans : Answers m.pageTable req rsp)
    (hreceived : receivedOf m'.log = receivedOf m.log) (hanswers : answersOf m'.log = answersOf m.log ++ [(req, rsp)])
    (hhanded : (handed m').filterMap TopMsg.rsp? = (handed m).filterMap TopMsg.rsp? ++ [rsp])
    (halign : ∀ addr, m'.pageTable.alignToPage addr = m.pageTable.alignToPage addr) (hwait : waiting m = req ::ₘ waiting m')
    (howed : m'.migrationPort.outgoing.length + m'.migrationPort.buf.elements.length = if m'.isDoingMigration then 1 else 0)
    (hcurrent : m'.isDoingMigration = true → m'.currentOnDemandMigration.isSome = true) : Inv m' := by
  refine ⟨?_, ?_, ?_, howed, hcurrent⟩
  · intro a ha
    rw [hanswers] at ha
    rcases mem_append.mp ha with ha | ha
    · exact (h.answers a ha).of_align halign
    · rw [mem_singleton.mp ha]
      exact hans.of_align halign
  · rw [hhanded, hanswers, h.responses, map_append, map_cons, map_nil]
  · rw [hreceived, hanswers, h.balance, hwait, map_append, map_cons, map_nil, coe_concat, add_cons, cons_add]

section give

variable (m : MMU cfg)

theorem receivedOf_answer (req : TranslationReq) (rsp : TranslationRsp) :
    receivedOf (answer m req rsp).log = receivedOf m.log := by
  simp [receivedOf, answer, give, filterMap_cons, Event.received?]

theorem answersOf_answer (req : TranslationReq) (rsp : TranslationRsp) :
    answersOf (answer m req rsp).log = answersOf m.log ++ [(req, rsp)] := by
  simp [answersOf, answer, give, filterMap_cons, Event.answered?]

theorem handed_answer (req : TranslationReq) (rsp : TranslationRsp) : handed (answer m req rsp) = handed m ++ [.rsp rsp] := by
  simp [handed, answer, give]

theorem receivedOf_giveAll (msgs : List TopMsg) : receivedOf (giveAll m msgs).log = receivedOf m.log := by
  induction msgs generalizing m with
  | nil => rfl
  | cons msg _ ih =>
    refine (ih (give m msg)).trans ?_
    simp [receivedOf, give, Event.received?]

theorem answersOf_giveAll (msgs : List TopMsg) : answersOf (giveAll m msgs).log = answersOf m.log := by
  induction msgs generalizing m with
  | nil => rfl
  | cons msg _ ih =>
    refine (ih (give m msg)).trans ?_
    simp [answersOf, give, Event.answered?]

theorem handed_giveAll (msgs : List TopMsg) : handed (giveAll m msgs) = handed m ++ msgs := by
  induction msgs generalizing m with
  | nil => exact (append_nil _).symm
  | cons msg _ ih =>
    refine (ih (give m msg)).trans ?_
    simp [handed, give]

end give

theorem rsps_of_loads {loads : List TopMsg} (h : ∀ msg ∈ loads, ∃ load, msg = .pageLoad load) :
    loads.filterMap TopMsg.rsp? = [] := by
  apply filterMap_eq_nil_iff.mpr
  intro msg hmsg
  obtain ⟨_, rfl⟩ := h msg hmsg
  rfl

theorem map_req_set {walkings : List Transaction} {walking walking' : Transaction} (hi : walkings[i]? = some walking)
    (hreq : walking'.req = walking.req) : (walkings.set i walking').map (·.req) = walkings.map (·.req) :=
  map_set_of_eq hi hreq

theorem waiting_walk {m : MMU cfg} {walking : Transaction} (hi : m.walkingTranslations[i]? = some walking)
    (hnew : i ∉ m.toRemoveFromPTW) :
    (↑(walkingReqs m) : Multiset TranslationReq) =
      walking.req ::ₘ ↑(keep (m.toRemoveFromPTW ++ [i]) (m.walkingTranslations.map (·.req))) := by
  apply coe_keep_concat hnew
  rw [getElem?_map, hi]
  rfl

theorem align_of_set {pt pt' : PageTable} {page : Page} (h : pt' = pt ∨ pt' = pt.set page) (addr : VAddr) :
    pt'.alignToPage addr = pt.alignToPage addr := by
  rcases h with rfl | rfl <;> rfl

/-- The driver's answer waits only while a migration is under way, and then the driver owes nothing. -/
theorem Inv.doing_of_peek {m : MMU cfg} (h : Inv m) {rsp : PageMigrationRspFromDriver}
    (hrsp : m.migrationPort.peek = some rsp) : m.isDoingMigration = true ∧ m.migrationPort.outgoing = [] := by
  have howed := h.owed
  rw [Buffer.peek_eq_some hrsp, length_cons] at howed
  cases hdoing : m.isDoingMigration with
  | true =>
    rw [hdoing, if_pos rfl] at howed
    exact ⟨rfl, length_eq_zero_iff.mp (by omega)⟩
  | false =>
    rw [hdoing, if_neg Bool.false_ne_true] at howed
    omega

theorem Inv.step {m m' : MMU cfg} (h : Inv m) (ho : Ordered m (k :: ks)) (hs : Step m k m') : Inv m' := by
  cases hs with
  | idle => exact h.of_same rfl rfl rfl (fun _ => rfl) rfl h.owed h.current
  | sent _ _ hmsg =>
    refine h.of_same rfl rfl ?_ (fun _ => rfl) rfl h.owed h.current
    simp only [handed, append_assoc, singleton_append, Buffer.peek_eq_some hmsg]
  | resolve t _ _ _ hqueue hpage _ htable =>
    refine h.answer (answers_rspOf cfg hpage t.req.originPort "") (receivedOf_answer ..) (answersOf_answer ..) ?_
      (align_of_set htable) ?_
      h.owed h.current
    · exact (congrArg (filterMap TopMsg.rsp?) (handed_answer m t.req _)).trans (filterMap_append ..)
    · simp only [waiting, hqueue, map_cons, ← cons_coe, add_cons, cons_add]
      rfl
  | migrate _ _ _ _ _ _ hqueue _ _ hidle =>
    have howed := h.owed
    rw [hidle, if_neg Bool.false_ne_true] at howed
    refine h.of_same ?_ ?_ rfl (fun _ => rfl) ?_ ?_ fun _ => rfl
    · simp [receivedOf, filterMap_cons, Event.received?]
    · simp [answersOf, filterMap_cons, Event.answered?]
    · simp only [waiting, hqueue, map_cons, ← cons_coe, add_cons, cons_add, migratingReq, hidle]
      simp only [Bool.false_eq_true, if_false, if_true, Option.map_some, Option.toList_none,
        Option.toList_some, Multiset.coe_nil, Multiset.coe_singleton, add_zero]
      rw [add_comm, singleton_add]
      rfl
    · simp only [length_append, length_singleton, if_true]
      omega
  | countdown | stay =>
    refine h.of_same rfl rfl rfl (fun _ => rfl) ?_ h.owed h.current
    simp only [waiting, walkingReqs, map_req_set ‹_›]
    rfl
  | enqueue i _ _ hwalking =>
    refine h.of_same rfl rfl rfl (fun _ => rfl) ?_ h.owed h.current
    obtain ⟨-, hnew⟩ := ho.walks i mem_cons_self
    simp only [waiting, waiting_walk hwalking hnew]
    simp only [walkingReqs, map_req_set hwalking, map_append, map_cons, map_nil, coe_concat, add_cons, cons_add]
    rfl
  | hit i walking page _ loads hwalking _ hpage _ _ _ hloads =>
    obtain ⟨-, hnew⟩ := ho.walks i mem_cons_self
    refine h.answer (answers_rspOf cfg hpage walking.req.src walking.req.taskID) ?_ ?_ ?_ (fun _ => rfl) ?_ ?_ ?_
    · exact (receivedOf_giveAll _ loads).trans (receivedOf_answer ..)
    · exact (answersOf_giveAll _ loads).trans (answersOf_answer ..)
    · refine (congrArg (filterMap TopMsg.rsp?)
        ((handed_giveAll _ loads).trans (congrArg (· ++ loads) (handed_answer ..)))).trans ?_
      rw [filterMap_append, filterMap_append, rsps_of_loads hloads, append_nil]
      rfl
    · simp only [waiting, waiting_walk hwalking hnew]
      obtain ⟨topSender, credit, log, hgive⟩ := giveAll_frame loads (Mmu.answer { m with credit := 1 } walking.req
        (rspOf cfg walking.req.src walking.req page walking.req.taskID))
      simp only [hgive, walkingReqs, map_req_set hwalking, cons_add]
      rfl
    · obtain ⟨topSender, credit, log, hgive⟩ := giveAll_frame loads (Mmu.answer { m with credit := 1 } walking.req
        (rspOf cfg walking.req.src walking.req page walking.req.taskID))
      simp only [hgive]
      exact h.owed
    · obtain ⟨_, credit, log, hgive⟩ := giveAll_frame loads (Mmu.answer { m with credit := 1 } walking.req
        (rspOf cfg walking.req.src walking.req page walking.req.taskID))
      simp only [hgive]
      exact h.current
  | remove =>
    refine h.of_same rfl rfl rfl (fun _ => rfl) ?_ h.owed h.current
    simp only [waiting, walkingReqs, removeWalked, keep_nil, keep_map]
    rfl
  | migrationReturn _ t page _ hrsp hcurrent hpage =>
    obtain ⟨hdoing, houtgoing⟩ := h.doing_of_peek hrsp
    have hbuf : m.migrationPort.buf.pop.elements = [] := by
      have howed := h.owed
      rw [houtgoing, hdoing, Buffer.peek_eq_some hrsp, length_cons, if_pos rfl] at howed
      exact length_eq_zero_iff.mp (by simpa using howed)
    refine h.answer (answers_rspOf cfg hpage t.req.originPort "") ?_ ?_ ?_ (fun _ => rfl) ?_ ?_
      (fun hfalse => absurd hfalse Bool.false_ne_true)
    · refine (receivedOf_answer ..).trans ?_
      simp [receivedOf, filterMap_cons, Event.received?]
    · refine (answersOf_answer ..).trans ?_
      simp [answersOf, filterMap_cons, Event.answered?]
    · exact (congrArg (filterMap TopMsg.rsp?)
        (handed_answer { m with credit := 1, log := m.log ++ [Event.migrated page] } t.req
        (rspOf cfg t.req.originPort t.req page ""))).trans (filterMap_append ..)
    · have hwait : waiting m = ↑(walkingReqs m) + ↑(m.migrationQueue.map (·.req)) + {t.req} := by
        simp [waiting, migratingReq, hdoing, hcurrent]
      rw [hwait, add_comm, singleton_add]
      exact congrArg (t.req ::ₘ ·) (add_zero _).symm
    · show m.migrationPort.outgoing.length + m.migrationPort.buf.pop.elements.length = 0
      rw [houtgoing, hbuf]
      rfl
  | start reqs =>
    have hnil : m.toRemoveFromPTW = [] := by
      by_contra hne
      rcases mem_cons.mp (ho.removal (.inr hne)) with hremove | hremove
      · exact Call.noConfusion hremove
      · exact ((pairwise_cons.mp ho.last).1 _ hremove).2 rfl rfl
    have hwait : waiting m = ↑(m.walkingTranslations.map (·.req)) + ↑(m.migrationQueue.map (·.req)) +
        ↑(migratingReq m).toList := by
      rw [waiting, walkingReqs, hnil, keep_nil]
    have hreceived : receivedOf (m.log ++ reqs.map Event.reqReceive) = receivedOf m.log ++ reqs := by
      rw [receivedOf, filterMap_append, filterMap_map]
      exact congrArg (receivedOf m.log ++ ·) filterMap_some
    have hanswers : answersOf (m.log ++ reqs.map Event.reqReceive) = answersOf m.log := by
      rw [answersOf, filterMap_append, filterMap_map]
      exact (congrArg (answersOf m.log ++ ·) (filterMap_eq_nil_iff.mpr fun _ _ => rfl)).trans (append_nil _)
    refine ⟨?_, ?_, ?_, h.owed, h.current⟩
    · rw [hanswers]
      exact h.answers
    · rw [hanswers]
      exact h.responses
    · rw [hreceived, hanswers, ← coe_add, h.balance, hwait]
      simp only [waiting, walkingReqs, hnil, keep_nil, map_append, map_map, ← coe_add, Function.comp_def, map_id']
      simp only [add_assoc, add_comm, migratingReq]

/-! ## Runs -/

theorem Inv.init (pageTable : PageTable) : Inv ({ pageTable } : MMU cfg) :=
  ⟨forall_mem_nil _, rfl, rfl, rfl, fun h => absurd h Bool.false_ne_true⟩

theorem Inv.request {m : MMU cfg} (h : Inv m) (req : TranslationReq) : Inv (m.request req) := by
  unfold MMU.request Port.recv
  split
  next hrecv =>
    split at hrecv
    · cases hrecv
      exact ⟨h.answers, h.responses, h.balance, h.owed, h.current⟩
    · cases hrecv
  next => exact h

theorem Inv.relocate {m : MMU cfg} (h : Inv m) (deviceID pAddr : UInt64) : Inv (m.relocate deviceID pAddr) := by
  unfold MMU.relocate
  split
  · split
    · exact h.of_same rfl rfl rfl (fun _ => rfl) rfl h.owed h.current
    · exact h
  · exact h

theorem Inv.respond {m : MMU cfg} (h : Inv m) (rsp : PageMigrationRspFromDriver) : Inv (m.respond rsp) := by
  unfold MMU.respond Port.recv
  split
  next => exact h
  next outgoing houtgoing =>
    split
    next hrecv =>
      split at hrecv
      · cases hrecv
        refine h.of_same rfl rfl rfl (fun _ => rfl) rfl ?_ h.current
        have howed := h.owed
        rw [houtgoing, length_cons] at howed
        simp only [length_append, length_singleton]
        omega
      · cases hrecv
    next => exact h

theorem Ordered.init (pageTable : PageTable) : Ordered ({ pageTable } : MMU cfg) [] :=
  ⟨fun _ hi => absurd hi not_mem_nil, nodup_nil, List.Pairwise.nil,
    fun h => absurd rfl (h.resolve_left fun ⟨_, hi⟩ => absurd hi not_mem_nil), nodup_nil, forall_mem_nil _⟩

theorem inv_of_reaches {G : MMU cfg → Call → Prop} {m : MMU cfg} (h : Reaches G m ks) : Inv m ∧ Ordered m ks := by
  induction h with
  | init pageTable => exact ⟨.init pageTable, .init pageTable⟩
  | request req _ ih =>
    refine ⟨ih.1.request req, ?_⟩
    unfold MMU.request
    split
    · exact ih.2.of_same rfl rfl
    · exact ih.2
  | connect _ _ _ ih => exact ⟨ih.1.of_same rfl rfl rfl (fun _ => rfl) rfl ih.1.owed ih.1.current, ih.2.of_same rfl rfl⟩
  | relocate deviceID pAddr _ ih =>
    refine ⟨ih.1.relocate deviceID pAddr, ?_⟩
    unfold MMU.relocate
    split
    · split
      · exact ih.2.of_same rfl rfl
      · exact ih.2
    · exact ih.2
  | respond rsp _ ih =>
    refine ⟨ih.1.respond rsp, ?_⟩
    unfold MMU.respond
    split
    · exact ih.2
    · split
      · exact ih.2.of_same rfl rfl
      · exact ih.2
  | tick _ ih => exact ⟨ih.1, ih.2.schedule⟩
  | call _ _ hexec ih => exact ⟨ih.1.step ih.2 (Call.step hexec), ih.2.step (Call.step hexec)⟩

/-- `answers`, `responses` : the responses handed over answer the requests answered, one each, in this order; `balance` : each
accepted request is answered, walking, queued for migration or the one whose migration is under way, and only one of these;
`removed` : a finished walk is removed once, by the end of its tick; `settled` : when the driver owes nothing and nothing
walks or is queued, each accepted request has been answered. -/
structure Conserved (m : MMU cfg) (ks : List Call) : Prop where
  answers : ∀ a ∈ answersOf m.log, Answers m.pageTable a.1 a.2
  responses : (handed m).filterMap TopMsg.rsp? = (answersOf m.log).map snd
  balance : (↑(receivedOf m.log) : Multiset TranslationReq) =
    ↑((answersOf m.log).map fst) + (↑(walkingReqs m) + ↑(m.migrationQueue.map (·.req)) + ↑(migratingReq m).toList)
  removed : m.toRemoveFromPTW.Nodup ∧ (∀ i ∈ m.toRemoveFromPTW, i < m.walkingTranslations.length) ∧
    (ks = [] → m.toRemoveFromPTW = [])
  settled : m.migrationPort.outgoing = [] → m.migrationPort.buf.elements = [] → m.walkingTranslations = [] →
    m.migrationQueue = [] →
    (↑(receivedOf m.log) : Multiset TranslationReq) = ↑((answersOf m.log).map fst)

/-- **Conservation.** In every run no accepted request is lost or answered twice. -/
theorem requests_conserved {m : MMU cfg} {ks : List Call} (h : Reaches (fun _ _ => True) m ks) : Conserved m ks := by
  obtain ⟨hi, ho⟩ := inv_of_reaches h
  refine ⟨hi.answers, hi.responses, hi.balance, ⟨ho.distinct, ho.inRange, ?_⟩, ?_⟩
  · rintro rfl
    exact ho.toRemove_nil not_mem_nil
  · intro houtgoing hbuf hwalking hqueue
    have howed := hi.owed
    rw [houtgoing, hbuf] at howed
    have hdoing : m.isDoingMigration = false := by
      by_contra hdoing
      rw [if_pos (by simpa using hdoing)] at howed
      exact absurd howed (by decide)
    rw [hi.balance, waiting, walkingReqs, migratingReq, hwalking, hqueue, hdoing]
    simp [keep]

/-- An MMU without latency. -/
def fast : Config :=
  { latency := 0, topPort := 0, migrationPort := 1, migrationServiceProvider := 2, innerLoop := fun _ => 0,
    middleLoop := fun _ => 0, gmmuCacheTable := fun _ => some 3 }

/-- A page of device 1 that may migrate. -/
def unifiedPage : PageTable :=
  PageTable.empty.set
    { pid := 1, vAddr := 0x1000, pAddr := 0x2000, pageSize := 4096, valid := true, deviceID := 1, unified := true }

def remoteReq : TranslationReq := { id := 7, src := 5, vAddr := 0x1000, pid := 1, deviceID := 2, originPort := 5 }

def otherReq : TranslationReq := { remoteReq with id := 8, deviceID := 3 }

section
variable (G : MMU fast → Call → Prop) [∀ m k, Decidable (G m k)]

/-- The page migrates for a request of device 2, and a request of device 3 is queued. -/
def migrating : MMU fast :=
  ((((((({ pageTable := unifiedPage } : MMU fast).request remoteReq).request otherReq).connect [true, true] [true]).tickIf
    G).tickIf G).tickIf G)

/-- Device 2 has the page, and both requests are answered. -/
def migrated : MMU fast :=
  ((((migrating G).relocate 2 0x3000).respond { vAddr := [0x1000], rspToTop := true }).tickIf G).tickIf G

theorem reaches_migrating : Reaches G (migrating G) [] :=
  (((((Reaches.init unifiedPage).request remoteReq).request otherReq).connect [true, true] [true]).tickIf).tickIf.tickIf

theorem reaches_migrated : Reaches G (migrated G) [] :=
  (((reaches_migrating G).relocate 2 0x3000).respond { vAddr := [0x1000], rspToTop := true }).tickIf.tickIf

end

theorem requests_conserved_migrated : ∃ m : MMU fast, migrated (fun _ _ => True) = m ∧
    (answersOf m.log).map (fun x => (x.1, x.2.page.deviceID)) = [(remoteReq, 2), (otherReq, 2)] ∧ Conserved m [] :=
  ⟨_, rfl, by decide +kernel, requests_conserved (reaches_migrated _)⟩

/-- **One migration at a time**, in every run: while a page migrates the driver owes one answer or one answer of it waits, and
otherwise none. -/
theorem owed_of_reaches {m : MMU cfg} {ks : List Call} (h : Reaches (fun _ _ => True) m ks) :
    m.migrationPort.outgoing.length + m.migrationPort.buf.elements.length = (if m.isDoingMigration then 1 else 0) ∧
      (m.isDoingMigration = true → m.currentOnDemandMigration.isSome = true) :=
  have hi := (inv_of_reaches h).1
  ⟨hi.owed, hi.current⟩

theorem owed_of_reaches_migrating : ∃ m : MMU fast, migrating (fun _ _ => True) = m ∧ migratingReq m = some remoteReq ∧
    m.migrationPort.outgoing.length + m.migrationPort.buf.elements.length = 1 := by
  have howed := (owed_of_reaches (reaches_migrating fun _ _ => True)).1
  exact ⟨_, rfl, by decide +kernel, howed.trans (by decide +kernel)⟩

end Akita.Vm.Mmu
