import Akita.Vm.Mmu.Exclusive

/-!
# The answers of the MMU

Three functions answer a request: `doPageWalkHit` at the end of its walk, `sendMigrationToDriver` from the migration queue,
and `processMigrationReturn` after its migration.

* `Agrees pt req rsp` : the response goes to the requester, with the task of the request and the page that is in the page
  table;
* `Resolves m t page`, `Returned m t page` : the migration paths answer the request of `t` with `page`;
* `Plainly m k` : the request that the call answers by one of these, if any, names its sender as the origin port, and no task;
* `answer_paths_agree_iff` : the answers of a call agree if and only if this is so.
-/

namespace Akita.Vm.Mmu
open Mem Sim Option List

variable {cfg : Config}

/-- What every response to a request should be. -/
structure Agrees (pt : PageTable) (req : TranslationReq) (rsp : TranslationRsp) : Prop where
  dst : rsp.dst = req.src
  respondTo : rsp.respondTo = req.id
  taskID : rsp.taskID = req.taskID
  page : pt.find req.pid req.vAddr = some rsp.page

/-- The head of the migration queue is answered: its page has come to the device, or is pinned. -/
structure Resolves (m : MMU cfg) (t : Transaction) (page : Page) : Prop where
  queue : m.migrationQueue.head? = some t
  found : m.pageTable.find t.req.pid t.req.vAddr = some page
  here : t.req.deviceID = page.deviceID ∨ page.isPinned = true

/-- The request whose migration the driver has completed is answered. -/
structure Returned (m : MMU cfg) (t : Transaction) (page : Page) : Prop where
  rsp : m.migrationPort.peek.isSome = true
  room : m.topSender.canSend 1 = .ok true
  current : m.currentOnDemandMigration = some t
  found : m.pageTable.find t.req.pid t.req.vAddr = some page

/-- The sender of the request is its origin, and it names no task. -/
def Plain (req : TranslationReq) : Prop := req.originPort = req.src ∧ req.taskID = ""

/-- The condition on a call. -/
def Plainly (m : MMU cfg) : Call → Prop
  | .migrate => ∀ t page, Resolves m t page → Plain t.req
  | .migrationReturn => ∀ t page, Returned m t page → Plain t.req
  | _ => True

section
variable {m m' : MMU cfg} {t : Transaction} {page : Page} {p : Bool}

theorem agrees_rspOf {pt : PageTable} {req : TranslationReq} {dst : PortID} {taskID : String}
    (hpage : pt.find req.pid req.vAddr = some page) :
    Agrees pt req (rspOf cfg dst req page taskID) ↔ dst = req.src ∧ taskID = req.taskID :=
  ⟨fun h => ⟨h.dst, h.taskID⟩, fun h => ⟨h.1, rfl, h.2, hpage⟩⟩

theorem agrees_migrated {pt : PageTable} {req : TranslationReq} (hpage : pt.find req.pid req.vAddr = some page) :
    Agrees pt req (rspOf cfg req.originPort req page "") ↔ Plain req := by
  rw [agrees_rspOf hpage, Plain, eq_comm (a := "")]

theorem Resolves.unique {t' : Transaction} {page' : Page} (h : Resolves m t page) (h' : Resolves m t' page') : t = t' :=
  some.inj (h.queue.symm.trans h'.queue)

theorem Returned.unique {t' : Transaction} {page' : Page} (h : Returned m t page) (h' : Returned m t' page') : t = t' :=
  some.inj (h.current.symm.trans h'.current)

theorem Resolves.answers (h : Resolves m t page) (hexec : sendMigrationToDriver m = .ok (p, m')) :
    answersOf m'.log = answersOf m.log ++ [(t.req, rspOf cfg t.req.originPort t.req page "")] := by
  obtain ⟨queue, hqueue⟩ := head?_eq_some_iff.mp h.queue
  unfold sendMigrationToDriver at hexec
  simp only [hqueue, h.found, if_pos h.here] at hexec
  obtain ⟨_, hm₁, hexec⟩ := eq_ok_of_bind hexec
  obtain ⟨_, hr, hexec⟩ := eq_ok_of_bind hexec
  cases hexec
  rw [sendTranlationRsp_returns _ _ _ hm₁] at hr
  rcases mark_returns _ _ _ hr with ⟨-, heq⟩ | ⟨-, heq⟩
  · rw [heq]
    exact answersOf_answer ..
  · rw [heq]
    exact answersOf_answer ..

theorem Returned.answers (h : Returned m t page) (hexec : processMigrationReturn m = .ok (p, m')) :
    answersOf m'.log = answersOf m.log ++ [(t.req, rspOf cfg t.req.originPort t.req page "")] := by
  obtain ⟨rsp, hrsp⟩ := isSome_iff_exists.mp h.rsp
  have hsend : canSend m = .ok (true, { m with credit := 1 }) := by
    rw [canSend, h.room]
    rfl
  unfold processMigrationReturn at hexec
  simp only [hrsp, hsend, bind, Except.bind, if_bnot_true, h.current, h.found] at hexec
  obtain ⟨m₁, hm₁, hexec⟩ := eq_ok_of_bind hexec
  obtain ⟨_, hr, hexec⟩ := eq_ok_of_bind hexec
  obtain ⟨_, -, hexec⟩ := eq_ok_of_bind hexec
  cases hexec
  have hm : answersOf m₁.log = answersOf m.log ++ [(t.req, rspOf cfg t.req.originPort t.req page "")] := by
    rw [sendTranlationRsp_returns _ _ _ hm₁]
    refine (answersOf_answer ..).trans ?_
    rw [answersOf, filterMap_concat]
    simp only [Event.answered?, toList_none, append_nil]
    rfl
  rcases mark_returns _ _ _ hr with ⟨-, heq⟩ | ⟨-, heq⟩
  · rw [heq]
    exact hm
  · rw [heq]
    exact hm

/-- The answers of a call agree if and only if the request that it answers for a migration is plain. -/
theorem exec_answers {k : Call} (hexec : k.exec m = .ok (p, m')) :
    ∃ new, answersOf m'.log = answersOf m.log ++ new ∧ ((∀ a ∈ new, Agrees m.pageTable a.1 a.2) ↔ Plainly m k) := by
  have hone : ∀ {a : TranslationReq × TranslationRsp} {P : Prop}, (Agrees m.pageTable a.1 a.2 ↔ P) →
      ((∀ b ∈ [a], Agrees m.pageTable b.1 b.2) ↔ P) := by
    intro a P h
    rw [← h]
    exact forall_mem_singleton
  have hnone : ∀ {P : Prop}, P → ((∀ a ∈ ([] : List (TranslationReq × TranslationRsp)), Agrees m.pageTable a.1 a.2) ↔ P) := by
    intro P h
    exact iff_of_true (forall_mem_nil _) h
  cases k with
  | migrate =>
    by_cases h : ∃ t page, Resolves m t page
    · obtain ⟨t, page, h⟩ := h
      refine ⟨_, h.answers hexec, hone
        ((agrees_migrated h.found).trans ⟨fun hplain t' page' h' => ?_, fun hall => hall t page h⟩)⟩
      rw [← h.unique h']
      exact hplain
    · refine ⟨[], ?_, hnone fun t page h' => absurd ⟨t, page, h'⟩ h⟩
      rw [append_nil]
      cases Call.step hexec with
      | idle => rfl
      | resolve t _ page _ hqueue hpage hhere => exact absurd ⟨t, page, ⟨by rw [hqueue]; rfl, hpage, hhere⟩⟩ h
      | migrate =>
        rw [answersOf, filterMap_concat]
        exact append_nil _
  | migrationReturn =>
    by_cases h : ∃ t page, Returned m t page
    · obtain ⟨t, page, h⟩ := h
      refine ⟨_, h.answers hexec, hone
        ((agrees_migrated h.found).trans ⟨fun hplain t' page' h' => ?_, fun hall => hall t page h⟩)⟩
      rw [← h.unique h']
      exact hplain
    · refine ⟨[], ?_, hnone fun t page h' => absurd ⟨t, page, h'⟩ h⟩
      rw [append_nil]
      cases Call.step hexec with
      | idle => rfl
      | migrationReturn _ t page _ hrsp hcurrent hpage hroom =>
        exact absurd ⟨t, page, ⟨by rw [hrsp]; rfl, hroom, hcurrent, hpage⟩⟩ h
  | walk i =>
    cases Call.step hexec with
    | hit _ walking page _ loads _ _ hpage =>
      refine ⟨[(walking.req, rspOf cfg walking.req.src walking.req page walking.req.taskID)], ?_,
        hone (iff_of_true ((agrees_rspOf hpage).mpr ⟨rfl, rfl⟩) trivial)⟩
      exact (answersOf_giveAll _ loads).trans (answersOf_answer ..)
    | _ => exact ⟨[], (append_nil _).symm, hnone trivial⟩
  | parse =>
    refine ⟨[], ?_, hnone trivial⟩
    rw [append_nil]
    cases Call.step hexec with
    | idle => rfl
    | start reqs =>
      have hquiet : answersOf (reqs.map Event.reqReceive) = [] := by
        rw [answersOf, filterMap_map]
        exact filterMap_eq_nil_iff.mpr fun _ _ => rfl
      rw [answersOf, filterMap_append]
      change _ ++ answersOf (reqs.map Event.reqReceive) = _
      rw [hquiet, append_nil]
      rfl
  | _ => cases Call.step hexec <;> exact ⟨[], (append_nil _).symm, hnone trivial⟩

end

/-- **The answer paths of the MMU.** In every state each call answers the requester, with the ID and the task of the request
and the page that is in the page table, if and only if the request that it answers for a migration, if there is one, names its
sender as the origin port and no task; so in a run where this is so at every call, all responses have the requester, the ID
and the task of their requests. -/
theorem answer_paths_agree_iff (cfg : Config) :
    (∀ (m m' : MMU cfg) (k : Call) (p : Bool), k.exec m = .ok (p, m') →
      ∃ new, answersOf m'.log = answersOf m.log ++ new ∧ ((∀ a ∈ new, Agrees m.pageTable a.1 a.2) ↔ Plainly m k)) ∧
    ∀ (m : MMU cfg) (ks : List Call), Reaches Plainly m ks →
      ∀ a ∈ answersOf m.log, a.2.dst = a.1.src ∧ a.2.respondTo = a.1.id ∧ a.2.taskID = a.1.taskID := by
  refine ⟨fun m m' k p hexec => exec_answers hexec, fun m ks h => ?_⟩
  induction h with
  | init => exact forall_mem_nil _
  | @request m req h ih =>
    unfold MMU.request
    split <;> exact ih
  | connect _ _ _ ih => exact ih
  | @relocate m deviceID pAddr h ih =>
    unfold MMU.relocate
    split
    · split <;> exact ih
    · exact ih
  | @respond m rsp h ih =>
    unfold MMU.respond
    split
    · exact ih
    · split <;> exact ih
  | tick _ ih => exact ih
  | call _ hG hexec ih =>
    obtain ⟨_, hlog, hiff⟩ := exec_answers hexec
    intro a ha
    rw [hlog] at ha
    rcases mem_append.mp ha with ha | ha
    · exact ih a ha
    · have hagrees := hiff.mpr hG a ha
      exact ⟨hagrees.dst, hagrees.respondTo, hagrees.taskID⟩

/-- A local request answered at the end of its walk. -/
theorem answer_paths_agree_iff_local : ∃ m : MMU fast, (answersOf m.log).map Prod.fst = [localReq] ∧
    ∀ a ∈ answersOf m.log, a.2.dst = a.1.src ∧ a.2.respondTo = a.1.id ∧ a.2.taskID = a.1.taskID := by
  have hparse := Reaches.tick (.request localReq (@Reaches.init fast Plainly unifiedPage))
  have hwalking := ((((hparse.call trivial rfl).call (fun _ _ h => nomatch h.queue) rfl).call trivial rfl).call
    (fun _ _ h => nomatch h.rsp) rfl).call trivial rfl
  have hhit := (((Reaches.tick hwalking).call trivial rfl).call (fun _ _ h => nomatch h.queue) rfl).call trivial rfl
  exact ⟨_, rfl, (answer_paths_agree_iff fast).2 _ _ hhit⟩

/-- A request that another component forwards for its origin. -/
def forwardedReq : TranslationReq := { remoteReq with originPort := 6, taskID := "translate" }

/-- The answer after the migration of its page goes to the origin port, without the task. -/
theorem answered_to_origin :
    ∃ m : MMU fast, ∃ ks, Reaches (fun _ _ => True) m ks ∧ ∃ rsp, answersOf m.log = [(forwardedReq, rsp)] ∧
    rsp.dst ≠ forwardedReq.src ∧ rsp.taskID ≠ forwardedReq.taskID := by
  have hparse := Reaches.connect [] [true] (.request forwardedReq (@Reaches.init fast (fun _ _ => True) unifiedPage))
  have hwalking := reaches_calls _ [] (by simpa using Reaches.tick hparse) (rfl : calls _ _ _ = .ok _)
  have hqueued := reaches_calls _ [] (by simpa using Reaches.tick hwalking) (rfl : calls _ _ _ = .ok _)
  have hmigrating := reaches_calls _ [] (by simpa using Reaches.tick hqueued) (rfl : calls _ _ _ = .ok _)
  have hmigrated := Reaches.respond { vAddr := [0x1000], rspToTop := true } (.relocate 2 0x3000 hmigrating)
  have hanswered := reaches_calls _ [] (by simpa using Reaches.tick hmigrated) (rfl : calls _ _ _ = .ok _)
  exact ⟨_, _, hanswered, _, rfl, by decide, by decide⟩

end Akita.Vm.Mmu
