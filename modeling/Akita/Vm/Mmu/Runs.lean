import Akita.Stages
import Akita.Vm.Mmu.Mmu

/-!
# Runs of the MMU

* `Call`, `schedule` : the calls a tick is made of, `tick_eq_calls`;
* `Reaches G m ks` : a run whose calls meet `G` reaches `m`, with the calls `ks` of a tick still to do, `Reaches.tickIf`;
* `Step m k m'` : what a call can do, `Call.step`.
-/

namespace Akita.Vm.Mmu
open Mem Sim
open Except (map)
open Prod (snd)

variable {cfg : Config}

/-! ## Calls -/

inductive Call
  | sender | migrate | walk (i : Nat) | remove | migrationReturn | parse
deriving DecidableEq

def Call.exec (m : MMU cfg) : Call → Result cfg
  | sender => tickSender { m with credit := 0 }
  | migrate => sendMigrationToDriver m
  | walk i => Mmu.walk m i
  | remove => .ok (false, removeWalked m)
  | migrationReturn => processMigrationReturn m
  | parse => parseFromTop m

/-- The calls of a tick. -/
def schedule (m : MMU cfg) : List Call :=
  [.sender, .migrate] ++ (List.range m.walkingTranslations.length).map .walk ++ [.remove, .migrationReturn, .parse]

/-! ## The MMU and its surroundings -/

namespace MMU

/-- A request arrives at the top port. -/
def request (m : MMU cfg) (req : TranslationReq) : MMU cfg :=
  match m.topPort.recv req with
  | some topPort => { m with topPort }
  | none => m

def connect (m : MMU cfg) (top migration : List Bool) : MMU cfg :=
  { m with topPort := { m.topPort with conn := top }, migrationPort := { m.migrationPort with conn := migration } }

/-- The driver, while it owes an answer, moves the page it was asked to migrate. -/
def relocate (m : MMU cfg) (deviceID pAddr : UInt64) : MMU cfg :=
  match m.migrationPort.outgoing with
  | { pid, gpuReqToVAddrMap := [(_, [vAddr])], .. } :: _ =>
    match m.pageTable.find pid vAddr with
    | some page => { m with pageTable := m.pageTable.set { page with deviceID, pAddr } }
    | none => m
  | _ => m

/-- The driver answers. -/
def respond (m : MMU cfg) (rsp : PageMigrationRspFromDriver) : MMU cfg :=
  match m.migrationPort.outgoing with
  | [] => m
  | _ :: outgoing =>
    match m.migrationPort.recv rsp with
    | some migrationPort => { m with migrationPort := { migrationPort with outgoing } }
    | none => m

end MMU

/-- `G` is what is assumed before each call. -/
inductive Reaches (G : MMU cfg → Call → Prop) : MMU cfg → List Call → Prop
  | init (pageTable : PageTable) : Reaches G { pageTable } []
  | request {m : MMU cfg} (req : TranslationReq) (h : Reaches G m []) : Reaches G (m.request req) []
  | connect {m : MMU cfg} (top migration : List Bool) (h : Reaches G m []) : Reaches G (m.connect top migration) []
  | relocate {m : MMU cfg} (deviceID pAddr : UInt64) (h : Reaches G m []) : Reaches G (m.relocate deviceID pAddr) []
  | respond {m : MMU cfg} (rsp : PageMigrationRspFromDriver) (h : Reaches G m []) : Reaches G (m.respond rsp) []
  | tick {m : MMU cfg} (h : Reaches G m []) : Reaches G m (schedule m)
  | call {m m' : MMU cfg} {k : Call} {ks : List Call} {p : Bool} (h : Reaches G m (k :: ks)) (hG : G m k)
      (hexec : k.exec m = .ok (p, m')) : Reaches G m' ks

/-- A tick, if `G` holds before each of its calls. -/
def MMU.tickIf (G : MMU cfg → Call → Prop) [∀ m k, Decidable (G m k)] (m : MMU cfg) : MMU cfg :=
  (guarded G (fun k m => Call.exec m k) (schedule m) m).getD m

theorem Reaches.tickIf {G : MMU cfg → Call → Prop} [∀ m k, Decidable (G m k)] {m : MMU cfg} (h : Reaches G m []) :
    Reaches G (m.tickIf G) [] := by
  unfold MMU.tickIf
  cases hm : guarded G (fun k m => Call.exec m k) (schedule m) m with
  | none => exact h
  | some m' => exact guarded_induct (I := Reaches G) (fun h hk hexec => h.call hk hexec) hm (List.append_nil _ ▸ h.tick)

/-! ## Steps -/

/-- The MMU after `topSender.Send`. -/
def give (m : MMU cfg) (msg : TopMsg) : MMU cfg :=
  { m with
    topSender := { buffer := ⟨m.topSender.buffer.elements ++ [msg]⟩ }
    credit := m.credit - 1
    log := m.log ++ [Event.handed msg (0 < m.credit)] }

def giveAll (m : MMU cfg) (msgs : List TopMsg) : MMU cfg := msgs.foldl give m

/-- The MMU after a response to a request. -/
def answer (m : MMU cfg) (req : TranslationReq) (rsp : TranslationRsp) : MMU cfg :=
  { give m (.rsp rsp) with log := (give m (.rsp rsp)).log ++ [Event.answer req rsp] }

/-- What a call can do. -/
inductive Step (m : MMU cfg) : Call → MMU cfg → Prop
  | idle (k : Call) (hk : k ≠ .remove) (top migration : List Bool) (accessed : VAddr → List UInt64) (credit : Nat)
      (hcredit : credit = m.credit ∨ credit = 0 ∨ m.topSender.canSend credit = .ok true) :
      Step m k { m with
        topPort := { m.topPort with conn := top }, migrationPort := { m.migrationPort with conn := migration }
        pageAccessedByDeviceID := accessed, credit }
  | sent (msg : TopMsg) (conn : List Bool) (hmsg : m.topSender.buffer.peek = some msg) :
      Step m .sender { m with
        topPort := { m.topPort with outgoing := m.topPort.outgoing ++ [msg], conn }
        topSender := { buffer := m.topSender.buffer.pop }
        credit := 0 }
  | resolve (t : Transaction) (queue : List Transaction) (page : Page) (pageTable : PageTable)
      (hqueue : m.migrationQueue = t :: queue) (hpage : m.pageTable.find t.req.pid t.req.vAddr = some page)
      (hhere : t.req.deviceID = page.deviceID ∨ page.isPinned = true)
      (htable : pageTable = m.pageTable ∨ pageTable = m.pageTable.set { page with isMigrating := false }) :
      Step m .migrate { answer m t.req (rspOf cfg t.req.originPort t.req page "") with migrationQueue := queue, pageTable }
  | migrate (t : Transaction) (queue : List Transaction) (page : Page) (migrationReq : PageMigrationReqToDriver)
      (accessed : VAddr → List UInt64) (conn : List Bool)
      (hqueue : m.migrationQueue = t :: queue) (hpage : m.pageTable.find t.req.pid t.req.vAddr = some page)
      (haway : ¬(t.req.deviceID = page.deviceID ∨ page.isPinned = true)) (hidle : m.isDoingMigration = false)
      (hpid : migrationReq.pid = page.pid) (hmap : migrationReq.gpuReqToVAddrMap = [(t.req.deviceID, [t.req.vAddr])]) :
      Step m .migrate { m with
        migrationPort := { m.migrationPort with outgoing := m.migrationPort.outgoing ++ [migrationReq], conn }
        pageTable := m.pageTable.set { page with isMigrating := true }
        isDoingMigration := true
        currentOnDemandMigration := some { t with page := { page with isMigrating := true }, migration := some migrationReq }
        migrationQueue := queue
        pageAccessedByDeviceID := accessed
        log := m.log ++ [Event.migrate { page with isMigrating := true }] }
  | countdown (i : Nat) (walking : Transaction) (hwalking : m.walkingTranslations[i]? = some walking) :
      Step m (.walk i) { m with
        walkingTranslations := m.walkingTranslations.set i { walking with cycleLeft := walking.cycleLeft - 1 } }
  | stay (i : Nat) (walking : Transaction) (page : Page) (hwalking : m.walkingTranslations[i]? = some walking) :
      Step m (.walk i) { m with walkingTranslations := m.walkingTranslations.set i { walking with page } }
  | enqueue (i : Nat) (walking : Transaction) (page : Page) (hwalking : m.walkingTranslations[i]? = some walking)
      (hpage : m.pageTable.find walking.req.pid walking.req.vAddr = some page) :
      Step m (.walk i) { m with
        walkingTranslations := m.walkingTranslations.set i { walking with page }
        toRemoveFromPTW := m.toRemoveFromPTW ++ [i]
        migrationQueue := m.migrationQueue ++ [{ walking with page }]
        pageTable := m.pageTable.set { page with isMigrating := true } }
  | hit (i : Nat) (walking : Transaction) (page : Page) (counts : Nat) (loads : List TopMsg)
      (hwalking : m.walkingTranslations[i]? = some walking) (hleft : walking.cycleLeft = 0)
      (hpage : m.pageTable.find walking.req.pid walking.req.vAddr = some page) (hstill : page.isMigrating = false)
      (hlocal : pageNeedMigrate { walking with page } = false) (hroom : m.topSender.canSend 1 = .ok true)
      (hloads : ∀ msg ∈ loads, ∃ load, msg = .pageLoad load) (hnone : (page.accessCounts + 1) % 2 ^ 64 ≤ 1 → loads = []) :
      Step m (.walk i) { giveAll (answer { m with credit := 1 } walking.req
          (rspOf cfg walking.req.src walking.req page walking.req.taskID)) loads with
        walkingTranslations := m.walkingTranslations.set i { walking with page }
        toRemoveFromPTW := m.toRemoveFromPTW ++ [i]
        pageTable := m.pageTable.set { page with accessCounts := counts } }
  | remove : Step m .remove (removeWalked m)
  | migrationReturn (rsp : PageMigrationRspFromDriver) (t : Transaction) (page : Page) (isMigrating : Bool)
      (hrsp : m.migrationPort.peek = some rsp) (hcurrent : m.currentOnDemandMigration = some t)
      (hpage : m.pageTable.find t.req.pid t.req.vAddr = some page) (hroom : m.topSender.canSend 1 = .ok true) :
      Step m .migrationReturn { answer { m with credit := 1, log := m.log ++ [Event.migrated page] } t.req
          (rspOf cfg t.req.originPort t.req page "") with
        isDoingMigration := false
        pageTable := m.pageTable.set { page with isMigrating, isPinned := true }
        migrationPort := m.migrationPort.retrieve }
  | start (reqs rest : List TranslationReq) (hreqs : m.topPort.buf.elements = reqs ++ rest) :
      Step m .parse { m with
        topPort := { m.topPort with buf := ⟨rest⟩ }
        walkingTranslations := m.walkingTranslations ++ reqs.map fun req => { req, cycleLeft := cfg.latency }
        log := m.log ++ reqs.map Event.reqReceive }

variable {k : Call}

theorem step_refl (m : MMU cfg) (hk : k ≠ .remove) : Step m k m :=
  .idle k hk m.topPort.conn m.migrationPort.conn m.pageAccessedByDeviceID m.credit (.inl rfl)

variable {m m' : MMU cfg}

theorem reaches_calls (ks ls : List Call) (h : Reaches (fun _ _ => True) m (ks ++ ls))
    (hcalls : calls (fun k m => Call.exec m k) ks m = .ok m') : Reaches (fun _ _ => True) m' ls :=
  calls_induct (I := Reaches fun _ _ => True) (fun h hexec => h.call trivial hexec) hcalls h

/-! ## Every call does a step -/

theorem send_returns (m : MMU cfg) (msg : TopMsg) : Returns (fun m' => m' = give m msg) (send m msg) := by
  unfold send BufferedSender.send Buffer.push
  split
  · exact Returns.error _
  · exact Returns.ok rfl

theorem canSend_returns (m : MMU cfg) :
    Returns (fun r => r.1 = true ∧ m.topSender.canSend 1 = .ok true ∧ r.2 = { m with credit := 1 } ∨ r.1 = false ∧ r.2 = m)
      (canSend m) := by
  unfold canSend
  apply Returns.bind
  intro ok hok
  cases ok with
  | true => exact Returns.ok (.inl ⟨rfl, hok, rfl⟩)
  | false => exact Returns.ok (.inr ⟨rfl, rfl⟩)

theorem update_returns (pt : PageTable) (page : Page) : Returns (fun pt' => pt' = pt.set page) (pt.update page) := by
  unfold PageTable.update
  split
  · exact Returns.ok rfl
  · exact Returns.error _

variable {page : Page}

theorem updateAccessCounts_returns {pt : PageTable} {pid : PID} {vAddr : VAddr} (h : pt.find pid vAddr = some page) :
    Returns (fun pt' => pt' = pt.set { page with accessCounts := (page.accessCounts + 1) % 2 ^ 64 })
      (pt.updateAccessCounts pid vAddr) := by
  unfold PageTable.updateAccessCounts
  rw [h]
  exact update_returns _ _

theorem sendTranlationRsp_returns (m : MMU cfg) (t : Transaction) :
    Returns (fun m' => m' = answer m t.req (rspOf cfg t.req.originPort t.req t.page "")) (sendTranlationRsp m t) := by
  unfold sendTranlationRsp
  apply Returns.bind
  intro m' hm'
  rw [send_returns _ _ _ hm']
  exact Returns.ok rfl

theorem mark_returns (m : MMU cfg) (page : Page) :
    Returns (fun r => r.1 = page ∧ r.2 = m ∨
      r.1 = { page with isMigrating := false } ∧
      r.2 = { m with pageTable := m.pageTable.set { page with isMigrating := false } })
      (markPageAsNotMigratingIfNotInTheMigrationQueue m page) := by
  unfold markPageAsNotMigratingIfNotInTheMigrationQueue
  split
  · exact Returns.ok (.inl ⟨rfl, rfl⟩)
  · apply Returns.bind
    intro pageTable htable
    rw [update_returns _ _ _ htable]
    exact Returns.ok (.inr ⟨rfl, rfl⟩)

theorem tickSender_step (m : MMU cfg) : Returns (fun r => Step m .sender r.2) (tickSender { m with credit := 0 }) := by
  unfold tickSender
  cases hmsg : m.topSender.buffer.peek with
  | none =>
    exact Returns.ok (.idle _ Call.noConfusion m.topPort.conn m.migrationPort.conn m.pageAccessedByDeviceID 0
      (.inr (.inl rfl)))
  | some msg =>
    rcases m.topPort.send_eq msg with ⟨hsent, conn, hport⟩ | ⟨hsent, conn, hport⟩
    · simp only [hsent, hport, if_bnot_true]
      exact Returns.ok (.sent msg conn hmsg)
    · simp only [hsent, hport, if_bnot_false]
      exact Returns.ok (.idle _ Call.noConfusion conn m.migrationPort.conn m.pageAccessedByDeviceID 0 (.inr (.inl rfl)))

theorem requestMigration_step {m : MMU cfg} {t : Transaction} {queue : List Transaction}
    (hqueue : m.migrationQueue = t :: queue) (hpage : m.pageTable.find t.req.pid t.req.vAddr = some page)
    (haway : ¬(t.req.deviceID = page.deviceID ∨ page.isPinned = true)) (hidle : m.isDoingMigration = false) :
    Returns (fun r => Step m .migrate r.2) (requestMigration m t queue page) := by
  simp only [requestMigration]
  generalize hreq : PageMigrationReqToDriver.mk _ _ _ _ _ _ _ _ = req
  rcases m.migrationPort.send_eq req with ⟨hsent, conn, hport⟩ | ⟨hsent, conn, hport⟩
  · simp only [hsent, hport, if_bnot_true]
    refine Returns.bind fun pageTable htable => ?_
    rw [update_returns _ _ _ htable]
    exact Returns.ok (.migrate t queue page req _ conn hqueue hpage haway hidle (by rw [← hreq]) (by rw [← hreq]))
  · simp only [hsent, hport, if_bnot_false]
    exact Returns.ok (.idle _ Call.noConfusion m.topPort.conn conn _ m.credit (.inl rfl))

theorem sendMigrationToDriver_step (m : MMU cfg) : Returns (fun r => Step m .migrate r.2) (sendMigrationToDriver m) := by
  unfold sendMigrationToDriver
  cases hqueue : m.migrationQueue with
  | nil => exact Returns.ok (step_refl m Call.noConfusion)
  | cons t queue =>
    cases hpage : m.pageTable.find t.req.pid t.req.vAddr with
    | none =>
      simp only [hpage]
      exact Returns.error _
    | some page =>
      simp only [hpage]
      by_cases hhere : t.req.deviceID = page.deviceID ∨ page.isPinned = true
      · rw [if_pos hhere]
        refine Returns.bind fun m₁ hm₁ => ?_
        rw [sendTranlationRsp_returns _ _ _ hm₁]
        refine Returns.bind fun r hr => ?_
        rcases mark_returns _ _ _ hr with ⟨-, hr⟩ | ⟨-, hr⟩
        · rw [hr]
          exact Returns.ok (.resolve t queue page _ hqueue hpage hhere (.inl rfl))
        · rw [hr]
          exact Returns.ok (.resolve t queue page _ hqueue hpage hhere (.inr rfl))
      · rw [if_neg hhere]
        cases hidle : m.isDoingMigration with
        | true => exact Returns.ok (step_refl m Call.noConfusion)
        | false => exact requestMigration_step hqueue hpage hhere hidle

theorem pageLoad_returns (loop : UInt64 → UInt64) (totalID : UInt64) (vAddr : VAddr) (page : Page) :
    Returns (fun msg => ∃ load, msg = .pageLoad load) (pageLoad cfg loop totalID vAddr page) := by
  unfold pageLoad
  split
  · exact Returns.ok ⟨_, rfl⟩
  · exact Returns.error _

theorem giveAll_frame (msgs : List TopMsg) (m : MMU cfg) :
    ∃ topSender credit log, giveAll m msgs = { m with topSender, credit, log } := by
  induction msgs generalizing m with
  | nil => exact ⟨m.topSender, m.credit, m.log, rfl⟩
  | cons msg _ ih =>
    obtain ⟨topSender, credit, log, h⟩ := ih (give m msg)
    exact ⟨topSender, credit, log, h⟩

theorem giveAll_with (msgs : List TopMsg) (m : MMU cfg) (walkingTranslations : List Transaction) (pageTable : PageTable) :
    giveAll { m with walkingTranslations, pageTable } msgs = { giveAll m msgs with walkingTranslations, pageTable } := by
  induction msgs generalizing m with
  | nil => rfl
  | cons msg _ ih => exact ih (give m msg)

theorem loadInner_returns (m : MMU cfg) (walking : Transaction) (page : Page) :
    Returns (fun m' => page.accessCounts ≤ 1 ∧ m' = m ∨ 1 < page.accessCounts ∧ ∃ load, m' = give m (.pageLoad load))
      (loadInner m walking page) := by
  unfold loadInner
  by_cases h : page.accessCounts > 1
  · rw [if_pos h]
    refine Returns.bind fun msg hmsg => ?_
    obtain ⟨load, rfl⟩ := pageLoad_returns _ _ _ _ _ hmsg
    exact (send_returns _ _).mono fun _ hm => .inr ⟨h, load, hm⟩
  · rw [if_neg h]
    exact Returns.ok (.inl ⟨by omega, rfl⟩)

theorem loadMiddle_returns (m : MMU cfg) (walking : Transaction) (page : Page) :
    Returns (fun m' => page.accessCounts ≤ 2 ∧ m' = m ∨
      2 < page.accessCounts ∧ ∃ load, m' =
        { give m (.pageLoad load) with pageTable := m.pageTable.set { page with accessCounts := 0 } })
      (loadMiddle m walking page) := by
  unfold loadMiddle
  by_cases h : page.accessCounts > 2
  · rw [if_pos h]
    refine Returns.bind fun msg hmsg => ?_
    obtain ⟨load, rfl⟩ := pageLoad_returns _ _ _ _ _ hmsg
    refine Returns.bind fun m' hm' => ?_
    rw [send_returns _ _ _ hm']
    refine Returns.bind fun pageTable htable => ?_
    rw [update_returns _ _ _ htable]
    exact Returns.ok (.inr ⟨h, load, rfl⟩)
  · rw [if_neg h]
    exact Returns.ok (.inl ⟨by omega, rfl⟩)

theorem sendToGMMU_returns {m : MMU cfg} {walking : Transaction}
    (hpage : m.pageTable.find walking.req.pid walking.req.vAddr = some page) :
    Returns (fun r => ∃ loads pageTable, r.2 = { giveAll m loads with pageTable } ∧
      (∀ msg ∈ loads, ∃ load, msg = .pageLoad load) ∧
      (page.accessCounts ≤ 1 → loads = []) ∧
      (pageTable = m.pageTable ∨ pageTable = m.pageTable.set { page with accessCounts := 0 })) (sendToGMMU m walking) := by
  unfold sendToGMMU
  simp only [hpage]
  refine Returns.bind fun m₁ hm₁ => ?_
  refine Returns.bind fun m₂ hm₂ => ?_
  apply Returns.ok
  rcases loadInner_returns _ _ _ _ hm₁ with ⟨h1, rfl⟩ | ⟨h1, load₁, rfl⟩
  · rcases loadMiddle_returns _ _ _ _ hm₂ with ⟨-, rfl⟩ | ⟨_, -⟩
    · exact ⟨[], _, rfl, by simp, fun _ => rfl, .inl rfl⟩
    · omega
  · rcases loadMiddle_returns _ _ _ _ hm₂ with ⟨-, rfl⟩ | ⟨-, load₂, rfl⟩
    · exact ⟨[.pageLoad load₁], _, rfl, by simp, fun hle => absurd h1 (by omega), .inl rfl⟩
    · exact ⟨[.pageLoad load₁, .pageLoad load₂], _, rfl, by simp, fun hle => absurd h1 (by omega), .inr rfl⟩

theorem addTransactionToMigrationQueue_returns (m : MMU cfg) (i : Nat) (walking : Transaction) :
    Returns (fun r => r.2 = m ∨ r.2 = { m with
      toRemoveFromPTW := m.toRemoveFromPTW ++ [i]
      migrationQueue := m.migrationQueue ++ [walking]
      pageTable := m.pageTable.set { walking.page with isMigrating := true } })
        (addTransactionToMigrationQueue m i walking) := by
  unfold addTransactionToMigrationQueue
  split
  · exact Returns.ok (.inl rfl)
  · refine Returns.bind fun pageTable htable => ?_
    rw [update_returns _ _ _ htable]
    exact Returns.ok (.inr rfl)

theorem doPageWalkHit_step {m : MMU cfg} {i : Nat} {walking : Transaction}
    (hwalking : m.walkingTranslations[i]? = some walking) (hleft : walking.cycleLeft = 0)
    (hpage : m.pageTable.find walking.req.pid walking.req.vAddr = some page) (hstill : page.isMigrating = false)
    (hlocal : pageNeedMigrate { walking with page } = false) :
    Returns (fun r => Step m (.walk i) r.2)
      (doPageWalkHit { m with walkingTranslations := m.walkingTranslations.set i { walking with page } } i
        { walking with page }) := by
  unfold doPageWalkHit
  refine Returns.bind fun r hr => ?_
  rcases canSend_returns _ _ hr with ⟨hok, hroom, hm⟩ | ⟨hok, hm⟩
  · simp only [hok, hm, if_bnot_true]
    refine Returns.bind fun m₁ hm₁ => ?_
    rw [send_returns _ _ _ hm₁]
    refine Returns.bind fun pageTable htable => ?_
    have htable := updateAccessCounts_returns hpage _ htable
    have hkey := PageTable.key_of_find hpage
    have hfound : pageTable.find walking.req.pid walking.req.vAddr =
        some { page with accessCounts := (page.accessCounts + 1) % 2 ^ 64 } := by
      rw [htable]
      exact PageTable.find_set_self hkey.1 hkey.2
    refine Returns.bind fun r hr => ?_
    obtain ⟨loads, pageTable', hr, hloads, hnone, htable'⟩ := sendToGMMU_returns hfound _ hr
    obtain ⟨counts, hcounts⟩ : ∃ counts, pageTable' = m.pageTable.set { page with accessCounts := counts } := by
      rcases htable' with h | h
      · exact ⟨_, h.trans htable⟩
      · rw [h, htable]
        exact ⟨0, PageTable.set_set rfl rfl⟩
    have hr : r.2 = { giveAll (answer { m with credit := 1 } walking.req
        (rspOf cfg walking.req.src walking.req page walking.req.taskID)) loads with
        walkingTranslations := m.walkingTranslations.set i { walking with page }, pageTable := pageTable' } :=
      hr.trans (congrArg (fun x : MMU cfg => { x with pageTable := pageTable' })
        (giveAll_with loads (answer { m with credit := 1 } walking.req
        (rspOf cfg walking.req.src walking.req page walking.req.taskID)) (m.walkingTranslations.set i { walking with page })
          pageTable))
    rw [hr, hcounts]
    have htoRemove : (giveAll (answer { m with credit := 1 } walking.req
        (rspOf cfg walking.req.src walking.req page walking.req.taskID)) loads).toRemoveFromPTW = m.toRemoveFromPTW := by
      obtain ⟨_, credit, _, h⟩ := giveAll_frame loads (answer { m with credit := 1 } walking.req
        (rspOf cfg walking.req.src walking.req page walking.req.taskID))
      rw [h]
      rfl
    simp only [htoRemove]
    exact Returns.ok (.hit i walking page counts loads hwalking hleft hpage hstill hlocal hroom hloads hnone)
  · simp only [hok, hm, if_bnot_false]
    exact Returns.ok (.stay i walking page hwalking)

theorem walk_step (m : MMU cfg) (i : Nat) : Returns (fun r => Step m (.walk i) r.2) (walk m i) := by
  unfold walk
  cases hwalking : m.walkingTranslations[i]? with
  | none => exact Returns.error _
  | some walking =>
    simp only
    by_cases hleft : walking.cycleLeft > 0
    · rw [if_pos hleft]
      exact Returns.ok (.countdown i walking hwalking)
    · rw [if_neg hleft]
      unfold finalizePageWalk
      cases hpage : m.pageTable.find walking.req.pid walking.req.vAddr with
      | none => exact Returns.error _
      | some page =>
        have hqueue : Returns (fun r => Step m (.walk i) r.2) (addTransactionToMigrationQueue
            { m with walkingTranslations := m.walkingTranslations.set i { walking with page } } i { walking with page }) := by
          intro r hr
          rcases addTransactionToMigrationQueue_returns _ _ _ _ hr with h | h
          · rw [h]
            exact .stay i walking page hwalking
          · rw [h]
            exact .enqueue i walking page hwalking hpage
        simp only
        split
        next => exact hqueue
        next hstill =>
          split
          next => exact hqueue
          next hlocal =>
            exact doPageWalkHit_step hwalking (by omega) hpage (by simpa using hstill) (by simpa using hlocal)

theorem processMigrationReturn_step (m : MMU cfg) :
    Returns (fun r => Step m .migrationReturn r.2) (processMigrationReturn m) := by
  unfold processMigrationReturn
  cases hrsp : m.migrationPort.peek with
  | none => exact Returns.ok (step_refl m Call.noConfusion)
  | some rsp =>
    refine Returns.bind fun r hr => ?_
    rcases canSend_returns _ _ hr with ⟨hok, hroom, hm⟩ | ⟨hok, hm⟩
    · simp only [hok, hm, if_bnot_true]
      cases hcurrent : m.currentOnDemandMigration with
      | none => exact Returns.error _
      | some t =>
        cases hpage : m.pageTable.find t.req.pid t.req.vAddr with
        | none =>
          simp only [hpage]
          exact Returns.error _
        | some page =>
          simp only [hpage]
          refine Returns.bind fun m₁ hm₁ => ?_
          rw [sendTranlationRsp_returns _ _ _ hm₁]
          refine Returns.bind fun r hr => ?_
          refine Returns.bind fun pageTable htable => ?_
          rw [update_returns _ _ _ htable]
          rcases mark_returns _ _ _ hr with ⟨hp, hr⟩ | ⟨hp, hr⟩
          · rw [hp, hr, ← hcurrent]
            exact Returns.ok (.migrationReturn rsp t page page.isMigrating hrsp hcurrent hpage hroom)
          · have hset : (m.pageTable.set { page with isMigrating := false }).set
                { page with isMigrating := false, isPinned := true } =
                m.pageTable.set { page with isMigrating := false, isPinned := true } := PageTable.set_set rfl rfl
            have hstep := Step.migrationReturn rsp t page false hrsp hcurrent hpage hroom
            rw [← hset] at hstep
            rw [hp, hr, ← hcurrent]
            exact Returns.ok hstep
    · simp only [hok, hm, if_bnot_false]
      exact Returns.ok (step_refl m Call.noConfusion)

theorem parseAll_eq (reqs : List TranslationReq) (m : MMU cfg) (hreqs : m.topPort.buf.elements = reqs) :
    ∃ taken rest, reqs = taken ++ rest ∧ (parseAll m reqs).2 = { m with
      topPort := { m.topPort with buf := ⟨rest⟩ }
      walkingTranslations := m.walkingTranslations ++ taken.map fun req => { req, cycleLeft := cfg.latency }
      log := m.log ++ taken.map Event.reqReceive } := by
  induction reqs generalizing m with
  | nil =>
    refine ⟨[], [], rfl, ?_⟩
    have hbuf : (⟨[]⟩ : Buffer 4096 TranslationReq) = m.topPort.buf := by rw [← hreqs]
    simp [parseAll, hbuf]
  | cons req reqs ih =>
    rw [parseAll]
    split
    next =>
      obtain ⟨taken, rest, htaken, h⟩ :=
        ih (startWalking { m with topPort := m.topPort.retrieve, log := m.log ++ [Event.reqReceive req] } req)
        (by simp [startWalking, hreqs])
      refine ⟨req :: taken, rest, by rw [htaken, List.cons_append], h.trans ?_⟩
      simp [startWalking, Port.retrieve]
    next => exact ⟨[], req :: reqs, rfl, by simp [← hreqs]⟩

theorem parseFromTop_step (m : MMU cfg) : Returns (fun r => Step m .parse r.2) (parseFromTop m) := by
  obtain ⟨taken, rest, htaken, h⟩ := parseAll_eq _ m rfl
  apply Returns.ok
  rw [h]
  exact .start taken rest htaken

/-- **Every call does a step.** -/
theorem Call.step {p : Bool} (h : k.exec m = .ok (p, m')) : Step m k m' := by
  cases k with
  | sender => exact tickSender_step m _ h
  | migrate => exact sendMigrationToDriver_step m _ h
  | walk i => exact walk_step m i _ h
  | remove =>
    cases h
    exact .remove
  | migrationReturn => exact processMigrationReturn_step m _ h
  | parse => exact parseFromTop_step m _ h

/-! ## A tick is its calls -/

theorem walkAll_eq_calls (is : List Nat) (m : MMU cfg) :
    (walkAll m is).map snd = calls (fun k m => Call.exec m k) (is.map .walk) m :=
  calls_loop (fun _ => rfl) (fun _ _ _ => rfl) is m

/-- The first two calls leave the walks alone. -/
theorem Step.walking (h : Step m k m') (hk : k = .sender ∨ k = .migrate) :
    m'.walkingTranslations = m.walkingTranslations := by
  cases h with
  | idle | sent | resolve | migrate => rfl
  | _ => simp at hk

/-- **A tick is its calls in a row.** -/
theorem tick_eq_calls (m : MMU cfg) : (tick m).map snd = calls (fun k m => Call.exec m k) (schedule m) m := by
  rw [tick, schedule, calls_append, calls_append]
  show map snd (tickSender { m with credit := 0 } >>= _) = ((tickSender { m with credit := 0 } >>= _) >>= _) >>= _
  cases h1 : tickSender { m with credit := 0 } with
  | error => rfl
  | ok r1 =>
    have hw1 := (tickSender_step m _ h1).walking (.inl rfl)
    show map snd (sendMigrationToDriver r1.2 >>= _) = ((sendMigrationToDriver r1.2 >>= _) >>= _) >>= _
    cases h2 : sendMigrationToDriver r1.2 with
    | error => rfl
    | ok r2 =>
      have hw2 := (sendMigrationToDriver_step r1.2 _ h2).walking (.inr rfl)
      show map snd (walkPageTable r2.2 >>= _) = calls _ _ r2.2 >>= _
      rw [← walkAll_eq_calls, walkPageTable, hw2, hw1]
      cases walkAll r2.2 (List.range m.walkingTranslations.length) with
      | error => rfl
      | ok r3 =>
        show map snd (processMigrationReturn (removeWalked r3.2) >>= _) = processMigrationReturn (removeWalked r3.2) >>= _
        cases processMigrationReturn (removeWalked r3.2) <;> rfl

end Akita.Vm.Mmu
