import Akita.Vm.Mmu.Runs

/-!
# Room in the response buffer of the MMU

`Checked m k` : the call `k` hands no message to the top sender that it has not asked `CanSend` for.

`covered_of_reaches` : in a run of such calls, every message handed over is covered by a `CanSend` of the same tick, and no
`Send` panics.
-/

namespace Akita.Vm.Mmu
open Mem Sim List

variable {cfg : Config}

/-- What `Buffer.Push` panics with. -/
def overflow : String := "buffer overflow"

/-- The head of the migration queue is not answered without a migration, and a page walk hit sends its page to no other
GPU. -/
def Checked (m : MMU cfg) : Call → Prop
  | .migrate => ∀ t queue page, m.migrationQueue = t :: queue → m.pageTable.find t.req.pid t.req.vAddr = some page →
      ¬(t.req.deviceID = page.deviceID ∨ page.isPinned = true)
  | .walk i => ∀ walking page, m.walkingTranslations[i]? = some walking → walking.cycleLeft = 0 →
      m.pageTable.find walking.req.pid walking.req.vAddr = some page → page.isMigrating = false →
      pageNeedMigrate { walking with page } = false → m.topSender.canSend 1 = .ok true → (page.accessCounts + 1) % 2 ^ 64 ≤ 1
  | _ => True

/-- `room` : what is left of the last `CanSend` fits in the buffer; `covered` : every message handed over was covered. -/
structure Covered (m : MMU cfg) : Prop where
  room : m.credit = 0 ∨ m.topSender.canSend m.credit = .ok true
  covered : ∀ msg c, Event.handed msg c ∈ m.log → c = true

/-- A response handed over right after `CanSend`. -/
theorem Covered.answer {m m' : MMU cfg} (h : Covered m) (log : List Event)
    (hlog : ∀ e ∈ log, e ∈ m.log ∨ ∃ page, e = .migrated page) {req : TranslationReq} {rsp : TranslationRsp}
    (hcredit : m'.credit = 0) (hm : m'.log = log ++ [Event.handed (.rsp rsp) (0 < 1)] ++ [Event.answer req rsp]) :
    Covered m' := by
  refine ⟨.inl hcredit, ?_⟩
  intro msg c hmem
  rw [hm] at hmem
  rcases mem_append.mp hmem with hmem | hmem
  · rcases mem_append.mp hmem with hmem | hmem
    · rcases hlog _ hmem with hmem | ⟨_, hpage⟩
      · exact h.covered msg c hmem
      · cases hpage
    · cases mem_singleton.mp hmem
      rfl
  · cases mem_singleton.mp hmem

theorem Covered.step {m m' : MMU cfg} {k : Call} (h : Covered m) (hs : Step m k m') (hk : Checked m k) : Covered m' := by
  cases hs with
  | idle _ _ _ _ _ _ hcredit =>
    refine ⟨?_, h.covered⟩
    rcases hcredit with rfl | rfl | hroom
    · exact h.room
    · exact .inl rfl
    · exact .inr hroom
  | sent => exact ⟨.inl rfl, h.covered⟩
  | resolve t queue page _ hqueue hpage hhere => exact absurd hhere (hk t queue page hqueue hpage)
  | migrate =>
    refine ⟨h.room, ?_⟩
    intro msg c hmem
    rcases mem_append.mp hmem with hmem | hmem
    · exact h.covered msg c hmem
    · cases mem_singleton.mp hmem
  | countdown | stay | enqueue => exact ⟨h.room, h.covered⟩
  | hit _ walking page _ _ hwalking hleft hpage hstill hlocal hroom _ hnone =>
    obtain rfl := hnone (hk walking page hwalking hleft hpage hstill hlocal hroom)
    exact h.answer m.log (fun e he => .inl he) rfl rfl
  | remove => exact ⟨h.room, h.covered⟩
  | migrationReturn =>
    refine h.answer (m.log ++ [Event.migrated _]) (fun e he => ?_) rfl rfl
    rcases mem_append.mp he with he | he
    · exact .inl he
    · exact .inr ⟨_, mem_singleton.mp he⟩
  | start =>
    refine ⟨h.room, ?_⟩
    intro msg c hmem
    rcases mem_append.mp hmem with hmem | hmem
    · exact h.covered msg c hmem
    · obtain ⟨_, -, hreq⟩ := mem_map.mp hmem
      cases hreq

/-! ## No call overflows the buffer -/

section overflow

variable {α β : Type}

theorem bind_ne_overflow {r : Except String α} {f : α → Except String β} (hr : r ≠ .error overflow)
    (hf : ∀ a, r = .ok a → f a ≠ .error overflow) : (r >>= f) ≠ .error overflow := by
  cases r with
  | error =>
    intro he
    exact hr (congrArg Except.error (Except.error.inj he))
  | ok a => exact hf a rfl

theorem error_ne_overflow {e : String} (h : e ≠ overflow) : (.error e : Except String α) ≠ .error overflow := by
  intro he
  exact h (Except.error.inj he)

theorem ok_ne_overflow (a : α) : (.ok a : Except String α) ≠ .error overflow := by
  intro h
  cases h

end overflow

theorem update_ne_overflow (pt : PageTable) (page : Page) : pt.update page ≠ .error overflow := by
  unfold PageTable.update
  split
  · exact ok_ne_overflow _
  · exact error_ne_overflow (by decide)

theorem canSend_ne_overflow (m : MMU cfg) : canSend m ≠ .error overflow := by
  unfold canSend BufferedSender.canSend
  split
  · exact error_ne_overflow (by decide)
  · exact ok_ne_overflow _

variable {m : MMU cfg}

theorem send_ne_overflow (h : m.topSender.canSend 1 = .ok true) (msg : TopMsg) : send m msg ≠ .error overflow := by
  unfold send
  rw [BufferedSender.send_of_canSend h]
  exact ok_ne_overflow _

theorem mark_ne_overflow (m : MMU cfg) (page : Page) :
    markPageAsNotMigratingIfNotInTheMigrationQueue m page ≠ .error overflow := by
  unfold markPageAsNotMigratingIfNotInTheMigrationQueue
  split
  · exact ok_ne_overflow _
  · exact bind_ne_overflow (update_ne_overflow _ _) fun _ _ => ok_ne_overflow _

theorem sendTranlationRsp_ne_overflow (h : m.topSender.canSend 1 = .ok true) (t : Transaction) :
    sendTranlationRsp m t ≠ .error overflow :=
  bind_ne_overflow (send_ne_overflow h _) fun _ _ => ok_ne_overflow _

theorem addTransactionToMigrationQueue_ne_overflow (m : MMU cfg) (i : Nat) (walking : Transaction) :
    addTransactionToMigrationQueue m i walking ≠ .error overflow := by
  unfold addTransactionToMigrationQueue
  split
  · exact ok_ne_overflow _
  · exact bind_ne_overflow (update_ne_overflow _ _) fun _ _ => ok_ne_overflow _

theorem sendToGMMU_ne_overflow {walking : Transaction}
    (h : ∀ page, m.pageTable.find walking.req.pid walking.req.vAddr = some page → page.accessCounts ≤ 1) :
    sendToGMMU m walking ≠ .error overflow := by
  unfold sendToGMMU
  cases hpage : m.pageTable.find walking.req.pid walking.req.vAddr with
  | none => exact error_ne_overflow (by decide)
  | some page =>
    have hfew := h page hpage
    simp only [loadInner, loadMiddle, if_neg (show ¬page.accessCounts > 1 by omega),
      if_neg (show ¬page.accessCounts > 2 by omega)]
    exact ok_ne_overflow _

theorem doPageWalkHit_ne_overflow {i : Nat} {walking : Transaction} {page : Page}
    (hpage : m.pageTable.find walking.req.pid walking.req.vAddr = some page)
    (hfew : m.topSender.canSend 1 = .ok true → (page.accessCounts + 1) % 2 ^ 64 ≤ 1) :
    doPageWalkHit m i walking ≠ .error overflow := by
  unfold doPageWalkHit
  refine bind_ne_overflow (canSend_ne_overflow m) fun r hr => ?_
  rcases canSend_returns _ _ hr with ⟨hok, hroom, hm⟩ | ⟨hok, hm⟩
  · simp only [hok, hm, if_bnot_true]
    refine bind_ne_overflow (send_ne_overflow (m := { m with credit := 1 }) hroom _) fun m₁ hm₁ => ?_
    rw [send_returns _ _ _ hm₁]
    refine bind_ne_overflow ?_ fun pageTable htable => ?_
    · unfold PageTable.updateAccessCounts
      split
      · exact ok_ne_overflow _
      · exact update_ne_overflow _ _
    · have htable := updateAccessCounts_returns hpage _ htable
      refine bind_ne_overflow (sendToGMMU_ne_overflow fun page' hpage' => ?_) fun _ _ => ok_ne_overflow _
      have hkey := PageTable.key_of_find hpage
      have hfound : pageTable.find walking.req.pid walking.req.vAddr =
          some { page with accessCounts := (page.accessCounts + 1) % 2 ^ 64 } := by
        rw [htable]
        exact PageTable.find_set_self hkey.1 hkey.2
      cases hfound.symm.trans hpage'
      exact hfew hroom
  · simp only [hok, if_bnot_false]
    exact ok_ne_overflow _

theorem walk_ne_overflow {i : Nat} (hk : Checked m (.walk i)) : walk m i ≠ .error overflow := by
  unfold walk
  cases hwalking : m.walkingTranslations[i]? with
  | none => exact error_ne_overflow (by decide)
  | some walking =>
    simp only
    by_cases hleft : walking.cycleLeft > 0
    · rw [if_pos hleft]
      exact ok_ne_overflow _
    · rw [if_neg hleft]
      unfold finalizePageWalk
      cases hpage : m.pageTable.find walking.req.pid walking.req.vAddr with
      | none => exact error_ne_overflow (by decide)
      | some page =>
        simp only
        split
        next => exact addTransactionToMigrationQueue_ne_overflow _ _ _
        next hstill =>
          split
          next => exact addTransactionToMigrationQueue_ne_overflow _ _ _
          next hlocal =>
            exact doPageWalkHit_ne_overflow hpage
              (hk walking page hwalking (by omega) hpage (by simpa using hstill) (by simpa using hlocal))

theorem sendMigrationToDriver_ne_overflow (hk : Checked m .migrate) : sendMigrationToDriver m ≠ .error overflow := by
  unfold sendMigrationToDriver
  cases hqueue : m.migrationQueue with
  | nil => exact ok_ne_overflow _
  | cons t queue =>
    cases hpage : m.pageTable.find t.req.pid t.req.vAddr with
    | none =>
      simp only [hpage]
      exact error_ne_overflow (by decide)
    | some page =>
      simp only [hpage]
      rw [if_neg (hk t queue page hqueue hpage)]
      split
      · exact ok_ne_overflow _
      · simp only [requestMigration]
        split
        · exact ok_ne_overflow _
        · exact bind_ne_overflow (update_ne_overflow _ _) fun _ _ => ok_ne_overflow _

theorem processMigrationReturn_ne_overflow (m : MMU cfg) : processMigrationReturn m ≠ .error overflow := by
  unfold processMigrationReturn
  split
  next => exact ok_ne_overflow _
  next =>
    refine bind_ne_overflow (canSend_ne_overflow m) fun r hr => ?_
    rcases canSend_returns _ _ hr with ⟨hok, hroom, hm⟩ | ⟨hok, hm⟩
    · simp only [hok, hm, if_bnot_true]
      split
      next => exact error_ne_overflow (by decide)
      next t ht =>
        split
        next => exact error_ne_overflow (by decide)
        next page hpage =>
          refine bind_ne_overflow (sendTranlationRsp_ne_overflow
            (m := { m with credit := 1, log := m.log ++ [Event.migrated page] }) hroom _)
            fun m₁ _ => ?_
          refine bind_ne_overflow (mark_ne_overflow _ _) fun r _ => ?_
          exact bind_ne_overflow (update_ne_overflow _ _) fun _ _ => ok_ne_overflow _
    · simp only [hok, if_bnot_false]
      exact ok_ne_overflow _

theorem tickSender_ne_overflow (m : MMU cfg) : tickSender m ≠ .error overflow := by
  unfold tickSender
  split
  · exact ok_ne_overflow _
  · simp only
    split <;> exact ok_ne_overflow _

theorem Call.ne_overflow {k : Call} (hk : Checked m k) : k.exec m ≠ .error overflow := by
  cases k with
  | sender => exact tickSender_ne_overflow _
  | migrate => exact sendMigrationToDriver_ne_overflow hk
  | walk => exact walk_ne_overflow hk
  | remove => exact ok_ne_overflow _
  | migrationReturn => exact processMigrationReturn_ne_overflow m
  | parse => exact ok_ne_overflow _

/-! ## Runs -/

/-- **The response buffer does not overflow.** In every run whose calls hand no message over that they have not asked
`CanSend` for, every message handed over is covered by a `CanSend` of the same tick, and the next call does not panic on a
full buffer, whatever its capacity. -/
theorem covered_of_reaches {m : MMU cfg} {ks : List Call} (h : Reaches Checked m ks) :
    (∀ msg c, Event.handed msg c ∈ m.log → c = true) ∧
      ∀ k ls, ks = k :: ls → Checked m k → k.exec m ≠ .error "buffer overflow" := by
  refine ⟨?_, fun k _ _ hk => Call.ne_overflow hk⟩
  have hc : Covered m := by
    induction h with
    | init => exact ⟨.inl rfl, fun _ _ hmem => absurd hmem not_mem_nil⟩
    | request _ _ ih =>
      unfold MMU.request
      split
      · exact ⟨ih.room, ih.covered⟩
      · exact ih
    | connect _ _ _ ih => exact ⟨ih.room, ih.covered⟩
    | relocate _ _ _ ih =>
      unfold MMU.relocate
      split
      · split
        · exact ⟨ih.room, ih.covered⟩
        · exact ih
      · exact ih
    | respond _ _ ih =>
      unfold MMU.respond
      split
      · exact ih
      · split
        · exact ⟨ih.room, ih.covered⟩
        · exact ih
    | tick _ ih => exact ih
    | call _ hG hexec ih => exact ih.step (Call.step hexec) hG
  exact hc.covered

/-- An MMU whose response buffer holds one message. -/
def oneSlot : Config :=
  { latency := 0, topSenderCapacity := 1, topPort := 0, migrationPort := 1, migrationServiceProvider := 2,
    innerLoop := fun _ => 0, middleLoop := fun _ => 0, gmmuCacheTable := fun _ => some 3 }

/-- A page that has been asked for once. -/
def onePage : PageTable :=
  PageTable.empty.set
    { pid := 1, vAddr := 0x1000, pAddr := 0x2000, pageSize := 4096, valid := true, deviceID := 1, accessCounts := 1 }

/-- The second request for a page is answered, and the page-load message that follows finds the buffer full. -/
theorem overflows : ∃ m : MMU oneSlot, ∃ ks, Reaches (fun _ _ => True) m (.walk 0 :: ks) ∧
    (Call.walk 0).exec m = .error "buffer overflow" := by
  have hreq := Reaches.request (G := fun _ _ => True) { id := 7, src := 5, vAddr := 0x1000, pid := 1, deviceID := 1 }
    (@Reaches.init oneSlot _ onePage)
  have hwalking := reaches_calls _ [] (by simpa using Reaches.tick hreq) (rfl : calls _ _ _ = .ok _)
  exact ⟨_, _, reaches_calls [.sender, .migrate] [.walk 0, .remove, .migrationReturn, .parse] (.tick hwalking) rfl, rfl⟩

theorem checked_migrate_iff (m : MMU cfg) : (∀ t ∈ m.migrationQueue.head?,
    ∀ page ∈ m.pageTable.find t.req.pid t.req.vAddr, ¬(t.req.deviceID = page.deviceID ∨ page.isPinned = true)) ↔
      Checked m .migrate := by
  simp only [Checked, head?_eq_some_iff, Option.mem_def]
  grind

theorem checked_walk_iff (m : MMU cfg) (i : Nat) : (∀ walking ∈ m.walkingTranslations[i]?, walking.cycleLeft = 0 →
    ∀ page ∈ m.pageTable.find walking.req.pid walking.req.vAddr, page.isMigrating = false →
    pageNeedMigrate { walking with page } = false →
      m.topSender.canSend 1 = .ok true → (page.accessCounts + 1) % 2 ^ 64 ≤ 1) ↔ Checked m (.walk i) := by
  simp only [Checked, Option.mem_def]
  grind

instance (m : MMU cfg) : (k : Call) → Decidable (Checked m k)
  | .migrate => decidable_of_iff _ (checked_migrate_iff m)
  | .walk i => decidable_of_iff _ (checked_walk_iff m i)
  | .sender | .remove | .migrationReturn | .parse => inferInstanceAs (Decidable True)

def firstReq : TranslationReq := { id := 7, src := 5, vAddr := 0x1000, pid := 1, deviceID := 1 }

/-- Nobody has asked for the page yet. -/
def freshPage : Page := { pid := 1, vAddr := 0x1000, pAddr := 0x2000, pageSize := 4096, valid := true, deviceID := 1 }

/-- A walk hit hands over its response. -/
theorem covered_of_reaches_hit : ∃ m : MMU oneSlot,
    (((({ pageTable := PageTable.empty.set freshPage } : MMU oneSlot).request firstReq).tickIf Checked).tickIf Checked) = m ∧
    m.log = [.reqReceive firstReq, .handed (.rsp (rspOf oneSlot 5 firstReq freshPage "")) true,
      .answer firstReq (rspOf oneSlot 5 firstReq freshPage "")] ∧
    ∀ msg c, Event.handed msg c ∈ m.log → c = true := by
  have hreach := (((Reaches.init (PageTable.empty.set freshPage) : Reaches (@Checked oneSlot) _ []).request
    firstReq).tickIf).tickIf
  exact ⟨_, rfl, by decide +kernel, (covered_of_reaches hreach).1⟩

end Akita.Vm.Mmu
