import Akita.Vm.Mmu.Conservation

/-!
# One migration at a time

* `underWay log` : the page whose migration is under way after a log;
* `Exclusive log` : while a page migrates no response for it is handed over and no migration is asked for;
* `Fresh log` : the responses for a page that follow its migration carry the device and the address it has moved to;
* `Apart m k` : the call `k` answers no queued request for the page that migrates.

`exclusive_of_reaches` : all of this in a run of such calls.
-/

namespace Akita.Vm.Mmu
open Mem Sim Option List
open PageTable (find_set_self key_of_find tables_of_find)
open Prod (ext fst mk snd)

variable {cfg : Config}

/-- A page, by process and address. -/
abbrev PageKey := PID × VAddr

def keyOf (page : Page) : PageKey := (page.pid, page.vAddr)

/-- The page a request is for. -/
def keyOfReq (pt : PageTable) (req : TranslationReq) : PageKey := (req.pid, pt.alignToPage req.vAddr)

variable {req : TranslationReq} {page : Page}

variable {pt : PageTable}

theorem keyOf_find (h : pt.find req.pid req.vAddr = some page) :
    keyOf page = keyOfReq pt req :=
  ext (key_of_find h).1 (key_of_find h).2

/-! ## The log -/

/-- The page that migrates after an event. -/
def afterEvent (k : Option PageKey) : Event → Option PageKey
  | .migrate page => some (keyOf page)
  | .migrated _ => none
  | _ => k

/-- The page that migrates after a log. -/
def underWay (log : List Event) : Option PageKey := log.foldl afterEvent none

/-- An event that may happen while the page `k` migrates. -/
def Allowed (k : Option PageKey) : Event → Prop
  | .answer _ rsp => k ≠ some (keyOf rsp.page)
  | .migrate _ => k = none
  | _ => True

/-- Each event is allowed where it happens. -/
def Exclusive (log : List Event) : Prop := ∀ l e r, log = l ++ e :: r → Allowed (underWay l) e

/-- After a migration the page is handed over as it was when the migration ended. -/
def Fresh (log : List Event) : Prop := ∀ l page r, log = l ++ Event.migrated page :: r → ∀ req rsp, Event.answer req rsp ∈ r →
  keyOf rsp.page = keyOf page → rsp.page.deviceID = page.deviceID ∧ rsp.page.pAddr = page.pAddr

theorem underWay_concat (log : List Event) (e : Event) : underWay (log ++ [e]) = afterEvent (underWay log) e := by
  simp [underWay]

theorem concat_eq_append_cons {α : Type} {log l r : List α} {e x : α} (h : log ++ [e] = l ++ x :: r) :
    (r = [] ∧ l = log ∧ x = e) ∨ ∃ r', r = r' ++ [e] ∧ log = l ++ x :: r' := by
  rcases eq_nil_or_concat r with rfl | ⟨r', _, rfl⟩
  · obtain ⟨hl, hx⟩ := append_inj' h rfl
    exact .inl ⟨rfl, hl.symm, (singleton_inj.mp hx).symm⟩
  · rw [concat_eq_append, ← cons_append, ← append_assoc] at h
    obtain ⟨hl, hx⟩ := append_inj' h rfl
    cases singleton_inj.mp hx
    exact .inr ⟨r', concat_eq_append, hl⟩

theorem Exclusive.concat {log : List Event} {e : Event} (h : Exclusive log) (he : Allowed (underWay log) e) :
    Exclusive (log ++ [e]) := by
  intro l x r hsplit
  rcases concat_eq_append_cons hsplit with ⟨-, rfl, rfl⟩ | ⟨r', -, hlog⟩
  · exact he
  · exact h l x r' hlog

theorem Fresh.concat {log : List Event} {e : Event} (h : Fresh log)
    (he : ∀ page req rsp, Event.migrated page ∈ log → e = .answer req rsp → keyOf rsp.page = keyOf page →
      rsp.page.deviceID = page.deviceID ∧ rsp.page.pAddr = page.pAddr) :
    Fresh (log ++ [e]) := by
  intro l page r hsplit req rsp hmem hkey
  rcases concat_eq_append_cons hsplit with ⟨rfl, -, -⟩ | ⟨r', rfl, hlog⟩
  · exact absurd hmem not_mem_nil
  · rcases mem_append.mp hmem with hmem | hmem
    · exact h l page r' hlog req rsp hmem hkey
    · refine he page req rsp ?_ (mem_singleton.mp hmem).symm hkey
      rw [hlog]
      exact mem_append_right _ mem_cons_self

/-! ## The pages that have migrated -/

/-- The page is where its migration has left it, and pinned there. -/
def Settled (pt : PageTable) (page : Page) : Prop :=
  ∃ p, pt.tables page.pid page.vAddr = some p ∧ p.isPinned = true ∧ p.deviceID = page.deviceID ∧ p.pAddr = page.pAddr

theorem Settled.set {page p : Page} (h : Settled pt page) (p' : Page) (hp : pt.tables p'.pid p'.vAddr = some p)
    (hpinned : p.isPinned = true → p'.isPinned = true ∧ p'.deviceID = p.deviceID ∧ p'.pAddr = p.pAddr) :
    Settled (pt.set p') page := by
  obtain ⟨q, hq, hqpinned, hdevice, haddr⟩ := h
  by_cases hkey : p'.pid = page.pid ∧ p'.vAddr = page.vAddr
  · rw [← hkey.1, ← hkey.2, hp, some.injEq] at hq
    subst hq
    obtain ⟨hpin, hdev, hpa⟩ := hpinned hqpinned
    exact ⟨p', if_pos hkey, hpin, hdev.trans hdevice, hpa.trans haddr⟩
  · exact ⟨q, (if_neg hkey).trans hq, hqpinned, hdevice, haddr⟩

/-! ## The invariant -/

/-- The page that migrates. -/
def migratingKey (m : MMU cfg) : Option PageKey := (migratingReq m).map (keyOfReq m.pageTable)

/-- The head of the migration queue is not answered without a migration while its page migrates. -/
def Apart (m : MMU cfg) : Call → Prop
  | .migrate => ∀ t queue page, m.migrationQueue = t :: queue → m.pageTable.find t.req.pid t.req.vAddr = some page →
      t.req.deviceID = page.deviceID ∨ page.isPinned = true → migratingKey m ≠ some (keyOf page)
  | _ => True

/-- `marked` : the page that migrates is marked in the page table; `asked` : the driver owes the migration of this page
only. -/
structure Alone (m : MMU cfg) : Prop where
  key : underWay m.log = migratingKey m
  marked : ∀ req, migratingReq m = some req → ∃ page, m.pageTable.find req.pid req.vAddr = some page ∧ page.isMigrating = true
  asked : ∀ r ∈ m.migrationPort.outgoing, ∃ req deviceID, migratingReq m = some req ∧ r.pid = req.pid ∧
    r.gpuReqToVAddrMap = [(deviceID, [req.vAddr])]
  exclusive : Exclusive m.log
  fresh : Fresh m.log
  settled : ∀ page, Event.migrated page ∈ m.log → Settled m.pageTable page ∧ migratingKey m ≠ some (keyOf page)

theorem Alone.ne_of_clear {m : MMU cfg} (h : Alone m) (hpage : m.pageTable.find req.pid req.vAddr = some page)
    (hclear : page.isMigrating = false) : migratingKey m ≠ some (keyOf page) := by
  intro hkey
  obtain ⟨req', hreq', hkey⟩ := map_eq_some_iff.mp hkey
  obtain ⟨page', hpage', hmarked⟩ := h.marked req' hreq'
  have hsame : some page' = some page := by
    rw [← tables_of_find hpage, ← tables_of_find hpage']
    have hkeys := (keyOf_find hpage').trans hkey
    rw [show page'.pid = page.pid from congrArg fst hkeys, show page'.vAddr = page.vAddr from congrArg snd hkeys]
  cases hsame
  rw [hclear] at hmarked
  exact Bool.false_ne_true hmarked

/-- A page that is found is put back: what migrates stays marked, and the pages that have migrated stay where they are. -/
theorem Alone.marked_set {m : MMU cfg} (h : Alone m) {p : Page} (p' : Page) (hp : m.pageTable.tables p'.pid p'.vAddr = some p)
    (hmark : migratingKey m = some (keyOf p') → p.isMigrating = true → p'.isMigrating = true)
    (hreq : migratingReq m = some req) :
    ∃ page, (m.pageTable.set p').find req.pid req.vAddr = some page ∧ page.isMigrating = true := by
  obtain ⟨page, hpage, hmarked⟩ := h.marked req hreq
  by_cases hkey : p'.pid = req.pid ∧ p'.vAddr = m.pageTable.alignToPage req.vAddr
  · refine ⟨p', find_set_self hkey.1 hkey.2, ?_⟩
    rw [hkey.1, hkey.2] at hp
    cases hp.symm.trans hpage
    apply hmark _ hmarked
    rw [migratingKey, hreq]
    exact congrArg some (ext hkey.1.symm hkey.2.symm)
  · exact ⟨page, (PageTable.find_set_ne fun h1 h2 => hkey ⟨h1, h2⟩).trans hpage, hmarked⟩

/-- An event that says nothing about pages. -/
def Quiet : Event → Prop
  | .reqReceive _ => True
  | .handed _ _ => True
  | _ => False

theorem quiet_append (log : List Event) {es : List Event} (hes : ∀ e ∈ es, Quiet e) : underWay (log ++ es) = underWay log ∧
    (Exclusive log → Exclusive (log ++ es)) ∧ (Fresh log → Fresh (log ++ es)) ∧
    ∀ page, Event.migrated page ∈ log ++ es → Event.migrated page ∈ log := by
  induction es using reverseRecOn with
  | nil => simp
  | append_singleton _ e ih =>
    obtain ⟨hunder, hexcl, hfresh, hmem⟩ := ih fun x hx => hes x (mem_append_left _ hx)
    have he := hes e (mem_append_right _ (mem_singleton_self e))
    rw [← append_assoc]
    refine ⟨?_, fun hl => (hexcl hl).concat ?_, fun hl => (hfresh hl).concat ?_, fun page hpage => ?_⟩
    · rw [underWay_concat, hunder]
      cases e <;> first | rfl | exact he.elim
    · cases e <;> trivial
    · rintro page req rsp - rfl
      exact he.elim
    · rcases mem_append.mp hpage with hpage | hpage
      · exact hmem page hpage
      · rw [← mem_singleton.mp hpage] at he
        exact he.elim

variable {m m' : MMU cfg}

theorem Alone.of_log (h : Alone m) (hunder : underWay m'.log = underWay m.log) (hexcl : Exclusive m'.log)
    (hfresh : Fresh m'.log) (hmem : ∀ page, Event.migrated page ∈ m'.log → Event.migrated page ∈ m.log)
    (hreq : migratingReq m' = migratingReq m) (hasked : ∀ r ∈ m'.migrationPort.outgoing, r ∈ m.migrationPort.outgoing)
    (halign : ∀ addr, m'.pageTable.alignToPage addr = m.pageTable.alignToPage addr)
    (hmarked : ∀ req, migratingReq m = some req → ∃ page, m'.pageTable.find req.pid req.vAddr = some page ∧
      page.isMigrating = true)
    (hsettled : ∀ page, Event.migrated page ∈ m.log → Settled m.pageTable page → Settled m'.pageTable page) : Alone m' := by
  have hkey : migratingKey m' = migratingKey m := by
    rw [migratingKey, migratingKey, hreq]
    congr 1
    funext req
    exact ext rfl (halign _)
  refine ⟨hunder.trans (h.key.trans hkey.symm), ?_, ?_, hexcl, hfresh, ?_⟩
  · rw [hreq]
    exact hmarked
  · rw [hreq]
    exact fun r hr => h.asked r (hasked r hr)
  · intro page hpage
    rw [hkey]
    have hset := h.settled page (hmem page hpage)
    exact ⟨hsettled page (hmem page hpage) hset.1, hset.2⟩

theorem Alone.of_quiet (h : Alone m) (es : List Event) (hes : ∀ e ∈ es, Quiet e) (hlog : m'.log = m.log ++ es)
    (hreq : migratingReq m' = migratingReq m) (hasked : ∀ r ∈ m'.migrationPort.outgoing, r ∈ m.migrationPort.outgoing)
    (halign : ∀ addr, m'.pageTable.alignToPage addr = m.pageTable.alignToPage addr)
    (hmarked : ∀ req, migratingReq m = some req → ∃ page, m'.pageTable.find req.pid req.vAddr = some page ∧
      page.isMigrating = true)
    (hsettled : ∀ page, Event.migrated page ∈ m.log → Settled m.pageTable page → Settled m'.pageTable page) : Alone m' := by
  obtain ⟨hunder, hexcl, hfresh, hmem⟩ := quiet_append m.log hes
  rw [← hlog] at hunder hexcl hfresh hmem
  exact h.of_log hunder (hexcl h.exclusive) (hfresh h.fresh) hmem hreq hasked halign hmarked hsettled

theorem Alone.answer_log {m : MMU cfg} (h : Alone m) {es : List Event} (hes : ∀ e ∈ es, Quiet e) (req : TranslationReq)
    (rsp : TranslationRsp) (hpage : m.pageTable.tables rsp.page.pid rsp.page.vAddr = some rsp.page)
    (hapart : migratingKey m ≠ some (keyOf rsp.page)) :
    underWay (m.log ++ es ++ [Event.answer req rsp]) = underWay m.log ∧ Exclusive (m.log ++ es ++ [Event.answer req rsp]) ∧
    Fresh (m.log ++ es ++ [Event.answer req rsp]) ∧
    ∀ page, Event.migrated page ∈ m.log ++ es ++ [Event.answer req rsp] → Event.migrated page ∈ m.log := by
  obtain ⟨hunder, hexcl, hfresh, hmem⟩ := quiet_append m.log hes
  refine ⟨?_, (hexcl h.exclusive).concat ?_, (hfresh h.fresh).concat ?_, fun page hmig => ?_⟩
  · rw [underWay_concat, hunder]
    rfl
  · rw [hunder, h.key]
    exact hapart
  · intro page req' rsp' hmig heq hkey
    cases heq
    obtain ⟨_, hp, -, hdevice, haddr⟩ := (h.settled page (hmem page hmig)).1
    rw [← show rsp.page.pid = page.pid from congrArg fst hkey, ← show rsp.page.vAddr = page.vAddr from congrArg snd hkey,
      hpage, some.injEq] at hp
    rw [hp]
    exact ⟨hdevice, haddr⟩
  · rcases mem_append.mp hmig with hmig | hmig
    · exact hmem page hmig
    · cases mem_singleton.mp hmig

theorem giveAll_log (msgs : List TopMsg) (m : MMU cfg) : ∃ es, (giveAll m msgs).log = m.log ++ es ∧ ∀ e ∈ es, Quiet e := by
  induction msgs generalizing m with
  | nil => exact ⟨[], (append_nil _).symm, forall_mem_nil _⟩
  | cons msg _ ih =>
    obtain ⟨es, hlog, hes⟩ := ih (give m msg)
    refine ⟨Event.handed msg (0 < m.credit) :: es, hlog.trans (append_assoc ..), fun e he => ?_⟩
    rcases mem_cons.mp he with rfl | he
    · trivial
    · exact hes e he

theorem Settled.of_found {page p : Page} (h : Settled pt page) (hp : pt.tables p.pid p.vAddr = some p)
    (hkey : keyOf p = keyOf page) : p.isPinned = true ∧ p.deviceID = page.deviceID ∧ p.pAddr = page.pAddr := by
  obtain ⟨_, hq, hpinned, hdevice, haddr⟩ := h
  rw [← show p.pid = page.pid from congrArg fst hkey, ← show p.vAddr = page.vAddr from congrArg snd hkey, hp,
    some.injEq] at hq
  subst hq
  exact ⟨hpinned, hdevice, haddr⟩

theorem Alone.migrate (h : Alone m)
    (hpage : m.pageTable.find req.pid req.vAddr = some page) (haway : page.isPinned ≠ true)
    (hidle : m.isDoingMigration = false) (hlog : m'.log = m.log ++ [Event.migrate { page with isMigrating := true }])
    (htable : m'.pageTable = m.pageTable.set { page with isMigrating := true }) (hreq : migratingReq m' = some req)
    (hasked : ∀ r ∈ m'.migrationPort.outgoing, r ∈ m.migrationPort.outgoing ∨
      r.pid = req.pid ∧ ∃ deviceID, r.gpuReqToVAddrMap = [(deviceID, [req.vAddr])]) : Alone m' := by
  have htab := tables_of_find hpage
  have hnone : migratingReq m = none := by rw [migratingReq, hidle, if_neg Bool.false_ne_true]
  have hkey : migratingKey m' = some (keyOf page) := by
    rw [migratingKey, hreq, htable]
    exact congrArg some (keyOf_find hpage).symm
  have hunder : underWay m.log = none := by
    rw [h.key, migratingKey, hnone]
    rfl
  refine ⟨?_, ?_, ?_, ?_, ?_, ?_⟩
  · rw [hlog, underWay_concat, hkey]
    rfl
  · intro req' hreq'
    obtain rfl : req = req' := some.inj (hreq.symm.trans hreq')
    rw [htable]
    have hkeys := key_of_find hpage
    exact ⟨_, find_set_self hkeys.1 hkeys.2, rfl⟩
  · intro r hr
    rcases hasked r hr with hr | ⟨hpid, deviceID, hmap⟩
    · obtain ⟨_, -, hreq', -⟩ := h.asked r hr
      rw [hnone] at hreq'
      cases hreq'
    · exact ⟨req, deviceID, hreq, hpid, hmap⟩
  · rw [hlog]
    exact h.exclusive.concat hunder
  · rw [hlog]
    exact h.fresh.concat fun _ _ _ _ heq => by cases heq
  · intro q hq
    rw [hlog] at hq
    rcases mem_append.mp hq with hq | hq
    · have hs := (h.settled q hq).1
      rw [htable, hkey]
      refine ⟨hs.set { page with isMigrating := true } htab fun hpin => ⟨hpin, rfl, rfl⟩, fun hsame => ?_⟩
      exact haway (hs.of_found htab (some.inj hsame)).1
    · cases mem_singleton.mp hq

theorem Alone.migrated (h : Alone m) {rsp : TranslationRsp} (p' : Page)
    (hpage : m.pageTable.find req.pid req.vAddr = some page) (hrsp : rsp.page = page) {handed : Event} (hquiet : Quiet handed)
    (hlog : m'.log = m.log ++ [Event.migrated page] ++ [handed] ++ [Event.answer req rsp])
    (htable : m'.pageTable = m.pageTable.set p') (hp' : keyOf p' = keyOf page) (hpinned : p'.isPinned = true)
    (hdevice : p'.deviceID = page.deviceID) (haddr : p'.pAddr = page.pAddr) (hreq : migratingReq m' = none)
    (hasked : m'.migrationPort.outgoing = []) : Alone m' := by
  have htab : m.pageTable.tables p'.pid p'.vAddr = some page := by
    rw [show p'.pid = page.pid from congrArg fst hp', show p'.vAddr = page.vAddr from congrArg snd hp']
    exact tables_of_find hpage
  have hkey : migratingKey m' = none := by
    rw [migratingKey, hreq]
    rfl
  have hexcl : Exclusive (m.log ++ [Event.migrated page]) := h.exclusive.concat trivial
  have hfresh : Fresh (m.log ++ [Event.migrated page]) := h.fresh.concat fun _ _ _ _ heq => by cases heq
  have hes : ∀ e ∈ [handed], Quiet e := fun e he => by rwa [mem_singleton.mp he]
  obtain ⟨hunder, hexcl', hfresh', hmem⟩ := quiet_append (m.log ++ [Event.migrated page]) hes
  have hunder : underWay (m.log ++ [Event.migrated page] ++ [handed]) = none := by
    rw [hunder, underWay_concat]
    rfl
  refine ⟨?_, ?_, ?_, ?_, ?_, ?_⟩
  · rw [hlog, underWay_concat, hunder, hkey]
    rfl
  · intro req' hreq'
    rw [hreq] at hreq'
    cases hreq'
  · rw [hasked]
    exact forall_mem_nil _
  · rw [hlog]
    refine (hexcl' hexcl).concat ?_
    rw [hunder]
    exact (some_ne_none _).symm
  · rw [hlog]
    refine (hfresh' hfresh).concat fun q req' rsp' hq heq hkeys => ?_
    cases heq
    rw [hrsp] at hkeys ⊢
    rcases mem_append.mp (hmem q hq) with hq | hq
    · exact ((h.settled q hq).1.of_found (tables_of_find hpage) hkeys).2
    · cases mem_singleton.mp hq
      exact ⟨rfl, rfl⟩
  · intro q hq
    rw [hlog] at hq
    rw [htable, hkey]
    refine ⟨?_, (some_ne_none _).symm⟩
    rcases mem_append.mp hq with hq | hq
    · rcases mem_append.mp (hmem q hq) with hq | hq
      · exact (h.settled q hq).1.set p' htab fun _ => ⟨hpinned, hdevice, haddr⟩
      · cases mem_singleton.mp hq
        exact ⟨p', if_pos ⟨congrArg fst hp', congrArg snd hp'⟩, hpinned, hdevice, haddr⟩
    · cases mem_singleton.mp hq

theorem Alone.step {k : Call} (h : Alone m) (hi : Inv m) (hs : Step m k m') (hk : Apart m k) : Alone m' := by
  cases hs with
  | idle | sent | countdown | stay | remove =>
    exact h.of_quiet [] (by simp) (append_nil _).symm rfl (fun _ hr => hr) (fun _ => rfl) h.marked fun _ _ hp => hp
  | resolve t queue page _ hqueue hpage hhere htable =>
    have hapart := hk t queue page hqueue hpage hhere
    have htab := tables_of_find hpage
    have hes : ∀ e ∈ [Event.handed (.rsp (rspOf cfg t.req.originPort t.req page "")) (0 < m.credit)], Quiet e := by
      simp [Quiet]
    obtain ⟨hunder, hexcl, hfresh, hmem⟩ := h.answer_log hes t.req (rspOf cfg t.req.originPort t.req page "") htab hapart
    refine h.of_log hunder hexcl hfresh hmem rfl (fun _ hr => hr) (align_of_set htable) ?_ ?_
    · intro req hreq
      rcases htable with rfl | rfl
      · exact h.marked req hreq
      · exact h.marked_set { page with isMigrating := false } htab (fun hkey => absurd hkey hapart) hreq
    · intro q _ hq
      rcases htable with rfl | rfl
      · exact hq
      · exact hq.set { page with isMigrating := false } htab fun hpin => ⟨hpin, rfl, rfl⟩
  | migrate t _ _ _ _ _ _ hpage haway hidle hpid hmap =>
    refine h.migrate hpage (fun hpin => haway (.inr hpin)) hidle rfl rfl rfl fun r hr => ?_
    rcases mem_append.mp hr with hr | hr
    · exact .inl hr
    · rw [mem_singleton.mp hr]
      exact .inr ⟨hpid.trans (key_of_find hpage).1, t.req.deviceID, hmap⟩
  | enqueue _ _ page _ hpage =>
    have htab := tables_of_find hpage
    refine h.of_quiet [] (by simp) (append_nil _).symm rfl (fun _ hr => hr) (fun _ => rfl)
      (fun req hreq => ?_) fun q _ hq => ?_
    · exact h.marked_set { page with isMigrating := true } htab (fun _ _ => rfl) hreq
    · exact hq.set { page with isMigrating := true } htab fun hpin => ⟨hpin, rfl, rfl⟩
  | hit _ walking page counts loads _ _ hpage hstill =>
    have htab := tables_of_find hpage
    have hes : ∀ e ∈ [Event.handed (.rsp (rspOf cfg walking.req.src walking.req page walking.req.taskID)) (0 < 1)],
        Quiet e := by
      simp [Quiet]
    obtain ⟨hunder, hexcl, hfresh, hmem⟩ :=
      h.answer_log hes walking.req (rspOf cfg walking.req.src walking.req page walking.req.taskID) htab
      (h.ne_of_clear hpage hstill)
    obtain ⟨_, hlog, hes⟩ := giveAll_log loads (answer { m with credit := 1 } walking.req
      (rspOf cfg walking.req.src walking.req page walking.req.taskID))
    obtain ⟨hunder', hexcl', hfresh', hmem'⟩ := quiet_append (answer { m with credit := 1 } walking.req
      (rspOf cfg walking.req.src walking.req page walking.req.taskID)).log hes
    rw [← hlog] at hunder' hexcl' hfresh' hmem'
    obtain ⟨_, credit, _, hgive⟩ := giveAll_frame loads (Mmu.answer { m with credit := 1 } walking.req
      (rspOf cfg walking.req.src walking.req page walking.req.taskID))
    refine h.of_log (hunder'.trans hunder) (hexcl' hexcl) (hfresh' hfresh) (fun q hq => hmem q (hmem' q hq)) ?_ ?_
      (fun _ => rfl) (fun req hreq => ?_) fun q _ hq => ?_
    · simp only [hgive]
      rfl
    · simp only [hgive]
      exact fun r hr => hr
    · exact h.marked_set { page with accessCounts := counts } htab (fun _ hmark => hmark) hreq
    · exact hq.set { page with accessCounts := counts } htab fun hpin => ⟨hpin, rfl, rfl⟩
  | migrationReturn rsp t page isMigrating hrsp _ hpage =>
    obtain ⟨-, houtgoing⟩ := hi.doing_of_peek hrsp
    have hquiet : Quiet (Event.handed (.rsp (rspOf cfg t.req.originPort t.req page "")) (0 < 1)) := trivial
    exact h.migrated { page with isMigrating, isPinned := true } hpage rfl hquiet rfl rfl rfl rfl rfl rfl rfl houtgoing
  | start reqs =>
    refine h.of_quiet (reqs.map Event.reqReceive) ?_ rfl rfl (fun _ hr => hr) (fun _ => rfl) h.marked fun _ _ hp => hp
    intro e he
    obtain ⟨_, -, rfl⟩ := mem_map.mp he
    trivial

/-! ## Runs -/

theorem Alone.init (pageTable : PageTable) : Alone ({ pageTable } : MMU cfg) := by
  refine ⟨rfl, ?_, ?_, ?_, ?_, ?_⟩
  · intro req hreq
    cases hreq
  · exact forall_mem_nil _
  · exact fun l e r h => absurd h.symm (append_ne_nil_of_right_ne_nil l (cons_ne_nil e r))
  · exact fun l page r h => absurd h.symm (append_ne_nil_of_right_ne_nil l (cons_ne_nil _ r))
  · exact fun _ hpage => absurd hpage not_mem_nil

/-- The driver moves the page that migrates and no other. -/
theorem Alone.relocate {m : MMU cfg} (h : Alone m) (deviceID pAddr : UInt64) : Alone (m.relocate deviceID pAddr) := by
  unfold MMU.relocate
  split
  next r rs houtgoing =>
    split
    next page hpage =>
      obtain ⟨_, _, hreq, hpid, hmap⟩ := h.asked _ (by rw [houtgoing]; exact mem_cons_self)
      simp only [cons.injEq, mk.injEq, and_true] at hpid hmap
      rw [hpid, hmap.2] at hpage
      have htab := tables_of_find hpage
      have hkey : migratingKey m = some (keyOf page) := by
        rw [migratingKey, hreq, keyOf_find hpage]
        rfl
      refine h.of_quiet [] (by simp) (append_nil _).symm rfl (fun _ hr => hr) (fun _ => rfl)
        (fun req' hreq' => ?_) fun q hmem hq => ?_
      · exact h.marked_set { page with deviceID, pAddr } htab (fun _ hmark => hmark) hreq'
      · have hne : ¬(page.pid = q.pid ∧ page.vAddr = q.vAddr) := by
          intro hsame
          exact (h.settled q hmem).2 (hkey.trans (congrArg some (ext hsame.1 hsame.2)))
        obtain ⟨p, hp, hrest⟩ := hq
        exact ⟨p, (if_neg hne).trans hp, hrest⟩
    next => exact h
  next => exact h

theorem Alone.respond {m : MMU cfg} (h : Alone m) (rsp : PageMigrationRspFromDriver) : Alone (m.respond rsp) := by
  unfold MMU.respond Port.recv
  split
  next => exact h
  next r outgoing houtgoing =>
    split
    next hrecv =>
      split at hrecv
      · cases hrecv
        refine h.of_quiet [] (by simp) (append_nil _).symm rfl (fun r hr => ?_) (fun _ => rfl) h.marked fun _ _ hp => hp
        rw [houtgoing]
        exact mem_cons_of_mem _ hr
      · cases hrecv
    next => exact h

theorem alone_of_reaches {m : MMU cfg} {ks : List Call} (h : Reaches Apart m ks) : Alone m := by
  induction h with
  | init pageTable => exact .init pageTable
  | request _ _ ih =>
    unfold MMU.request
    split
    · exact ih.of_quiet [] (by simp) (append_nil _).symm rfl (fun _ hr => hr) (fun _ => rfl) ih.marked fun _ _ hp => hp
    · exact ih
  | connect _ _ _ ih =>
    exact ih.of_quiet [] (by simp) (append_nil _).symm rfl (fun _ hr => hr) (fun _ => rfl) ih.marked fun _ _ hp => hp
  | relocate deviceID pAddr _ ih => exact ih.relocate deviceID pAddr
  | respond rsp _ ih => exact ih.respond rsp
  | tick _ ih => exact ih
  | call h hG hexec ih => exact ih.step (inv_of_reaches h).1 (Call.step hexec) hG

/-- A queued request for a page that has migrated is answered when it comes to the head of the queue. -/
theorem served {t : Transaction} {queue : List Transaction} {p : Bool} (h : Settled m.pageTable page)
    (hqueue : m.migrationQueue = t :: queue) (hkey : keyOfReq m.pageTable t.req = keyOf page)
    (hexec : Call.migrate.exec m = .ok (p, m')) :
    ∃ rsp, answersOf m'.log = answersOf m.log ++ [(t.req, rsp)] ∧ rsp.page.deviceID = page.deviceID ∧
    rsp.page.pAddr = page.pAddr ∧
      m'.migrationQueue = queue := by
  obtain ⟨q, hq, hpinned, hdevice, haddr⟩ := h
  have hfind : m.pageTable.find t.req.pid t.req.vAddr = some q := by
    rw [← show t.req.pid = page.pid from congrArg fst hkey,
      ← show m.pageTable.alignToPage t.req.vAddr = page.vAddr from congrArg snd hkey] at hq
    exact hq
  have hreturns : Returns (fun r => answersOf r.2.log = answersOf m.log ++ [(t.req, rspOf cfg t.req.originPort t.req q "")] ∧
      r.2.migrationQueue = queue) (sendMigrationToDriver m) := by
    unfold sendMigrationToDriver
    simp only [hqueue, hfind, hpinned, or_true, if_true]
    refine Returns.bind fun m₁ hm₁ => ?_
    rw [sendTranlationRsp_returns _ _ _ hm₁]
    refine Returns.bind fun r hr => ?_
    rcases mark_returns _ _ _ hr with ⟨-, hr⟩ | ⟨-, hr⟩
    · rw [hr]
      exact Returns.ok ⟨answersOf_answer .., rfl⟩
    · rw [hr]
      exact Returns.ok ⟨answersOf_answer .., rfl⟩
  obtain ⟨hanswers, hrest⟩ := hreturns _ hexec
  exact ⟨_, hanswers, hdevice, haddr, hrest⟩

/-- `marked` : the page that migrates is marked; `exclusive` : while it migrates no response for it is handed over and no
second migration is asked for; `fresh`, `once`, `served` : once it has migrated, each of the requests queued for it is
answered once, with the device and the address it has moved to, when it comes to the head of the queue. -/
structure MigratesAlone (m : MMU cfg) : Prop where
  marked : ∀ req, migratingReq m = some req → ∃ page, m.pageTable.find req.pid req.vAddr = some page ∧ page.isMigrating = true
  underWay : underWay m.log = migratingKey m
  exclusive : Exclusive m.log
  fresh : Fresh m.log
  once : (↑(receivedOf m.log) : Multiset TranslationReq) =
    ↑((answersOf m.log).map fst) + (↑(walkingReqs m) + ↑(m.migrationQueue.map (·.req)) + ↑(migratingReq m).toList)
  served : ∀ t queue page p m', m.migrationQueue = t :: queue → Event.migrated page ∈ m.log →
    keyOfReq m.pageTable t.req = keyOf page →
    Call.migrate.exec m = .ok (p, m') → ∃ rsp, answersOf m'.log = answersOf m.log ++ [(t.req, rsp)] ∧
      rsp.page.deviceID = page.deviceID ∧ rsp.page.pAddr = page.pAddr ∧ m'.migrationQueue = queue

/-- **Migration is exclusive** in every run that answers no queued request for the page that migrates. -/
theorem exclusive_of_reaches {m : MMU cfg} {ks : List Call} (h : Reaches Apart m ks) : MigratesAlone m := by
  have ha := alone_of_reaches h
  exact ⟨ha.marked, ha.key, ha.exclusive, ha.fresh, (inv_of_reaches h).1.balance,
    fun _ _ page _ _ hqueue hmem hkey hexec => Mmu.served (ha.settled page hmem).1 hqueue hkey hexec⟩

instance (m : MMU cfg) (k : Call) : Decidable (Apart m k) :=
  match k with
  | .migrate => decidable_of_iff (∀ t ∈ m.migrationQueue.head?, ∀ page ∈ m.pageTable.find t.req.pid t.req.vAddr,
      t.req.deviceID = page.deviceID ∨ page.isPinned = true → migratingKey m ≠ some (keyOf page)) (by
        simp only [Apart, head?_eq_some_iff, mem_def]
        grind)
  | .sender | .walk _ | .remove | .migrationReturn | .parse => inferInstanceAs (Decidable True)

/-- While the page migrates the second request waits, and then it is answered. -/
theorem exclusive_of_reaches_migrated : ∃ m m' : MMU fast, migrating Apart = m ∧ migratingReq m = some remoteReq ∧
    m.migrationQueue.map (·.req) = [otherReq] ∧ MigratesAlone m ∧
    migrated Apart = m' ∧ (answersOf m'.log).map fst = [remoteReq, otherReq] ∧ MigratesAlone m' :=
  ⟨_, _, rfl, by decide +kernel, by decide +kernel, exclusive_of_reaches (reaches_migrating Apart), rfl, by decide +kernel,
    exclusive_of_reaches (reaches_migrated Apart)⟩

def localReq : TranslationReq := { id := 8, src := 6, vAddr := 0x1000, pid := 1, deviceID := 1, originPort := 6 }

/-- A request from the device of the page waits behind the one that makes the page migrate. It is answered while the page
migrates, and the mark of the page is cleared. -/
theorem answered_while_migrating :
    ∃ m : MMU fast, ∃ ks page, Reaches (fun _ _ => True) m ks ∧ migratingReq m = some remoteReq ∧
    m.pageTable.find 1 0x1000 = some page ∧ page.isMigrating = false ∧ ¬Exclusive m.log := by
  have hlocal := Reaches.connect [] [true]
    (.request localReq (.request remoteReq (@Reaches.init fast (fun _ _ => True) unifiedPage)))
  have hwalking := reaches_calls _ [] (by simpa using Reaches.tick hlocal) (rfl : calls _ _ _ = .ok _)
  have hqueued := reaches_calls _ [] (by simpa using Reaches.tick hwalking) (rfl : calls _ _ _ = .ok _)
  have hmigrating := reaches_calls _ [] (by simpa using Reaches.tick hqueued) (rfl : calls _ _ _ = .ok _)
  have hanswered := reaches_calls _ [] (by simpa using Reaches.tick hmigrating) (rfl : calls _ _ _ = .ok _)
  refine ⟨_, _, _, hanswered, rfl, rfl, rfl, fun hexcl => ?_⟩
  -- the two requests, the migration, the message, and then the answer
  exact hexcl [_, _, _, _] _ [] rfl rfl

end Akita.Vm.Mmu
