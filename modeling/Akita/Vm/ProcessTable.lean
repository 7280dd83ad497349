import Akita.Vm.PageTable

/-!
# Process tables

`pageTableImpl` and `processTable` of `mem/vm/pagetable.go` as the code has them: the pages of a process in a linked list, and
a map from addresses to the elements of the list. `vm.PageTable` is the map they stand for.

* `InStep t m` : list and index of `t` hold the pages of `m`;
* `step_represents` : an operation on the code's tables is the operation on the map, a `Remove` at the base of its page;
* `agrees_iff` : runs.
-/

namespace Akita.Vm
open Mem List Function

/-! ## The code -/

/-- `processTable`. The elements of the list are numbers, `value` is what they hold and `next` the first one not yet made. -/
structure ProcessTable where
  entries : List Nat
  value : Nat → Page
  next : Nat
  entriesTable : VAddr → Option Nat

namespace ProcessTable

def new : ProcessTable where
  entries := []
  value := fun _ => {}
  next := 0
  entriesTable := fun _ => none

def find (t : ProcessTable) (vAddr : VAddr) : Option Page := (t.entriesTable vAddr).map t.value

def insert (page : Page) (t : ProcessTable) : Except String ProcessTable :=
  match t.entriesTable page.vAddr with
  | some _ => .error "page exist"
  | none => .ok {
      entries := t.entries ++ [t.next]
      value := Function.update t.value t.next page
      next := t.next + 1
      entriesTable := Function.update t.entriesTable page.vAddr (some t.next) }

def remove (vAddr : VAddr) (t : ProcessTable) : Except String ProcessTable :=
  match t.entriesTable vAddr with
  | none => .error "page does not exist"
  | some elem => .ok { t with
      entries := t.entries.erase elem
      entriesTable := Function.update t.entriesTable vAddr none }

def update (page : Page) (t : ProcessTable) : Except String ProcessTable :=
  match t.entriesTable page.vAddr with
  | none => .error "page does not exist"
  | some elem => .ok { t with value := Function.update t.value elem page }

theorem insert_of_none {t : ProcessTable} {page : Page} (h : t.entriesTable page.vAddr = none) : t.insert page = .ok {
      entries := t.entries ++ [t.next]
      value := Function.update t.value t.next page
      next := t.next + 1
      entriesTable := Function.update t.entriesTable page.vAddr (some t.next) } := by
  rw [insert, h]

theorem remove_of_some {t : ProcessTable} {vAddr : VAddr} {elem : Nat} (h : t.entriesTable vAddr = some elem) :
    t.remove vAddr = .ok { t with
      entries := t.entries.erase elem
      entriesTable := Function.update t.entriesTable vAddr none } := by
  rw [remove, h]

theorem update_of_some {t : ProcessTable} {page : Page} {elem : Nat} (h : t.entriesTable page.vAddr = some elem) :
    t.update page = .ok { t with value := Function.update t.value elem page } := by
  rw [update, h]

/-- The values of the list, in order. -/
def pages (t : ProcessTable) : List Page := t.entries.map t.value

end ProcessTable

structure PageTableImpl where
  log2PageSize : Nat
  tables : PID → Option ProcessTable

/-- What an operation returns: the page of a `Find`, nothing, or the text of a panic. -/
inductive Answer
  | found (page : Option Page)
  | done
  | panicked (e : String)
deriving DecidableEq

namespace PageTableImpl

/-- `NewPageTable`. -/
def new (log2PageSize : Nat) : PageTableImpl := { log2PageSize, tables := fun _ => none }

def getTable (pt : PageTableImpl) (pid : PID) : ProcessTable × PageTableImpl :=
  match pt.tables pid with
  | some table => (table, pt)
  | none => (.new, { pt with tables := Function.update pt.tables pid (some .new) })

/-- A shift by 64 or more leaves 0. -/
def alignToPage (pt : PageTableImpl) (addr : VAddr) : VAddr :=
  UInt64.ofNat (addr.toNat / 2 ^ pt.log2PageSize * 2 ^ pt.log2PageSize)

/-- A call that changes the table of `pid`. One that panics leaves the table as it is. -/
def onTable (pt : PageTableImpl) (pid : PID) (f : ProcessTable → Except String ProcessTable) : Answer × PageTableImpl :=
  let (table, pt) := pt.getTable pid
  match f table with
  | .ok table => (.done, { pt with tables := Function.update pt.tables pid (some table) })
  | .error e => (.panicked e, pt)

def insert (pt : PageTableImpl) (page : Page) : Answer × PageTableImpl := pt.onTable page.pid (ProcessTable.insert page)

def remove (pt : PageTableImpl) (pid : PID) (vAddr : VAddr) : Answer × PageTableImpl :=
  pt.onTable pid (ProcessTable.remove vAddr)

def find (pt : PageTableImpl) (pid : PID) (vAddr : VAddr) : Option Page × PageTableImpl :=
  let (table, pt) := pt.getTable pid
  (table.find (pt.alignToPage vAddr), pt)

def update (pt : PageTableImpl) (page : Page) : Answer × PageTableImpl := pt.onTable page.pid (ProcessTable.update page)

def updateAccessCounts (pt : PageTableImpl) (pid : PID) (vaddr : VAddr) : Answer × PageTableImpl :=
  match pt.find pid vaddr with
  | (none, pt) => (.done, pt)
  | (some page, pt) => pt.update { page with accessCounts := (page.accessCounts + 1) % 2 ^ 64 }

def initAccessCounts (pt : PageTableImpl) (pid : PID) (vaddr : VAddr) : Answer × PageTableImpl :=
  match pt.find pid vaddr with
  | (none, pt) => (.done, pt)
  | (some page, pt) => pt.update { page with accessCounts := 0 }

end PageTableImpl

/-! ## The map -/

namespace PageTable

/-- The table without the page at `vAddr`. -/
def clear (pt : PageTable) (pid : PID) (vAddr : VAddr) : PageTable where
  log2PageSize := pt.log2PageSize
  tables := fun p v => if pid = p ∧ vAddr = v then none else pt.tables p v
  keyed := by
    intro p v page hpage
    split at hpage
    next => cases hpage
    next => exact pt.keyed p v page hpage

/-- A new page goes under its address. -/
def insert (pt : PageTable) (page : Page) : Except String PageTable :=
  match pt.find page.pid page.vAddr with
  | some _ => .error "page exist"
  | none => .ok (pt.set page)

/-- The page that contains `vAddr` goes. -/
def remove (pt : PageTable) (pid : PID) (vAddr : VAddr) : Except String PageTable :=
  match pt.find pid vAddr with
  | none => .error "page does not exist"
  | some _ => .ok (pt.clear pid (pt.alignToPage vAddr))

def initAccessCounts (pt : PageTable) (pid : PID) (vAddr : VAddr) : Except String PageTable :=
  match pt.find pid vAddr with
  | none => .ok pt
  | some page => pt.update { page with accessCounts := 0 }

end PageTable

/-! ## Operations -/

inductive PageTableOp
  | insert (page : Page)
  | update (page : Page)
  | remove (pid : PID) (vAddr : VAddr)
  | find (pid : PID) (vAddr : VAddr)
  | updateAccessCounts (pid : PID) (vAddr : VAddr)
  | initAccessCounts (pid : PID) (vAddr : VAddr)

def PageTableImpl.step (pt : PageTableImpl) : PageTableOp → Answer × PageTableImpl
  | .insert page => pt.insert page
  | .update page => pt.update page
  | .remove pid vAddr => pt.remove pid vAddr
  | .find pid vAddr => ((.found (pt.find pid vAddr).1), (pt.find pid vAddr).2)
  | .updateAccessCounts pid vAddr => pt.updateAccessCounts pid vAddr
  | .initAccessCounts pid vAddr => pt.initAccessCounts pid vAddr

/-- The answer to an operation on the map: one that is rejected leaves the map as it is. -/
def PageTable.answer (pt : PageTable) : Except String PageTable → Answer × PageTable
  | .ok pt' => (.done, pt')
  | .error e => (.panicked e, pt)

def PageTable.step (pt : PageTable) : PageTableOp → Answer × PageTable
  | .insert page => pt.answer (pt.insert page)
  | .update page => pt.answer (pt.update page)
  | .remove pid vAddr => pt.answer (pt.remove pid vAddr)
  | .find pid vAddr => (.found (pt.find pid vAddr), pt)
  | .updateAccessCounts pid vAddr => pt.answer (pt.updateAccessCounts pid vAddr)
  | .initAccessCounts pid vAddr => pt.answer (pt.initAccessCounts pid vAddr)

/-- Operations one after another, with a step function for each. -/
def runOps {σ : Type} (step : σ → PageTableOp → Answer × σ) : σ → List PageTableOp → List Answer × σ
  | s, [] => ([], s)
  | s, op :: ops =>
    let (a, s) := step s op
    let (as, s) := runOps step s ops
    (a :: as, s)

/-! ## List and index -/

/-- List and index of `t` hold the pages of `m`. -/
structure InStep (t : ProcessTable) (m : VAddr → Option Page) : Prop where
  lookup : ∀ v, t.find v = m v
  listed : ∀ e, e ∈ t.entries ↔ ∃ v, t.entriesTable v = some e
  own : ∀ v e, t.entriesTable v = some e → (t.value e).vAddr = v
  nodup : t.entries.Nodup
  made : ∀ e ∈ t.entries, e < t.next

namespace InStep

variable {t : ProcessTable} {m : VAddr → Option Page} {page found : Page} {v : VAddr}

theorem new : InStep .new fun _ => none where
  lookup _ := rfl
  listed e := by simp [ProcessTable.new]
  own v e h := by simp [ProcessTable.new] at h
  nodup := nodup_nil
  made e h := by simp [ProcessTable.new] at h

section
variable (h : InStep t m)
include h

/-- Two addresses of the index have two elements. -/
theorem index_inj {v w : VAddr} {e : Nat} (hv : t.entriesTable v = some e) (hw : t.entriesTable w = some e) : v = w := by
  rw [← h.own v e hv, h.own w e hw]

theorem index_eq_none (hm : m v = none) : t.entriesTable v = none := by
  have := h.lookup v
  rw [hm, ProcessTable.find, Option.map_eq_none_iff] at this
  exact this

theorem index_of_mapped (hm : m v = some found) : ∃ e, t.entriesTable v = some e ∧ t.value e = found := by
  have := h.lookup v
  rwa [hm, ProcessTable.find, Option.map_eq_some_iff] at this

theorem lt_next {e : Nat} (hv : t.entriesTable v = some e) : e < t.next := h.made e ((h.listed e).2 ⟨v, hv⟩)

theorem insert (hm : m page.vAddr = none) :
    ∃ t', t.insert page = .ok t' ∧ InStep t' (Function.update m page.vAddr (some page)) := by
  have hnone := h.index_eq_none hm
  refine ⟨_, ProcessTable.insert_of_none hnone, ?_, ?_, ?_, ?_, ?_⟩
  case refine_1 =>
    intro w
    by_cases hw : w = page.vAddr
    · subst hw
      simp [ProcessTable.find]
    · rw [update_of_ne hw, ← h.lookup w]
      cases hidx : t.entriesTable w with
      | none => simp [ProcessTable.find, hw, hidx]
      | some => simp [ProcessTable.find, hw, hidx, update_of_ne (h.lt_next hidx).ne]
  case refine_2 =>
    intro e
    simp only [mem_append, mem_singleton, h.listed e]
    constructor
    · rintro (⟨w, hw⟩ | rfl)
      · refine ⟨w, ?_⟩
        rw [update_of_ne ?_, hw]
        rintro rfl
        rw [hnone] at hw
        cases hw
      · exact ⟨page.vAddr, update_self ..⟩
    · rintro ⟨w, hw⟩
      by_cases hwp : w = page.vAddr
      · right
        rw [hwp, update_self, Option.some.injEq] at hw
        exact hw.symm
      · left
        exact ⟨w, by rwa [update_of_ne hwp] at hw⟩
  case refine_3 =>
    intro w e hw
    simp only at hw
    by_cases hwp : w = page.vAddr
    · rw [hwp, update_self, Option.some.injEq] at hw
      simp only [← hw, update_self, hwp]
    · rw [update_of_ne hwp] at hw
      simp only [update_of_ne (h.lt_next hw).ne]
      exact h.own w e hw
  case refine_4 =>
    apply h.nodup.append (nodup_singleton _)
    intro e he hnext
    have := h.made e he
    rw [mem_singleton] at hnext
    omega
  case refine_5 =>
    intro e he
    rcases mem_append.1 he with he | he
    · exact Nat.lt_succ_of_lt (h.made e he)
    · rw [mem_singleton] at he
      exact he ▸ Nat.lt_succ_self _

theorem insert_present (hm : m page.vAddr = some found) : t.insert page = .error "page exist" := by
  obtain ⟨_, he, -⟩ := h.index_of_mapped hm
  rw [ProcessTable.insert, he]

theorem remove (hm : m v = some found) :
    ∃ t', t.remove v = .ok t' ∧ InStep t' (Function.update m v none) := by
  obtain ⟨_, helem, -⟩ := h.index_of_mapped hm
  refine ⟨_, ProcessTable.remove_of_some helem, ?_, ?_, ?_, h.nodup.erase _, fun e he => h.made e (mem_of_mem_erase he)⟩
  case refine_1 =>
    intro w
    by_cases hw : w = v
    · subst hw
      simp [ProcessTable.find]
    · rw [update_of_ne hw, ← h.lookup w]
      simp [ProcessTable.find, hw]
  case refine_2 =>
    intro e
    simp only [h.nodup.mem_erase_iff, h.listed e]
    constructor
    · rintro ⟨hne, w, hw⟩
      refine ⟨w, ?_⟩
      rw [update_of_ne ?_, hw]
      rintro rfl
      rw [helem, Option.some.injEq] at hw
      exact hne hw.symm
    · rintro ⟨w, hw⟩
      by_cases hwv : w = v
      · rw [hwv, update_self] at hw
        cases hw
      · rw [update_of_ne hwv] at hw
        refine ⟨?_, w, hw⟩
        rintro rfl
        exact hwv (h.index_inj hw helem)
  case refine_3 =>
    intro w e hw
    simp only at hw
    by_cases hwv : w = v
    · rw [hwv, update_self] at hw
      cases hw
    · rw [update_of_ne hwv] at hw
      exact h.own w e hw

theorem remove_absent (hm : m v = none) : t.remove v = .error "page does not exist" := by
  rw [ProcessTable.remove, h.index_eq_none hm]

theorem update (hm : m page.vAddr = some found) :
    ∃ t', t.update page = .ok t' ∧ InStep t' (Function.update m page.vAddr (some page)) := by
  obtain ⟨elem, helem, -⟩ := h.index_of_mapped hm
  refine ⟨_, ProcessTable.update_of_some helem, ?_, h.listed, ?_, h.nodup, h.made⟩
  case refine_1 =>
    intro w
    by_cases hw : w = page.vAddr
    · subst hw
      simp [ProcessTable.find, helem]
    · rw [update_of_ne hw, ← h.lookup w]
      cases hidx : t.entriesTable w with
      | none => simp [ProcessTable.find, hidx]
      | some e =>
        have hne : e ≠ elem := by
          rintro rfl
          exact hw (h.index_inj hidx helem)
        simp [ProcessTable.find, hidx, update_of_ne hne]
  case refine_2 =>
    intro w e hw
    by_cases he : e = elem
    · subst he
      simp only [update_self, h.index_inj hw helem]
    · simp only [update_of_ne he]
      exact h.own w e hw

theorem update_absent (hm : m page.vAddr = none) : t.update page = .error "page does not exist" := by
  rw [ProcessTable.update, h.index_eq_none hm]

theorem mem_pages : page ∈ t.pages ↔ m page.vAddr = some page := by
  rw [ProcessTable.pages, mem_map]
  constructor
  · rintro ⟨e, he, rfl⟩
    obtain ⟨w, hw⟩ := (h.listed e).1 he
    rw [h.own w e hw, ← h.lookup w, ProcessTable.find, hw]
    rfl
  · intro hm
    obtain ⟨e, he, hvalue⟩ := h.index_of_mapped hm
    exact ⟨e, (h.listed e).2 ⟨_, he⟩, hvalue⟩

theorem pages_nodup : (t.pages.map Page.vAddr).Nodup := by
  rw [ProcessTable.pages, map_map]
  apply List.Nodup.map_on _ h.nodup
  intro e he f hf heq
  obtain ⟨v, hv⟩ := (h.listed e).1 he
  obtain ⟨w, hw⟩ := (h.listed f).1 hf
  have hvw : v = w := by
    rw [← h.own v e hv, ← h.own w f hw]
    exact heq
  rw [hvw, hw, Option.some.injEq] at hv
  exact hv.symm

end

end InStep

/-! ## The refinement -/

/-- Any process has a table, one not made yet is empty. -/
def PageTableImpl.table (pt : PageTableImpl) (pid : PID) : ProcessTable := (pt.tables pid).getD .new

/-- The tables hold the pages of the map `m`. -/
structure Represents (pt : PageTableImpl) (m : PageTable) : Prop where
  log2PageSize : pt.log2PageSize = m.log2PageSize
  inStep : ∀ pid, InStep (pt.table pid) (m.tables pid)

theorem PageTableImpl.getTable_fst (pt : PageTableImpl) (pid : PID) : (pt.getTable pid).1 = pt.table pid := by
  unfold getTable table
  cases pt.tables pid <;> rfl

theorem PageTableImpl.table_getTable (pt : PageTableImpl) (pid p : PID) : (pt.getTable pid).2.table p = pt.table p := by
  unfold getTable table
  cases hpid : pt.tables pid with
  | some => rfl
  | none =>
    by_cases hp : p = pid
    · subst hp
      simp [hpid]
    · simp [hp]

theorem PageTableImpl.log2PageSize_getTable (pt : PageTableImpl) (pid : PID) :
    (pt.getTable pid).2.log2PageSize = pt.log2PageSize := by
  unfold getTable
  cases pt.tables pid <;> rfl

namespace Represents

variable {pt : PageTableImpl} {m : PageTable} {pid : PID} {page : Page} {v : VAddr}

theorem new (log2PageSize : Nat) : Represents (.new log2PageSize) { PageTable.empty with log2PageSize } where
  log2PageSize := rfl
  inStep _ := InStep.new

theorem getTable (h : Represents pt m) (pid : PID) : Represents (pt.getTable pid).2 m where
  log2PageSize := (pt.log2PageSize_getTable pid).trans h.log2PageSize
  inStep p := by
    rw [pt.table_getTable]
    exact h.inStep p

theorem alignToPage (h : Represents pt m) (v : VAddr) : pt.alignToPage v = m.alignToPage v := by
  rw [PageTableImpl.alignToPage, PageTable.alignToPage, h.log2PageSize]

theorem onTable_ok (h : Represents pt m) {f : ProcessTable → Except String ProcessTable} {m' : PageTable}
    (hlog : m'.log2PageSize = m.log2PageSize) (hother : ∀ p, p ≠ pid → m'.tables p = m.tables p)
    (hf : ∃ t', f (pt.table pid) = .ok t' ∧ InStep t' (m'.tables pid)) :
    (pt.onTable pid f).1 = .done ∧ Represents (pt.onTable pid f).2 m' := by
  obtain ⟨_, ht', hstep⟩ := hf
  rw [← pt.getTable_fst] at ht'
  simp only [PageTableImpl.onTable, ht', true_and]
  refine ⟨(h.getTable pid).log2PageSize.trans hlog.symm, fun p => ?_⟩
  by_cases hp : p = pid
  · subst hp
    simpa [PageTableImpl.table] using hstep
  · have hsame := (h.getTable pid).inStep p
    rw [hother p hp]
    simpa [PageTableImpl.table, hp] using hsame

theorem onTable_error (h : Represents pt m) {f : ProcessTable → Except String ProcessTable} {e : String}
    (hf : f (pt.table pid) = .error e) : (pt.onTable pid f).1 = .panicked e ∧ Represents (pt.onTable pid f).2 m := by
  rw [← pt.getTable_fst] at hf
  simp only [PageTableImpl.onTable, hf, true_and]
  exact h.getTable pid

theorem tables_set (m : PageTable) (page : Page) :
    (m.set page).tables page.pid = Function.update (m.tables page.pid) page.vAddr (some page) := by
  funext v
  by_cases hv : v = page.vAddr
  · simp [PageTable.set, hv]
  · rw [update_of_ne hv]
    exact if_neg fun h => hv h.2.symm

theorem tables_set_ne (m : PageTable) {page : Page} {p : PID} (hp : p ≠ page.pid) : (m.set page).tables p = m.tables p := by
  funext v
  exact if_neg fun h => hp h.1.symm

theorem tables_clear (m : PageTable) (pid : PID) (v : VAddr) :
    (m.clear pid v).tables pid = Function.update (m.tables pid) v none := by
  funext w
  by_cases hw : w = v
  · simp [PageTable.clear, hw]
  · rw [update_of_ne hw]
    exact if_neg fun h => hw h.2.symm

theorem tables_clear_ne (m : PageTable) (v : VAddr) {p : PID} (hp : p ≠ pid) : (m.clear pid v).tables p = m.tables p := by
  funext w
  exact if_neg fun h => hp h.1.symm

theorem find (h : Represents pt m) (pid : PID) (v : VAddr) :
    (pt.find pid v).1 = m.find pid v ∧ Represents (pt.find pid v).2 m := by
  refine ⟨?_, h.getTable pid⟩
  have halign := (h.getTable pid).alignToPage v
  simp only [PageTableImpl.find, pt.getTable_fst, halign]
  exact (h.inStep pid).lookup _

theorem update (h : Represents pt m) (page : Page) :
    (pt.update page).1 = (m.answer (m.update page)).1 ∧ Represents (pt.update page).2 (m.answer (m.update page)).2 := by
  unfold PageTable.update
  cases hm : m.tables page.pid page.vAddr with
  | none => exact h.onTable_error ((h.inStep page.pid).update_absent hm)
  | some =>
    refine @onTable_ok pt m page.pid h _ (m.set page) rfl (fun p hp => tables_set_ne m hp) ?_
    rw [tables_set]
    exact (h.inStep page.pid).update hm

theorem insert (h : Represents pt m) (haligned : m.alignToPage page.vAddr = page.vAddr) :
    (pt.insert page).1 = (m.answer (m.insert page)).1 ∧ Represents (pt.insert page).2 (m.answer (m.insert page)).2 := by
  unfold PageTable.insert PageTable.find
  rw [haligned]
  cases hm : m.tables page.pid page.vAddr with
  | some => exact h.onTable_error ((h.inStep page.pid).insert_present hm)
  | none =>
    refine @onTable_ok pt m page.pid h _ (m.set page) rfl (fun p hp => tables_set_ne m hp) ?_
    rw [tables_set]
    exact (h.inStep page.pid).insert hm

/-- `Remove` at the base of a page. -/
theorem remove (h : Represents pt m) (hbase : m.alignToPage v = v) :
    (pt.remove pid v).1 = (m.answer (m.remove pid v)).1 ∧ Represents (pt.remove pid v).2 (m.answer (m.remove pid v)).2 := by
  unfold PageTable.remove PageTable.find
  rw [hbase]
  cases hm : m.tables pid v with
  | none => exact h.onTable_error ((h.inStep pid).remove_absent hm)
  | some =>
    refine @onTable_ok pt m pid h _ (m.clear pid v) rfl (fun p hp => tables_clear_ne m v hp) ?_
    rw [tables_clear]
    exact (h.inStep pid).remove hm

theorem updateAccessCounts (h : Represents pt m) (pid : PID) (v : VAddr) :
    (pt.updateAccessCounts pid v).1 = (m.answer (m.updateAccessCounts pid v)).1 ∧
      Represents (pt.updateAccessCounts pid v).2 (m.answer (m.updateAccessCounts pid v)).2 := by
  obtain ⟨hfound, h'⟩ := h.find pid v
  unfold PageTableImpl.updateAccessCounts PageTable.updateAccessCounts
  rw [← hfound]
  cases hfind : pt.find pid v with
  | mk found =>
    rw [hfind] at h'
    cases found with
    | none => exact ⟨rfl, h'⟩
    | some => exact h'.update _

theorem initAccessCounts (h : Represents pt m) (pid : PID) (v : VAddr) :
    (pt.initAccessCounts pid v).1 = (m.answer (m.initAccessCounts pid v)).1 ∧
      Represents (pt.initAccessCounts pid v).2 (m.answer (m.initAccessCounts pid v)).2 := by
  obtain ⟨hfound, h'⟩ := h.find pid v
  unfold PageTableImpl.initAccessCounts PageTable.initAccessCounts
  rw [← hfound]
  cases hfind : pt.find pid v with
  | mk found =>
    rw [hfind] at h'
    cases found with
    | none => exact ⟨rfl, h'⟩
    | some => exact h'.update _

end Represents

/-! ## Pages at page bases -/

/-- The base of the page that contains `v`. -/
def pageBase (log2PageSize : Nat) (v : VAddr) : VAddr := (PageTableImpl.new log2PageSize).alignToPage v

namespace PageTableOp

/-- Pages that are inserted or updated have a page-aligned `VAddr`. -/
def Aligned (log2PageSize : Nat) : PageTableOp → Prop
  | insert page | update page => pageBase log2PageSize page.vAddr = page.vAddr
  | _ => True

/-- The process and the page base an operation is about. -/
def key (log2PageSize : Nat) : PageTableOp → PID × VAddr
  | insert page | update page => (page.pid, pageBase log2PageSize page.vAddr)
  | remove pid v | find pid v | updateAccessCounts pid v | initAccessCounts pid v => (pid, pageBase log2PageSize v)

end PageTableOp

namespace PageTable

variable {m m' : PageTable} {op : PageTableOp} {page : Page} {pid : PID} {v : VAddr} {key : PID × VAddr}

theorem pageBase_idem (log2PageSize : Nat) (v : VAddr) :
    pageBase log2PageSize (pageBase log2PageSize v) = pageBase log2PageSize v := by
  have hle := Nat.div_mul_le_self v.toNat (2 ^ log2PageSize)
  have hlt := v.toNat_lt
  simp only [pageBase, PageTableImpl.alignToPage, PageTableImpl.new]
  rw [UInt64.toNat_ofNat_of_lt' (by rw [UInt64.size]; omega), Nat.mul_div_cancel _ (Nat.two_pow_pos _)]

/-- What an operation about `key` does to the map. -/
inductive Change (m : PageTable) (key : PID × VAddr) : PageTable → Prop
  | keep : Change m key m
  | set (page : Page) (hkey : (page.pid, page.vAddr) = key) : Change m key (m.set page)
  | clear : Change m key (m.clear key.1 key.2)

theorem Change.update (h : (page.pid, page.vAddr) = key) : Change m key (m.answer (m.update page)).2 := by
  unfold PageTable.update
  cases m.tables page.pid page.vAddr with
  | none => exact .keep
  | some => exact .set page h

theorem Change.step (hop : op.Aligned m.log2PageSize) : Change m (op.key m.log2PageSize) (m.step op).2 := by
  cases op with
  | insert page =>
    simp only [PageTable.step, PageTable.insert]
    cases m.find page.pid page.vAddr with
    | some => exact .keep
    | none => exact .set page (Prod.ext rfl hop.symm)
  | update => exact Change.update (Prod.ext rfl hop.symm)
  | remove pid v =>
    simp only [PageTable.step, PageTable.remove]
    cases m.find pid v with
    | none => exact .keep
    | some => exact .clear
  | find => exact .keep
  | updateAccessCounts pid v =>
    simp only [PageTable.step, PageTable.updateAccessCounts]
    cases hfind : m.find pid v with
    | none => exact .keep
    | some => exact Change.update (Prod.ext (key_of_find hfind).1 (key_of_find hfind).2)
  | initAccessCounts pid v =>
    simp only [PageTable.step, PageTable.initAccessCounts]
    cases hfind : m.find pid v with
    | none => exact .keep
    | some => exact Change.update (Prod.ext (key_of_find hfind).1 (key_of_find hfind).2)

theorem Change.log2PageSize (h : Change m key m') : m'.log2PageSize = m.log2PageSize := by
  cases h <;> rfl

theorem Change.tables_ne (h : Change m key m') (hne : (pid, v) ≠ key) : m'.tables pid v = m.tables pid v := by
  cases h with
  | keep => rfl
  | set _ hkey =>
    apply if_neg
    rintro ⟨rfl, rfl⟩
    exact hne hkey
  | clear =>
    apply if_neg
    rintro ⟨rfl, rfl⟩
    exact hne rfl

/-- Every page lies at the base of a page. -/
def AtBases (m : PageTable) : Prop := ∀ pid v page, m.tables pid v = some page → pageBase m.log2PageSize v = v

theorem AtBases.change (h : m.AtBases) (hc : Change m key m') (hkey : pageBase m.log2PageSize key.2 = key.2) :
    m'.AtBases := by
  intro pid v page hpage
  rw [hc.log2PageSize]
  by_cases hv : (pid, v) = key
  · rw [← hv] at hkey
    exact hkey
  · rw [hc.tables_ne hv] at hpage
    exact h pid v page hpage

theorem base_key (op : PageTableOp) (log2PageSize : Nat) :
    pageBase log2PageSize (op.key log2PageSize).2 = (op.key log2PageSize).2 := by
  cases op <;> exact pageBase_idem _ _

end PageTable

/-! ## Runs -/

/-- A `Remove` is given the base of the page or an address of no mapped page. -/
def PageTableOp.Removable (pt : PageTableImpl) : PageTableOp → Prop
  | remove pid v => pt.alignToPage v = v ∨ (pt.find pid v).1 = none
  | _ => True

/-- Every `Remove` of the run is given the base of its page. -/
def RemovesAtBase : PageTableImpl → List PageTableOp → Prop
  | _, [] => True
  | pt, op :: ops => op.Removable pt ∧ RemovesAtBase (pt.step op).2 ops

/-- The answer to an operation is that of the map, and the tables hold the pages of the map after it. -/
theorem step_represents {pt : PageTableImpl} {m : PageTable} (h : Represents pt m) (hbases : m.AtBases) {op : PageTableOp}
    (hop : op.Aligned m.log2PageSize) (hremove : op.Removable pt) :
    (pt.step op).1 = (m.step op).1 ∧ Represents (pt.step op).2 (m.step op).2 := by
  cases op with
  | insert => exact h.insert hop
  | update page => exact h.update page
  | remove pid v =>
    by_cases hv : pt.alignToPage v = v
    · exact h.remove (h.alignToPage v ▸ hv)
    · -- no page contains `v`, and none lies at `v`
      have hnone : m.find pid v = none := by
        rw [← (h.find pid v).1]
        exact hremove.resolve_left hv
      have habsent : m.tables pid v = none := by
        cases hm : m.tables pid v with
        | none => rfl
        | some page => exact absurd ((h.alignToPage v).trans (hbases pid v page hm)) hv
      simp only [PageTable.step, PageTable.remove, hnone]
      exact h.onTable_error ((h.inStep pid).remove_absent habsent)
  | find pid v => exact ⟨congrArg Answer.found (h.find pid v).1, (h.find pid v).2⟩
  | updateAccessCounts pid v => exact h.updateAccessCounts pid v
  | initAccessCounts pid v => exact h.initAccessCounts pid v

/-- A `Remove` at another address of a mapped page is rejected, where the map would remove the page. -/
theorem step_ne {pt : PageTableImpl} {m : PageTable} (h : Represents pt m) (hbases : m.AtBases) {op : PageTableOp}
    (hremove : ¬ op.Removable pt) : (pt.step op).1 ≠ (m.step op).1 ∧ Represents (pt.step op).2 m := by
  cases op with
  | remove pid v =>
    obtain ⟨hv, hfound⟩ := not_or.1 hremove
    rw [(h.find pid v).1] at hfound
    obtain ⟨page, hpage⟩ := Option.ne_none_iff_exists'.1 hfound
    have habsent : m.tables pid v = none := by
      cases hm : m.tables pid v with
      | none => rfl
      | some page => exact absurd ((h.alignToPage v).trans (hbases pid v page hm)) hv
    obtain ⟨hcode, h'⟩ := h.onTable_error ((h.inStep pid).remove_absent habsent)
    have hmap : (m.step (.remove pid v)).1 = .done := by
      simp only [PageTable.step, PageTable.remove, hpage]
      rfl
    refine ⟨fun heq => ?_, h'⟩
    rw [hmap] at heq
    exact Answer.noConfusion (hcode.symm.trans heq)
  | _ => exact absurd trivial hremove

theorem find_step_ne {pt : PageTableImpl} {m : PageTable} (h : Represents pt m) (hbases : m.AtBases) {op : PageTableOp}
    (hop : op.Aligned m.log2PageSize) {pid : PID} {v : VAddr}
    (hne : (pid, pageBase m.log2PageSize v) ≠ op.key m.log2PageSize) :
    ((pt.step op).2.find pid v).1 = (pt.find pid v).1 := by
  rw [(h.find pid v).1]
  by_cases hremove : op.Removable pt
  · have hchange := PageTable.Change.step hop
    rw [((step_represents h hbases hop hremove).2.find pid v).1, PageTable.find, PageTable.alignToPage, hchange.log2PageSize]
    exact hchange.tables_ne hne
  · exact ((step_ne h hbases hremove).2.find pid v).1

theorem run_represents {pt : PageTableImpl} {m : PageTable} (h : Represents pt m) (hbases : m.AtBases)
    {ops : List PageTableOp} (hops : ∀ op ∈ ops, op.Aligned m.log2PageSize) (hremoves : RemovesAtBase pt ops) :
    (runOps PageTableImpl.step pt ops).1 = (runOps PageTable.step m ops).1 ∧
      Represents (runOps PageTableImpl.step pt ops).2 (runOps PageTable.step m ops).2 ∧
      (runOps PageTable.step m ops).2.AtBases ∧ (runOps PageTable.step m ops).2.log2PageSize = m.log2PageSize := by
  induction ops generalizing pt m with
  | nil => exact ⟨rfl, h, hbases, rfl⟩
  | cons op _ ih =>
    have hop := hops op (mem_cons_self ..)
    have hchange := PageTable.Change.step hop
    obtain ⟨hanswer, h'⟩ := step_represents h hbases hop hremoves.1
    obtain ⟨hanswers, hfinal, hbases', hlog⟩ := ih h' (hbases.change hchange (PageTable.base_key op _))
      (fun o ho => hchange.log2PageSize ▸ hops o (mem_cons_of_mem _ ho)) hremoves.2
    refine ⟨?_, hfinal, hbases', hlog.trans hchange.log2PageSize⟩
    simp only [runOps, hanswer, hanswers]

theorem removesAtBase_of_answers {pt : PageTableImpl} {m : PageTable} (h : Represents pt m) (hbases : m.AtBases)
    {ops : List PageTableOp} (hops : ∀ op ∈ ops, op.Aligned m.log2PageSize)
    (hanswers : (runOps PageTableImpl.step pt ops).1 = (runOps PageTable.step m ops).1) : RemovesAtBase pt ops := by
  induction ops generalizing pt m with
  | nil => trivial
  | cons op _ ih =>
    have hop := hops op (mem_cons_self ..)
    have hchange := PageTable.Change.step hop
    simp only [runOps, cons.injEq] at hanswers
    by_cases hremove : op.Removable pt
    · refine ⟨hremove, ih (step_represents h hbases hop hremove).2 (hbases.change hchange (PageTable.base_key op _)) ?_
        hanswers.2⟩
      exact fun o ho => hchange.log2PageSize ▸ hops o (mem_cons_of_mem _ ho)
    · exact absurd hanswers.1 (step_ne h hbases hremove).1

/-- After the operations `ops` on new tables: the answers were those of the map, the tables find what the map holds, the list
of a process holds the pages of the map, each address once, and an operation changes nothing that is found under another
key. -/
structure Agrees (log2PageSize : Nat) (ops : List PageTableOp) : Prop where
  answers : (runOps PageTableImpl.step (.new log2PageSize) ops).1 =
    (runOps PageTable.step { PageTable.empty with log2PageSize } ops).1
  find : ∀ pid v, ((runOps PageTableImpl.step (.new log2PageSize) ops).2.find pid v).1 =
    (runOps PageTable.step { PageTable.empty with log2PageSize } ops).2.find pid v
  entries : ∀ pid page, page ∈ ((runOps PageTableImpl.step (.new log2PageSize) ops).2.table pid).pages ↔
    (runOps PageTable.step { PageTable.empty with log2PageSize } ops).2.tables pid page.vAddr = some page
  nodup : ∀ pid, (((runOps PageTableImpl.step (.new log2PageSize) ops).2.table pid).pages.map Page.vAddr).Nodup
  frame : ∀ op : PageTableOp, op.Aligned log2PageSize → ∀ pid v, (pid, pageBase log2PageSize v) ≠ op.key log2PageSize →
    (((runOps PageTableImpl.step (.new log2PageSize) ops).2.step op).2.find pid v).1 =
      ((runOps PageTableImpl.step (.new log2PageSize) ops).2.find pid v).1

/-- The page table is a map over pages exactly when every `Remove` of a mapped page is given its base. -/
theorem agrees_iff (log2PageSize : Nat) (ops : List PageTableOp) (hops : ∀ op ∈ ops, op.Aligned log2PageSize) :
    Agrees log2PageSize ops ↔ RemovesAtBase (.new log2PageSize) ops := by
  have hnew : ({ PageTable.empty with log2PageSize } : PageTable).AtBases := by
    intro pid v page hpage
    cases hpage
  constructor
  · intro h
    exact removesAtBase_of_answers (Represents.new _) hnew hops h.answers
  · intro hremoves
    obtain ⟨hanswers, hfinal, hbases, hlog⟩ := run_represents (Represents.new _) hnew hops hremoves
    refine ⟨hanswers, fun pid v => (hfinal.find pid v).1, fun pid page => (hfinal.inStep pid).mem_pages,
      fun pid => (hfinal.inStep pid).pages_nodup, fun op hop pid v hne => find_step_ne hfinal hbases ?_ ?_⟩
    · rw [hlog]
      exact hop
    · rw [hlog]
      exact hne

/-- A page inserted, found in its middle and removed at its base. -/
theorem agrees_iff_base : Agrees 12 [.insert { vAddr := 0x1000 }, .find 0 0x1004, .remove 0 0x1000] ↔
    RemovesAtBase (.new 12) [.insert { vAddr := 0x1000 }, .find 0 0x1004, .remove 0 0x1000] :=
  agrees_iff 12 _ (by
    intro op hop
    simp only [mem_cons, not_mem_nil, or_false] at hop
    rcases hop with rfl | rfl | rfl
    · simp only [PageTableOp.Aligned]
      decide +kernel
    · trivial
    · trivial)

/-- `Remove` panics at an address in the middle of a mapped page, and the page stays. -/
theorem remove_misses : PageTableOp.Aligned 12 (.insert { vAddr := 0x1000 }) ∧
    ¬ Agrees 12 [.insert { vAddr := 0x1000 }, .remove 0 0x1004] ∧
    (runOps PageTableImpl.step (.new 12) [.insert { vAddr := 0x1000 }, .remove 0 0x1004, .find 0 0x1004]).1 =
      [.done, .panicked "page does not exist", .found (some { vAddr := 0x1000 })] := by
  refine ⟨?_, fun h => ?_, ?_⟩
  · simp only [PageTableOp.Aligned]
    decide +kernel
  · have hanswers := h.answers
    revert hanswers
    decide +kernel
  · decide +kernel

end Akita.Vm
