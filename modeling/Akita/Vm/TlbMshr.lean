import Akita.Multisets
import Akita.Vm.Protocol

/-!
# MSHRs of local and remote requests

`tlbmshr.go`, which `mem/vm/tlb_gmmu` and `mem/vm/tlb_cf` share: an entry for each page with the requests that wait for it,
each with the side it came from.
-/

namespace Akita.Vm
open List hiding map
open Mem
open Multiset (coe_add coe_eq_coe map)

structure MshrRequest where
  request : TranslationReq
  localFlag : Bool
  remoteFlag : Bool
deriving DecidableEq

structure MshrEntry where
  pid : PID
  vAddr : VAddr
  requests : List MshrRequest := []
  reqToBottom : Option TranslationReq := none
  page : Page := {}
deriving DecidableEq

namespace MshrEntry

def key (e : MshrEntry) : PID × VAddr := (e.pid, e.vAddr)

def isFor (pid : PID) (vAddr : VAddr) (e : MshrEntry) : Bool := e.pid == pid && e.vAddr == vAddr

theorem isFor_iff {pid : PID} {vAddr : VAddr} {e : MshrEntry} : isFor pid vAddr e = true ↔ e.pid = pid ∧ e.vAddr = vAddr := by
  simp [isFor]

/-- The requests of an entry are for its page, each from one side, and there is one at least. -/
structure WellFormed (e : MshrEntry) : Prop where
  nonempty : e.requests ≠ []
  sides : ∀ r ∈ e.requests, r.remoteFlag = !r.localFlag
  pages : ∀ r ∈ e.requests, r.request.pid = e.pid ∧ r.request.vAddr = e.vAddr

end MshrEntry

/-! ## `mshrImpl` -/

/-- `mshrImpl`. -/
structure Mshr (capacity : Nat) where
  entries : List MshrEntry := []
deriving DecidableEq

namespace Mshr

variable {capacity : Nat}

/-- `Query`, and `GetEntry`. -/
def query (m : Mshr capacity) (pid : PID) (vAddr : VAddr) : Option MshrEntry := m.entries.find? (MshrEntry.isFor pid vAddr)

def isEntryPresent (m : Mshr capacity) (pid : PID) (vAddr : VAddr) : Bool := m.entries.any (MshrEntry.isFor pid vAddr)

def isFull (m : Mshr capacity) : Bool := capacity ≤ m.entries.length

/-- `Add`, with the entry as its caller completes it. -/
def add (m : Mshr capacity) (e : MshrEntry) : Except String (Mshr capacity) :=
  if m.isEntryPresent e.pid e.vAddr then .error "entry already in mshr"
  else if m.isFull then .error "MSHR is full"
  else .ok ⟨m.entries ++ [e]⟩

def remove (m : Mshr capacity) (pid : PID) (vAddr : VAddr) : Except String (Mshr capacity) :=
  if m.isEntryPresent pid vAddr then .ok ⟨m.entries.eraseP (MshrEntry.isFor pid vAddr)⟩
  else .error "trying to remove an non-exist entry"

/-- The first entry of the page of `r` gets `r`. -/
def joinEntries (r : MshrRequest) : List MshrEntry → List MshrEntry
  | [] => []
  | e :: entries =>
    if MshrEntry.isFor r.request.pid r.request.vAddr e then { e with requests := e.requests ++ [r] } :: entries
    else e :: joinEntries r entries

/-- `mshrEntry.Requests = append(mshrEntry.Requests, mshrReq)` for the entry that `Query` gives. -/
def join (m : Mshr capacity) (r : MshrRequest) : Mshr capacity := ⟨joinEntries r m.entries⟩

def reset (_ : Mshr capacity) : Mshr capacity := {}

/-- The keys of the entries. -/
def keys (m : Mshr capacity) : List (PID × VAddr) := m.entries.map MshrEntry.key

/-- The requests that wait. -/
def waiting (m : Mshr capacity) : Multiset MshrRequest := ↑(m.entries.flatMap MshrEntry.requests)

variable {m m' : Mshr capacity} {e : MshrEntry} {pid : PID} {vAddr : VAddr} {r : MshrRequest}

theorem isEntryPresent_eq : m.isEntryPresent pid vAddr = (m.query pid vAddr).isSome := by
  rw [isEntryPresent, query]
  induction m.entries with
  | nil => rfl
  | cons e _ ih =>
    by_cases hfor : MshrEntry.isFor pid vAddr e = true
    · simp [hfor]
    · simp [hfor, ih]

theorem mem_of_query (h : m.query pid vAddr = some e) : e ∈ m.entries := mem_of_find?_eq_some h

theorem key_of_query (h : m.query pid vAddr = some e) : e.pid = pid ∧ e.vAddr = vAddr :=
  MshrEntry.isFor_iff.mp (find?_some h)

theorem query_eq_none : m.query pid vAddr = none ↔ (pid, vAddr) ∉ m.keys := by
  simp only [query, find?_eq_none, keys, mem_map, not_exists, not_and]
  apply forall_congr'
  intro e
  apply forall_congr'
  intro _
  rw [MshrEntry.isFor_iff, MshrEntry.key, Prod.mk.injEq]

theorem remove_of_query (h : m.query pid vAddr = some e) :
    m.remove pid vAddr = .ok ⟨m.entries.eraseP (MshrEntry.isFor pid vAddr)⟩ := by
  rw [remove, isEntryPresent_eq, h]
  rfl

theorem add_ok (habsent : m.query e.pid e.vAddr = none) (hfull : m.isFull = false) : m.add e = .ok ⟨m.entries ++ [e]⟩ := by
  rw [add, isEntryPresent_eq, habsent, hfull]
  rfl

/-! ## What waits -/

theorem waiting_add (e : MshrEntry) : waiting (⟨m.entries ++ [e]⟩ : Mshr capacity) = m.waiting + ↑e.requests := by
  rw [waiting, flatMap_append, flatMap_singleton, ← coe_add]
  rfl

theorem waiting_remove (h : m.query pid vAddr = some e) :
    m.waiting = ↑e.requests + waiting (⟨m.entries.eraseP (MshrEntry.isFor pid vAddr)⟩ : Mshr capacity) := by
  have hperm : m.entries.Perm (e :: m.entries.eraseP (MshrEntry.isFor pid vAddr)) :=
    coe_eq_coe.mp (by rw [← Multiset.cons_coe]; exact coe_eraseP h)
  rw [waiting, coe_eq_coe.mpr (hperm.flatMap_right _), flatMap_cons, ← coe_add]
  rfl

theorem waiting_joinEntries {entries : List MshrEntry}
    (h : entries.any (MshrEntry.isFor r.request.pid r.request.vAddr) = true) :
    (↑((joinEntries r entries).flatMap MshrEntry.requests) : Multiset MshrRequest) =
      r ::ₘ ↑(entries.flatMap MshrEntry.requests) := by
  induction entries with
  | nil => simp at h
  | cons _ entries ih =>
    unfold joinEntries
    split
    next =>
      rw [flatMap_cons, flatMap_cons, ← coe_add]
      dsimp only
      rw [coe_concat, Multiset.cons_add, coe_add]
    next hne =>
      have hrest : entries.any (MshrEntry.isFor r.request.pid r.request.vAddr) = true := by
        simpa [Bool.eq_false_iff.mpr hne] using h
      simp only [flatMap_cons, ← coe_add, ih hrest, Multiset.add_cons]

theorem waiting_join (h : m.query r.request.pid r.request.vAddr = some e) : (m.join r).waiting = r ::ₘ m.waiting := by
  apply waiting_joinEntries
  have hpresent : m.isEntryPresent r.request.pid r.request.vAddr = true := by
    rw [isEntryPresent_eq, h]
    rfl
  exact hpresent

theorem mem_joinEntries {entries : List MshrEntry} (h : e ∈ joinEntries r entries) : e ∈ entries ∨
    ∃ e₀ ∈ entries, e₀.pid = r.request.pid ∧ e₀.vAddr = r.request.vAddr ∧ e = { e₀ with requests := e₀.requests ++ [r] } := by
  induction entries with
  | nil => exact .inl h
  | cons e₀ _ ih =>
    unfold joinEntries at h
    split at h
    next hfor =>
      obtain ⟨hpid, haddr⟩ := MshrEntry.isFor_iff.mp hfor
      rcases mem_cons.mp h with rfl | h
      · exact .inr ⟨e₀, mem_cons_self, hpid, haddr, rfl⟩
      · exact .inl (mem_cons_of_mem _ h)
    next =>
      rcases mem_cons.mp h with rfl | h
      · exact .inl mem_cons_self
      · rcases ih h with h | ⟨e₁, he₁, hsame⟩
        · exact .inl (mem_cons_of_mem _ h)
        · exact .inr ⟨e₁, mem_cons_of_mem _ he₁, hsame⟩

theorem wellFormed_join (hall : ∀ e ∈ m.entries, e.WellFormed) (hside : r.remoteFlag = !r.localFlag) :
    ∀ e ∈ (m.join r).entries, e.WellFormed := by
  intro e he
  rcases mem_joinEntries he with he | ⟨e₀, he₀, hpid, haddr, rfl⟩
  · exact hall e he
  · refine ⟨by simp, fun r' hr' => ?_, fun r' hr' => ?_⟩
    · rcases mem_append.mp hr' with hr' | hr'
      · exact (hall e₀ he₀).sides r' hr'
      · rw [mem_singleton.mp hr']
        exact hside
    · rcases mem_append.mp hr' with hr' | hr'
      · exact (hall e₀ he₀).pages r' hr'
      · rw [mem_singleton.mp hr']
        exact ⟨hpid.symm, haddr.symm⟩

/-! ## Keys -/

theorem keys_add (e : MshrEntry) : keys (⟨m.entries ++ [e]⟩ : Mshr capacity) = m.keys ++ [e.key] := by
  simp [keys]

@[simp] theorem keys_join (r : MshrRequest) : (m.join r).keys = m.keys := by
  unfold keys join
  induction m.entries with
  | nil => rfl
  | cons _ _ ih =>
    simp only at ih
    unfold joinEntries
    split
    · rfl
    · rw [map_cons, map_cons, ih]

theorem keys_remove (hnodup : m.keys.Nodup) (h : m.query pid vAddr = some e) :
    (keys (⟨m.entries.eraseP (MshrEntry.isFor pid vAddr)⟩ : Mshr capacity)).Nodup ∧
      ∀ k ∈ keys (⟨m.entries.eraseP (MshrEntry.isFor pid vAddr)⟩ : Mshr capacity), k ∈ m.keys ∧ k ≠ (pid, vAddr) := by
  have hperm : m.keys.Perm ((pid, vAddr) :: keys (⟨m.entries.eraseP (MshrEntry.isFor pid vAddr)⟩ : Mshr capacity)) := by
    have hcoe := congrArg (map MshrEntry.key) (coe_eraseP h)
    obtain ⟨hpid, haddr⟩ := key_of_query h
    rw [Multiset.map_cons, MshrEntry.key, hpid, haddr] at hcoe
    exact coe_eq_coe.mp hcoe
  have hcons := nodup_cons.mp (hperm.nodup hnodup)
  refine ⟨hcons.2, fun k hk => ⟨hperm.mem_iff.mpr (mem_cons_of_mem _ hk), ?_⟩⟩
  rintro rfl
  exact hcons.1 hk

end Mshr

end Akita.Vm
