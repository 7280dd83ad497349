import Akita.Mem.Cache.Directory

/-!
# Miss status holding registers

`cache.mshrImpl`. An entry outlives its removal: whoever holds a pointer to it goes on using it. `EntryRef` is that
pointer, `heap` what it points to, and `entries` the entries that are in the MSHR. The requests of an entry are of
the transaction type `R` of the cache that uses the MSHR.
-/

namespace Akita.Mem.Cache
open List Function

abbrev EntryRef := Nat

/-- `cache.MSHREntry`. The data is a slice, given by the number of its array. -/
structure MSHREntry (R : Type) where
  pid : PID := 0
  address : Nat := 0
  requests : List R := []
  block : Option BlockRef := none
  data : Option Nat := none
deriving DecidableEq

structure MSHR (capacity : Nat) (R : Type) where
  heap : EntryRef → MSHREntry R := fun _ => {}
  entries : List EntryRef := []
  nextRef : EntryRef := 0

namespace MSHR

variable {n : Nat} {R : Type}

def query (m : MSHR n R) (pid : PID) (addr : Nat) : Option EntryRef :=
  m.entries.find? fun e => (m.heap e).pid == pid && (m.heap e).address == addr

def isFull (m : MSHR n R) : Bool := n ≤ m.entries.length

def add (m : MSHR n R) (pid : PID) (addr : Nat) : Except String (EntryRef × MSHR n R) :=
  if (m.query pid addr).isSome then .error "entry already in mshr"
  else if m.isFull then .error "MSHR is full"
  else .ok (m.nextRef, { heap := update m.heap m.nextRef { pid, address := addr },
                         entries := m.entries ++ [m.nextRef], nextRef := m.nextRef + 1 })

def remove (m : MSHR n R) (pid : PID) (addr : Nat) : Except String (MSHR n R) :=
  match m.query pid addr with
  | some e => .ok { m with entries := m.entries.erase e }
  | none => .error "trying to remove an non-exist entry"

def reset (m : MSHR n R) : MSHR n R := { m with entries := [] }

/-- An assignment to fields of an entry. -/
def modify (m : MSHR n R) (e : EntryRef) (f : MSHREntry R → MSHREntry R) : MSHR n R :=
  { m with heap := update m.heap e (f (m.heap e)) }

section
variable (m : MSHR n R) (e : EntryRef) (f : MSHREntry R → MSHREntry R)
include m e f

@[simp] theorem entries_modify :
    (m.modify e f).entries = m.entries := rfl

@[simp] theorem nextRef_modify :
    (m.modify e f).nextRef = m.nextRef := rfl

@[simp] theorem heap_modify :
    (m.modify e f).heap = update m.heap e (f (m.heap e)) := rfl

end

variable {e : EntryRef}

theorem keys_modify {m : MSHR n R} {f : MSHREntry R → MSHREntry R}
    (hf : ∀ entry, (f entry).pid = entry.pid ∧ (f entry).address = entry.address) (e' : EntryRef) :
    ((m.modify e f).heap e').pid = (m.heap e').pid ∧ ((m.modify e f).heap e').address = (m.heap e').address := by
  by_cases h : e' = e
  · subst h
    simpa using hf (m.heap e')
  · simp [update_of_ne h]

variable {addr : Nat} {pid : PID}

theorem query_eq_some {m : MSHR n R} (h : m.query pid addr = some e) :
    e ∈ m.entries ∧ (m.heap e).pid = pid ∧ (m.heap e).address = addr := by
  have hp := find?_some h
  simp only [Bool.and_eq_true, beq_iff_eq] at hp
  exact ⟨mem_of_find?_eq_some h, hp.1, hp.2⟩

theorem query_eq_none {m : MSHR n R} (h : m.query pid addr = none)
    (he : e ∈ m.entries) : ¬ ((m.heap e).pid = pid ∧ (m.heap e).address = addr) := by
  have := find?_eq_none.mp h e he
  simpa using this

theorem query_erase {m : MSHR n R} (h : m.query pid addr = none) (e : EntryRef) :
    ({ m with entries := m.entries.erase e } : MSHR n R).query pid addr = none :=
  find?_eq_none.mpr fun e' he' => find?_eq_none.mp h e' (mem_of_mem_erase he')

/-! ## Keys -/

/-- The entries are there once, and no two of them are for the same line. -/
structure Keyed (m : MSHR n R) : Prop where
  nodup : m.entries.Nodup
  below : ∀ e ∈ m.entries, e < m.nextRef
  keys : ∀ e ∈ m.entries, ∀ e' ∈ m.entries, (m.heap e).pid = (m.heap e').pid → (m.heap e).address = (m.heap e').address →
    e = e'

variable {m : MSHR n R}

/-- A query finds the one entry of the line. -/
theorem Keyed.query (h : m.Keyed) (he : e ∈ m.entries) : m.query (m.heap e).pid (m.heap e).address = some e := by
  cases hq : m.query (m.heap e).pid (m.heap e).address with
  | none => exact absurd ⟨rfl, rfl⟩ (query_eq_none hq he)
  | some e' =>
    obtain ⟨he', hpid, haddr⟩ := query_eq_some hq
    rw [h.keys e' he' e he hpid haddr]

theorem Keyed.modify (h : m.Keyed) {f : MSHREntry R → MSHREntry R}
    (hf : ∀ entry, (f entry).pid = entry.pid ∧ (f entry).address = entry.address) : (m.modify e f).Keyed where
  nodup := h.nodup
  below := h.below
  keys e₁ h₁ e₂ h₂ hpid haddr := by
    rw [(keys_modify hf e₁).1, (keys_modify hf e₂).1] at hpid
    rw [(keys_modify hf e₁).2, (keys_modify hf e₂).2] at haddr
    exact h.keys e₁ h₁ e₂ h₂ hpid haddr

theorem Keyed.erase (h : m.Keyed) (e : EntryRef) : ({ m with entries := m.entries.erase e } : MSHR n R).Keyed where
  nodup := h.nodup.erase e
  below e' he' := h.below e' (mem_of_mem_erase he')
  keys e₁ h₁ e₂ h₂ := h.keys e₁ (mem_of_mem_erase h₁) e₂ (mem_of_mem_erase h₂)

variable {m' : MSHR n R}

theorem add_eq_ok (h : m.add pid addr = .ok (e, m')) :
    e = m.nextRef ∧ m' = { heap := update m.heap m.nextRef { pid, address := addr }, entries := m.entries ++ [m.nextRef],
                           nextRef := m.nextRef + 1 } ∧ m.query pid addr = none := by
  unfold add at h
  split at h
  · cases h
  next hquery =>
    split at h
    · cases h
    · cases h
      refine ⟨rfl, rfl, ?_⟩
      cases hq : m.query pid addr with
      | none => rfl
      | some => exact absurd (congrArg Option.isSome hq) hquery

theorem Keyed.add (h : m.Keyed) (hadd : m.add pid addr = .ok (e, m')) :
    m'.Keyed := by
  obtain ⟨rfl, rfl, hquery⟩ := add_eq_ok hadd
  have hne : ∀ e ∈ m.entries, e ≠ m.nextRef := fun e he => Nat.ne_of_lt (h.below e he)
  refine ⟨?_, fun e he => ?_, fun e₁ h₁ e₂ h₂ hpid haddr => ?_⟩
  · refine h.nodup.append (nodup_singleton _) (disjoint_singleton.mpr fun hmem => ?_)
    exact hne _ hmem rfl
  · rcases mem_append.mp he with he | he
    · exact Nat.lt_succ_of_lt (h.below e he)
    · rw [mem_singleton.mp he]
      exact Nat.lt_succ_self _
  · rcases mem_append.mp h₁ with h₁ | h₁ <;> rcases mem_append.mp h₂ with h₂ | h₂
    · simp only [update_of_ne (hne e₁ h₁), update_of_ne (hne e₂ h₂)] at hpid haddr
      exact h.keys e₁ h₁ e₂ h₂ hpid haddr
    · obtain rfl := mem_singleton.mp h₂
      simp only [update_of_ne (hne e₁ h₁), update_self] at hpid haddr
      exact absurd ⟨hpid, haddr⟩ (query_eq_none hquery h₁)
    · obtain rfl := mem_singleton.mp h₁
      simp only [update_of_ne (hne e₂ h₂), update_self] at hpid haddr
      exact absurd ⟨hpid.symm, haddr.symm⟩ (query_eq_none hquery h₂)
    · rw [mem_singleton.mp h₁, mem_singleton.mp h₂]

theorem Keyed.add_modify (h : m.Keyed) (hadd : m.add pid addr = .ok (e, m')) (f : MSHREntry R → MSHREntry R) :
    (m'.modify e f).entries = m.entries ++ [e] ∧
      (m'.modify e f).heap e = f { pid, address := addr } ∧ ∀ e' ∈ m.entries, e' ≠ e ∧
      (m'.modify e f).heap e' = m.heap e' := by
  obtain ⟨rfl, rfl, -⟩ := add_eq_ok hadd
  refine ⟨rfl, ?_, fun e' he' => ?_⟩
  · simp only [heap_modify, update_self]
  · have hne := Nat.ne_of_lt (h.below e' he')
    refine ⟨hne, ?_⟩
    simp only [heap_modify, update_of_ne hne]

end MSHR

end Akita.Mem.Cache
