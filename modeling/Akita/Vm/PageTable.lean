import Akita.Vm.Protocol

/-!
# Page tables

`vm.PageTable` of `mem/vm/pagetable.go`: one table for each process, by the address of the page. A page is stored under its
own process and address (`keyed`).
-/

namespace Akita.Vm
open Mem

/-- `pageTableImpl`. -/
structure PageTable where
  log2PageSize : Nat := 12
  tables : PID → VAddr → Option Page
  keyed : ∀ pid vAddr page, tables pid vAddr = some page → page.pid = pid ∧ page.vAddr = vAddr

namespace PageTable

/-- `NewPageTable`. -/
def empty : PageTable where
  tables := fun _ _ => none
  keyed := fun _ _ _ h => absurd h.symm (Option.some_ne_none _)

variable {pt pt' : PageTable} {pid : PID} {addr : VAddr} {page found : Page}

def alignToPage (pt : PageTable) (addr : VAddr) : VAddr :=
  UInt64.ofNat (addr.toNat / 2 ^ pt.log2PageSize * 2 ^ pt.log2PageSize)

def find (pt : PageTable) (pid : PID) (addr : VAddr) : Option Page := pt.tables pid (pt.alignToPage addr)

/-- The table with a page put under its process and address. -/
def set (pt : PageTable) (page : Page) : PageTable where
  log2PageSize := pt.log2PageSize
  tables := fun pid vAddr => if page.pid = pid ∧ page.vAddr = vAddr then some page else pt.tables pid vAddr
  keyed := by
    intro pid vAddr p hp
    split at hp
    next h =>
      cases hp
      exact h
    next => exact pt.keyed pid vAddr p hp

def update (pt : PageTable) (page : Page) : Except String PageTable :=
  match pt.tables page.pid page.vAddr with
  | some _ => .ok (pt.set page)
  | none => .error "page does not exist"

def updateAccessCounts (pt : PageTable) (pid : PID) (vAddr : VAddr) : Except String PageTable :=
  match pt.find pid vAddr with
  | none => .ok pt
  | some page => pt.update { page with accessCounts := (page.accessCounts + 1) % 2 ^ 64 }

theorem key_of_find (h : pt.find pid addr = some page) : page.pid = pid ∧ page.vAddr = pt.alignToPage addr :=
  pt.keyed _ _ _ h

theorem tables_of_find (h : pt.find pid addr = some page) : pt.tables page.pid page.vAddr = some page := by
  obtain ⟨hpid, haddr⟩ := key_of_find h
  rw [hpid, haddr]
  exact h

theorem find_set : (pt.set page).find pid addr =
    if page.pid = pid ∧ page.vAddr = pt.alignToPage addr then some page else pt.find pid addr := rfl

theorem find_set_self (hpid : page.pid = pid) (haddr : page.vAddr = pt.alignToPage addr) :
    (pt.set page).find pid addr = some page := by
  rw [find_set, if_pos ⟨hpid, haddr⟩]

theorem find_set_ne (h : page.pid = pid → page.vAddr ≠ pt.alignToPage addr) :
    (pt.set page).find pid addr = pt.find pid addr := by
  rw [find_set, if_neg fun hkey => h hkey.1 hkey.2]

theorem set_set {page page' : Page} (hpid : page.pid = page'.pid) (haddr : page.vAddr = page'.vAddr) :
    (pt.set page).set page' = pt.set page' := by
  simp only [set, mk.injEq, true_and]
  funext pid vAddr
  by_cases h : page'.pid = pid ∧ page'.vAddr = vAddr
  · rw [if_pos h, if_pos h]
  · rw [if_neg h, if_neg h, if_neg (by rwa [hpid, haddr])]

end PageTable

end Akita.Vm
