import Akita.Stages
import Akita.Vm.Protocol
import Std.Data.String.ToNat

/-!
# Sets of the TLB

`setImpl` of `mem/vm/tlb/internal/set.go`: the pages by way, the map from keys to ways, and the list of ways by last
visit. An index beyond the last way is a panic.
-/

namespace Akita.Vm.Tlb
open Mem List Function
open Option hiding or or_self
open Except (ok)

/-- The character of a hexadecimal digit. -/
def hexDigit (d : Nat) : Char := if d < 10 then Char.ofNat (48 + d) else Char.ofNat (87 + d)

/-- `%016x`. -/
def hex16 (v : VAddr) : List Char := (range 16).map fun i => hexDigit (v.toNat / 16 ^ (15 - i) % 16)

/-- `keyString`: the process ID in decimal and the address in hexadecimal. -/
def keyString (pid : PID) (vAddr : VAddr) : String := Nat.repr pid ++ String.ofList (hex16 vAddr)

theorem hexDigit_inj : ∀ a < 16, ∀ b < 16, hexDigit a = hexDigit b → a = b := by decide

theorem length_hex16 (v : VAddr) : (hex16 v).length = 16 := by simp [hex16]

theorem hex16_inj {v w : VAddr} (h : hex16 v = hex16 w) : v = w := by
  have hdigit : ∀ i < 16, v.toNat / 16 ^ (15 - i) % 16 = w.toNat / 16 ^ (15 - i) % 16 := by
    intro i hi
    have hget := congrArg (fun l => l[i]?) h
    simp only [hex16, getElem?_map, getElem?_range hi, map_some, some.injEq] at hget
    exact hexDigit_inj _ (Nat.mod_lt _ (by decide)) _ (Nat.mod_lt _ (by decide)) hget
  have hpow : ∀ k ≤ 16, v.toNat % 16 ^ k = w.toNat % 16 ^ k := by
    intro k
    induction k with
    | zero => intro _; simp [Nat.mod_one]
    | succ k ih =>
      intro hk
      have hd := hdigit (15 - k) (by omega)
      rw [show 15 - (15 - k) = k by omega] at hd
      rw [Nat.pow_succ, Nat.mod_mul, Nat.mod_mul, ih (by omega), hd]
  have hlast := hpow 16 (le_refl 16)
  have hv := v.toNat_lt
  have hw := w.toNat_lt
  rw [Nat.mod_eq_of_lt (by omega), Nat.mod_eq_of_lt (by omega)] at hlast
  exact UInt64.toNat_inj.mp hlast

/-- Different keys have different strings. -/
theorem keyString_inj {p p' : PID} {v v' : VAddr} : keyString p v = keyString p' v' ↔ p = p' ∧ v = v' := by
  constructor
  · intro h
    have hlist := congrArg String.toList h
    simp only [keyString, String.toList_append, String.toList_ofList] at hlist
    obtain ⟨hpid, haddr⟩ := append_inj' hlist (by rw [length_hex16, length_hex16])
    exact ⟨Nat.repr_injective (String.toList_inj.mp hpid), hex16_inj haddr⟩
  · rintro ⟨rfl, rfl⟩
    rfl

/-- The key of a page. -/
def pageKey (p : Page) : String := keyString p.pid p.vAddr

theorem pageKey_inj {p q : Page} : pageKey p = pageKey q ↔ p.pid = q.pid ∧ p.vAddr = q.vAddr := keyString_inj

/-- `block`, without its way, which is its index. -/
structure Block where
  page : Page := {}
  lastVisit : Nat := 0
deriving DecidableEq

structure SetImpl where
  numWays : Nat
  blocks : Nat → Block := fun _ => {}
  vAddrWayIDMap : String → Option Nat := fun _ => none
  visitList : List Nat := []
  visitCount : Nat := 0

namespace SetImpl

/-- `s.blocks[wayID]`. -/
def block (s : SetImpl) (wayID : Nat) : Except String Block :=
  if wayID < s.numWays then .ok (s.blocks wayID) else .error "runtime error: index out of range"

def lookup (s : SetImpl) (pid : PID) (vAddr : VAddr) : Except String (Option (Nat × Page)) :=
  match s.vAddrWayIDMap (keyString pid vAddr) with
  | none => .ok none
  | some wayID => do
    let b ← s.block wayID
    return some (wayID, b.page)

def update (s : SetImpl) (wayID : Nat) (page : Page) : Except String SetImpl := do
  let b ← s.block wayID
  let vAddrWayIDMap := Function.update s.vAddrWayIDMap (pageKey b.page) none
  return { s with
    blocks := Function.update s.blocks wayID { b with page }
    vAddrWayIDMap := Function.update vAddrWayIDMap (pageKey page) (some wayID) }

def evict (s : SetImpl) : Option (Nat × SetImpl) :=
  match s.visitList with
  | [] => none
  | wayID :: visitList => some (wayID, { s with visitList })

/-- `sort.Search` over a list in the order of the last visits: the index of the first way visited after `lastVisit`. -/
def searchLater (s : SetImpl) (lastVisit : Nat) : Nat := s.visitList.findIdx fun w => lastVisit < (s.blocks w).lastVisit

def visit (s : SetImpl) (wayID : Nat) : Except String SetImpl := do
  let b ← s.block wayID
  let lastVisit := s.visitCount + 1
  let s := { s with
    visitList := s.visitList.eraseP (· == wayID)
    visitCount := lastVisit
    blocks := Function.update s.blocks wayID { b with lastVisit } }
  return { s with visitList := s.visitList.insertIdx (s.searchLater lastVisit) wayID }

/-- The loop of `NewSet`. -/
def visitAll : List Nat → SetImpl → Except String SetImpl
  | [], s => .ok s
  | w :: ws, s => do
    let s ← s.visit w
    visitAll ws s

/-- `NewSet`. -/
def new (numWays : Nat) : Except String SetImpl := visitAll (range numWays) { numWays }

end SetImpl

/-! ## The operations of the TLB -/

/-- `lookup`: a request is looked up; `hit`: and the way it is found in is visited; `fill`: a page is put in the way evicted;
`shootdown`: the pages of a process are marked invalid. -/
inductive Op
  | lookup (pid : PID) (vAddr : VAddr)
  | hit (pid : PID) (vAddr : VAddr)
  | fill (page : Page)
  | shootdown (pid : PID) (vAddrs : List VAddr)
deriving DecidableEq

/-- The pages stored so far with their ways, the last first. -/
abbrev History := List (Nat × Page)

namespace SetImpl

def hit (s : SetImpl) (pid : PID) (vAddr : VAddr) : Except String SetImpl := do
  match ← s.lookup pid vAddr with
  | none => return s
  | some (wayID, _) => s.visit wayID

/-- What `parseBottom` does with the set of a page. -/
def fill (s : SetImpl) (page : Page) : Except String (Nat × SetImpl) :=
  match s.evict with
  | none => .error "failed to evict"
  | some (wayID, s) => do
    let s ← s.update wayID page
    let s ← s.visit wayID
    return (wayID, s)

/-- One round of the loop of `handleTLBFlush`. -/
def invalidate (s : SetImpl) (pid : PID) (vAddr : VAddr) : Except String (SetImpl × History) := do
  match ← s.lookup pid vAddr with
  | none => return (s, [])
  | some (wayID, page) =>
    let page := { page with valid := false }
    let s ← s.update wayID page
    return (s, [(wayID, page)])

def shootdown (pid : PID) : List VAddr → SetImpl → Except String (SetImpl × History)
  | [], s => .ok (s, [])
  | vAddr :: vAddrs, s => do
    let (s, h) ← s.invalidate pid vAddr
    let (s, h') ← shootdown pid vAddrs s
    return (s, h' ++ h)

end SetImpl

/-- The set after an operation, and what the operation has stored. -/
def Op.exec (s : SetImpl) : Op → Except String (SetImpl × History)
  | lookup pid vAddr => do
    let _ ← s.lookup pid vAddr
    return (s, [])
  | hit pid vAddr => do
    let s ← s.hit pid vAddr
    return (s, [])
  | fill page => do
    let (wayID, s) ← s.fill page
    return (s, [(wayID, page)])
  | shootdown pid vAddrs => SetImpl.shootdown pid vAddrs s

/-! ## The last page stored -/

/-- The last page stored for a key, with its way, unless another page has been stored in that way since. -/
def stored (pid : PID) (vAddr : VAddr) : History → Option (Nat × Page)
  | [] => none
  | (w, p) :: h =>
    if p.pid = pid ∧ p.vAddr = vAddr then some (w, p)
    else (stored pid vAddr h).filter fun r => r.1 != w

/-- The way has been filled. -/
def Filled (h : History) (w : Nat) : Prop := ∃ p, (w, p) ∈ h

/-- The map and the ways of a set agree, and they hold the pages stored last. -/
structure Represents (n : Nat) (s : SetImpl) (h : History) : Prop where
  numWays : s.numWays = n
  maps : ∀ k w, s.vAddrWayIDMap k = some w → w < n ∧ Filled h w ∧ pageKey (s.blocks w).page = k
  finds : ∀ w, Filled h w → s.vAddrWayIDMap (pageKey (s.blocks w).page) = some w
  distinct : ∀ w w', Filled h w → Filled h w' → (s.blocks w).page.pid = (s.blocks w').page.pid →
    (s.blocks w).page.vAddr = (s.blocks w').page.vAddr → w = w'
  visitList : s.visitList.Perm (range n)
  lookup : ∀ pid vAddr, s.lookup pid vAddr = .ok (stored pid vAddr h)

/-- The map sends neither the key of the page nor that of the page it overwrites to another way than the one evicted. -/
def SetImpl.Clean (s : SetImpl) (page : Page) : Prop :=
  ∀ w, s.visitList.head? = some w → ∀ w',
    s.vAddrWayIDMap (pageKey page) = some w' ∨ s.vAddrWayIDMap (pageKey (s.blocks w).page) = some w' → w' = w

/-- The runs of a set in which every page is put in a clean set. -/
inductive SetImpl.Reaches (n : Nat) : SetImpl → History → Prop
  | new {s : SetImpl} (h : SetImpl.new n = .ok s) : Reaches n s []
  | op {s s' : SetImpl} {h h' : History} {op : Op} (hr : SetImpl.Reaches n s h)
      (hclean : ∀ page, op = .fill page → s.Clean page) (hexec : op.exec s = .ok (s', h')) : Reaches n s' (h' ++ h)

/-! ## Steps -/

/-- The part of `Represents` that each step keeps directly. -/
structure Kept (n : Nat) (s : SetImpl) (h : History) : Prop where
  numWays : s.numWays = n
  maps : ∀ k w, s.vAddrWayIDMap k = some w → w < n ∧ Filled h w ∧ pageKey (s.blocks w).page = k
  finds : ∀ w, Filled h w → s.vAddrWayIDMap (pageKey (s.blocks w).page) = some w
  holds : ∀ pid vAddr, stored pid vAddr h = (s.vAddrWayIDMap (keyString pid vAddr)).map fun w => (w, (s.blocks w).page)

section
variable {n : Nat} {s s' : SetImpl} {h : History} {w : Nat} {page : Page}

theorem filled_cons {w' : Nat} : Filled ((w, page) :: h) w' ↔ w' = w ∨ Filled h w' := by
  constructor
  · rintro ⟨p, hp⟩
    rcases mem_cons.mp hp with heq | hp
    · exact .inl (congrArg Prod.fst heq)
    · exact .inr ⟨p, hp⟩
  · rintro (rfl | ⟨p, hp⟩)
    · exact ⟨page, mem_cons_self⟩
    · exact ⟨p, mem_cons_of_mem _ hp⟩

theorem Kept.represents (hk : Kept n s h) (hv : s.visitList.Perm (range n)) : Represents n s h where
  numWays := hk.numWays
  maps := hk.maps
  finds := hk.finds
  distinct := by
    intro w w' hw hw' hpid haddr
    have h1 := hk.finds w hw
    have h2 := hk.finds w' hw'
    rw [pageKey_inj.mpr ⟨hpid, haddr⟩, h2] at h1
    exact (some.inj h1).symm
  visitList := hv
  lookup := by
    intro pid vAddr
    rw [hk.holds, SetImpl.lookup]
    cases hmap : s.vAddrWayIDMap (keyString pid vAddr) with
    | none => rfl
    | some w =>
      obtain ⟨hw, -⟩ := hk.maps _ w hmap
      simp only [SetImpl.block, hk.numWays, if_pos hw]
      rfl

theorem Represents.kept (hr : Represents n s h) : Kept n s h where
  numWays := hr.numWays
  maps := hr.maps
  finds := hr.finds
  holds := by
    intro pid vAddr
    have hlook := hr.lookup pid vAddr
    unfold SetImpl.lookup at hlook
    cases hmap : s.vAddrWayIDMap (keyString pid vAddr) with
    | none =>
      rw [hmap] at hlook
      exact (ok.inj hlook).symm
    | some w =>
      obtain ⟨hw, -⟩ := hr.maps _ w hmap
      rw [hmap] at hlook
      simp only [SetImpl.block, hr.numWays, if_pos hw] at hlook
      exact (ok.inj hlook).symm

/-- Only the order of the visits changes. -/
theorem Kept.congr (hk : Kept n s h) (hnum : s'.numWays = s.numWays) (hmap : s'.vAddrWayIDMap = s.vAddrWayIDMap)
    (hpage : ∀ w, (s'.blocks w).page = (s.blocks w).page) : Kept n s' h := by
  refine ⟨hnum.trans hk.numWays, fun k w hw => ?_, fun w hw => ?_, fun pid vAddr => ?_⟩
  · rw [hpage]
    exact hk.maps k w (hmap ▸ hw)
  · rw [hpage, hmap]
    exact hk.finds w hw
  · rw [hk.holds, hmap]
    congr 1
    funext w
    rw [hpage]

theorem eraseP_way {ws : List Nat} (hw : w ∉ ws) : ws.eraseP (· == w) = ws := by
  apply eraseP_of_forall_not
  intro x hx hxw
  rw [beq_iff_eq] at hxw
  exact hw (hxw ▸ hx)

theorem visit_ok (hw : w < s.numWays) : ∃ s', s.visit w = .ok s' ∧ s'.numWays = s.numWays ∧
    s'.vAddrWayIDMap = s.vAddrWayIDMap ∧ (∀ w', (s'.blocks w').page = (s.blocks w').page) ∧
    s'.visitList.Perm (w :: s.visitList.eraseP (· == w)) := by
  unfold SetImpl.visit SetImpl.block
  rw [if_pos hw]
  refine ⟨_, rfl, rfl, rfl, fun w' => ?_, ?_⟩
  · dsimp only
    by_cases heq : w' = w
    · subst heq
      rw [update_self]
    · rw [update_of_ne heq]
  · exact perm_insertIdx _ _ findIdx_le_length

theorem update_ok (hw : w < s.numWays) (page : Page) : s.update w page = .ok { s with
    blocks := Function.update s.blocks w { s.blocks w with page }
    vAddrWayIDMap := Function.update (Function.update s.vAddrWayIDMap (pageKey (s.blocks w).page) none)
      (pageKey page) (some w) } := by
  unfold SetImpl.update SetImpl.block
  rw [if_pos hw]
  rfl

/-- A page is put in a way, and neither its key nor that of the page before it belongs to another way. -/
theorem Kept.store (hk : Kept n s h) (hw : w < n)
    (hclean : ∀ w', s.vAddrWayIDMap (pageKey page) = some w' ∨ s.vAddrWayIDMap (pageKey (s.blocks w).page) = some w' → w' = w)
    (hblocks : s'.blocks = Function.update s.blocks w { s.blocks w with page }) (hnum : s'.numWays = s.numWays)
    (hmap : s'.vAddrWayIDMap =
      Function.update (Function.update s.vAddrWayIDMap (pageKey (s.blocks w).page) none) (pageKey page) (some w)) :
    Kept n s' ((w, page) :: h) := by
  have hself : (s'.blocks w).page = page := by rw [hblocks, update_self]
  have hother : ∀ w' ≠ w, (s'.blocks w').page = (s.blocks w').page := by
    intro w' hne
    rw [hblocks, update_of_ne hne]
  -- who has another key than the old page of the way is in another way
  have hway : ∀ k w', s.vAddrWayIDMap k = some w' → k ≠ pageKey (s.blocks w).page → w' ≠ w := by
    rintro k w' hw' hne rfl
    exact hne (hk.maps k _ hw').2.2.symm
  refine ⟨hnum.trans hk.numWays, fun k w' hw' => ?_, fun w' hw' => ?_, fun pid vAddr => ?_⟩
  · rw [filled_cons]
    rw [hmap] at hw'
    by_cases hpage : k = pageKey page
    · rw [hpage, update_self, some.injEq] at hw'
      subst hw'
      exact ⟨hw, .inl rfl, by rw [hself, hpage]⟩
    · rw [update_of_ne hpage] at hw'
      by_cases hold : k = pageKey (s.blocks w).page
      · rw [hold, update_self] at hw'
        cases hw'
      · rw [update_of_ne hold] at hw'
        obtain ⟨hlt, hfilled, hkey⟩ := hk.maps k w' hw'
        exact ⟨hlt, .inr hfilled, by rw [hother w' (hway k w' hw' hold), hkey]⟩
  · by_cases heq : w' = w
    · rw [heq, hself, hmap, update_self]
    · have hfilled := (filled_cons.mp hw').resolve_left heq
      have hfind := hk.finds w' hfilled
      rw [hother w' heq, hmap, update_of_ne, update_of_ne, hfind]
      · exact fun hkey => heq (hclean w' (.inr (hkey ▸ hfind)))
      · exact fun hkey => heq (hclean w' (.inl (hkey ▸ hfind)))
  · rw [stored, hk.holds, hmap]
    by_cases hpage : page.pid = pid ∧ page.vAddr = vAddr
    · have hkey : keyString pid vAddr = pageKey page := by rw [← hpage.1, ← hpage.2, pageKey]
      rw [if_pos hpage, hkey, update_self, map_some, hself]
    · have hne : keyString pid vAddr ≠ pageKey page := by
        intro heq
        obtain ⟨rfl, rfl⟩ := keyString_inj.mp heq
        exact hpage ⟨rfl, rfl⟩
      rw [if_neg hpage, update_of_ne hne]
      by_cases hold : keyString pid vAddr = pageKey (s.blocks w).page
      · rw [hold, update_self]
        cases hold' : s.vAddrWayIDMap (pageKey (s.blocks w).page) with
        | none => rfl
        | some w' => simp [hclean w' (.inr hold')]
      · rw [update_of_ne hold]
        cases hmap' : s.vAddrWayIDMap (keyString pid vAddr) with
        | none => rfl
        | some w' =>
          have hne' := hway _ w' hmap' hold
          simp [hne', hother w' hne']

/-- The first way of the list is evicted, filled and visited. -/
theorem fill_ok (hnumWays : s.numWays = n) (hperm : s.visitList.Perm (range n)) (hn : 0 < n) (page : Page) :
    ∃ w s', s.visitList.head? = some w ∧ w < n ∧
    s.fill page = .ok (w, s') ∧ s'.numWays = s.numWays ∧ s'.visitList.Perm (range n) ∧
    (∀ w', (s'.blocks w').page = if w' = w then page else (s.blocks w').page) ∧
    s'.vAddrWayIDMap =
      Function.update (Function.update s.vAddrWayIDMap (pageKey (s.blocks w).page) none) (pageKey page) (some w) := by
  cases hlist : s.visitList with
  | nil =>
    have hlen := hperm.length_eq
    rw [hlist, length_range, length_nil] at hlen
    omega
  | cons w rest =>
    rw [hlist] at hperm
    have hw : w < n := mem_range.mp (hperm.mem_iff.mp mem_cons_self)
    have hnot : w ∉ rest := (nodup_cons.mp (hperm.symm.nodup nodup_range)).1
    have hw' : w < ({ s with visitList := rest } : SetImpl).numWays := by
      rw [← hnumWays] at hw
      exact hw
    obtain ⟨s', hvisit, hnum, hmap, hpage, hvl⟩ := visit_ok
      (s := { s with
        visitList := rest, blocks := Function.update s.blocks w { s.blocks w with page },
        vAddrWayIDMap := Function.update (Function.update s.vAddrWayIDMap (pageKey (s.blocks w).page) none)
          (pageKey page) (some w) })
      (w := w) hw'
    refine ⟨w, s', rfl, hw, ?_, hnum, ?_, fun w' => ?_, hmap⟩
    · unfold SetImpl.fill SetImpl.evict
      rw [hlist]
      show (SetImpl.update { s with visitList := rest } w page >>= fun s => s.visit w >>= fun s => pure (w, s)) = _
      rw [update_ok hw']
      show (SetImpl.visit _ w >>= fun s => pure (w, s)) = _
      rw [hvisit]
      rfl
    · refine hvl.trans ?_
      rw [eraseP_way hnot]
      exact hperm
    · rw [hpage]
      by_cases heq : w' = w
      · subst heq
        simp
      · simp [heq]

/-- **A page is stored well exactly when the set is clean for it.** -/
theorem fill_represents_iff (hr : Represents n s h) (hn : 0 < n) {w : Nat} (hfill : s.fill page = .ok (w, s')) :
    Represents n s' ((w, page) :: h) ↔ s.Clean page := by
  obtain ⟨_, _, hhead, hw, hfill₀, hnum, hvl, hpage, hmap⟩ := fill_ok hr.numWays hr.visitList hn page
  rw [hfill, ok.injEq, Prod.mk.injEq] at hfill₀
  obtain ⟨rfl, rfl⟩ := hfill₀
  constructor
  · intro hr' w₁ hw₁ w' hw'
    rw [hhead, some.injEq] at hw₁
    subst hw₁
    by_contra hne
    have hblock : (s'.blocks w').page = (s.blocks w').page := by rw [hpage, if_neg hne]
    rcases hw' with hw' | hw'
    · -- two ways hold the page
      obtain ⟨-, hfilled, hkey⟩ := hr.maps _ w' hw'
      have hself : (s'.blocks w).page = page := by rw [hpage, if_pos rfl]
      obtain ⟨hpid, haddr⟩ := pageKey_inj.mp hkey
      refine hne (hr'.distinct w' w (filled_cons.mpr (.inr hfilled)) (filled_cons.mpr (.inl rfl)) ?_ ?_)
      · rw [hblock, hself, hpid]
      · rw [hblock, hself, haddr]
    · -- the key of the other way has been deleted
      obtain ⟨-, hfilled, hkey⟩ := hr.maps _ w' hw'
      have hfind := hr'.finds w' (filled_cons.mpr (.inr hfilled))
      rw [hblock, hkey, hmap] at hfind
      by_cases hsame : pageKey (s.blocks w).page = pageKey page
      · rw [hsame, update_self, some.injEq] at hfind
        exact hne hfind.symm
      · rw [update_of_ne hsame, update_self] at hfind
        cases hfind
  · intro hclean
    have hkept : Kept n { s' with blocks := Function.update s.blocks w { s.blocks w with page } } ((w, page) :: h) :=
      hr.kept.store hw (hclean w hhead) rfl hnum hmap
    have hkept' : Kept n s' ((w, page) :: h) := by
      refine hkept.congr rfl rfl fun w' => ?_
      rw [hpage]
      by_cases heq : w' = w
      · subst heq
        simp
      · simp [heq]
    exact hkept'.represents hvl

theorem hit_represents (hr : Represents n s h) (pid : PID) (vAddr : VAddr) :
    ∃ s', s.hit pid vAddr = .ok s' ∧ Represents n s' h := by
  unfold SetImpl.hit
  rw [hr.lookup]
  cases hstored : stored pid vAddr h with
  | none => exact ⟨s, rfl, hr⟩
  | some r =>
    have hw : r.1 < n := by
      have hholds := hr.kept.holds pid vAddr
      rw [hstored] at hholds
      obtain ⟨w, hw, hr'⟩ := map_eq_some_iff.mp hholds.symm
      rw [← hr']
      exact (hr.maps _ w hw).1
    obtain ⟨s', hvisit, hnum, hmap, hpage, hvl⟩ := visit_ok (hr.numWays ▸ hw : r.1 < s.numWays)
    refine ⟨s', hvisit, (hr.kept.congr hnum hmap hpage).represents (hvl.trans ?_)⟩
    have hmem : r.1 ∈ s.visitList := hr.visitList.mem_iff.mpr (mem_range.mpr hw)
    have herase : s.visitList.eraseP (· == r.1) = s.visitList.erase r.1 := by rw [erase_eq_eraseP']
    rw [herase]
    exact (perm_cons_erase hmem).symm.trans hr.visitList

theorem invalidate_represents (hr : Represents n s h) (pid : PID) (vAddr : VAddr) :
    ∃ s' h', s.invalidate pid vAddr = .ok (s', h') ∧ Represents n s' (h' ++ h) := by
  unfold SetImpl.invalidate
  rw [hr.lookup, hr.kept.holds]
  cases hmap : s.vAddrWayIDMap (keyString pid vAddr) with
  | none => exact ⟨s, [], rfl, hr⟩
  | some w =>
    obtain ⟨hw, -, hkey⟩ := hr.maps _ w hmap
    have hupdate := update_ok (hr.numWays ▸ hw : w < s.numWays) { (s.blocks w).page with valid := false }
    have hkept : ∀ s', s.update w { (s.blocks w).page with valid := false } = .ok s' →
        Represents n s' ((w, { (s.blocks w).page with valid := false }) :: h) := by
      intro s' hs'
      rw [hupdate, ok.injEq] at hs'
      subst hs'
      refine Kept.represents (hr.kept.store hw (fun w' hw' => ?_) rfl rfl rfl) hr.visitList
      -- the page keeps its key, which the map sends to this way
      have hsame : pageKey { (s.blocks w).page with valid := false } = pageKey (s.blocks w).page := rfl
      rw [hsame, or_self, hkey, hmap] at hw'
      exact (some.inj hw').symm
    refine ⟨_, [(w, { (s.blocks w).page with valid := false })], ?_, hkept _ hupdate⟩
    exact congrArg (fun r => r >>= fun s => ok (s, _)) hupdate

theorem shootdown_represents (pid : PID) (vAddrs : List VAddr) (hr : Represents n s h) :
    ∃ s' h', SetImpl.shootdown pid vAddrs s = .ok (s', h') ∧ Represents n s' (h' ++ h) := by
  induction vAddrs generalizing s h with
  | nil => exact ⟨s, [], rfl, hr⟩
  | cons vAddr vAddrs ih =>
    obtain ⟨s₁, h₁, hinv, hr₁⟩ := invalidate_represents hr pid vAddr
    obtain ⟨s₂, h₂, hshoot, hr₂⟩ := ih hr₁
    refine ⟨s₂, h₂ ++ h₁, ?_, by rw [append_assoc]; exact hr₂⟩
    unfold SetImpl.shootdown
    rw [hinv]
    show (SetImpl.shootdown pid vAddrs s₁ >>= _) = _
    rw [hshoot]
    rfl

theorem visitAll_ok {ws done : List Nat} (hws : ∀ w ∈ ws, w < s.numWays) (hnodup : (done ++ ws).Nodup)
    (hdone : s.visitList.Perm done) (hmap : s.vAddrWayIDMap = fun _ => none) (hnum : s.numWays = n) :
    ∃ s', SetImpl.visitAll ws s = .ok s' ∧ s'.visitList.Perm (done ++ ws) ∧ (s'.vAddrWayIDMap = fun _ => none) ∧
      s'.numWays = n := by
  induction ws generalizing s done with
  | nil => exact ⟨s, rfl, by simpa using hdone, hmap, hnum⟩
  | cons w _ ih =>
    obtain ⟨s₁, hvisit, hnum₁, hmap₁, -, hvl⟩ := visit_ok (hws w mem_cons_self)
    have hnot : w ∉ s.visitList := by
      intro hw
      have hw := hdone.mem_iff.mp hw
      exact (nodup_append.mp hnodup).2.2 w hw w mem_cons_self rfl
    rw [eraseP_way hnot] at hvl
    have hperm : s₁.visitList.Perm (done ++ [w]) :=
      hvl.trans ((hdone.cons w).trans (perm_append_singleton w done).symm)
    obtain ⟨s₂, hall, hvl₂, hmap₂, hnum₂⟩ := ih (s := s₁)
      (fun x hx => hnum₁ ▸ hws x (mem_cons_of_mem _ hx)) (by simpa using hnodup) hperm (hmap₁.trans hmap)
      (hnum₁.trans hnum)
    refine ⟨s₂, ?_, by simpa using hvl₂, hmap₂, hnum₂⟩
    unfold SetImpl.visitAll
    rw [hvisit]
    exact hall

theorem new_represents (n : Nat) : ∃ s, SetImpl.new n = .ok s ∧ Represents n s [] := by
  have hws : ∀ w ∈ range n, w < ({ numWays := n } : SetImpl).numWays := fun w hw => mem_range.mp hw
  have hnodup : ([] ++ range n).Nodup := by simpa using nodup_range
  obtain ⟨s, hnew, hvl, hmap, hnum⟩ := visitAll_ok hws hnodup List.Perm.nil rfl rfl
  refine ⟨s, hnew, Kept.represents ⟨hnum, ?_, ?_, ?_⟩ (by simpa using hvl)⟩
  · intro k w hw
    rw [hmap] at hw
    cases hw
  · rintro w ⟨p, hp⟩
    cases hp
  · intro pid vAddr
    rw [hmap]
    rfl

end

/-! ## Sets whatever is put in them -/

/-- What a set keeps whatever pages are put in it: a key leads to a way that holds its page, and the valid pages that can be
found satisfy `P`. -/
structure Sound (n : Nat) (P : Page → Prop) (s : SetImpl) : Prop where
  numWays : s.numWays = n
  visitList : s.visitList.Perm (range n)
  maps : ∀ k w, s.vAddrWayIDMap k = some w → w < n ∧ pageKey (s.blocks w).page = k ∧
    ((s.blocks w).page.valid = true → P (s.blocks w).page)

section
variable {n : Nat} {P Q : Page → Prop} {s s' : SetImpl} {w : Nat} {page : Page}

theorem Sound.imp (hs : Sound n P s) (h : ∀ p, P p → Q p) : Sound n Q s :=
  ⟨hs.numWays, hs.visitList, fun k w hw =>
    ⟨(hs.maps k w hw).1, (hs.maps k w hw).2.1, fun hv => h _ ((hs.maps k w hw).2.2 hv)⟩⟩

theorem new_sound (n : Nat) (P : Page → Prop) : ∃ s, SetImpl.new n = .ok s ∧ Sound n P s := by
  obtain ⟨s, hnew, hr⟩ := new_represents n
  refine ⟨s, hnew, hr.numWays, hr.visitList, fun k w hw => ?_⟩
  obtain ⟨-, ⟨_, hp⟩, -⟩ := hr.maps k w hw
  cases hp

theorem Sound.lookup (hs : Sound n P s) (pid : PID) (vAddr : VAddr) : ∃ r, s.lookup pid vAddr = .ok r ∧
    ∀ w p, r = some (w, p) → w < n ∧ p.pid = pid ∧ p.vAddr = vAddr ∧ (p.valid = true → P p) := by
  unfold SetImpl.lookup
  cases hmap : s.vAddrWayIDMap (keyString pid vAddr) with
  | none => exact ⟨none, rfl, fun w p h => nomatch h⟩
  | some w =>
    obtain ⟨hw, hkey, hvalid⟩ := hs.maps _ w hmap
    simp only [SetImpl.block, hs.numWays, if_pos hw]
    refine ⟨_, rfl, fun w' p h => ?_⟩
    cases h
    obtain ⟨hpid, haddr⟩ := keyString_inj.mp hkey
    exact ⟨hw, hpid, haddr, hvalid⟩

theorem Sound.visit (hs : Sound n P s) (hw : w < n) : ∃ s', s.visit w = .ok s' ∧ Sound n P s' := by
  obtain ⟨s', hvisit, hnum, hmap, hpage, hvl⟩ := visit_ok (hs.numWays ▸ hw : w < s.numWays)
  have hmem : w ∈ s.visitList := hs.visitList.mem_iff.mpr (mem_range.mpr hw)
  rw [← erase_eq_eraseP'] at hvl
  refine ⟨s', hvisit, hnum.trans hs.numWays, hvl.trans ((perm_cons_erase hmem).symm.trans hs.visitList), fun k w' hw' => ?_⟩
  rw [hpage]
  exact hs.maps k w' (hmap ▸ hw')

theorem Sound.store (hs : Sound n P s) (hw : w < n) (hP : page.valid = true → P page) (hnum : s'.numWays = s.numWays)
    (hvl : s'.visitList.Perm (range n))
    (hpage : ∀ w', (s'.blocks w').page = if w' = w then page else (s.blocks w').page)
    (hmap : s'.vAddrWayIDMap =
      Function.update (Function.update s.vAddrWayIDMap (pageKey (s.blocks w).page) none) (pageKey page) (some w)) :
    Sound n P s' := by
  refine ⟨hnum.trans hs.numWays, hvl, fun k w' hw' => ?_⟩
  rw [hmap] at hw'
  by_cases hk : k = pageKey page
  · rw [hk, update_self, some.injEq] at hw'
    subst hw'
    rw [hpage, if_pos rfl]
    exact ⟨hw, hk.symm, hP⟩
  · rw [update_of_ne hk] at hw'
    by_cases hold : k = pageKey (s.blocks w).page
    · rw [hold, update_self] at hw'
      cases hw'
    · rw [update_of_ne hold] at hw'
      have hne : w' ≠ w := by
        rintro rfl
        exact hold (hs.maps k _ hw').2.1.symm
      rw [hpage, if_neg hne]
      exact hs.maps k w' hw'

theorem Sound.fill (hs : Sound n P s) (hn : 0 < n) (hP : page.valid = true → P page) :
    ∃ w s', s.fill page = .ok (w, s') ∧ Sound n P s' := by
  obtain ⟨w, s', -, hw, hfill, hnum, hvl, hpage, hmap⟩ := fill_ok hs.numWays hs.visitList hn page
  exact ⟨w, s', hfill, hs.store hw hP hnum hvl hpage hmap⟩

theorem Sound.pos_of_fill (hs : Sound n P s) {r : Nat × SetImpl} (hfill : s.fill page = .ok r) : 0 < n := by
  rcases Nat.eq_zero_or_pos n with rfl | hn
  · have hnil : s.visitList = [] := perm_nil.mp hs.visitList
    rw [SetImpl.fill, SetImpl.evict, hnil] at hfill
    cases hfill
  · exact hn

theorem sound_update {P : Nat → Page → Prop} {sets : Nat → SetImpl} (h : ∀ i, Sound n (P i) (sets i)) {j : Nat}
    {set : SetImpl} (hset : Sound n (P j) set) (i : Nat) : Sound n (P i) (Function.update sets j set i) := by
  by_cases heq : i = j
  · subst heq
    rw [update_self]
    exact hset
  · rw [update_of_ne heq]
    exact h i

/-- After a shootdown the page of the key is not found valid. -/
theorem Sound.invalidate (hs : Sound n P s) (pid : PID) (vAddr : VAddr) : ∃ s' h', s.invalidate pid vAddr = .ok (s', h') ∧
    Sound n (fun p => P p ∧ ¬ (p.pid = pid ∧ p.vAddr = vAddr)) s' := by
  unfold SetImpl.invalidate SetImpl.lookup
  cases hmap : s.vAddrWayIDMap (keyString pid vAddr) with
  | none =>
    refine ⟨s, [], rfl, hs.numWays, hs.visitList, fun k w hw => ?_⟩
    obtain ⟨hlt, hkey, hvalid⟩ := hs.maps k w hw
    refine ⟨hlt, hkey, fun hv => ⟨hvalid hv, ?_⟩⟩
    rintro ⟨rfl, rfl⟩
    rw [← hkey, show pageKey (s.blocks w).page = keyString _ _ from rfl, hmap] at hw
    cases hw
  | some w =>
    obtain ⟨hw, hkey, _⟩ := hs.maps _ w hmap
    have hupdate := update_ok (hs.numWays ▸ hw : w < s.numWays) { (s.blocks w).page with valid := false }
    -- every other page found has another key
    have hs₀ : Sound n (fun p => P p ∧ (¬ (p.pid = pid ∧ p.vAddr = vAddr) ∨ p = (s.blocks w).page)) s := by
      refine ⟨hs.numWays, hs.visitList, fun k w' hw' => ?_⟩
      obtain ⟨hlt, hkey', hvalid'⟩ := hs.maps k w' hw'
      refine ⟨hlt, hkey', fun hv => ⟨hvalid' hv, ?_⟩⟩
      by_cases hsame : (s.blocks w').page.pid = pid ∧ (s.blocks w').page.vAddr = vAddr
      · refine .inr ?_
        rw [← hkey', show pageKey (s.blocks w').page = keyString pid vAddr by rw [← hsame.1, ← hsame.2, pageKey], hmap] at hw'
        rw [some.inj hw']
      · exact .inl hsame
    simp only [SetImpl.block, hs.numWays, if_pos hw]
    refine ⟨_, [(w, { (s.blocks w).page with valid := false })], congrArg (fun r => r >>= fun s => ok (s, _)) hupdate,
      hs.numWays, hs.visitList, fun k w' hw' => ?_⟩
    have hsame : pageKey { (s.blocks w).page with valid := false } = pageKey (s.blocks w).page := rfl
    dsimp only at hw' ⊢
    rw [hsame, hkey] at hw'
    by_cases hk : k = keyString pid vAddr
    · rw [hk, update_self, some.injEq] at hw'
      subst hw'
      rw [update_self, hk]
      exact ⟨hw, hkey, fun hv => nomatch hv⟩
    · rw [update_of_ne hk, update_of_ne hk] at hw'
      obtain ⟨hlt, hkey', hvalid'⟩ := hs₀.maps k w' hw'
      have hne : w' ≠ w := by
        rintro rfl
        exact hk (hkey'.symm.trans hkey)
      rw [update_of_ne hne]
      refine ⟨hlt, hkey', fun hv => ⟨(hvalid' hv).1, ?_⟩⟩
      rintro ⟨hpid, haddr⟩
      exact hk (by rw [← hkey', ← hpid, ← haddr, pageKey])

end

/-- **The map and the ways of a set agree** after any operations each of whose pages is put in a clean set; and a page put in
a set that is not clean for it breaks the agreement. -/
theorem represents_of_reaches {n : Nat} {s : SetImpl} {h : History} (hr : SetImpl.Reaches n s h) :
    Represents n s h ∧
      ∀ page w s', s.fill page = .ok (w, s') → (Represents n s' ((w, page) :: h) ↔ s.Clean page) := by
  have hrep : Represents n s h := by
    induction hr with
    | new hnew =>
      obtain ⟨_, hnew₀, hr₀⟩ := new_represents n
      rw [hnew₀] at hnew
      cases hnew
      exact hr₀
    | @op s s' h h' op hr hclean hexec ih =>
      cases op with
      | lookup =>
        rw [Op.exec, ih.lookup] at hexec
        cases hexec
        exact ih
      | hit pid vAddr =>
        obtain ⟨s₁, hhit, hr₁⟩ := hit_represents ih pid vAddr
        rw [Op.exec, hhit] at hexec
        cases hexec
        exact hr₁
      | fill page =>
        cases hfill : s.fill page with
        | error =>
          rw [Op.exec, hfill] at hexec
          cases hexec
        | ok =>
          rw [Op.exec, hfill] at hexec
          cases hexec
          refine (fill_represents_iff ih ?_ hfill).mpr (hclean page rfl)
          rcases Nat.eq_zero_or_pos n with rfl | hn
          · -- a set without ways evicts nothing
            have hnil : s.visitList = [] := perm_nil.mp ih.visitList
            rw [SetImpl.fill, SetImpl.evict, hnil] at hfill
            cases hfill
          · exact hn
      | shootdown pid vAddrs =>
        obtain ⟨_, _, hshoot, hr₁⟩ := shootdown_represents pid vAddrs ih
        rw [Op.exec, hshoot] at hexec
        cases hexec
        exact hr₁
  refine ⟨hrep, fun page w s' hfill => fill_represents_iff hrep ?_ hfill⟩
  rcases Nat.eq_zero_or_pos n with rfl | hn
  · have hnil : s.visitList = [] := perm_nil.mp hrep.visitList
    rw [SetImpl.fill, SetImpl.evict, hnil] at hfill
    cases hfill
  · exact hn

/-- The operations one after the other. -/
def execAll (s : SetImpl) (h : History) : List Op → Except String (SetImpl × History)
  | [] => .ok (s, h)
  | op :: ops => do
    let (s, h') ← op.exec s
    execAll s (h' ++ h) ops

/-- A valid page of process 1. -/
def pageAt (vAddr : VAddr) : Page := { pid := 1, vAddr, valid := true }

instance (s : SetImpl) (page : Page) : Decidable (s.Clean page) :=
  decidable_of_iff (∀ w ∈ s.visitList.head?,
    (∀ w' ∈ s.vAddrWayIDMap (pageKey page), w' = w) ∧ ∀ w' ∈ s.vAddrWayIDMap (pageKey (s.blocks w).page), w' = w) (by
      simp only [SetImpl.Clean, mem_def, or_imp, forall_and])

/-- A page may be put in the set. -/
def Op.Fits (s : SetImpl) : Op → Prop
  | fill page => s.Clean page
  | _ => True

instance (s : SetImpl) : (op : Op) → Decidable (op.Fits s)
  | .fill page => inferInstanceAs (Decidable (s.Clean page))
  | .lookup .. | .hit .. | .shootdown .. => inferInstanceAs (Decidable True)

/-- The operations, if each page fits. -/
def tryAll (ops : List Op) (s : SetImpl) : Option (SetImpl × History) :=
  guarded (fun x op => op.Fits x.1) (fun op x => (op.exec x.1).map fun r => (true, (r.1, r.2 ++ x.2))) ops (s, [])

theorem reaches_tryAll {ops : List Op} {s s' : SetImpl} {h : History} (hnew : SetImpl.new n = .ok s)
    (htry : tryAll ops s = some (s', h)) : SetImpl.Reaches n s' h := by
  refine guarded_induct (I := fun x _ => SetImpl.Reaches n x.1 x.2) (fun {x op _ r} hr hfits hexec => ?_)
    (l := []) htry (.new hnew)
  cases hop : op.exec x.1 with
  | error =>
    rw [hop] at hexec
    cases hexec
  | ok =>
    rw [hop] at hexec
    cases hexec
    refine hr.op (fun page heq => ?_) hop
    subst heq
    exact hfits

/-- Two pages are filled, the first is visited, and a third is put in the place of the second; then the first is shot down. -/
def replaced : List Op :=
  [.fill (pageAt 4096), .fill (pageAt 8192), .hit 1 4096, .fill (pageAt 12288), .shootdown 1 [4096]]

theorem represents_of_reaches_replaced : ∃ s s' h, SetImpl.new 2 = .ok s ∧ tryAll replaced s = some (s', h) ∧
    h = [(0, { pageAt 4096 with valid := false }), (1, pageAt 12288), (1, pageAt 8192), (0, pageAt 4096)] ∧
    Represents 2 s' h := by
  obtain ⟨s, hs⟩ : ∃ s, SetImpl.new 2 = .ok s := ⟨_, rfl⟩
  have hrun : (tryAll replaced s).map Prod.snd =
      some [(0, { pageAt 4096 with valid := false }), (1, pageAt 12288), (1, pageAt 8192), (0, pageAt 4096)] := by
    cases hs
    decide +kernel
  obtain ⟨⟨s', h⟩, htry, hh⟩ := map_eq_some_iff.mp hrun
  exact ⟨s, s', h, hs, htry, hh, (represents_of_reaches (reaches_tryAll hs htry)).1⟩

/-- A page is filled, shot down and filled again, into the other way. Then two ways hold it; and after one more page it is
not found any more, though no page has been put in its way. -/
theorem lost_after_shootdown : ∃ s h,
    (SetImpl.new 2 >>= fun s => execAll s [] [.fill (pageAt 4096), .shootdown 1 [4096], .fill (pageAt 4096),
      .fill (pageAt 8192)]) =
      .ok (s, h) ∧
    stored 1 4096 h = some (1, pageAt 4096) ∧ s.lookup 1 4096 = .ok none ∧ ¬ Represents 2 s h := by
  refine ⟨_, _, rfl, by decide, by decide +kernel, fun hr => ?_⟩
  have hlook := hr.lookup 1 4096
  revert hlook
  decide +kernel

end Akita.Vm.Tlb
