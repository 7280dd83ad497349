import Akita.Vm.TlbGmmu.Steps

/-!
# The filter and the cached pages

* `cached t` : the page numbers of the valid pages in the ways of the TLB;
* `Rules.careful` : the steps that keep the filter and the sets together;
* `filter_mirrors_of_reaches` : in every run of such steps the filter holds the page numbers of the valid cached pages, and
  each eviction of a valid page takes one of them out.
-/

namespace Akita.Vm.TlbGmmu
open Mem Sim CuckooFilter Function
open List hiding count mem_range range sum_eq_zero
open Vm.Tlb (SetImpl Sound FlushReq ControlReq ControlRsp fill_ok visit_ok update_ok sound_update new_sound)
open Finset (add_sum_erase mem_range ne_of_mem_erase range single_le_sum sum_congr sum_eq_zero sum_range_one)
open Multiset (count mem_sum)
open Returns (ok)

variable {cfg : Config}

/-! ## The pages cached -/

/-- The page number of a valid page. -/
def numberOf (page : Page) : Multiset UInt64 := if page.valid then {alignToPage page.vAddr} else 0

/-- The page numbers of the valid pages in the first `n` ways of a set. -/
def cachedIn (n : Nat) (s : SetImpl) : Multiset UInt64 := ∑ w ∈ range n, numberOf (s.blocks w).page

/-- The page numbers of the valid pages cached, a page number as often as there are ways with it. -/
def cached (t : GMMUTLB cfg) : Multiset UInt64 := ∑ i ∈ range cfg.numSets, cachedIn cfg.numWays (t.sets i)

section
variable {n : Nat} {s s' : SetImpl} {w : Nat} {page : Page}

theorem cachedIn_store (hw : w < n) (hpage : ∀ w', (s'.blocks w').page = if w' = w then page else (s.blocks w').page) :
    cachedIn n s' + numberOf (s.blocks w).page = cachedIn n s + numberOf page := by
  have hmem : w ∈ range n := mem_range.mpr hw
  have hrest : ∑ w' ∈ (range n).erase w, numberOf (s'.blocks w').page =
      ∑ w' ∈ (range n).erase w, numberOf (s.blocks w').page := by
    apply sum_congr rfl
    intro w' hw'
    rw [hpage, if_neg (ne_of_mem_erase hw')]
  unfold cachedIn
  rw [← add_sum_erase _ (fun w' => numberOf (s'.blocks w').page) hmem,
    ← add_sum_erase _ (fun w' => numberOf (s.blocks w').page) hmem, hrest, hpage, if_pos rfl]
  rw [add_right_comm, add_comm (numberOf page), add_right_comm, add_comm (numberOf (s.blocks w).page), add_right_comm]

theorem cachedIn_congr (hpage : ∀ w', (s'.blocks w').page = (s.blocks w').page) : cachedIn n s' = cachedIn n s := by
  apply sum_congr rfl
  intro w' _
  rw [hpage]

theorem sum_update {sets : Nat → SetImpl} {m i : Nat} (hi : i < m) (set : SetImpl) :
    (∑ j ∈ range m, cachedIn n (update sets i set j)) + cachedIn n (sets i) =
      (∑ j ∈ range m, cachedIn n (sets j)) + cachedIn n set := by
  have hmem : i ∈ range m := mem_range.mpr hi
  have hrest : ∑ j ∈ (range m).erase i, cachedIn n (update sets i set j) =
      ∑ j ∈ (range m).erase i, cachedIn n (sets j) := by
    apply sum_congr rfl
    intro j hj
    rw [update_of_ne (ne_of_mem_erase hj)]
  rw [← add_sum_erase _ (fun j => cachedIn n (update sets i set j)) hmem,
    ← add_sum_erase _ (fun j => cachedIn n (sets j)) hmem, hrest, update_self]
  rw [add_right_comm, add_comm (cachedIn n set), add_right_comm, add_comm (cachedIn n (sets i)), add_right_comm]

theorem mem_cached {t : GMMUTLB cfg} {i w : Nat} (hi : i < cfg.numSets) (hw : w < cfg.numWays)
    (hvalid : ((t.sets i).blocks w).page.valid = true) : alignToPage ((t.sets i).blocks w).page.vAddr ∈ cached t := by
  refine mem_sum.mpr ⟨i, mem_range.mpr hi, mem_sum.mpr ⟨w, mem_range.mpr hw, ?_⟩⟩
  rw [numberOf, if_pos hvalid]
  exact Multiset.mem_singleton_self _

end

theorem setID_lt {vAddr : VAddr} {setID : Nat} (h : vAddrToSetID cfg vAddr = .ok setID) : setID < cfg.numSets := by
  unfold vAddrToSetID at h
  split at h
  · cases h
  next hne =>
    cases h
    exact Nat.mod_lt _ (Nat.pos_of_ne_zero fun h0 => hne (.inr h0))

/-! ## Replacing a page -/

theorem replace_eq_fill {s s' : SetImpl} {page oldPage : Page} (h : replace s page = .ok (oldPage, s')) :
    ∃ w, s.visitList.head? = some w ∧ oldPage = (s.blocks w).page ∧ s.fill page = .ok (w, s') := by
  unfold replace at h
  unfold SetImpl.fill
  unfold SetImpl.evict at h ⊢
  cases hlist : s.visitList with
  | nil =>
    rw [hlist] at h
    cases h
  | cons w rest =>
    rw [hlist] at h
    have hreturns : Returns (fun x => x.1 = (s.blocks w).page ∧
        (SetImpl.update { s with visitList := rest } w page >>= fun s => s.visit w >>= fun s => pure (w, s)) = .ok (w, x.2))
        (SetImpl.update { s with visitList := rest } w page >>=
          fun s' => s'.visit w >>= fun s' => pure ((s.blocks w).page, s')) :=
      Returns.bind fun s₁ hupdate => Returns.bind fun s₂ hvisit => ok ⟨rfl, (by
        rw [hupdate]
        show (s₁.visit w >>= fun s => pure (w, s)) = _
        rw [hvisit]
        rfl)⟩
    obtain ⟨hold, hfill⟩ := hreturns _ h
    exact ⟨w, rfl, hold, hfill⟩

theorem replace_page {n : Nat} {P : Page → Prop} {s s' : SetImpl} {page oldPage : Page} (hs : Sound n P s)
    (h : replace s page = .ok (oldPage, s')) : ∃ w, w < n ∧ s.visitList.head? = some w ∧ oldPage = (s.blocks w).page ∧
      ∀ w', (s'.blocks w').page = if w' = w then page else (s.blocks w').page := by
  obtain ⟨w, hhead, hold, hfill⟩ := replace_eq_fill h
  obtain ⟨_, _, _, hw, hfill₀, -, -, hpage, -⟩ := fill_ok hs.numWays hs.visitList (hs.pos_of_fill hfill) page
  rw [hfill, Except.ok.injEq, Prod.mk.injEq] at hfill₀
  obtain ⟨rfl, rfl⟩ := hfill₀
  exact ⟨w, hw, hhead, hold, hpage⟩

theorem lt_of_visit {s s' : SetImpl} {w : Nat} (h : s.visit w = .ok s') : w < s.numWays := by
  by_contra hw
  rw [SetImpl.visit, SetImpl.block, if_neg hw] at h
  cases h

theorem visitAll_pages {ws : List Nat} {s s' : SetImpl} (h : SetImpl.visitAll ws s = .ok s') (w : Nat) :
    (s'.blocks w).page = (s.blocks w).page := by
  induction ws generalizing s with
  | nil =>
    cases h
    rfl
  | cons v _ ih =>
    rw [SetImpl.visitAll] at h
    obtain ⟨_, hvisit, h⟩ := eq_ok_of_bind h
    obtain ⟨_, hvisit', -, -, hpage, -⟩ := visit_ok (lt_of_visit hvisit)
    rw [hvisit, Except.ok.injEq] at hvisit'
    rw [ih h, hvisit']
    exact hpage w

theorem new_pages {n : Nat} {s : SetImpl} (h : SetImpl.new n = .ok s) (w : Nat) : (s.blocks w).page = {} := visitAll_pages h w

/-! ## Careful steps -/

/-- The page that would be evicted for a page. -/
def victim (t : GMMUTLB cfg) (page : Page) : Option Page :=
  match vAddrToSetID cfg page.vAddr with
  | .ok setID => (t.sets setID).visitList.head?.map fun w => ((t.sets setID).blocks w).page
  | .error _ => none

/-- The page is valid, has a page number that can be stored, and finds room in the filter. -/
structure Insertable (cf : CuckooFilter 256) (page : Page) : Prop where
  valid : page.valid = true
  number : alignToPage page.vAddr ≠ 0
  room : cf.HasRoom page.vAddr

/-- What `install` must find: if it evicts a valid page, the filter is asked to delete it and finds it. -/
def Accepts (t : GMMUTLB cfg) (page : Page) (deletes : Page → Bool) : Prop :=
  ∀ oldPage, victim t page = some oldPage →
    (oldPage.valid = true → deletes oldPage = true ∧ t.cuckooFilter.Deletable oldPage.vAddr) ∧
      Insertable (filterAfter t (deletes oldPage) oldPage) page

/-- A response that is taken for an entry evicts an invalid page. -/
def FillOk (t : GMMUTLB cfg) (rsp : TranslationRsp) : Prop :=
  (t.mshr.query rsp.page.pid rsp.page.vAddr).isSome = true → ∀ oldPage, victim t rsp.page = some oldPage →
    oldPage.valid = false ∧ Insertable t.cuckooFilter rsp.page

/-- A loaded page evicts an invalid page, or a page that `Delete` finds. -/
def LoadOk (t : GMMUTLB cfg) (page : Page) : Prop :=
  ∀ oldPage, victim t page = some oldPage → (oldPage.valid = true → t.cuckooFilter.Deletable oldPage.vAddr) ∧
    Insertable (filterAfter t (oldPage != {}) oldPage) page

/-- A flush that is acknowledged does not invalidate a valid page. -/
def FlushOk (t : GMMUTLB cfg) (req : FlushReq) : Prop :=
  (t.controlPort.send (.flush req.src)).1 = true → ∀ vAddr ∈ req.vAddr, ∀ setID, vAddrToSetID cfg vAddr = .ok setID →
    ∀ wayID page, (t.sets setID).lookup req.pid vAddr = .ok (some (wayID, page)) → page.valid = false

def Careful (t : GMMUTLB cfg) : Call → Prop
  | .ctrl => ∀ req, t.controlPort.peek = some (.flush req) → FlushOk t req
  | .outside => (∀ rsp, t.outsidePort.peek = some (.rsp rsp) → FillOk t rsp) ∧
      ∀ page, t.outsidePort.peek = some (.pageLoad page) → LoadOk t page
  | .bottom => t.respondingMSHREntry = [] → ∀ rsp, t.bottomPort.peek = some rsp → FillOk t rsp
  | _ => True

/-- Any messages and answers; each stage call is careful unless the TLB is paused. -/
def Rules.careful (cfg : Config) : Rules cfg where
  request _ := True
  outside _ := True
  control _ := True
  answer _ _ := True
  call t k := k = .ctrl ∨ t.isPaused = false → Careful t k

/-! ## The invariant -/

/-- An eviction of a valid page takes its page number once out of the filter, another eviction takes out nothing. -/
def EvictsOne (oldPage : Page) (before after : CuckooFilter 256) : Prop :=
  (oldPage.valid = true → ∃ index, before.table = (index, alignToPage oldPage.vAddr) ::ₘ after.table) ∧
    (oldPage.valid = false → after.table = before.table)

def Event.evicted? : Event → Option (Page × CuckooFilter 256 × CuckooFilter 256)
  | .evict oldPage before after => some (oldPage, before, after)
  | _ => none

/-- The pages evicted, each with the filter before and after. -/
def evictionsOf (log : List Event) : List (Page × CuckooFilter 256 × CuckooFilter 256) := log.filterMap Event.evicted?

/-- `empty` : an invalid way is an empty one. -/
structure Mirrored (t : GMMUTLB cfg) : Prop where
  sets : ∀ i, Sound cfg.numWays (fun _ => True) (t.sets i)
  filter : Mirrors Home t.cuckooFilter.table (cached t)
  empty : ∀ i w, ((t.sets i).blocks w).page.valid = false → ((t.sets i).blocks w).page = {}
  evictions : ∀ e ∈ evictionsOf t.log, EvictsOne e.1 e.2.1 e.2.2

section
variable {t t' : GMMUTLB cfg}

theorem Mirrored.evict (h : Mirrored t) {page oldPage : Page} {deletes : Page → Bool} (haccepts : Accepts t page deletes)
    (hvictim : victim t page = some oldPage) (hold : oldPage.valid = false → oldPage = {})
    (hcached : numberOf oldPage ≤ cached t) :
    Mirrors Home (filterAfter t (deletes oldPage) oldPage).table (cached t - numberOf oldPage) ∧
      EvictsOne oldPage t.cuckooFilter (filterAfter t (deletes oldPage) oldPage) := by
  cases hvalid : oldPage.valid with
  | false =>
    have hempty := hold hvalid
    have hsame : filterAfter t (deletes oldPage) oldPage = t.cuckooFilter := by
      unfold filterAfter
      rw [hempty]
      split
      · exact delete_zero _
      · rfl
    have hzero : numberOf oldPage = 0 := by rw [numberOf, hvalid]; rfl
    rw [hsame, hzero, tsub_zero]
    exact ⟨h.filter, fun h1 => absurd (h1.symm.trans hvalid) Bool.noConfusion, fun _ => rfl⟩
  | true =>
    obtain ⟨hdeletes, hfound⟩ := (haccepts oldPage hvictim).1 hvalid
    have hnumber : numberOf oldPage = {alignToPage oldPage.vAddr} := by rw [numberOf, hvalid]; rfl
    rw [hnumber, Multiset.singleton_le] at hcached
    have hne : alignToPage oldPage.vAddr ≠ 0 := by
      intro h0
      rw [h0] at hcached
      obtain ⟨index, -, hmem⟩ := h.filter.exists_home hcached
      exact zero_notMem_table _ index hmem
    obtain ⟨index, htable⟩ := delete_of_deletable hfound hne
    have hafter : filterAfter t (deletes oldPage) oldPage = (t.cuckooFilter.delete oldPage.vAddr).2 := by
      rw [filterAfter, hdeletes, if_pos rfl]
    rw [hafter, hnumber, Multiset.sub_singleton]
    exact ⟨h.filter.delete htable, fun _ => ⟨index, htable⟩, fun h0 => absurd (h0.symm.trans hvalid) Bool.noConfusion⟩

theorem victim_eq {page : Page} {setID w : Nat} (hset : vAddrToSetID cfg page.vAddr = .ok setID)
    (hhead : (t.sets setID).visitList.head? = some w) : victim t page = some ((t.sets setID).blocks w).page := by
  simp only [victim, hset, hhead, Option.map_some]

theorem numberOf_le_cached {i w : Nat} (hi : i < cfg.numSets) (hw : w < cfg.numWays) :
    numberOf ((t.sets i).blocks w).page ≤ cached t := by
  refine le_trans ?_ (single_le_sum (f := fun i => cachedIn cfg.numWays (t.sets i)) (fun _ _ => Multiset.zero_le _)
    (mem_range.mpr hi))
  exact single_le_sum (f := fun w => numberOf ((t.sets i).blocks w).page) (fun _ _ => Multiset.zero_le _) (mem_range.mpr hw)

theorem Mirrored.install {page : Page} {deletes : Page → Bool} (h : Mirrored t) (haccepts : Accepts t page deletes)
    (hinstall : install t page deletes = .ok t') : Mirrored t' := by
  obtain ⟨setID, _, set, hset, hreplace, rfl⟩ := install_eq hinstall
  obtain ⟨w, hw, hhead, rfl, hpage⟩ := replace_page (h.sets setID) hreplace
  have hi := setID_lt hset
  have hvictim := victim_eq hset hhead
  obtain ⟨hevicted, hevict⟩ := h.evict haccepts hvictim (h.empty setID w) (numberOf_le_cached hi hw)
  obtain ⟨hvalid, hnumber, hroom⟩ := (haccepts _ hvictim).2
  obtain ⟨-, _, hhome, htable⟩ := insert_of_hasRoom hroom hnumber (t.rand t.nextInsert)
  obtain ⟨w₁, set₁, hfill, hsound⟩ : ∃ w₁ set₁, (t.sets setID).fill page = .ok (w₁, set₁) ∧
      Sound cfg.numWays (fun _ => True) set := by
    obtain ⟨w₁, -, -, hfill⟩ := replace_eq_fill hreplace
    obtain ⟨_, _, hfill₂, hsound⟩ := (h.sets setID).fill ((h.sets setID).pos_of_fill hfill) fun _ => trivial
    rw [hfill, Except.ok.injEq, Prod.mk.injEq] at hfill₂
    exact ⟨w₁, set, hfill, hfill₂.2 ▸ hsound⟩
  constructor
  · exact sound_update (P := fun _ _ => True) h.sets hsound
  · -- one page number more for the page, one less for the page evicted
    have hcached : cached (installed t page setID set ((t.sets setID).blocks w).page
        (filterAfter t (deletes ((t.sets setID).blocks w).page) ((t.sets setID).blocks w).page)) =
        alignToPage page.vAddr ::ₘ (cached t - numberOf ((t.sets setID).blocks w).page) := by
      have hsum := @sum_update cfg.numWays t.sets cfg.numSets setID hi set
      have hstore := cachedIn_store hw hpage
      have hone : numberOf page = {alignToPage page.vAddr} := by rw [numberOf, hvalid]; rfl
      have hle := numberOf_le_cached (t := t) hi hw
      rw [hone] at hstore
      rw [← Multiset.singleton_add]
      ext v
      have hsum := congrArg (count v) hsum
      have hstore := congrArg (count v) hstore
      have hle := Multiset.count_le_of_le v hle
      simp only [Multiset.count_add, Multiset.count_sub] at hsum hstore ⊢
      show count v (∑ j ∈ range cfg.numSets, cachedIn cfg.numWays (update t.sets setID set j)) = _
      have hdef : count v (cached t) = count v (∑ j ∈ range cfg.numSets, cachedIn cfg.numWays (t.sets j)) := rfl
      omega
    rw [hcached]
    show Mirrors Home ((CuckooFilter.insert _ _ _).2).table _
    rw [htable]
    exact hevicted.insert hhome
  · intro i w' hinvalid
    change ((update t.sets setID set i).blocks w').page.valid = false at hinvalid
    show ((update t.sets setID set i).blocks w').page = {}
    by_cases heq : i = setID
    · subst heq
      rw [update_self, hpage] at hinvalid ⊢
      by_cases hw' : w' = w
      · rw [if_pos hw', hvalid] at hinvalid
        cases hinvalid
      · rw [if_neg hw'] at hinvalid ⊢
        exact h.empty i w' hinvalid
    · rw [update_of_ne heq] at hinvalid ⊢
      exact h.empty i w' hinvalid
  · intro e he
    change e ∈ evictionsOf (t.log ++ [_]) at he
    rw [evictionsOf, filterMap_append, mem_append] at he
    rcases he with he | he
    · exact h.evictions e he
    · rw [mem_singleton.mp he]
      exact hevict

theorem Mirrored.fill {page : Page} (h : Mirrored t)
    (hfill : ∀ oldPage, victim t page = some oldPage → oldPage.valid = false ∧ Insertable t.cuckooFilter page)
    (hinstall : TlbGmmu.install t page (fun oldPage => !oldPage.valid) = .ok t') : Mirrored t' := by
  refine h.install (fun oldPage hvictim => ?_) hinstall
  obtain ⟨hinvalid, hinsert⟩ := hfill oldPage hvictim
  refine ⟨fun hvalid => absurd (hvalid.symm.trans hinvalid) Bool.noConfusion, ?_⟩
  -- the way evicted is empty, and `Delete` leaves the filter as it is
  obtain ⟨setID, w, rfl⟩ : ∃ setID w, ((t.sets setID).blocks w).page = oldPage := by
    unfold victim at hvictim
    split at hvictim
    next setID hset =>
      obtain ⟨w, -, hw⟩ := Option.map_eq_some_iff.mp hvictim
      exact ⟨setID, w, hw⟩
    next => cases hvictim
  rw [h.empty setID w hinvalid]
  show Insertable (t.cuckooFilter.delete 0).2 page
  rw [delete_zero]
  exact hinsert

/-! ## Steps that cache nothing -/

/-- What the invariant is about. -/
structure View where
  sets : Nat → SetImpl
  filter : CuckooFilter 256
  evictions : List (Page × CuckooFilter 256 × CuckooFilter 256)

def view (t : GMMUTLB cfg) : View := { sets := t.sets, filter := t.cuckooFilter, evictions := evictionsOf t.log }

theorem view_of_log {events : List Event} (hsets : t'.sets = t.sets) (hfilter : t'.cuckooFilter = t.cuckooFilter)
    (hlog : t'.log = t.log ++ events) (hevents : ∀ e ∈ events, e.evicted? = none) : view t' = view t := by
  have hnil : events.filterMap Event.evicted? = [] := filterMap_eq_nil_iff.mpr hevents
  rw [view, view, hsets, hfilter, hlog, evictionsOf, filterMap_append, hnil, append_nil]
  rfl

theorem view_record (t : GMMUTLB cfg) {e : Event} (he : e.evicted? = none) : view (t.record e) = view t := by
  refine view_of_log rfl rfl (show (t.record e).log = t.log ++ [e] from rfl) ?_
  intro e' he'
  rw [mem_singleton.mp he']
  exact he

theorem view_retrieveTop (t : GMMUTLB cfg) : view t.retrieveTop = view t := by
  refine view_of_log rfl rfl (show t.retrieveTop.log = t.log ++ t.topPort.peek.toList.map Event.topRetrieve from rfl) ?_
  intro e he
  obtain ⟨_, -, rfl⟩ := mem_map.mp he
  rfl

theorem view_retrieveOutside (t : GMMUTLB cfg) : view t.retrieveOutside = view t := by
  refine view_of_log rfl rfl (show t.retrieveOutside.log = t.log ++ t.outsidePort.peek.toList.map
    Event.outsideRetrieve from rfl) ?_
  intro e he
  obtain ⟨_, -, rfl⟩ := mem_map.mp he
  rfl

theorem view_retrieveReq (t : GMMUTLB cfg) (r : MshrRequest) : view (t.retrieveReq r) = view t := by
  unfold GMMUTLB.retrieveReq
  split
  · exact view_retrieveTop t
  · split
    · exact view_retrieveOutside t
    · rfl

theorem view_retrieveRsp (t : GMMUTLB cfg) (bottom : Bool) : view (retrieveRsp t bottom) = view t := by
  cases bottom with
  | true => rfl
  | false => exact view_retrieveOutside t

theorem view_answered (t : GMMUTLB cfg) (r : MshrRequest) (toTop toOutside : TranslationRsp) (conn : List Bool) :
    view (answered t r toTop toOutside conn) = view t := by
  unfold answered
  split
  · exact view_record _ rfl
  · exact view_record _ rfl

theorem view_passed (t : GMMUTLB cfg) (r : MshrRequest) (dst : PortID) (conn : List Bool) :
    view (passed t r dst conn) = view t := by
  have hsent : view (sentOn t r dst conn) = view t := view_record _ rfl
  rw [passed, view_record _ rfl, view_retrieveReq, hsent]

theorem view_fetched (t : GMMUTLB cfg) (r : MshrRequest) (conn : List Bool) : view (fetched t r conn) = view t := by
  rw [fetched, view_record _ rfl, view_retrieveReq]
  rfl

theorem Mirrored.of_view (h : Mirrored t) (hview : view t' = view t) : Mirrored t' := by
  have hsets : t'.sets = t.sets := congrArg View.sets hview
  have hfilter : t'.cuckooFilter = t.cuckooFilter := congrArg View.filter hview
  have hcached : cached t' = cached t := by rw [cached, cached, hsets]
  constructor
  · rw [hsets]
    exact h.sets
  · rw [hfilter, hcached]
    exact h.filter
  · rw [hsets]
    exact h.empty
  · have hevictions : evictionsOf t'.log = evictionsOf t.log := congrArg View.evictions hview
    rw [hevictions]
    exact h.evictions

theorem Mirrored.visit {i w : Nat} {set : SetImpl} (h : Mirrored t) (hvisit : (t.sets i).visit w = .ok set) :
    Mirrored { t with sets := update t.sets i set } := by
  have hpage : ∀ j w', ((update t.sets i set j).blocks w').page = ((t.sets j).blocks w').page := by
    intro j w'
    by_cases heq : j = i
    · subst heq
      obtain ⟨s', hvisit', -, -, hpage, -⟩ := visit_ok (lt_of_visit hvisit)
      rw [hvisit, Except.ok.injEq] at hvisit'
      rw [update_self, hvisit']
      exact hpage w'
    · rw [update_of_ne heq]
  have hcached : cached { t with sets := update t.sets i set } = cached t :=
    sum_congr rfl fun j _ => cachedIn_congr (hpage j)
  obtain ⟨_, hvisit', hsound⟩ := (h.sets i).visit ((h.sets i).numWays ▸ lt_of_visit hvisit)
  rw [hvisit, Except.ok.injEq] at hvisit'
  subst hvisit'
  refine ⟨sound_update (P := fun _ _ => True) h.sets hsound, ?_, fun j w' hinvalid => ?_, h.evictions⟩
  · rw [hcached]
    exact h.filter
  · rw [hpage] at hinvalid ⊢
    exact h.empty j w' hinvalid

theorem invalidate_invalid {n : Nat} {P : Page → Prop} {s : SetImpl} {pid : PID} {vAddr : VAddr} (hs : Sound n P s)
    (hinvalid : ∀ w page, s.lookup pid vAddr = .ok (some (w, page)) → page.valid = false) :
    Returns (fun r => r.1 = s) (s.invalidate pid vAddr) := by
  unfold SetImpl.invalidate
  refine Returns.bind fun found hlook => ?_
  cases found with
  | none => exact ok rfl
  | some x =>
    obtain ⟨w, page⟩ := x
    have hvalid := hinvalid w page hlook
    unfold SetImpl.lookup at hlook
    cases hmap : s.vAddrWayIDMap (Tlb.keyString pid vAddr) with
    | none => simp [hmap] at hlook
    | some w' =>
      obtain ⟨hw, hkey, -⟩ := hs.maps _ w' hmap
      have hw' : w' < s.numWays := hs.numWays.symm ▸ hw
      simp only [hmap, SetImpl.block, if_pos hw'] at hlook
      cases hlook
      have hsame : { (s.blocks w).page with valid := false } = (s.blocks w).page := by rw [← hvalid]
      simp only [hsame, update_ok hw']
      refine ok ?_
      dsimp only
      rw [update_idem, hkey, ← hmap, update_eq_self, update_eq_self]

theorem invalidateAll_invalid {pid : PID} {sets : Nat → SetImpl} (hsets : ∀ i, Sound cfg.numWays (fun _ => True) (sets i))
    {vAddrs : List VAddr} (hinvalid : ∀ vAddr ∈ vAddrs, ∀ setID, vAddrToSetID cfg vAddr = .ok setID →
      ∀ wayID page, (sets setID).lookup pid vAddr = .ok (some (wayID, page)) → page.valid = false) :
    Returns (fun sets' => sets' = sets) (invalidateAll cfg pid vAddrs sets) := by
  induction vAddrs with
  | nil => exact ok rfl
  | cons vAddr _ ih =>
    refine Returns.bind fun setID hset => Returns.bind fun r hr => ?_
    obtain ⟨set, _⟩ := r
    have hsame : set = sets setID := invalidate_invalid (hsets setID) (hinvalid vAddr mem_cons_self setID hset) _ hr
    dsimp only
    rw [hsame, update_eq_self]
    exact ih fun v hv => hinvalid v (mem_cons_of_mem _ hv)

theorem Mirrored.ctrl (h : Mirrored t) (hcareful : Careful t .ctrl) (hs : CtrlStep t t') : Mirrored t' := by
  cases hs with
  | idle => exact ⟨h.sets, h.filter, h.empty, h.evictions⟩
  | flush req sets _ hreq hsent hsets =>
    have hsame := invalidateAll_invalid h.sets (hcareful req hreq hsent) sets hsets
    subst hsame
    exact ⟨h.sets, h.filter, h.empty, h.evictions⟩
  | restart => exact ⟨h.sets, h.filter, h.empty, h.evictions⟩

theorem Mirrored.step (h : Mirrored t) {k : Call} (hcareful : Careful t k) (hs : Step t k t') : Mirrored t' := by
  cases hs with
  | idle => exact h.of_view rfl
  | respond e _ r _ conn =>
    exact h.of_view ((view_record _ rfl).trans
      (view_answered t r (rspToTop r.request e.page) (rspToOutside r.request e.page) conn))
  | hit _ r setID wayID page set conn _ _ _ _ hvisit =>
    have hview := (view_retrieveReq _ r).trans
      (view_answered t r (rspToTop r.request page) (rspToOutsideHit r.request page) conn)
    have hsets := congrArg View.sets hview
    have hvisit₁ : (((answered t r (rspToTop r.request page) (rspToOutsideHit r.request page) conn).retrieveReq r).sets
        setID).visit wayID =
        .ok set := by
      rw [← hvisit]
      exact congrArg (fun f => (f setID).visit wayID) hsets
    have h₁ := (h.of_view hview).visit hvisit₁
    refine h₁.of_view ((view_record _ rfl).trans ?_)
    rw [← show _ = t.sets from hsets]
    rfl
  | join _ r => exact h.of_view (view_retrieveReq { t with mshr := t.mshr.join r } r)
  | fetch _ r conn => exact h.of_view (view_fetched t r conn)
  | fetchRemote req dst conn =>
    exact h.of_view (view_passed t { request := req, localFlag := true, remoteFlag := false } dst conn)
  | pass _ dst conn => exact h.of_view (view_passed t _ dst conn)
  | drop _ _ bottom => exact h.of_view (view_retrieveRsp t bottom)
  | fill _ rsp bottom _ _ hhead he hinstall =>
    have hfill : FillOk t rsp := by
      cases hhead with
      | outside rsp hpeek => exact hcareful.1 rsp hpeek
      | bottom rsp hpeek hnone => exact hcareful hnone rsp hpeek
    have hpresent : (t.mshr.query rsp.page.pid rsp.page.vAddr).isSome = true := by rw [he]; rfl
    exact (h.fill (hfill hpresent) hinstall).of_view (view_retrieveRsp _ bottom)
  | load page t₁ hhead hinstall =>
    have hload := hcareful.2 page hhead
    have haccepts : Accepts t page (fun oldPage => oldPage != {}) := by
      intro oldPage hvictim
      refine ⟨fun hvalid => ⟨?_, (hload oldPage hvictim).1 hvalid⟩, (hload oldPage hvictim).2⟩
      apply bne_iff_ne.mpr
      rintro rfl
      cases hvalid
    exact (h.install haccepts hinstall).of_view (view_retrieveOutside t₁)

end

/-! ## Runs -/

theorem mirrored_build {rand : Nat → Nat → Fin bucketSize} {t : GMMUTLB cfg} (h : build cfg rand = .ok t) : Mirrored t := by
  obtain ⟨set, hnew, hsound⟩ := new_sound cfg.numWays fun _ => True
  have hpages : ∀ w, (set.blocks w).page = {} := new_pages hnew
  simp only [build, newSets, hnew, bind, Except.bind, pure, Except.pure, Except.ok.injEq] at h
  subst h
  have hcached : cached { sets := fun _ => set, pageTable := cfg.pageTable, rand : GMMUTLB cfg } = 0 := by
    refine sum_eq_zero fun i _ => sum_eq_zero fun w _ => ?_
    show numberOf (set.blocks w).page = 0
    rw [hpages]
    rfl
  refine ⟨fun _ => hsound, ?_, fun _ w _ => hpages w, forall_mem_nil _⟩
  rw [hcached]
  show Mirrors Home (table ({} : CuckooFilter 256)) 0
  rw [table_new]
  exact Mirrors.empty

theorem mirrored_and_sided {s : System cfg} {ks : List Call} (h : Reaches (Rules.careful cfg) s ks) :
    Mirrored s.tlb ∧ Sided s.tlb := by
  refine tlb_of_reaches (P := fun t => Mirrored t ∧ Sided t) (fun rand t hbuild => ⟨mirrored_build hbuild, ?_⟩)
    (fun t _ _ _ _ _ ht => ⟨⟨ht.1.sets, ht.1.filter, ht.1.empty, ht.1.evictions⟩, ht.2⟩) (fun t k p t' ht hk hexec => ?_) h
  · unfold build at hbuild
    obtain ⟨_, hsets, hbuild⟩ := eq_ok_of_bind hbuild
    cases hbuild
    rintro e (he | he) <;> cases he
  · rcases Call.step (fun e he => ht.2 e (.inr he)) hexec with ⟨rfl, hs⟩ | rfl | ⟨hrun, hs⟩
    · exact ⟨ht.1.ctrl (hk (.inl rfl)) hs, ht.2.ctrl hs⟩
    · exact ht
    · exact ⟨ht.1.step (hk (.inr hrun)) hs, ht.2.step hs⟩

/-- `found` : each valid page held in a set is found in the filter; `stored` : the filter stores the page numbers of the valid
cached pages, as many of each; `evicted` : each eviction took out one page number if the page was valid, else none. -/
structure FilterMirrors (t : GMMUTLB cfg) : Prop where
  found : ∀ i < cfg.numSets, ∀ w < cfg.numWays, ((t.sets i).blocks w).page.valid = true →
    t.cuckooFilter.lookup ((t.sets i).blocks w).page.vAddr = true
  stored : t.cuckooFilter.table.map Prod.snd = cached t
  evicted : ∀ e ∈ evictionsOf t.log, EvictsOne e.1 e.2.1 e.2.2

/-- **The filter mirrors the cached pages** in every run of careful steps. -/
theorem filter_mirrors_of_reaches {s : System cfg} {ks : List Call} (h : Reaches (Rules.careful cfg) s ks) :
    FilterMirrors s.tlb := by
  obtain ⟨hm, -⟩ := mirrored_and_sided h
  refine ⟨fun i hi w hw hvalid => ?_, hm.filter.fingerprints, hm.evictions⟩
  obtain ⟨_, hhome, hmem⟩ := hm.filter.exists_home (mem_cached hi hw hvalid)
  exact lookup_of_mem hhome hmem

/-- A page of process 1 on device 1. -/
def pageAt (vAddr : VAddr) : Page := { pid := 1, vAddr, valid := true, deviceID := 1 }

/-- A TLB of one way on device 1, below the IOMMU. -/
def tiny : Config where
  numReqPerCycle := 1
  numSets := 1
  numWays := 1
  pageSize := 4096
  numMSHREntry := 1
  deviceID := 1
  pageTable := (PageTable.empty.set (pageAt 4096)).set (pageAt 8192)
  lowModule := 20
  ioMMUPort := 21
  topPort := 1
  bottomPort := 2
  outsidePort := 3
  gmmuCacheTable := fun _ => none
  innerLayer := { entries := [(0, 1)], nodup := nodup_singleton _ }
  middleLayer := { entries := [], nodup := nodup_nil }
  outerLayer := { entries := [], nodup := nodup_nil }

def reqFor (id : MsgID) (vAddr : VAddr) : TranslationReq := { id, src := 9, vAddr, pid := 1 }

section
variable (t : GMMUTLB cfg)

instance (cf : CuckooFilter 256) (page : Page) : Decidable (Insertable cf page) :=
  decidable_of_iff (page.valid = true ∧ alignToPage page.vAddr ≠ 0 ∧ cf.HasRoom page.vAddr)
    ⟨fun ⟨hvalid, hnumber, hroom⟩ => ⟨hvalid, hnumber, hroom⟩, fun h => ⟨h.valid, h.number, h.room⟩⟩

instance (rsp : TranslationRsp) : Decidable (FillOk t rsp) :=
  inferInstanceAs (Decidable (_ → ∀ oldPage ∈ victim t rsp.page, _ ∧ _))

instance (page : Page) : Decidable (LoadOk t page) := inferInstanceAs (Decidable (∀ oldPage ∈ victim t page, (_ → _) ∧ _))

/-- What arrives can be handled. -/
def OutsideMsg.Tame : OutsideMsg → Prop
  | .req _ => True
  | .rsp r => FillOk t r
  | .pageLoad page => LoadOk t page

instance : (msg : OutsideMsg) → Decidable (msg.Tame t)
  | .req _ => inferInstanceAs (Decidable True)
  | .rsp r => inferInstanceAs (Decidable (FillOk t r))
  | .pageLoad page => inferInstanceAs (Decidable (LoadOk t page))

/-- No control request waits, and what arrives can be handled. -/
def Tame : Call → Prop
  | .ctrl => t.controlPort.peek.isNone = true
  | .outside => ∀ msg ∈ t.outsidePort.peek, msg.Tame t
  | .bottom => ∀ rsp ∈ t.bottomPort.peek, FillOk t rsp
  | _ => True

instance : (k : Call) → Decidable (Tame t k)
  | .ctrl => inferInstanceAs (Decidable (_ = true))
  | .outside => inferInstanceAs (Decidable (∀ msg ∈ t.outsidePort.peek, msg.Tame t))
  | .bottom => inferInstanceAs (Decidable (∀ rsp ∈ t.bottomPort.peek, FillOk t rsp))
  | .respond | .top => inferInstanceAs (Decidable True)

variable {t} {k : Call}

theorem Tame.careful (h : Tame t k) : Careful t k := by
  cases k with
  | ctrl =>
    intro req hreq
    rw [Tame, hreq] at h
    cases h
  | outside => exact ⟨fun rsp hrsp => h _ hrsp, fun page hpage => h _ hpage⟩
  | bottom => exact fun _ rsp hrsp => h rsp hrsp
  | _ => trivial

end

/-- A page is loaded, another is fetched, and a third is loaded in place of the first. -/
def loadsAndFetches : List Input :=
  [.connect [true] [true] [] [], .outside (.pageLoad (pageAt 0x100000)), .tick, .request (reqFor 7 8192), .tick,
    .answer 0 (pageAt 8192), .deliver 0, .tick, .outside (.pageLoad (pageAt 12288)), .tick]

/-- Two ways. -/
def tiny₂ : Config := { tiny with numWays := 2 }

theorem filter_mirrors_of_reaches_loads : ∃ t, build tiny₂ (fun _ _ => 0) = .ok t ∧
    ∃ s, loadsAndFetches.foldl (System.replay Tame) { tlb := t } = s ∧
      (evictionsOf s.tlb.log).map Prod.fst = [{}, {}, pageAt 0x100000] ∧ s.tlb.cuckooFilter.lookup 0x100000 = false ∧
      s.tlb.cuckooFilter.lookup 8192 = true ∧ s.tlb.cuckooFilter.lookup 12288 = true ∧ FilterMirrors s.tlb := by
  refine ⟨_, rfl, _, rfl, by decide +kernel, by decide +kernel, by decide +kernel, by decide +kernel,
    filter_mirrors_of_reaches (.replay (fun _ _ h _ => h.careful) (.init (fun _ _ => 0) rfl) ?_)⟩
  simp [loadsAndFetches, Rules.Allows, Rules.careful]

/-- A page is loaded into the only way, and then the response for another page evicts it. -/
def evictsLoaded : List Input :=
  [.connect [true] [true] [] [], .outside (.pageLoad (pageAt 4096)), .tick, .request (reqFor 7 8192), .tick,
    .answer 0 (pageAt 8192), .deliver 0, .tick]

/-- The page evicted is valid, and the filter keeps its page number. -/
theorem keeps_evicted : ∃ s, Reaches (Rules.any tiny) s [] ∧ cached s.tlb = {2} ∧ s.tlb.cuckooFilter.lookup 4096 = true ∧
    (∃ cf, (pageAt 4096, cf, cf) ∈ evictionsOf s.tlb.log) ∧ ¬ FilterMirrors s.tlb := by
  obtain ⟨s, hreach, hpage, hslot, cf, hevictions⟩ : ∃ s, Reaches (Rules.any tiny) s [] ∧
      ((s.tlb.sets 0).blocks 0).page = pageAt 8192 ∧
      (s.tlb.cuckooFilter.buckets 1).entries 0 = 1 ∧ ∃ cf, evictionsOf s.tlb.log = [({}, {}, {}), (pageAt 4096, cf, cf)] :=
    ⟨_, reaches_run evictsLoaded (.init (fun _ _ => 0) rfl) rfl, rfl, rfl, _, rfl⟩
  have hcached : cached s.tlb = {2} := by
    show ∑ i ∈ range 1, ∑ w ∈ range 1, numberOf ((s.tlb.sets i).blocks w).page = _
    rw [sum_range_one, sum_range_one, hpage]
    rfl
  have hstored : ((1 : Fin 256), (1 : UInt64)) ∈ s.tlb.cuckooFilter.table :=
    mem_table.mpr (Bucket.mem_stored.mpr ⟨by decide, 0, hslot⟩)
  refine ⟨s, hreach, hcached, lookup_of_mem (.inl rfl) hstored, ⟨cf, ?_⟩, fun h => ?_⟩
  · rw [hevictions]
    exact mem_cons_of_mem _ mem_cons_self
  · have hmem := Multiset.mem_map_of_mem Prod.snd hstored
    rw [h.stored, hcached, Multiset.mem_singleton] at hmem
    exact absurd hmem (by decide)

end Akita.Vm.TlbGmmu
