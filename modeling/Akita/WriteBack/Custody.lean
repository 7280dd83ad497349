import Akita.WriteBack.Ledger

/-!
# Custody

`Custody` : each request that is under way is held once, each MSHR entry in use is in one place, and an entry in the
MSHR is fetched for by at most one transaction. `Custody.step` : every step keeps it.
-/

namespace Akita.WriteBack
open Sim Pipelining Mem Mem.Cache Function
open List hiding countP_cons count_cons_self map_cons sum_cons
open Multiset (coe_add coe_nil coe_singleton cons_bind countP_cons countP_le_of_le count_cons_self count_le_of_le
  exists_cons_of_mem le_add_left le_cons_self map_add map_cons mem_cons_of_mem mem_cons_self mem_of_le singleton_add sum_add
    sum_cons)
open Multiset (countP_pos mem_cons)
open Transaction (fetchesFor fills holds)
open WriteBack.Action (isFetch isHit)
open WriteBack.Flow (allocate fillMSHR)

variable {cfg : Config}

namespace Ledger

structure Custody (L : Ledger cfg) : Prop where
  held_le : ∀ e, L.held.count e ≤ 1
  held_lt : ∀ e ∈ L.held, e < L.mshr.nextRef
  keys : ∀ e ∈ L.mshr.entries, ∀ e' ∈ L.mshr.entries, (L.mshr.heap e).pid = (L.mshr.heap e').pid →
    (L.mshr.heap e).address = (L.mshr.heap e').address → e = e'
  fetching : ∀ t ∈ L.work, t.action.isFetch = true → ∃ e ∈ L.mshr.entries, t.mshrEntry = some e ∧
    t.fetchPID = (L.mshr.heap e).pid ∧ t.fetchAddress = (L.mshr.heap e).address
  fetchers : ∀ e, L.work.countP (fun t => t.fetchesFor e = true) ≤ 1
  filling : ∀ t ∈ L.work, t.action = .bankWriteFetched → ∃ e, t.mshrEntry = some e
  holders_le : ∀ i, L.holders i ≤ 1
  holders_lt : ∀ i, L.nextID ≤ i → L.holders i = 0
  inFlight_nodup : (L.inFlight.map (·.id)).Nodup
  inFlight_lt : ∀ t ∈ L.inFlight, t.id < L.nextID
  dir_live : ∀ t ∈ L.dir, ∃ t' ∈ L.inFlight, t'.id = t.id
  work_live : ∀ t ∈ L.work, t.action.isHit = true → ∃ t' ∈ L.inFlight, t'.id = t.id
  covered : ∀ t ∈ L.inFlight, 0 < L.holders t.id
  discarded : L.discarding = true → L.dir = 0

/-! ## Sums over entries -/

variable {e : EntryRef}

variable {s : Multiset EntryRef}

theorem sum_update_of_notMem {f : MSHREntry Transaction → Nat} {heap : EntryRef → MSHREntry Transaction} (he : e ∉ s)
    (x : MSHREntry Transaction) : (s.map fun e' => f (update heap e x e')).sum = (s.map fun e' => f (heap e')).sum := by
  congr 1
  refine Multiset.map_congr rfl fun e' he' => ?_
  rw [update_of_ne]
  rintro rfl
  exact he he'

/-! ## What a transaction contributes -/

section
variable {t t' : Transaction}

theorem fills_eq (h : t.Alike t') : t'.fills = t.fills := by
  unfold fills
  rw [h.mshrEntry]
  by_cases hf : t.action = .bankWriteFetched
  · rw [hf, h.isFill.mpr hf]
  · have hf' : t'.action ≠ .bankWriteFetched := fun h' => hf (h.isFill.mp h')
    split <;> split <;> simp_all

theorem fills_of_ne (h : t.action ≠ .bankWriteFetched) : t.fills = 0 := by
  unfold fills
  split
  · contradiction
  · rfl

theorem fills_of_fill {e : EntryRef} (h : t.action = .bankWriteFetched) (he : t.mshrEntry = some e) :
    t.fills = {e} := by
  simp [fills, h, he]

theorem holds_eq (h : t.Alike t') (i : Nat) : t'.holds i = t.holds i := by
  simp [holds, h.isHit, h.id]

theorem fetchesFor_eq (h : t.Alike t') (e : EntryRef) : t'.fetchesFor e = t.fetchesFor e := by
  simp [fetchesFor, h.isFetch, h.mshrEntry]

end

theorem Custody.query_eq {L : Ledger cfg} (h : L.Custody) (he : e ∈ L.mshr.entries) :
    L.mshr.query (L.mshr.heap e).pid (L.mshr.heap e).address = some e := by
  cases hq : L.mshr.query (L.mshr.heap e).pid (L.mshr.heap e).address with
  | none => exact absurd ⟨rfl, rfl⟩ (MSHR.query_eq_none hq he)
  | some e' =>
    obtain ⟨hm, hp, ha⟩ := MSHR.query_eq_some hq
    rw [h.keys e' hm e he hp ha]

theorem mem_held_of_entries {L : Ledger cfg} (he : e ∈ L.mshr.entries) : e ∈ L.held := by
  simp [held, he]

theorem mem_held_of_drain {L : Ledger cfg} (he : e ∈ L.drain) : e ∈ L.held := by simp [held, he]

/-! ## The steps -/

theorem sum_modify (f : MSHREntry Transaction → Nat) {n : Nat} {m : MSHR n Transaction}
    (hle : s.count e ≤ 1) (he : e ∈ s) (g : MSHREntry Transaction → MSHREntry Transaction) :
    (s.map fun e' => f ((m.modify e g).heap e')).sum + f (m.heap e) =
      (s.map fun e' => f (m.heap e')).sum + f (g (m.heap e)) := by
  obtain ⟨s, rfl⟩ := exists_cons_of_mem he
  rw [count_cons_self] at hle
  have hnot : e ∉ s := Multiset.count_eq_zero.mp (by omega)
  simp only [map_cons, sum_cons, MSHR.heap_modify, sum_update_of_notMem hnot, update_self]
  omega

section
variable {L : Ledger cfg} {t t' : Transaction} {w d : Multiset Transaction}

/-- A step that keeps who holds the requests, the requests in flight, and the keys of the entries. -/
theorem Custody.keep (h : L.Custody) {L' : Ledger cfg} (hheld : L'.held = L.held) (hholders : ∀ i, L'.holders i = L.holders i)
    (hnext : L'.mshr.nextRef = L.mshr.nextRef) (hin : L'.inFlight = L.inFlight) (hid : L.nextID ≤ L'.nextID)
    (hdir : ∀ x ∈ L'.dir, x ∈ L.dir) (hdisc : L'.discarding = L.discarding)
    (hentries : ∀ e ∈ L'.mshr.entries, e ∈ L.mshr.entries)
    (hkeys : ∀ e, (L'.mshr.heap e).pid = (L.mshr.heap e).pid ∧ (L'.mshr.heap e).address = (L.mshr.heap e).address)
    (fetching : ∀ t ∈ L'.work, t.action.isFetch = true → ∃ e ∈ L'.mshr.entries, t.mshrEntry = some e ∧
      t.fetchPID = (L.mshr.heap e).pid ∧ t.fetchAddress = (L.mshr.heap e).address)
    (fetchers : ∀ e, L'.work.countP (fun t => t.fetchesFor e = true) ≤ 1)
    (filling : ∀ t ∈ L'.work, t.action = .bankWriteFetched → ∃ e, t.mshrEntry = some e)
    (work_live : ∀ t ∈ L'.work, t.action.isHit = true → ∃ t' ∈ L.inFlight, t'.id = t.id) : L'.Custody where
  held_le := hheld ▸ h.held_le
  held_lt := by
    rw [hheld, hnext]
    exact h.held_lt
  keys := by
    intro e1 h1 e2 h2 hp ha
    rw [(hkeys e1).1, (hkeys e2).1] at hp
    rw [(hkeys e1).2, (hkeys e2).2] at ha
    exact h.keys e1 (hentries e1 h1) e2 (hentries e2 h2) hp ha
  fetching := by
    intro x hx hf
    obtain ⟨e, he, hentry, hp, ha⟩ := fetching x hx hf
    exact ⟨e, he, hentry, hp.trans (hkeys e).1.symm, ha.trans (hkeys e).2.symm⟩
  fetchers := fetchers
  filling := filling
  holders_le i := (hholders i).trans_le (h.holders_le i)
  holders_lt i hi := (hholders i).trans (h.holders_lt i (hid.trans hi))
  inFlight_nodup := hin ▸ h.inFlight_nodup
  inFlight_lt := by
    rw [hin]
    exact fun x hx => (h.inFlight_lt x hx).trans_le hid
  dir_live := by
    rw [hin]
    exact fun x hx => h.dir_live x (hdir x hx)
  work_live := by
    rw [hin]
    exact work_live
  covered := by
    intro x hx
    rw [hholders]
    exact h.covered x (hin ▸ hx)
  discarded hd := Multiset.eq_zero_of_forall_notMem fun x hx => Multiset.notMem_zero x (h.discarded (hdisc ▸ hd) ▸ hdir x hx)

theorem Custody.relabel (h : L.Custody) (hwork : L.work = t ::ₘ w) (halike : t.Alike t') {k : Nat}
    (hk : L.nextID ≤ k) : Custody { L with work := t' ::ₘ w, nextID := k } := by
  have hheld : ({ L with work := t' ::ₘ w, nextID := k } : Ledger cfg).held = L.held := by
    simp [held, filled, hwork, fills_eq halike]
  have hholders : ∀ i, ({ L with work := t' ::ₘ w, nextID := k } : Ledger cfg).holders i = L.holders i := by
    intro i
    simp only [holders, hheld, hwork, countP_cons, holds_eq halike]
  have hold : ∀ x ∈ t' ::ₘ w, x = t' ∨ x ∈ L.work := by
    intro x hx
    rcases mem_cons.mp hx with rfl | hx
    · exact .inl rfl
    · exact .inr (hwork ▸ mem_cons_of_mem hx)
  have ht : t ∈ L.work := hwork ▸ mem_cons_self t w
  refine h.keep hheld hholders rfl rfl hk (fun _ hx => hx) rfl (fun _ he => he) (fun _ => ⟨rfl, rfl⟩)
    (fun x hx hf => ?_) (fun e => ?_) (fun x hx hf => ?_) fun x hx hhit => ?_
  · rcases hold x hx with rfl | hx
    · obtain ⟨e, he, hentry, hpid, haddr⟩ := h.fetching t ht (halike.isFetch ▸ hf)
      exact ⟨e, he, halike.mshrEntry.trans hentry, halike.fetchPID.trans hpid, halike.fetchAddress.trans haddr⟩
    · exact h.fetching x hx hf
  · have := h.fetchers e
    simpa only [hwork, countP_cons, fetchesFor_eq halike] using this
  · rcases hold x hx with rfl | hx
    · exact (h.filling t ht (halike.isFill.mp hf)).imp fun e he => halike.mshrEntry.trans he
    · exact h.filling x hx hf
  · rcases hold x hx with rfl | hx
    · rw [halike.id]
      exact h.work_live t ht (halike.isHit ▸ hhit)
    · exact h.work_live x hx hhit

theorem Custody.drop (h : L.Custody) (hwork : L.work = t ::ₘ w) (hidle : t.Idle) :
    Custody { L with work := w } := by
  have hheld : ({ L with work := w } : Ledger cfg).held = L.held := by
    simp [held, filled, hwork, fills_of_ne hidle.isFill]
  have hholders : ∀ i, ({ L with work := w } : Ledger cfg).holders i = L.holders i := by
    intro i
    have ht : t.holds i = false := by simp [holds, hidle.isHit]
    simp only [holders, hheld, hwork, countP_cons, ht]
    simp
  have hsub := mem_of_cons hwork
  exact h.keep hheld hholders rfl rfl le_rfl (fun _ hx => hx) rfl (fun _ he => he) (fun _ => ⟨rfl, rfl⟩)
    (fun x hx => h.fetching x (hsub x hx))
    (fun e => (countP_le_of_le _ (hwork ▸ le_cons_self w t)).trans (h.fetchers e)) (fun x hx => h.filling x (hsub x hx))
    fun x hx => h.work_live x (hsub x hx)

theorem Custody.add (h : L.Custody) (hidle : t.Idle) : Custody { L with work := t ::ₘ L.work } := by
  have hheld : ({ L with work := t ::ₘ L.work } : Ledger cfg).held = L.held := by
    simp [held, filled, fills_of_ne hidle.isFill]
  have hholders : ∀ i, ({ L with work := t ::ₘ L.work } : Ledger cfg).holders i = L.holders i := by
    intro i
    have ht : t.holds i = false := by simp [holds, hidle.isHit]
    simp only [holders, hheld, countP_cons, ht]
    simp
  refine h.keep hheld hholders rfl rfl le_rfl (fun _ hx => hx) rfl (fun _ he => he) (fun _ => ⟨rfl, rfl⟩)
    (fun x hx hf => ?_) (fun e => ?_) (fun x hx hf => ?_) fun x hx hhit => ?_
  · rcases mem_cons.mp hx with rfl | hx
    · rw [hidle.isFetch] at hf
      cases hf
    · exact h.fetching x hx hf
  · have ht : t.fetchesFor e = false := by simp [fetchesFor, hidle.isFetch]
    simpa only [countP_cons, ht, Bool.false_eq_true, if_false, Nat.add_zero] using h.fetchers e
  · rcases mem_cons.mp hx with rfl | hx
    · exact absurd hf hidle.isFill
    · exact h.filling x hx hf
  · rcases mem_cons.mp hx with rfl | hx
    · rw [hidle.isHit] at hhit
      cases hhit
    · exact h.work_live x hx hhit

theorem Custody.accept (h : L.Custody) (hid : t.id = L.nextID) (hlive : L.discarding = false) :
    Custody { L with dir := t ::ₘ L.dir, inFlight := L.inFlight ++ [t], nextID := L.nextID + 1 } := by
  have hholders : ∀ i, ({ L with dir := t ::ₘ L.dir, inFlight := L.inFlight ++ [t], nextID := L.nextID + 1 } :
      Ledger cfg).holders i = L.holders i + if L.nextID = i then 1 else 0 := by
    intro i
    simp only [holders, countP_cons, hid]
    change _ + (L.held.map fun e => asking i (L.mshr.heap e)).sum = _
    omega
  exact {
    held_le := h.held_le
    held_lt := h.held_lt
    keys := h.keys
    fetching := h.fetching
    fetchers := h.fetchers
    filling := h.filling
    holders_le := by
      intro i
      rw [hholders]
      split
      · next hi => rw [h.holders_lt i hi.le]
      · exact h.holders_le i
    holders_lt := by
      intro i hi
      have hi : L.nextID + 1 ≤ i := hi
      rw [hholders, if_neg (by omega)]
      exact h.holders_lt i (by omega)
    inFlight_nodup := by
      rw [map_append, nodup_append]
      refine ⟨h.inFlight_nodup, nodup_singleton _, ?_⟩
      intro i hi j hj
      obtain ⟨x, hx, rfl⟩ := mem_map.mp hi
      have := h.inFlight_lt x hx
      simp only [List.map_cons, List.map_nil, List.mem_singleton] at hj
      omega
    inFlight_lt := by
      intro x hx
      rcases mem_append.mp hx with hx | hx
      · exact (h.inFlight_lt x hx).trans (Nat.lt_succ_self _)
      · rw [List.mem_singleton.mp hx, hid]
        exact Nat.lt_succ_self _
    dir_live := by
      intro x hx
      rcases mem_cons.mp hx with rfl | hx
      · exact ⟨x, by simp, rfl⟩
      · obtain ⟨y, hy, hid'⟩ := h.dir_live x hx
        exact ⟨y, mem_append_left _ hy, hid'⟩
    work_live := by
      intro x hx hhit
      obtain ⟨y, hy, hid'⟩ := h.work_live x hx hhit
      exact ⟨y, mem_append_left _ hy, hid'⟩
    covered := by
      intro x hx
      rw [hholders]
      rcases mem_append.mp hx with hx | hx
      · have := h.covered x hx
        omega
      · rw [List.mem_singleton.mp hx, if_pos hid.symm]
        omega
    discarded := by
      intro hd
      simp [hlive] at hd }

variable {blocks : BlockRef → Block}

theorem Custody.hit (h : L.Custody) (hdir : L.dir = t ::ₘ d) (hid : t'.id = t.id) (hhit : t'.action.isHit = true) :
    Custody { L with dir := d, work := t' ::ₘ L.work, blocks := blocks } := by
  have hfetch : t'.action.isFetch = false := by
    cases ha : t'.action <;> simp [ha, isHit, isFetch] at hhit ⊢
  have hfill : t'.action ≠ .bankWriteFetched := by
    intro ha
    simp [ha, isHit] at hhit
  have hheld : ({ L with dir := d, work := t' ::ₘ L.work, blocks := blocks } : Ledger cfg).held = L.held := by
    simp [held, filled, fills_of_ne hfill]
  have hholders : ∀ i, ({ L with dir := d, work := t' ::ₘ L.work, blocks := blocks } : Ledger cfg).holders i =
      L.holders i := by
    intro i
    have ht : t'.holds i = true ↔ t.id = i := by simp [holds, hhit, hid]
    simp only [holders, hheld, hdir, countP_cons, ht]
    omega
  refine h.keep hheld hholders rfl rfl le_rfl (fun x hx => hdir ▸ mem_cons_of_mem hx) rfl
    (fun _ he => he) (fun _ => ⟨rfl, rfl⟩) (fun x hx hf => ?_) (fun e => ?_) (fun x hx hf => ?_) fun x hx hhit' => ?_
  · rcases mem_cons.mp hx with rfl | hx
    · rw [hfetch] at hf
      cases hf
    · exact h.fetching x hx hf
  · have ht : t'.fetchesFor e = false := by simp [fetchesFor, hfetch]
    simpa only [countP_cons, ht, Bool.false_eq_true, if_false, Nat.add_zero] using h.fetchers e
  · rcases mem_cons.mp hx with rfl | hx
    · exact absurd hf hfill
    · exact h.filling x hx hf
  · rcases mem_cons.mp hx with rfl | hx
    · rw [hid]
      exact h.dir_live t (hdir ▸ mem_cons_self t d)
    · exact h.work_live x hx hhit'

variable {e : EntryRef}

theorem Custody.join (h : L.Custody) (hdir : L.dir = t ::ₘ d) (hid : t'.id = t.id) (he : e ∈ L.mshr.entries) :
    Custody { L with
      dir := d, mshr := L.mshr.modify e fun entry => { entry with requests := entry.requests ++ [t'] } } := by
  have hkeys := MSHR.keys_modify (m := L.mshr) (e := e)
    (f := fun entry => { entry with requests := entry.requests ++ [t'] }) fun _ => ⟨rfl, rfl⟩
  have hheld := mem_held_of_entries he
  have hholders : ∀ i, ({ L with
      dir := d, mshr := L.mshr.modify e fun entry => { entry with requests := entry.requests ++ [t'] } } :
      Ledger cfg).holders i = L.holders i := by
    intro i
    have hsum := sum_modify (asking i) (m := L.mshr) (h.held_le e) hheld
      fun entry => { entry with requests := entry.requests ++ [t'] }
    have hask : ∀ entry : MSHREntry Transaction, asking i { entry with requests := entry.requests ++ [t'] } =
        asking i entry + if t.id = i then 1 else 0 := by
      intro entry
      simp [asking, countP_append, hid, List.countP_cons]
    rw [hask] at hsum
    simp only [holders, hdir, countP_cons]
    change _ + _ + (L.held.map fun e' => asking i ((L.mshr.modify e _).heap e')).sum = _
    omega
  exact h.keep rfl hholders rfl rfl le_rfl (fun x hx => hdir ▸ mem_cons_of_mem hx) rfl (fun _ he => he) hkeys h.fetching
    h.fetchers h.filling h.work_live

theorem Custody.opening (h : L.Custody) {pid : PID} {line : Nat} {b : BlockRef} (hdir : L.dir = t ::ₘ d) (hid : t'.id = t.id)
    (haction : t'.action.isFetch = true) (hentry : t'.mshrEntry = some L.mshr.nextRef) (hpid : t'.fetchPID = pid)
    (hline : t'.fetchAddress = line) (hnone : L.mshr.query pid line = none) :
    Custody { L with
      dir := d, work := t' ::ₘ L.work, mshr := allocate L.mshr pid line b t', blocks := blocks } := by
  have hhit : t'.action.isHit = false := by
    cases ha : t'.action <;> simp [ha, isHit, isFetch] at haction ⊢
  have hfill : t'.action ≠ .bankWriteFetched := by
    intro ha
    simp [ha, isFetch] at haction
  have hnew : L.mshr.nextRef ∉ L.held := fun hm => Nat.lt_irrefl _ (h.held_lt _ hm)
  have hne : ∀ e ∈ L.held, e ≠ L.mshr.nextRef := fun e he heq => hnew (heq ▸ he)
  have hheap : ∀ e, e ≠ L.mshr.nextRef → (allocate L.mshr pid line b t').heap e = L.mshr.heap e :=
    fun e he => update_of_ne he _ _
  have hheap' : (allocate L.mshr pid line b t').heap L.mshr.nextRef =
      { pid, address := line, requests := [t'], block := some b } := update_self _ _ _
  have hheld : ({ L with
      dir := d, work := t' ::ₘ L.work, mshr := allocate L.mshr pid line b t', blocks := blocks } :
      Ledger cfg).held = L.mshr.nextRef ::ₘ L.held := by
    simp only [held, filled, cons_bind, fills_of_ne hfill, zero_add, allocate, ← coe_add, coe_singleton]
    rw [← singleton_add]
    simp only [add_assoc, add_left_comm]
  have hholders : ∀ i, ({ L with
      dir := d, work := t' ::ₘ L.work, mshr := allocate L.mshr pid line b t', blocks := blocks } :
      Ledger cfg).holders i = L.holders i := by
    intro i
    have ht : ¬ t'.holds i = true := by simp [holds, hhit]
    have hsum : (L.held.map fun e => asking i ((allocate L.mshr pid line b t').heap e)).sum =
        (L.held.map fun e => asking i (L.mshr.heap e)).sum := sum_update_of_notMem hnew _
    have hask : asking i ((allocate L.mshr pid line b t').heap L.mshr.nextRef) = if t.id = i then 1 else 0 := by
      rw [hheap']
      simp [asking, List.countP_cons, hid]
    simp only [holders, hheld, hdir, countP_cons, if_neg ht, map_cons, sum_cons]
    rw [hsum, hask]
    omega
  have hmem : ∀ e ∈ (allocate L.mshr pid line b t').entries, e ∈ L.mshr.entries ∨ e = L.mshr.nextRef := by
    intro e he
    simpa [allocate] using he
  have hkey : ∀ e ∈ L.mshr.entries, ¬ ((L.mshr.heap e).pid = pid ∧ (L.mshr.heap e).address = line) :=
    fun e he => MSHR.query_eq_none hnone he
  have hd : ∀ x ∈ d, x ∈ L.dir := fun x hx => hdir ▸ mem_cons_of_mem hx
  exact {
    held_le := by
      intro e
      rw [hheld, Multiset.count_cons]
      split
      · next heq =>
        subst heq
        rw [Multiset.count_eq_zero_of_notMem hnew]
      · exact h.held_le e
    held_lt := by
      intro e he
      rw [hheld] at he
      rcases mem_cons.mp he with rfl | he
      · exact Nat.lt_succ_self _
      · exact (h.held_lt e he).trans (Nat.lt_succ_self _)
    keys := by
      intro e1 h1 e2 h2 hp ha
      rcases hmem e1 h1 with h1 | rfl <;> rcases hmem e2 h2 with h2 | rfl
      · rw [hheap e1 (hne e1 (mem_held_of_entries h1)), hheap e2 (hne e2 (mem_held_of_entries h2))] at hp ha
        exact h.keys e1 h1 e2 h2 hp ha
      · rw [hheap e1 (hne e1 (mem_held_of_entries h1)), hheap'] at hp ha
        exact absurd ⟨hp, ha⟩ (hkey e1 h1)
      · rw [hheap e2 (hne e2 (mem_held_of_entries h2)), hheap'] at hp ha
        exact absurd ⟨hp.symm, ha.symm⟩ (hkey e2 h2)
      · rfl
    fetching := by
      intro x hx hf
      rcases mem_cons.mp hx with rfl | hx
      · refine ⟨L.mshr.nextRef, by simp [allocate], hentry, ?_, ?_⟩
        · rw [hheap']
          exact hpid
        · rw [hheap']
          exact hline
      · obtain ⟨e, he, hentry', hp, ha⟩ := h.fetching x hx hf
        have heq := hheap e (hne e (mem_held_of_entries he))
        exact ⟨e, mem_append_left _ he, hentry', heq ▸ hp, heq ▸ ha⟩
    fetchers := by
      intro e
      simp only [countP_cons]
      by_cases heq : e = L.mshr.nextRef
      · subst heq
        have hzero : L.work.countP (fun t => t.fetchesFor L.mshr.nextRef = true) = 0 := by
          refine Multiset.countP_eq_zero.mpr fun x hx hf => ?_
          simp only [fetchesFor, Bool.and_eq_true, beq_iff_eq] at hf
          obtain ⟨_, he', hentry', -, -⟩ := h.fetching x hx hf.1
          rw [hf.2, Option.some.injEq] at hentry'
          exact hnew (mem_held_of_entries (hentry' ▸ he'))
        split <;> omega
      · have ht : ¬ t'.fetchesFor e = true := by
          simp only [fetchesFor, hentry, Bool.and_eq_true, beq_iff_eq, Option.some.injEq, not_and]
          exact fun _ h' => heq h'.symm
        rw [if_neg ht]
        exact h.fetchers e
    filling := by
      intro x hx hf
      rcases mem_cons.mp hx with rfl | hx
      · exact absurd hf hfill
      · exact h.filling x hx hf
    holders_le := by simpa only [hholders] using h.holders_le
    holders_lt := by
      intro i hi
      rw [hholders]
      exact h.holders_lt i hi
    inFlight_nodup := h.inFlight_nodup
    inFlight_lt := h.inFlight_lt
    dir_live := fun x hx => h.dir_live x (hd x hx)
    work_live := by
      intro x hx hhit'
      rcases mem_cons.mp hx with rfl | hx
      · rw [hhit] at hhit'
        cases hhit'
      · exact h.work_live x hx hhit'
    covered := by
      intro x hx
      rw [hholders]
      exact h.covered x hx
    discarded := by
      intro hdisc
      have := h.discarded hdisc
      simp [hdir] at this }

theorem Custody.fill (h : L.Custody) {arr : ArrayRef}
    (hwork : L.work = t ::ₘ w) (haction : t.action.isFetch = true) (hentry : t.mshrEntry = some e)
    (he : e ∈ L.mshr.entries) (haction' : t'.action = .bankWriteFetched) (hentry' : t'.mshrEntry = some e) :
    Custody { L with work := t' ::ₘ w, mshr := fillMSHR L.mshr e arr, blocks := blocks } := by
  have hhit : t.action.isHit = false := by
    cases ha : t.action <;> simp [ha, isHit, isFetch] at haction ⊢
  have hfill : t.action ≠ .bankWriteFetched := by
    intro ha
    simp [ha, isFetch] at haction
  have hkeys : ∀ e', ((fillMSHR L.mshr e arr).heap e').pid = (L.mshr.heap e').pid ∧
      ((fillMSHR L.mshr e arr).heap e').address = (L.mshr.heap e').address :=
    MSHR.keys_modify (m := L.mshr) (e := e) (f := fun entry => { entry with data := some arr }) fun _ => ⟨rfl, rfl⟩
  have hheld : ({ L with work := t' ::ₘ w, mshr := fillMSHR L.mshr e arr, blocks := blocks } :
      Ledger cfg).held = L.held := by
    have hcons : (↑L.mshr.entries : Multiset EntryRef) = {e} + ↑(L.mshr.entries.erase e) := by
      rw [← Multiset.coe_erase, singleton_add, Multiset.cons_erase (Multiset.mem_coe.mpr he)]
    simp only [held, filled, hwork, cons_bind, fills_of_ne hfill, fills_of_fill haction' hentry', zero_add, fillMSHR, hcons]
    simp only [add_assoc, add_left_comm]
  have hholders : ∀ i, ({ L with work := t' ::ₘ w, mshr := fillMSHR L.mshr e arr, blocks := blocks } :
      Ledger cfg).holders i = L.holders i := by
    intro i
    have hsum : (L.held.map fun e' => asking i ((fillMSHR L.mshr e arr).heap e')).sum + asking i (L.mshr.heap e) =
        (L.held.map fun e' => asking i (L.mshr.heap e')).sum + asking i (L.mshr.heap e) :=
      sum_modify (asking i) (m := L.mshr) (h.held_le e) (mem_held_of_entries he)
        fun entry => { entry with data := some arr }
    have ht : ¬ t.holds i = true := by simp [holds, hhit]
    have ht' : ¬ t'.holds i = true := by simp [holds, haction', isHit]
    simp only [holders, hheld, hwork, countP_cons, if_neg ht, if_neg ht']
    omega
  have hsub := mem_of_cons hwork
  have hother : ∀ x ∈ w, x.fetchesFor e = false := by
    intro x hx
    by_contra hf
    have hle := h.fetchers e
    have ht : t.fetchesFor e = true := by simp [fetchesFor, haction, hentry]
    have hpos : 0 < w.countP fun t => t.fetchesFor e = true :=
      countP_pos.mpr ⟨x, hx, Bool.eq_true_of_not_eq_false hf⟩
    simp only [hwork, countP_cons, ht, if_true] at hle
    omega
  refine h.keep hheld hholders rfl rfl le_rfl (fun _ hx => hx) rfl (fun _ he => List.mem_of_mem_erase he) hkeys
    (fun x hx hf => ?_) (fun e' => ?_) (fun x hx hf => ?_) fun x hx hhit' => ?_
  · rcases mem_cons.mp hx with rfl | hx
    · simp [haction', isFetch] at hf
    · obtain ⟨e', he', hentry2, hp, ha⟩ := h.fetching x (hsub x hx) hf
      have hne : e' ≠ e := by
        intro heq
        have := hother x hx
        simp [fetchesFor, hf, hentry2, heq] at this
      exact ⟨e', (mem_erase_of_ne hne).mpr he', hentry2, hp, ha⟩
  · have ht' : ¬ t'.fetchesFor e' = true := by simp [fetchesFor, haction', isFetch]
    simp only [countP_cons, if_neg ht', Nat.add_zero]
    exact (countP_le_of_le _ (hwork ▸ le_cons_self w t)).trans (h.fetchers e')
  · rcases mem_cons.mp hx with rfl | hx
    · exact ⟨e, hentry'⟩
    · exact h.filling x (hsub x hx) hf
  · rcases mem_cons.mp hx with rfl | hx
    · simp [haction', isHit] at hhit'
    · exact h.work_live x (hsub x hx) hhit'

theorem Custody.settle (h : L.Custody) (hwork : L.work = t ::ₘ w) (haction : t.action = .bankWriteFetched)
    (hentry : t.mshrEntry = some e) : Custody { L with work := w, drain := L.drain ++ [e], blocks := blocks } := by
  have hheld : ({ L with work := w, drain := L.drain ++ [e], blocks := blocks } : Ledger cfg).held = L.held := by
    simp only [held, filled, hwork, cons_bind, fills_of_fill haction hentry, ← coe_add, coe_singleton]
    simp only [add_assoc, add_comm, add_left_comm]
  have hholders : ∀ i, ({ L with work := w, drain := L.drain ++ [e], blocks := blocks } : Ledger cfg).holders i =
      L.holders i := by
    intro i
    have ht : ¬ t.holds i = true := by simp [holds, haction, isHit]
    simp only [holders, hheld, hwork, countP_cons, if_neg ht, Nat.add_zero]
  have hsub := mem_of_cons hwork
  exact h.keep hheld hholders rfl rfl le_rfl (fun _ hx => hx) rfl (fun _ he => he) (fun _ => ⟨rfl, rfl⟩)
    (fun x hx => h.fetching x (hsub x hx))
    (fun e' => (countP_le_of_le _ (hwork ▸ le_cons_self w t)).trans (h.fetchers e')) (fun x hx => h.filling x (hsub x hx))
    fun x hx => h.work_live x (hsub x hx)

theorem not_fill_of_hit (hhit : t.action.isHit = true) : t.action ≠ .bankWriteFetched := by
  intro ha
  simp [ha, isHit] at hhit

variable {x : Transaction}

theorem mem_eraseP_id {l : List Transaction} (hl : (l.map (·.id)).Nodup) {i : Nat} :
    x ∈ l.eraseP (·.id == i) ↔ x ∈ l ∧ x.id ≠ i := by
  induction l with
  | nil => simp
  | cons y _ ih =>
    rw [List.map_cons, nodup_cons] at hl
    by_cases hy : y.id = i
    · rw [eraseP_cons_of_pos (by simpa using hy)]
      constructor
      · intro hx
        refine ⟨List.mem_cons_of_mem _ hx, fun hxi => hl.1 ?_⟩
        rw [hy, ← hxi]
        exact mem_map_of_mem hx
      · rintro ⟨hx, hne⟩
        rcases List.mem_cons.mp hx with rfl | hx
        · exact absurd hy hne
        · exact hx
    · rw [eraseP_cons_of_neg (by simpa using hy), List.mem_cons, ih hl.2, List.mem_cons]
      constructor
      · rintro (rfl | hx)
        · exact ⟨.inl rfl, hy⟩
        · exact ⟨.inr hx.1, hx.2⟩
      · rintro ⟨rfl | hx, hne⟩
        · exact .inl rfl
        · exact .inr ⟨hx, hne⟩

theorem holders_pos_of_dir (hx : x ∈ L.dir) : 0 < L.holders x.id := by
  have : 0 < L.dir.countP fun t => t.id = x.id := countP_pos.mpr ⟨x, hx, rfl⟩
  simp only [holders]
  omega

theorem holders_pos_of_work (hx : x ∈ L.work) (hhit : x.action.isHit = true) :
    0 < L.holders x.id := by
  have : 0 < L.work.countP fun t => t.holds x.id = true :=
    countP_pos.mpr ⟨x, hx, by simp [holds, hhit]⟩
  simp only [holders]
  omega

theorem Custody.release (h : L.Custody) {L' : Ledger cfg} {i : Nat} (hdir : L'.dir = L.dir) (hwork : L'.work ≤ L.work)
    (hheld : L'.held ≤ L.held) (hentries : L'.mshr.entries = L.mshr.entries)
    (hkeys : ∀ e, (L'.mshr.heap e).pid = (L.mshr.heap e).pid ∧ (L'.mshr.heap e).address = (L.mshr.heap e).address)
    (hnext : L'.mshr.nextRef = L.mshr.nextRef) (hid : L'.nextID = L.nextID)
    (hin : L'.inFlight = L.inFlight.eraseP (·.id == i))
    (hholders : ∀ j, (L'.holders j + if i = j then 1 else 0) = L.holders j)
    (hdisc : L'.discarding = L.discarding) : L'.Custody := by
  have hsub : ∀ x ∈ L'.work, x ∈ L.work := fun x hx => mem_of_le hwork hx
  -- who still holds a request does not hold the one that is answered
  have hne : ∀ j, 0 < L'.holders j → j ≠ i := by
    rintro j hj rfl
    have h1 := hholders j
    have h2 := h.holders_le j
    rw [if_pos rfl] at h1
    omega
  have hlive : ∀ j, 0 < L'.holders j → (∃ t' ∈ L.inFlight, t'.id = j) → ∃ t' ∈ L'.inFlight, t'.id = j := by
    rintro j hj ⟨t', ht', rfl⟩
    exact ⟨t', hin ▸ (mem_eraseP_id h.inFlight_nodup).mpr ⟨ht', hne _ hj⟩, rfl⟩
  exact {
    held_le := fun e => (count_le_of_le e hheld).trans (h.held_le e)
    held_lt := fun e he => hnext ▸ h.held_lt e (mem_of_le hheld he)
    keys := by
      intro e1 h1 e2 h2 hp ha
      rw [(hkeys e1).1, (hkeys e2).1] at hp
      rw [(hkeys e1).2, (hkeys e2).2] at ha
      exact h.keys e1 (hentries ▸ h1) e2 (hentries ▸ h2) hp ha
    fetching := by
      intro x hx hf
      obtain ⟨e, he, hentry, hp, ha⟩ := h.fetching x (hsub x hx) hf
      exact ⟨e, hentries ▸ he, hentry, hp.trans (hkeys e).1.symm, ha.trans (hkeys e).2.symm⟩
    fetchers := fun e => (countP_le_of_le _ hwork).trans (h.fetchers e)
    filling := fun x hx => h.filling x (hsub x hx)
    holders_le := by
      intro j
      have := hholders j
      have := h.holders_le j
      omega
    holders_lt := by
      intro j hj
      have := hholders j
      have := h.holders_lt j (hid ▸ hj)
      omega
    inFlight_nodup := by
      rw [hin]
      exact h.inFlight_nodup.sublist (eraseP_sublist.map _)
    inFlight_lt := by
      intro x hx
      rw [hin] at hx
      rw [hid]
      exact h.inFlight_lt x (mem_of_mem_eraseP hx)
    dir_live := fun x hx => hlive _ (holders_pos_of_dir hx) (h.dir_live x (hdir ▸ hx))
    work_live := fun x hx hhit => hlive _ (holders_pos_of_work hx hhit) (h.work_live x (hsub x hx) hhit)
    covered := by
      intro x hx
      rw [hin, mem_eraseP_id h.inFlight_nodup] at hx
      have h1 := hholders x.id
      have h2 := h.covered x hx.1
      rw [if_neg fun hi => hx.2 hi.symm] at h1
      omega
    discarded := fun hd => hdir ▸ h.discarded (hdisc ▸ hd) }

theorem holders_finishHit (hwork : L.work = t ::ₘ w) (hhit : t.action.isHit = true) (j : Nat) :
    (holders { L with work := w, inFlight := L.inFlight.eraseP (·.id == t.id), blocks := blocks } j +
      if t.id = j then 1 else 0) = L.holders j := by
  have hheld : ({ L with work := w, inFlight := L.inFlight.eraseP (·.id == t.id), blocks := blocks } :
      Ledger cfg).held = L.held := by
    simp [held, filled, hwork, fills_of_ne (not_fill_of_hit hhit)]
  have ht : t.holds j = true ↔ t.id = j := by simp [holds, hhit]
  simp only [holders, hheld, hwork, countP_cons, ht]
  omega

theorem Custody.finishHit (h : L.Custody) (hwork : L.work = t ::ₘ w) (hhit : t.action.isHit = true) :
    Custody { L with work := w, inFlight := L.inFlight.eraseP (·.id == t.id), blocks := blocks } := by
  have hheld : ({ L with work := w, inFlight := L.inFlight.eraseP (·.id == t.id), blocks := blocks } :
      Ledger cfg).held = L.held := by
    simp [held, filled, hwork, fills_of_ne (not_fill_of_hit hhit)]
  exact h.release (i := t.id) rfl (hwork ▸ le_cons_self w t) hheld.le rfl (fun _ => ⟨rfl, rfl⟩) rfl rfl rfl
    (holders_finishHit hwork hhit) rfl

variable {rest : List EntryRef}

/-- The entry that is being answered stays in use until its last request. -/
theorem held_answer (t : Transaction) (ts : List Transaction) (hdrain : L.drain = e :: rest) :
    (if ts.isEmpty then {e} else 0) + held { L with
      inFlight := L.inFlight.eraseP (·.id == t.id), mshr := L.mshr.modify e fun entry => { entry with requests := ts },
      drain := if ts.isEmpty then rest else e :: rest } = L.held := by
  cases ts with
  | nil =>
    simp only [isEmpty_nil, if_true, held, filled, hdrain, MSHR.entries_modify, ← Multiset.cons_coe,
      Multiset.add_cons, singleton_add]
  | cons =>
    simp only [isEmpty_cons, Bool.false_eq_true, if_false, held, filled, hdrain, MSHR.entries_modify, zero_add]

theorem Custody.holders_answer (h : L.Custody) {ts : List Transaction}
    (hdrain : L.drain = e :: rest) (hreqs : (L.mshr.heap e).requests = t :: ts) (j : Nat) :
    (holders { L with
      inFlight := L.inFlight.eraseP (·.id == t.id), mshr := L.mshr.modify e fun entry => { entry with requests := ts },
      drain := if ts.isEmpty then rest else e :: rest } j + if t.id = j then 1 else 0) = L.holders j := by
  have hmem : e ∈ L.held := mem_held_of_drain (hdrain ▸ List.mem_cons_self)
  have hask : asking j (L.mshr.heap e) = (ts.countP (·.id == j)) + if t.id = j then 1 else 0 := by
    simp [asking, hreqs, List.countP_cons]
  have hsum := sum_modify (asking j) (m := L.mshr) (h.held_le e) hmem fun entry => { entry with requests := ts }
  rw [← held_answer t ts hdrain, map_add, sum_add, map_add, sum_add, hask]
    at hsum
  unfold holders
  rw [← held_answer t ts hdrain, map_add, sum_add]
  cases ts with
  | nil =>
    simp only [isEmpty_nil, if_true, asking, countP_nil, Multiset.map_singleton, Multiset.sum_singleton, hreqs,
      MSHR.heap_modify, update_self] at hsum ⊢
    simp only [List.countP_cons, countP_nil, beq_iff_eq] at hsum ⊢
    omega
  | cons =>
    simp only [isEmpty_cons, Bool.false_eq_true, if_false, asking, Multiset.map_zero, Multiset.sum_zero] at hsum ⊢
    omega

theorem Custody.answer (h : L.Custody) {ts : List Transaction}
    (hdrain : L.drain = e :: rest) (hreqs : (L.mshr.heap e).requests = t :: ts) :
    Custody { L with
      inFlight := L.inFlight.eraseP (·.id == t.id), mshr := L.mshr.modify e fun entry => { entry with requests := ts },
      drain := if ts.isEmpty then rest else e :: rest } := by
  have hkeys := MSHR.keys_modify (m := L.mshr) (e := e) (f := fun entry => { entry with requests := ts })
    fun _ => ⟨rfl, rfl⟩
  refine h.release (i := t.id) rfl le_rfl ?_ rfl hkeys rfl rfl rfl (h.holders_answer hdrain hreqs) rfl
  rw [← held_answer t ts hdrain]
  exact le_add_left _ _

theorem sum_le_of_le {s s' : Multiset EntryRef} (h : s ≤ s') (f : EntryRef → Nat) :
    (s.map f).sum ≤ (s'.map f).sum := by
  obtain ⟨_, rfl⟩ := Multiset.le_iff_exists_add.mp h
  rw [map_add, sum_add]
  exact Nat.le_add_right _ _

/-- The transactions in flight are dropped. -/
theorem Custody.discard (h : L.Custody) (hwork : w ≤ L.work) (hhit : ∀ t ∈ w, t.action.isHit = false) :
    Custody { L with dir := 0, work := w, drain := [], inFlight := [], discarding := true, blocks := blocks } := by
  have hsub : ∀ x ∈ w, x ∈ L.work := fun x hx => mem_of_le hwork hx
  have hheld : ({ L with
      dir := 0, work := w, drain := [], inFlight := [], discarding := true, blocks := blocks } : Ledger cfg).held ≤
      L.held := by
    obtain ⟨_, hr⟩ := Multiset.le_iff_exists_add.mp hwork
    simp only [held, filled, hr, Multiset.add_bind, coe_nil, add_zero, add_assoc]
    exact add_le_add_right (Multiset.le_add_right _ _) _
  have hholders : ∀ i, ({ L with
      dir := 0, work := w, drain := [], inFlight := [], discarding := true, blocks := blocks } :
      Ledger cfg).holders i ≤ L.holders i := by
    intro i
    have h1 := sum_le_of_le hheld fun e => asking i (L.mshr.heap e)
    have h2 := countP_le_of_le (fun t => t.holds i = true) hwork
    simp only [holders, Multiset.countP_zero]
    omega
  exact {
    held_le := fun e => (count_le_of_le e hheld).trans (h.held_le e)
    held_lt := fun e he => h.held_lt e (mem_of_le hheld he)
    keys := h.keys
    fetching := fun x hx => h.fetching x (hsub x hx)
    fetchers := fun e => (countP_le_of_le _ hwork).trans (h.fetchers e)
    filling := fun x hx => h.filling x (hsub x hx)
    holders_le := fun i => (hholders i).trans (h.holders_le i)
    holders_lt := fun i hi => Nat.le_zero.mp ((hholders i).trans (h.holders_lt i hi).le)
    inFlight_nodup := nodup_nil
    inFlight_lt := by simp
    dir_live := by simp
    work_live := by
      intro x hx hx'
      rw [hhit x hx] at hx'
      cases hx'
    covered := by simp
    discarded := fun _ => rfl }

theorem Custody.finish (h : L.Custody) {gen : Nat} (hin : L.inFlight = []) (hfetch : ∀ t ∈ L.work, t.action.isFetch = false) :
    Custody { L with mshr := L.mshr.reset, gen := gen, discarding := false, blocks := blocks } := by
  have hheld : ({ L with mshr := L.mshr.reset, gen := gen, discarding := false, blocks := blocks } :
      Ledger cfg).held ≤ L.held := by
    simp only [held, filled, MSHR.reset, coe_nil, zero_add, add_assoc]
    exact le_add_left _ _
  have hholders : ∀ i, ({ L with mshr := L.mshr.reset, gen := gen, discarding := false, blocks := blocks } :
      Ledger cfg).holders i ≤ L.holders i := by
    intro i
    have h1 := sum_le_of_le hheld fun e => asking i (L.mshr.heap e)
    simp only [holders, MSHR.reset] at h1 ⊢
    omega
  exact {
    held_le := fun e => (count_le_of_le e hheld).trans (h.held_le e)
    held_lt := fun e he => h.held_lt e (mem_of_le hheld he)
    keys := by simp [MSHR.reset]
    fetching := by
      intro x hx hf
      rw [hfetch x hx] at hf
      cases hf
    fetchers := h.fetchers
    filling := h.filling
    holders_le := fun i => (hholders i).trans (h.holders_le i)
    holders_lt := fun i hi => Nat.le_zero.mp ((hholders i).trans (h.holders_lt i hi).le)
    inFlight_nodup := h.inFlight_nodup
    inFlight_lt := h.inFlight_lt
    dir_live := h.dir_live
    work_live := h.work_live
    covered := by simp [hin]
    discarded := nofun }

theorem Custody.pass (h : L.Custody) {k : Nat} (hk : L.nextID ≤ k) : Custody { L with nextID := k } :=
  h.keep rfl (fun _ => rfl) rfl rfl hk (fun _ hx => hx) rfl (fun _ he => he) (fun _ => ⟨rfl, rfl⟩) h.fetching
    h.fetchers h.filling h.work_live

end

theorem Action.isHit_of_isWrite {x : Action} (h : x.isWrite = true) : x.isHit = true := by
  cases x <;> simp [isHit, Action.isWrite] at h ⊢

theorem Custody.step {L L' : Ledger cfg} (h : L.Custody) (hs : L.Step L') : L'.Custody := by
  cases hs with
  | pass _ hk => exact h.pass hk
  | accept _ hid hlive => exact h.accept hid hlive
  | relabel _ _ _ hwork halike _ hk => exact h.relabel hwork halike hk
  | drop _ _ hwork hidle => exact h.drop hwork hidle
  | add _ hidle => exact h.add hidle
  | join _ _ _ _ _ hdir hid _ he => exact h.join hdir hid (MSHR.query_eq_some he).1
  | read _ _ _ _ _ hdir hid haction => exact h.hit hdir hid (by simp [haction, isHit])
  | write _ _ _ _ _ _ hdir hid haction => exact h.hit hdir hid (Action.isHit_of_isWrite haction)
  | opening _ _ _ _ _ _ _ hdir hid haction hentry hpid hline _ _ hnone =>
    exact h.opening hdir hid haction hentry hpid hline hnone
  | fill _ _ _ _ _ _ _ _ hwork haction hentry he _ _ haction' hentry' =>
    exact h.fill hwork haction hentry he haction' hentry'
  | settle _ _ _ _ hwork haction hentry => exact h.settle hwork haction hentry
  | finishRead _ _ _ hwork haction => exact h.finishHit hwork (by simp [haction, isHit])
  | finishWrite _ _ _ _ hwork haction => exact h.finishHit hwork (by simp [haction, isHit])
  | answer _ _ _ _ hdrain hreqs => exact h.answer hdrain hreqs
  | discard _ hwork hhit => exact h.discard hwork hhit
  | finish hin hfetch => exact h.finish hin hfetch

end Ledger

end Akita.WriteBack
