import Akita.WriteBack.Runs

/-!
# Requests keep their content

A transaction is copied from stage to stage, and `inFlightTransactions` keeps the copy made on acceptance. `Agree` : every
copy with the ID of a request in flight carries that request.
-/

namespace Akita.WriteBack
open Sim Pipelining Mem Mem.Cache List Function
open Multiset (countP_pos mem_cons mem_cons_of_mem mem_cons_self)

variable {cfg : Config}

namespace Ledger

/-- The transaction is one of those that `holders` counts. -/
def Bears (L : Ledger cfg) (x : Transaction) : Prop :=
  x ∈ L.dir ∨ (x ∈ L.work ∧ x.action.isHit = true) ∨ ∃ e ∈ L.held, x ∈ (L.mshr.heap e).requests

def Agree (L : Ledger cfg) : Prop :=
  ∀ t ∈ L.inFlight, ∀ x, L.Bears x → x.id = t.id → x.accessReq = t.accessReq

section
variable {L L' : Ledger cfg} {t t' x : Transaction} {w d : Multiset Transaction} {e : EntryRef}

theorem holders_pos_of_bears (h : L.Bears x) : 0 < L.holders x.id := by
  rcases h with h | ⟨h, hhit⟩ | ⟨_, he, hx⟩
  · exact holders_pos_of_dir h
  · exact holders_pos_of_work h hhit
  · obtain ⟨_, hs⟩ := Multiset.exists_cons_of_mem he
    have hpos := asking_pos hx
    unfold holders
    rw [hs, Multiset.map_cons, Multiset.sum_cons]
    omega

theorem exists_bears_of_holders_pos {i : Nat} (h : 0 < L.holders i) : ∃ x, L.Bears x ∧ x.id = i := by
  unfold holders at h
  by_cases hdir : 0 < L.dir.countP fun t => t.id = i
  · obtain ⟨x, hx, hid⟩ := countP_pos.mp hdir
    exact ⟨x, .inl hx, hid⟩
  by_cases hwork : 0 < L.work.countP fun t => t.holds i = true
  · obtain ⟨x, hx, hholds⟩ := countP_pos.mp hwork
    simp only [Transaction.holds, Bool.and_eq_true, beq_iff_eq] at hholds
    exact ⟨x, .inr (.inl ⟨hx, hholds.1⟩), hholds.2⟩
  have hsum : ¬ (L.held.map fun e => asking i (L.mshr.heap e)).sum = 0 := by omega
  rw [Multiset.sum_eq_zero_iff] at hsum
  push Not at hsum
  obtain ⟨_, hn, hpos⟩ := hsum
  obtain ⟨e, he, rfl⟩ := Multiset.mem_map.mp hn
  obtain ⟨x, hx, hid⟩ := countP_pos_iff.mp (Nat.pos_of_ne_zero hpos)
  exact ⟨x, .inr (.inr ⟨e, he, hx⟩), beq_iff_eq.mp hid⟩

/-- A copy of a transaction that bears a request. -/
def Copied (L : Ledger cfg) (x : Transaction) : Prop := ∃ y, L.Bears y ∧ y.id = x.id ∧ y.accessReq = x.accessReq

theorem copied (h : L.Bears x) : L.Copied x := ⟨x, h, rfl, rfl⟩

theorem copied_mono (hx : L'.Bears x) (hdir : ∀ x ∈ L'.dir, x ∈ L.dir)
    (hwork : ∀ x ∈ L'.work, x.action.isHit = true → L.Copied x) (hheap : L'.mshr.heap = L.mshr.heap)
    (hentries : ∀ e ∈ L'.mshr.entries, e ∈ L.mshr.entries)
    (hfilled : ∀ e, e ∈ L'.filled ∨ e ∈ L'.drain → e ∈ L.filled ∨ e ∈ L.drain) : L.Copied x := by
  rcases hx with hx | ⟨hx, hhit⟩ | ⟨e, he, hx⟩
  · exact copied (.inl (hdir x hx))
  · exact hwork x hx hhit
  · rw [hheap] at hx
    refine copied (.inr (.inr ⟨e, mem_held.mpr ?_, hx⟩))
    exact (mem_held.mp he).imp (hentries e) (hfilled e)

section
variable (hdir : L.dir = t ::ₘ d) (hid : t'.id = t.id) (hsame : t'.accessReq = t.accessReq)
include hdir hid hsame

theorem copied_dir : L.Copied t' :=
  ⟨t, .inl (hdir ▸ mem_cons_self t d), hid.symm, hsame.symm⟩

theorem copied_join
    (hx : Bears { L with
      dir := d, mshr := L.mshr.modify e fun entry => { entry with requests := entry.requests ++ [t'] } } x) :
    L.Copied x := by
  rcases hx with hx | hx | ⟨e', he', hx⟩
  · exact copied (.inl (hdir ▸ mem_cons_of_mem hx))
  · exact copied (.inr (.inl hx))
  · have he' : e' ∈ L.held := he'
    by_cases heq : e' = e
    · subst heq
      simp only [MSHR.heap_modify, update_self] at hx
      rcases mem_append.mp hx with hx | hx
      · exact copied (.inr (.inr ⟨e', he', hx⟩))
      · rw [mem_singleton.mp hx]
        exact copied_dir hdir hid hsame
    · simp only [MSHR.heap_modify, update_of_ne heq] at hx
      exact copied (.inr (.inr ⟨e', he', hx⟩))

theorem copied_opening {pid : PID} {line : Nat} {b : BlockRef}
    {blocks : BlockRef → Block}
    (haction : t'.action.isFetch = true)
    (hx : Bears { L with
      dir := d, work := t' ::ₘ L.work, mshr := Flow.allocate L.mshr pid line b t', blocks := blocks } x) :
    L.Copied x := by
  have hfill : t'.action ≠ .bankWriteFetched := by
    intro ha
    rw [ha] at haction
    cases haction
  rcases hx with hx | ⟨hx, hhit⟩ | ⟨e, he, hx⟩
  · exact copied (.inl (hdir ▸ mem_cons_of_mem hx))
  · rcases mem_cons.mp hx with rfl | hx
    · exact copied_dir hdir hid hsame
    · exact copied (.inr (.inl ⟨hx, hhit⟩))
  · by_cases heq : e = L.mshr.nextRef
    · subst heq
      simp only [Flow.allocate, update_self] at hx
      rw [mem_singleton.mp hx]
      exact copied_dir hdir hid hsame
    · simp only [Flow.allocate, update_of_ne heq] at hx
      refine copied (.inr (.inr ⟨e, mem_held.mpr ?_, hx⟩))
      rcases mem_held.mp he with he | he | he
      · exact .inl ((mem_append.mp he).resolve_right fun hm => heq (mem_singleton.mp hm))
      · obtain ⟨y, hy, ha, hentry⟩ := mem_filled.mp he
        have hy' := (mem_cons.mp hy).resolve_left fun heq => hfill (heq ▸ ha)
        exact .inr (.inl (mem_filled.mpr ⟨y, hy', ha, hentry⟩))
      · exact .inr (.inr he)

end

theorem copied_fill {arr : ArrayRef} {blocks : BlockRef → Block} (hwork : L.work = t ::ₘ w)
    (he : e ∈ L.mshr.entries) (haction' : t'.action = .bankWriteFetched) (hentry' : t'.mshrEntry = some e)
    (hx : Bears { L with work := t' ::ₘ w, mshr := Flow.fillMSHR L.mshr e arr, blocks := blocks } x) :
    L.Copied x := by
  have hsub := mem_of_cons hwork
  rcases hx with hx | ⟨hx, hhit⟩ | ⟨e', he', hx⟩
  · exact copied (.inl hx)
  · rcases mem_cons.mp hx with rfl | hx
    · rw [haction'] at hhit
      cases hhit
    · exact copied (.inr (.inl ⟨hsub x hx, hhit⟩))
  · have hheld : e' ∈ L.held := by
      rcases mem_held.mp he' with he' | he' | he'
      · exact mem_held.mpr (.inl (mem_of_mem_erase he'))
      · obtain ⟨y, hy, ha, hentry⟩ := mem_filled.mp he'
        rcases mem_cons.mp hy with rfl | hy
        · rw [hentry', Option.some.injEq] at hentry
          exact mem_held.mpr (.inl (hentry ▸ he))
        · exact mem_held.mpr (.inr (.inl (mem_filled.mpr ⟨y, hsub y hy, ha, hentry⟩)))
      · exact mem_held.mpr (.inr (.inr he'))
    refine copied (.inr (.inr ⟨e', hheld, ?_⟩))
    by_cases heq : e' = e
    · subst heq
      simpa only [Flow.fillMSHR, update_self] using hx
    · simpa only [Flow.fillMSHR, update_of_ne heq] using hx

theorem copied_answer {rest : List EntryRef} {ts : List Transaction} (hdrain : L.drain = e :: rest)
    (hreqs : (L.mshr.heap e).requests = t :: ts)
    (hx : Bears { L with
      inFlight := L.inFlight.eraseP (·.id == t.id), mshr := L.mshr.modify e fun entry => { entry with requests := ts },
      drain := if ts.isEmpty then rest else e :: rest } x) : L.Copied x := by
  rcases hx with hx | hx | ⟨e', he', hx⟩
  · exact copied (.inl hx)
  · exact copied (.inr (.inl hx))
  · have hheld : e' ∈ L.held := by
      rcases mem_held.mp he' with he' | he' | he'
      · exact mem_held.mpr (.inl he')
      · exact mem_held.mpr (.inr (.inl he'))
      · refine mem_held.mpr (.inr (.inr ?_))
        rw [hdrain]
        dsimp only at he'
        split at he'
        · exact mem_cons_of_mem _ he'
        · exact he'
    refine copied (.inr (.inr ⟨e', hheld, ?_⟩))
    by_cases heq : e' = e
    · subst heq
      simp only [MSHR.heap_modify, update_self] at hx
      rw [hreqs]
      exact mem_cons_of_mem _ hx
    · simpa only [MSHR.heap_modify, update_of_ne heq] using hx

end

theorem Step.bears {L L' : Ledger cfg} (hs : L.Step L') {x : Transaction} (hx : L'.Bears x) :
    L.Copied x ∨ x ∈ L'.inFlight ∧ x.id = L.nextID := by
  have hstay : ∀ {w : Multiset Transaction}, (∀ x ∈ w, x ∈ L.work) → ∀ x ∈ w, x.action.isHit = true → L.Copied x :=
    fun hw x hx hhit => copied (.inr (.inl ⟨hw x hx, hhit⟩))
  have hold : ∀ {w : Multiset Transaction}, (∀ x ∈ w, x ∈ L.work) → ∀ x ∈ w, x.action = .bankWriteFetched → x ∈ L.work :=
    fun hw x hx _ => hw x hx
  cases hs with
  | pass => exact .inl (copied hx)
  | accept _ hid =>
    rcases hx with hx | hx | hx
    · rcases mem_cons.mp hx with rfl | hx
      · exact .inr ⟨mem_append_right _ mem_cons_self, hid⟩
      · exact .inl (copied (.inl hx))
    · exact .inl (copied (.inr (.inl hx)))
    · exact .inl (copied (.inr (.inr hx)))
  | relabel t _ w hwork halike =>
    refine .inl (copied_mono hx (fun _ hx => hx) (fun x hx hhit => ?_) rfl (fun _ he => he)
      (filled_mono rfl fun x hx ha => ?_))
    · rcases mem_cons.mp hx with rfl | hx
      · have ht : t ∈ L.work := hwork ▸ mem_cons_self t w
        refine ⟨t, .inr (.inl ⟨ht, halike.isHit ▸ hhit⟩), halike.id.symm, ?_⟩
        simp [Transaction.accessReq, halike.read, halike.write]
      · exact copied (.inr (.inl ⟨hwork ▸ mem_cons_of_mem hx, hhit⟩))
    · rcases mem_cons.mp hx with rfl | hx
      · exact ⟨t, hwork ▸ mem_cons_self t w, halike.isFill.mp ha, halike.mshrEntry.symm⟩
      · exact ⟨x, hwork ▸ mem_cons_of_mem hx, ha, rfl⟩
  | drop _ w hwork =>
    have hsub := mem_of_cons hwork
    exact .inl (copied_mono hx (fun _ hx => hx) (hstay hsub) rfl (fun _ he => he) (filled_mono_of_mem rfl (hold hsub)))
  | add _ hidle =>
    refine .inl (copied_mono hx (fun _ hx => hx) (fun x hx hhit => ?_) rfl (fun _ he => he)
      (filled_mono_of_mem rfl fun x hx ha => ?_))
    · rcases mem_cons.mp hx with rfl | hx
      · rw [hidle.isHit] at hhit
        cases hhit
      · exact copied (.inr (.inl ⟨hx, hhit⟩))
    · exact (mem_cons.mp hx).resolve_left fun heq => hidle.isFill (heq ▸ ha)
  | join _ _ _ _ _ hdir hid hreq _ hasks =>
    exact .inl (copied_join hdir hid ((Transaction.accessReq_of_asks hasks).trans hreq.symm) hx)
  | read _ _ _ _ _ hdir hid haction _ _ _ _ _ hsame =>
    refine .inl (copied_mono hx (fun x hx => hdir ▸ mem_cons_of_mem hx) (fun x hx hhit => ?_) rfl (fun _ he => he)
      (filled_mono_of_mem rfl fun x hx ha => ?_))
    · rcases mem_cons.mp hx with rfl | hx
      · exact copied_dir hdir hid hsame
      · exact copied (.inr (.inl ⟨hx, hhit⟩))
    · refine (mem_cons.mp hx).resolve_left fun heq => ?_
      rw [heq, haction] at ha
      cases ha
  | write _ _ _ _ _ _ hdir hid haction _ _ _ _ _ _ _ _ hsame =>
    refine .inl (copied_mono hx (fun x hx => hdir ▸ mem_cons_of_mem hx) (fun x hx hhit => ?_) rfl (fun _ he => he)
      (filled_mono_of_mem rfl fun x hx ha => ?_))
    · rcases mem_cons.mp hx with rfl | hx
      · exact copied_dir hdir hid hsame
      · exact copied (.inr (.inl ⟨hx, hhit⟩))
    · refine (mem_cons.mp hx).resolve_left fun heq => ?_
      rw [← heq, ha] at haction
      cases haction
  | opening _ _ _ _ _ _ _ hdir hid haction _ _ _ _ _ _ _ _ _ hsame =>
    exact .inl (copied_opening hdir hid hsame haction hx)
  | fill _ _ _ _ _ _ _ _ hwork _ _ he _ _ haction' hentry' =>
    exact .inl (copied_fill hwork he haction' hentry' hx)
  | settle _ _ _ _ hwork haction hentry =>
    exact .inl (copied_mono hx (fun _ hx => hx) (hstay (mem_of_cons hwork)) rfl (fun _ he => he)
      (filled_settle hwork rfl haction hentry))
  | finishRead _ w _ hwork =>
    have hsub := mem_of_cons hwork
    exact .inl (copied_mono hx (fun _ hx => hx) (hstay hsub) rfl (fun _ he => he) (filled_mono_of_mem rfl (hold hsub)))
  | finishWrite _ w _ _ hwork =>
    have hsub := mem_of_cons hwork
    exact .inl (copied_mono hx (fun _ hx => hx) (hstay hsub) rfl (fun _ he => he) (filled_mono_of_mem rfl (hold hsub)))
  | answer _ _ _ _ hdrain hreqs => exact .inl (copied_answer hdrain hreqs hx)
  | discard w hwork =>
    have hsub : ∀ x ∈ w, x ∈ L.work := fun x hx => Multiset.mem_of_le hwork hx
    refine .inl (copied_mono hx (fun x hx => absurd hx (Multiset.notMem_zero x)) (hstay hsub) rfl (fun _ he => he) ?_)
    rintro e (he | he)
    · obtain ⟨x, hx, ha, hentry⟩ := mem_filled.mp he
      exact .inl (mem_filled.mpr ⟨x, hsub x hx, ha, hentry⟩)
    · cases he
  | finish =>
    exact .inl (copied_mono hx (fun _ hx => hx) (hstay fun _ hx => hx) rfl
      (fun _ he => absurd he not_mem_nil) (fun _ he => he))

/-- Who is in flight after a step was so before it, or has just been accepted. -/
theorem Step.inFlight {L L' : Ledger cfg} (hs : L.Step L') {t : Transaction} (ht : t ∈ L'.inFlight) :
    t ∈ L.inFlight ∨ t.id = L.nextID := by
  cases hs with
  | accept _ hid =>
    refine (mem_append.mp ht).imp id fun ht => ?_
    rw [mem_singleton.mp ht, hid]
  | finishRead | finishWrite | answer => exact .inl (mem_of_mem_eraseP ht)
  | discard => cases ht
  | finish => exact .inl ht
  | _ => exact .inl ht

theorem Agree.step {L L' : Ledger cfg} (h : L.Agree) (hc : L.Custody) (hs : L.Step L') : L'.Agree := by
  have hc' := hc.step hs
  intro t ht x hx hid
  rcases hs.bears hx with ⟨y, hy, hidy, hreqy⟩ | ⟨hx, hnew⟩
  · rcases hs.inFlight ht with ht | _
    · exact hreqy.symm.trans (h t ht y hy (hidy.trans hid))
    · -- nobody else can have the new ID
      have hpos := holders_pos_of_bears hy
      rw [hc.holders_lt y.id (by omega)] at hpos
      cases hpos
  · rw [inj_on_of_nodup_map hc'.inFlight_nodup hx ht hid]

/-- Every request that somebody bears is in flight. -/
def Present (L : Ledger cfg) : Prop := ∀ x, L.Bears x → ∃ t ∈ L.inFlight, t.id = x.id

/-- Who leaves the list of those in flight is held by nobody. -/
theorem Step.kept {L L' : Ledger cfg} (hc : L.Custody) (hs : L.Step L') (hd : L'.discarding = false) {t : Transaction}
    (ht : t ∈ L.inFlight) : t ∈ L'.inFlight ∨ L'.holders t.id = 0 := by
  have herase : ∀ {i : Nat}, (∀ j, (L'.holders j + if i = j then 1 else 0) = L.holders j) →
      L'.inFlight = L.inFlight.eraseP (·.id == i) → t ∈ L'.inFlight ∨ L'.holders t.id = 0 := by
    intro i hholders hin
    rw [hin, mem_eraseP_id hc.inFlight_nodup]
    by_cases hi : t.id = i
    · have h1 := hholders t.id
      have h2 := hc.holders_le t.id
      rw [if_pos hi.symm] at h1
      exact .inr (by omega)
    · exact .inl ⟨ht, hi⟩
  cases hs with
  | accept => exact .inl (mem_append_left _ ht)
  | finishRead _ _ _ hwork haction => exact herase (holders_finishHit hwork (by rw [haction]; rfl)) rfl
  | finishWrite _ _ _ _ hwork haction => exact herase (holders_finishHit hwork (by rw [haction]; rfl)) rfl
  | answer _ _ _ _ hdrain hreqs => exact herase (hc.holders_answer hdrain hreqs) rfl
  | discard => cases hd
  | finish => exact .inl ht
  | _ => exact .inl ht

theorem Present.step {L L' : Ledger cfg} (h : L.Present) (hc : L.Custody) (hs : L.Step L')
    (hd : L'.discarding = false) : L'.Present := by
  intro x hx
  rcases hs.bears hx with ⟨y, hy, hid, -⟩ | ⟨hx, -⟩
  · obtain ⟨t, ht, htid⟩ := h y hy
    rcases hs.kept hc hd ht with ht' | hzero
    · exact ⟨t, ht', htid.trans hid⟩
    · have hpos := holders_pos_of_bears hx
      rw [← hid, ← htid, hzero] at hpos
      cases hpos
  · exact ⟨x, hx, rfl⟩

/-- Nothing has been discarded: the requests that somebody bears are those in flight. -/
structure Faithful (L : Ledger cfg) : Prop where
  agree : L.Agree
  present : L.Present
  kept : L.discarding = false

theorem Faithful.step {L L' : Ledger cfg} (h : L.Faithful) (hc : L.Custody) (hs : L.Step L')
    (hd : L'.discarding = false) : L'.Faithful :=
  ⟨h.agree.step hc hs, h.present.step hc hs hd, hd⟩

/-- A request is held by one while it is in flight, and by nobody before and afterwards. -/
theorem Faithful.holders_eq {L : Ledger cfg} (h : L.Faithful) (hc : L.Custody) (i : Nat) :
    L.holders i = if ∃ t ∈ L.inFlight, t.id = i then 1 else 0 := by
  split
  next hin =>
    obtain ⟨t, ht, rfl⟩ := hin
    have h1 := hc.holders_le t.id
    have h2 := hc.covered t ht
    omega
  next hout =>
    by_contra hne
    obtain ⟨x, hx, rfl⟩ := exists_bears_of_holders_pos (Nat.pos_of_ne_zero hne)
    exact hout (h.present x hx)

end Ledger

end Akita.WriteBack
