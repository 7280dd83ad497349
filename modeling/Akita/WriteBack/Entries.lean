import Akita.WriteBack.Ownership

/-!
# Entries in use

`Entries` : every entry in use has a block and at least one request, and its requests are for its line; once its line is
on its way to the bank it has data.
-/

namespace Akita.WriteBack
open Sim Pipelining Mem Mem.Cache Function
open List hiding map_cons sum_cons
open Multiset (coe_count count_add exists_cons_of_mem map_cons mem_cons_of_mem mem_cons_self mem_of_le sum_cons)
open Multiset (count_pos mem_cons)
open WriteBack.Flow (allocate fillMSHR)

variable {cfg : Config}

/-- An entry in use has a block and requests for its line. -/
structure EntryShape (cfg : Config) (gen : Nat) (entry : MSHREntry Transaction) : Prop where
  block : ∃ b, entry.block = some b ∧ Within cfg gen b
  requests : entry.requests ≠ []
  asked : ∀ t ∈ entry.requests, ∃ req, t.Asks req ∧ Legal cfg req ∧ req.pid = entry.pid ∧
    lineOf cfg req.address = entry.address

theorem EntryShape.later {gen gen' : Nat} {entry : MSHREntry Transaction} (h : EntryShape cfg gen entry)
    (hg : gen ≤ gen') : EntryShape cfg gen' entry := by
  obtain ⟨b, hb, hle, hr⟩ := h.block
  exact ⟨⟨b, hb, hle.trans hg, hr⟩, h.requests, h.asked⟩

namespace Ledger

/-- Every entry in use has its shape, and data once its line is on its way to the bank. -/
structure Entries (L : Ledger cfg) : Prop where
  shape : ∀ e ∈ L.held, EntryShape cfg L.gen (L.mshr.heap e)
  data : ∀ e, e ∈ L.filled ∨ e ∈ L.drain → ∃ arr, (L.mshr.heap e).data = some arr

section
variable {L : Ledger cfg} {t t' : Transaction} {w d : Multiset Transaction}

theorem mem_fills {e : EntryRef} : e ∈ t.fills ↔ t.action = .bankWriteFetched ∧ t.mshrEntry = some e := by
  unfold Transaction.fills
  split
  · next h1 h2 => simp [h1, h2, eq_comm]
  · next h =>
    simp only [Multiset.notMem_zero, false_iff, not_and]
    exact fun h1 h2 => h e h1 h2

theorem mem_filled {e : EntryRef} :
    e ∈ L.filled ↔ ∃ t ∈ L.work, t.action = .bankWriteFetched ∧ t.mshrEntry = some e := by
  simp [filled, Multiset.mem_bind, mem_fills]

theorem mem_held {e : EntryRef} : e ∈ L.held ↔ e ∈ L.mshr.entries ∨ e ∈ L.filled ∨ e ∈ L.drain := by
  simp [held, or_assoc]

theorem Entries.mono (h : L.Entries) {L' : Ledger cfg} (hgen : L.gen ≤ L'.gen) (hheap : L'.mshr.heap = L.mshr.heap)
    (hentries : ∀ e ∈ L'.mshr.entries, e ∈ L.mshr.entries)
    (hfilled : ∀ e, e ∈ L'.filled ∨ e ∈ L'.drain → e ∈ L.filled ∨ e ∈ L.drain) : L'.Entries where
  shape := by
    intro e he
    rw [hheap]
    refine (h.shape e (mem_held.mpr ?_)).later hgen
    rcases mem_held.mp he with he | he
    · exact .inl (hentries e he)
    · exact .inr (hfilled e he)
  data := by
    intro e he
    rw [hheap]
    exact h.data e (hfilled e he)

theorem filled_mono {L' : Ledger cfg} (hdrain : L'.drain = L.drain)
    (hwork : ∀ t' ∈ L'.work, t'.action = .bankWriteFetched → ∃ t ∈ L.work, t.action = .bankWriteFetched ∧
      t.mshrEntry = t'.mshrEntry)
    (e : EntryRef) (he : e ∈ L'.filled ∨ e ∈ L'.drain) : e ∈ L.filled ∨ e ∈ L.drain := by
  rcases he with he | he
  · obtain ⟨t', ht', ha, hentry⟩ := mem_filled.mp he
    obtain ⟨t, ht, ha', heq⟩ := hwork t' ht' ha
    exact .inl (mem_filled.mpr ⟨t, ht, ha', heq.trans hentry⟩)
  · exact .inr (hdrain ▸ he)

theorem filled_mono_of_mem {M : Ledger cfg} (hdrain : M.drain = L.drain)
    (hwork : ∀ t ∈ M.work, t.action = .bankWriteFetched → t ∈ L.work) (e : EntryRef)
    (he : e ∈ M.filled ∨ e ∈ M.drain) : e ∈ L.filled ∨ e ∈ L.drain :=
  filled_mono hdrain (fun t ht ha => ⟨t, hwork t ht ha, ha, rfl⟩) e he

/-- The entry of a line that is in waits to be drained. -/
theorem filled_settle {M : Ledger cfg} {e : EntryRef} (hwork : L.work = t ::ₘ M.work) (hdrain : M.drain = L.drain ++ [e])
    (haction : t.action = .bankWriteFetched) (hentry : t.mshrEntry = some e) (e' : EntryRef)
    (he : e' ∈ M.filled ∨ e' ∈ M.drain) : e' ∈ L.filled ∨ e' ∈ L.drain := by
  rcases he with he | he
  · obtain ⟨x, hx, ha, hentry'⟩ := mem_filled.mp he
    exact .inl (mem_filled.mpr ⟨x, mem_of_cons hwork x hx, ha, hentry'⟩)
  · rw [hdrain] at he
    rcases mem_append.mp he with he | he
    · exact .inr he
    · rw [mem_singleton.mp he]
      exact .inl (mem_filled.mpr ⟨t, hwork ▸ mem_cons_self t M.work, haction, hentry⟩)

theorem Entries.join (h : L.Entries) {req : AccessReq} {e : EntryRef}
    (he : L.mshr.query req.pid (lineOf cfg req.address) = some e) (hasks : t'.Asks req) (hlegal : Legal cfg req) :
    Entries { L with
      dir := d, mshr := L.mshr.modify e fun entry => { entry with requests := entry.requests ++ [t'] } } := by
  obtain ⟨_, hpid, haddr⟩ := MSHR.query_eq_some he
  have hheap : ∀ e', e' ≠ e →
      (L.mshr.modify e fun entry => { entry with requests := entry.requests ++ [t'] }).heap e' = L.mshr.heap e' :=
    fun e' hne => update_of_ne hne _ _
  have hself : (L.mshr.modify e fun entry => { entry with requests := entry.requests ++ [t'] }).heap e =
      { L.mshr.heap e with requests := (L.mshr.heap e).requests ++ [t'] } := update_self _ _ _
  constructor
  · intro e' he'
    have he' : e' ∈ L.held := he'
    have hs := h.shape e' he'
    by_cases heq : e' = e
    · subst heq
      simp only [hself]
      refine ⟨hs.block, by simp, fun x hx => ?_⟩
      rcases mem_append.mp hx with hx | hx
      · exact hs.asked x hx
      · rw [mem_singleton.mp hx]
        exact ⟨req, hasks, hlegal, hpid.symm, haddr.symm⟩
    · simp only [hheap e' heq]
      exact hs
  · intro e' he'
    obtain ⟨arr, harr⟩ := h.data e' he'
    refine ⟨arr, ?_⟩
    by_cases heq : e' = e
    · subst heq
      simp only [hself]
      exact harr
    · simp only [hheap e' heq]
      exact harr

theorem Entries.opening (h : L.Entries) (hc : L.Custody) {pid : PID} {line : Nat} {b : BlockRef}
    {blocks : BlockRef → Block} (haction : t'.action.isFetch = true) (hset : Flow.InSet cfg L.gen line b)
    (hasks : ∃ req, t'.Asks req ∧ Legal cfg req ∧ req.pid = pid ∧ lineOf cfg req.address = line) :
    Entries { L with
      dir := d, work := t' ::ₘ L.work, mshr := allocate L.mshr pid line b t', blocks := blocks } := by
  have hnew : L.mshr.nextRef ∉ L.held := fun hm => Nat.lt_irrefl _ (hc.held_lt _ hm)
  have hheap : ∀ e ∈ L.held, (allocate L.mshr pid line b t').heap e = L.mshr.heap e := by
    intro e he
    refine update_of_ne ?_ _ _
    rintro rfl
    exact hnew he
  have hself : (allocate L.mshr pid line b t').heap L.mshr.nextRef =
      { pid, address := line, requests := [t'], block := some b } := update_self _ _ _
  have hfill : t'.action ≠ .bankWriteFetched := by
    intro ha
    simp [ha, Action.isFetch] at haction
  have hfilled : ∀ e, e ∈ ({ L with
      dir := d, work := t' ::ₘ L.work, mshr := allocate L.mshr pid line b t', blocks := blocks } :
      Ledger cfg).filled ∨ e ∈ L.drain → e ∈ L.filled ∨ e ∈ L.drain := by
    intro e he
    refine filled_mono_of_mem (L := L) (M := { L with
      dir := d, work := t' ::ₘ L.work, mshr := allocate L.mshr pid line b t', blocks := blocks })
      rfl (fun x hx ha => ?_) e he
    rcases mem_cons.mp hx with rfl | hx
    · exact absurd ha hfill
    · exact hx
  constructor
  · intro e he
    change EntryShape cfg L.gen ((allocate L.mshr pid line b t').heap e)
    rcases mem_held.mp he with he | he
    · rcases mem_append.mp he with he | he
      · have hm : e ∈ L.held := mem_held.mpr (.inl he)
        rw [hheap e hm]
        exact h.shape e hm
      · rw [mem_singleton.mp he, hself]
        refine ⟨⟨b, rfl, (inSet_gen hset).le, inRange_of_inSet hset⟩, by simp, fun x hx => ?_⟩
        rw [mem_singleton.mp hx]
        exact hasks
    · have hm : e ∈ L.held := mem_held.mpr (.inr (hfilled e he))
      rw [hheap e hm]
      exact h.shape e hm
  · intro e he
    have he := hfilled e he
    obtain ⟨arr, harr⟩ := h.data e he
    exact ⟨arr, (congrArg MSHREntry.data (hheap e (mem_held.mpr (.inr he)))).trans harr⟩

theorem Entries.fill (h : L.Entries) {e : EntryRef} {arr : ArrayRef} {blocks : BlockRef → Block}
    (hwork : L.work = t ::ₘ w) (he : e ∈ L.mshr.entries) (hentry' : t'.mshrEntry = some e) :
    Entries { L with work := t' ::ₘ w, mshr := fillMSHR L.mshr e arr, blocks := blocks } := by
  have hself : (fillMSHR L.mshr e arr).heap e = { L.mshr.heap e with data := some arr } :=
    update_self _ _ _
  have hheap : ∀ e', e' ≠ e → (fillMSHR L.mshr e arr).heap e' = L.mshr.heap e' :=
    fun e' hne => update_of_ne hne _ _
  have hfilled : ∀ e', e' ∈ ({ L with
      work := t' ::ₘ w, mshr := fillMSHR L.mshr e arr, blocks := blocks } : Ledger cfg).filled ∨ e' ∈ L.drain →
      e' = e ∨ e' ∈ L.filled ∨ e' ∈ L.drain := by
    rintro e' (he' | he')
    · obtain ⟨x, hx, ha, hentry⟩ := mem_filled.mp he'
      rcases mem_cons.mp hx with rfl | hx
      · rw [hentry', Option.some.injEq] at hentry
        exact .inl hentry.symm
      · exact .inr (.inl (mem_filled.mpr ⟨x, hwork ▸ mem_cons_of_mem hx, ha, hentry⟩))
    · exact .inr (.inr he')
  constructor
  · intro e' he'
    change EntryShape cfg L.gen ((fillMSHR L.mshr e arr).heap e')
    have hm : e' ∈ L.held := by
      rcases mem_held.mp he' with he' | he'
      · exact mem_held.mpr (.inl (mem_of_mem_erase he'))
      · rcases hfilled e' he' with rfl | he'
        · exact mem_held.mpr (.inl he)
        · exact mem_held.mpr (.inr he')
    have hs := h.shape e' hm
    by_cases heq : e' = e
    · subst heq
      rw [hself]
      exact ⟨hs.block, hs.requests, hs.asked⟩
    · rw [hheap e' heq]
      exact hs
  · intro e' he'
    change ∃ arr', ((fillMSHR L.mshr e arr).heap e').data = some arr'
    by_cases heq : e' = e
    · subst heq
      exact ⟨arr, by rw [hself]⟩
    · rw [hheap e' heq]
      exact h.data e' ((hfilled e' he').resolve_left heq)

theorem Entries.answer (h : L.Entries) (hc : L.Custody) {e : EntryRef} {rest : List EntryRef} {ts : List Transaction}
    {inFlight : List Transaction} (hdrain : L.drain = e :: rest) (hreqs : (L.mshr.heap e).requests = t :: ts) :
    Entries { L with
      inFlight := inFlight, mshr := L.mshr.modify e fun entry => { entry with requests := ts },
      drain := if ts.isEmpty then rest else e :: rest } := by
  have hself : (L.mshr.modify e fun entry => { entry with requests := ts }).heap e =
      { L.mshr.heap e with requests := ts } := update_self _ _ _
  have hheap : ∀ e', e' ≠ e → (L.mshr.modify e fun entry => { entry with requests := ts }).heap e' = L.mshr.heap e' :=
    fun e' hne => update_of_ne hne _ _
  have hdrain' : ∀ e', e' ∈ (if ts.isEmpty then rest else e :: rest) → e' ∈ L.drain := by
    intro e' he'
    rw [hdrain]
    split at he'
    · exact mem_cons_of_mem _ he'
    · exact he'
  constructor
  · intro e' he'
    have hm : e' ∈ L.held := by
      rcases mem_held.mp he' with he' | he' | he'
      · exact mem_held.mpr (.inl he')
      · exact mem_held.mpr (.inr (.inl he'))
      · exact mem_held.mpr (.inr (.inr (hdrain' e' he')))
    have hs := h.shape e' hm
    by_cases heq : e' = e
    · subst heq
      simp only [hself]
      refine ⟨hs.block, ?_, fun x hx => hs.asked x (hreqs ▸ mem_cons_of_mem _ hx)⟩
      -- an entry whose last request is answered is no longer in use
      rintro rfl
      have hle := hc.held_le e'
      have hpos := count_pos.mpr he'
      simp only [held, filled, hdrain, isEmpty_nil, if_true, MSHR.entries_modify, count_add,
        coe_count, count_cons_self] at hle hpos
      omega
    · simp only [hheap e' heq]
      exact hs
  · intro e' he'
    have hm : e' ∈ L.filled ∨ e' ∈ L.drain := he'.imp id (hdrain' e')
    by_cases heq : e' = e
    · subst heq
      simp only [hself]
      exact h.data e' hm
    · simp only [hheap e' heq]
      exact h.data e' hm

end

theorem Entries.step {L L' : Ledger cfg} (h : L.Entries) (hc : L.Custody) (hs : L.Step L') : L'.Entries := by
  cases hs with
  | pass | accept => exact ⟨h.shape, h.data⟩
  | relabel t _ w hwork halike =>
    refine h.mono le_rfl rfl (fun _ he => he) (filled_mono rfl fun x hx ha => ?_)
    rcases mem_cons.mp hx with rfl | hx
    · exact ⟨t, hwork ▸ mem_cons_self t w, halike.isFill.mp ha, halike.mshrEntry.symm⟩
    · exact ⟨x, hwork ▸ mem_cons_of_mem hx, ha, rfl⟩
  | drop _ _ hwork =>
    exact h.mono le_rfl rfl (fun _ he => he)
      (filled_mono_of_mem rfl fun x hx _ => hwork ▸ mem_cons_of_mem hx)
  | add _ hidle =>
    refine h.mono le_rfl rfl (fun _ he => he) (filled_mono_of_mem rfl fun x hx ha => ?_)
    exact (mem_cons.mp hx).resolve_left fun heq => hidle.isFill (heq ▸ ha)
  | join _ _ _ _ _ _ _ _ he hasks hlegal => exact h.join he hasks hlegal
  | read _ _ _ _ _ _ _ haction =>
    refine h.mono le_rfl rfl (fun _ he => he) (filled_mono_of_mem rfl fun x hx ha => ?_)
    refine (mem_cons.mp hx).resolve_left fun heq => ?_
    rw [heq, haction] at ha
    cases ha
  | write _ _ _ _ _ _ _ _ haction =>
    refine h.mono le_rfl rfl (fun _ he => he) (filled_mono_of_mem rfl fun x hx ha => ?_)
    refine (mem_cons.mp hx).resolve_left fun heq => ?_
    rw [← heq, ha] at haction
    cases haction
  | opening _ _ _ _ _ _ _ _ _ haction _ _ _ hset _ _ _ hasks =>
    exact h.opening hc haction hset hasks
  | fill _ _ _ _ _ _ _ _ hwork _ _ he _ _ _ hentry' => exact h.fill hwork he hentry'
  | settle _ _ _ _ hwork haction hentry =>
    exact h.mono le_rfl rfl (fun _ he => he) (filled_settle hwork rfl haction hentry)
  | finishRead _ _ _ hwork =>
    exact h.mono le_rfl rfl (fun _ he => he)
      (filled_mono_of_mem rfl fun x hx _ => hwork ▸ mem_cons_of_mem hx)
  | finishWrite _ _ _ _ hwork =>
    exact h.mono le_rfl rfl (fun _ he => he)
      (filled_mono_of_mem rfl fun x hx _ => hwork ▸ mem_cons_of_mem hx)
  | answer _ _ _ _ hdrain hreqs => exact h.answer hc hdrain hreqs
  | discard _ hwork =>
    refine h.mono le_rfl rfl (fun _ he => he) ?_
    rintro e (he | he)
    · obtain ⟨x, hx, ha, hentry⟩ := mem_filled.mp he
      exact .inl (mem_filled.mpr ⟨x, mem_of_le hwork hx, ha, hentry⟩)
    · cases he
  | finish => exact h.mono (Nat.le_succ _) rfl (fun _ he => nomatch he) fun _ he => he

/-! ## Live requests -/

/-- Outside a discarding flush, the requests of an entry whose line is not yet in its block are in flight. Entries left
over from before a flush have blocks of an older directory. -/
def Live (L : Ledger cfg) : Prop :=
  L.discarding = false → ∀ e ∈ L.opened, ∀ b, (L.mshr.heap e).block = some b → b.gen = L.gen →
    ∀ t ∈ (L.mshr.heap e).requests, ∃ t' ∈ L.inFlight, t'.id = t.id

section
variable {L : Ledger cfg} {t t' x : Transaction} {w d : Multiset Transaction} {e : EntryRef}

theorem asking_pos (hx : x ∈ (L.mshr.heap e).requests) : 0 < asking x.id (L.mshr.heap e) :=
  countP_pos_iff.mpr ⟨x, hx, by simp⟩

theorem Custody.id_ne_of_work (hc : L.Custody) (he : e ∈ L.held) (hx : x ∈ (L.mshr.heap e).requests) (ht : t ∈ L.work)
    (hhit : t.action.isHit = true) : x.id ≠ t.id := by
  intro hid
  have hwork : 0 < L.work.countP fun y => y.holds x.id = true :=
    Multiset.countP_pos.mpr ⟨t, ht, by simp [Transaction.holds, hhit, hid]⟩
  have hle := hc.holders_le x.id
  obtain ⟨_, hs⟩ := exists_cons_of_mem he
  have hpos := asking_pos hx
  unfold holders at hle
  rw [hs, map_cons, sum_cons] at hle
  omega

theorem Custody.id_ne_of_entry (hc : L.Custody) {e' : EntryRef} (he : e ∈ L.held) (he' : e' ∈ L.held) (hne : e' ≠ e)
    (hx : x ∈ (L.mshr.heap e).requests) (ht : t ∈ (L.mshr.heap e').requests) : x.id ≠ t.id := by
  intro hid
  have hle := hc.holders_le x.id
  obtain ⟨s, hs⟩ := exists_cons_of_mem he
  have he'' : e' ∈ s := (mem_cons.mp (hs ▸ he')).resolve_left hne
  obtain ⟨_, hs'⟩ := exists_cons_of_mem he''
  have hpos := asking_pos hx
  have hpos' := asking_pos ht
  unfold holders at hle
  rw [hs, hs', map_cons, map_cons, sum_cons, sum_cons] at hle
  rw [← hid] at hpos'
  omega

theorem Live.mono (h : L.Live) {L' : Ledger cfg} (hdisc : L'.discarding = L.discarding) (hgen : L'.gen = L.gen)
    (hopened : ∀ e ∈ L'.opened, e ∈ L.opened ∧ L'.mshr.heap e = L.mshr.heap e)
    (hlive : ∀ e ∈ L.opened, ∀ x ∈ (L.mshr.heap e).requests, (∃ y ∈ L.inFlight, y.id = x.id) →
      ∃ y ∈ L'.inFlight, y.id = x.id) : L'.Live := by
  intro hd e he b hb hg x hx
  obtain ⟨hmem, hheap⟩ := hopened e he
  rw [hheap] at hb hx
  exact hlive e hmem x hx (h (hdisc ▸ hd) e hmem b hb (hgen ▸ hg) x hx)

theorem mem_opened : e ∈ L.opened ↔ e ∈ L.mshr.entries ∨ e ∈ L.filled := by simp [opened]

theorem Live.of_work (h : L.Live) {L' : Ledger cfg} (hdisc : L'.discarding = L.discarding) (hgen : L'.gen = L.gen)
    (hmshr : L'.mshr = L.mshr) (hin : ∀ y ∈ L.inFlight, y ∈ L'.inFlight)
    (hwork : ∀ t' ∈ L'.work, t'.action = .bankWriteFetched →
      ∃ t ∈ L.work, t.action = .bankWriteFetched ∧ t.mshrEntry = t'.mshrEntry) : L'.Live := by
  refine h.mono hdisc hgen (fun e he => ⟨?_, by rw [hmshr]⟩) fun e he x hx hy => ?_
  · rcases mem_opened.mp he with he | he
    · exact mem_opened.mpr (.inl (hmshr ▸ he))
    · obtain ⟨t', ht', ha, hentry⟩ := mem_filled.mp he
      obtain ⟨t, ht, ha', heq⟩ := hwork t' ht' ha
      exact mem_opened.mpr (.inr (mem_filled.mpr ⟨t, ht, ha', heq.trans hentry⟩))
  · obtain ⟨y, hy, hid⟩ := hy
    exact ⟨y, hin y hy, hid⟩

variable {blocks : BlockRef → Block}

theorem Live.finishHit (h : L.Live) (hc : L.Custody) (hwork : L.work = t ::ₘ w) (hhit : t.action.isHit = true) :
    Live { L with work := w, inFlight := L.inFlight.eraseP (·.id == t.id), blocks := blocks } := by
  have ht : t ∈ L.work := hwork ▸ mem_cons_self t w
  refine h.mono rfl rfl (fun e he => ⟨?_, rfl⟩) fun e he x hx hy => ?_
  · rcases mem_opened.mp he with he | he
    · exact mem_opened.mpr (.inl he)
    · obtain ⟨y, hy, ha, hentry⟩ := mem_filled.mp he
      exact mem_opened.mpr (.inr (mem_filled.mpr ⟨y, hwork ▸ mem_cons_of_mem hy, ha, hentry⟩))
  · obtain ⟨y, hy, hid⟩ := hy
    have hne := hc.id_ne_of_work (mem_of_le (opened_le_held L) he) hx ht hhit
    exact ⟨y, (mem_eraseP_id hc.inFlight_nodup).mpr ⟨hy, hid ▸ hne⟩, hid⟩

theorem Live.join (h : L.Live) (hc : L.Custody) (hdir : L.dir = t ::ₘ d) (hid : t'.id = t.id) :
    Live { L with
      dir := d, mshr := L.mshr.modify e fun entry => { entry with requests := entry.requests ++ [t'] } } := by
  intro hd e' he' b hb hg x hx
  have he' : e' ∈ L.opened := he'
  by_cases heq : e' = e
  · subst heq
    simp only [MSHR.heap_modify, update_self] at hb hx
    rcases mem_append.mp hx with hx | hx
    · exact h hd e' he' b hb hg x hx
    · rw [mem_singleton.mp hx, hid]
      exact hc.dir_live t (hdir ▸ mem_cons_self t d)
  · simp only [MSHR.heap_modify, update_of_ne heq] at hb hx
    exact h hd e' he' b hb hg x hx

theorem Live.opening (h : L.Live) (hc : L.Custody) {pid : PID} {line : Nat} {b : BlockRef}
    (hdir : L.dir = t ::ₘ d) (hid : t'.id = t.id) (haction : t'.action.isFetch = true) :
    Live { L with
      dir := d, work := t' ::ₘ L.work, mshr := allocate L.mshr pid line b t', blocks := blocks } := by
  intro hd e he b' hb hg x hx
  have hfill : t'.action ≠ .bankWriteFetched := by
    intro ha
    rw [ha] at haction
    cases haction
  have hcase : e = L.mshr.nextRef ∨ e ∈ L.opened := by
    rcases mem_opened.mp he with he | he
    · rcases mem_append.mp he with he | he
      · exact .inr (mem_opened.mpr (.inl he))
      · exact .inl (mem_singleton.mp he)
    · obtain ⟨y, hy, ha, hentry⟩ := mem_filled.mp he
      have hy' := (mem_cons.mp hy).resolve_left fun heq => hfill (heq ▸ ha)
      exact .inr (mem_opened.mpr (.inr (mem_filled.mpr ⟨y, hy', ha, hentry⟩)))
  rcases hcase with rfl | he
  · simp only [allocate, update_self] at hx
    rw [mem_singleton.mp hx, hid]
    exact hc.dir_live t (hdir ▸ mem_cons_self t d)
  · have hne : e ≠ L.mshr.nextRef := (hc.held_lt e (mem_of_le (opened_le_held L) he)).ne
    simp only [allocate, update_of_ne hne] at hb hx
    exact h hd e he b' hb hg x hx

theorem Live.fill (h : L.Live) {arr : ArrayRef} (hwork : L.work = t ::ₘ w)
    (he : e ∈ L.mshr.entries) (hentry' : t'.mshrEntry = some e) :
    Live { L with work := t' ::ₘ w, mshr := fillMSHR L.mshr e arr, blocks := blocks } := by
  intro hd e' he' b hb hg x hx
  have hmem : e' ∈ L.opened := by
    rcases mem_opened.mp he' with he' | he'
    · exact mem_opened.mpr (.inl (mem_of_mem_erase he'))
    · obtain ⟨y, hy, ha, hentry⟩ := mem_filled.mp he'
      rcases mem_cons.mp hy with rfl | hy
      · rw [hentry', Option.some.injEq] at hentry
        exact mem_opened.mpr (.inl (hentry ▸ he))
      · exact mem_opened.mpr (.inr (mem_filled.mpr ⟨y, hwork ▸ mem_cons_of_mem hy, ha, hentry⟩))
  by_cases heq : e' = e
  · subst heq
    simp only [fillMSHR, update_self] at hb hx
    exact h hd e' hmem b hb hg x hx
  · simp only [fillMSHR, update_of_ne heq] at hb hx
    exact h hd e' hmem b hb hg x hx

theorem Live.answer (h : L.Live) (hc : L.Custody) {rest : List EntryRef} {ts : List Transaction}
    (hdrain : L.drain = e :: rest) (hreqs : (L.mshr.heap e).requests = t :: ts) :
    Live { L with
      inFlight := L.inFlight.eraseP (·.id == t.id), mshr := L.mshr.modify e fun entry => { entry with requests := ts },
      drain := if ts.isEmpty then rest else e :: rest } := by
  have hheld : e ∈ L.held := mem_held_of_drain (hdrain ▸ mem_cons_self)
  -- an entry that is being answered is not open
  have hnot : ∀ e' ∈ L.opened, e' ≠ e := by
    rintro e' he' rfl
    have hle := hc.held_le e'
    have hpos := count_pos.mpr he'
    simp only [held, opened, hdrain, count_add, coe_count, count_cons_self] at hle hpos
    omega
  refine h.mono rfl rfl (fun e' he' => ⟨he', update_of_ne (hnot e' he') _ _⟩) fun e' he' x hx hy => ?_
  · have hne := (hnot e' he').symm
    obtain ⟨y, hy, hid⟩ := hy
    have hx' := hc.id_ne_of_entry (mem_of_le (opened_le_held L) he') hheld hne hx
      (t := t) (hreqs ▸ mem_cons_self)
    exact ⟨y, (mem_eraseP_id hc.inFlight_nodup).mpr ⟨hy, hid ▸ hx'⟩, hid⟩

end

theorem Live.step {L L' : Ledger cfg} (h : L.Live) (hc : L.Custody) (hentries : L.Entries) (hs : L.Step L') : L'.Live := by
  have hsame : ∀ {w : Multiset Transaction}, (∀ t ∈ w, t.action = .bankWriteFetched → t ∈ L.work) →
      ∀ t' ∈ w, t'.action = .bankWriteFetched → ∃ t ∈ L.work, t.action = .bankWriteFetched ∧ t.mshrEntry = t'.mshrEntry :=
    fun hw t ht ha => ⟨t, hw t ht ha, ha, rfl⟩
  have hcons : ∀ {t : Transaction} {w : Multiset Transaction}, t.action ≠ .bankWriteFetched →
      (∀ x ∈ w, x ∈ L.work) → ∀ x ∈ t ::ₘ w, x.action = .bankWriteFetched → x ∈ L.work := by
    intro t w ht hw x hx ha
    rcases mem_cons.mp hx with rfl | hx
    · exact absurd ha ht
    · exact hw x hx
  cases hs with
  | pass => exact h
  | accept =>
    exact h.of_work rfl rfl rfl (fun y hy => mem_append_left _ hy) (hsame fun _ hx _ => hx)
  | relabel t _ w hwork halike =>
    refine h.of_work rfl rfl rfl (fun _ hy => hy) fun x hx ha => ?_
    rcases mem_cons.mp hx with rfl | hx
    · exact ⟨t, hwork ▸ mem_cons_self t w, halike.isFill.mp ha, halike.mshrEntry.symm⟩
    · exact ⟨x, hwork ▸ mem_cons_of_mem hx, ha, rfl⟩
  | drop _ _ hwork =>
    exact h.of_work rfl rfl rfl (fun _ hy => hy) (hsame fun x hx _ => hwork ▸ mem_cons_of_mem hx)
  | add _ hidle => exact h.of_work rfl rfl rfl (fun _ hy => hy) (hsame (hcons hidle.isFill fun _ hx => hx))
  | join _ _ _ _ _ hdir hid => exact h.join hc hdir hid
  | read _ _ _ _ _ _ _ haction =>
    exact h.of_work rfl rfl rfl (fun _ hy => hy) (hsame (hcons (by rw [haction]; nofun) fun _ hx => hx))
  | write _ _ _ _ _ _ _ _ haction =>
    refine h.of_work rfl rfl rfl (fun _ hy => hy) (hsame (hcons ?_ fun _ hx => hx))
    intro ha
    rw [ha] at haction
    cases haction
  | opening _ _ _ _ _ _ _ hdir hid haction => exact h.opening hc hdir hid haction
  | fill _ _ _ _ _ _ _ _ hwork _ _ he _ _ _ hentry' => exact h.fill hwork he hentry'
  | settle _ _ _ _ hwork =>
    refine h.of_work rfl rfl rfl (fun _ hy => hy) (hsame fun x hx _ => hwork ▸ mem_cons_of_mem hx)
  | finishRead _ _ _ hwork haction => exact h.finishHit hc hwork (by rw [haction]; rfl)
  | finishWrite _ _ _ _ hwork haction => exact h.finishHit hc hwork (by rw [haction]; rfl)
  | answer _ _ _ _ hdrain hreqs => exact h.answer hc hdrain hreqs
  | discard => exact fun hd => nomatch hd
  | finish =>
    -- the entries that are left have blocks of the old directory
    intro hd e he b hb hg
    have hmem : e ∈ L.filled := (mem_opened.mp he).resolve_left (nomatch ·)
    obtain ⟨b', hb', hle, -⟩ := (hentries.shape e (mem_held.mpr (.inr (.inl hmem)))).block
    have hbb : b' = b := Option.some.inj (hb'.symm.trans hb)
    have hg : b.gen = L.gen + 1 := hg
    rw [hbb] at hle
    omega

end Ledger

end Akita.WriteBack
