import Akita.WriteBack.Dirtied

/-!
# Copies of victims

From its choice until its request is sent, and after that, the eviction of a block has the line and the mask of the block, and
once the bank has read the block, its data. This is so in runs of careful steps.

* `Flow.Careful` : no full write is given a victim whose mask is not full, and no fetch is served from an eviction with writes
  to its dirty bytes;
* `Flow.Copied` : each eviction has, or will read, what was chosen.
-/

namespace Akita.WriteBack
open Sim Pipelining Mem Mem.Cache List
open WriteBack.System (init)
open Multiset (le_cons_self mem_cons_self mem_sub)

variable {cfg : Config}

namespace Flow

variable {a a' : Flow cfg} {l : Label} {H : History}

/-- No flush is asked for. A full write is given a dirty victim only when the mask of the victim is full; a fetch is served
from an eviction only when the writes of its entry touch no byte that is set in the mask of the eviction. -/
structure Careful (a : Flow cfg) (l : Label) (a' : Flow cfg) : Prop where
  unflushed : a.Unflushed l
  whole : ∀ t b m, a.Chooses a' t b → t.action = .bankEvictAndWrite → (a.blocks b).dirtyMask = some m → a.slices.Full cfg m
  apart : l = .localFetch → ∀ t rest ev m e w, a.wb = t :: rest → a.find t = some ev → ev.evictingDirtyMask = some m →
    t.mshrEntry = some e → w ∈ writesOf (a.mshr.heap e).requests → ∀ i < cfg.blockSize, touches cfg w i = true →
    (a.slices.masks m).getD i false = false

/-- The transaction has the line of what was chosen, and a mask that is and stays the one of the choice. -/
structure Follows (a : Flow cfg) (t : Transaction) (c : Choice) : Prop where
  id : c.id = t.id
  pid : t.evictingPID = c.pid
  address : t.evictingAddr = c.tag
  mask : ∃ m, t.evictingDirtyMask = some m ∧ a.slices.LineMask cfg m ∧ a.Steady m ∧
    ∀ i < cfg.blockSize, (a.slices.masks m).getD i false = true ↔ i ∈ c.written

/-- The data of the choice is still in the storage. -/
structure Stored (a : Flow cfg) (t : Transaction) (c : Choice) (b : BlockRef) : Prop where
  block : t.block = some b
  victim : ∃ v, t.victim = some v ∧ v.cacheAddress = b.cacheAddress cfg.geometry
  gen : b.gen = a.gen
  inRange : InRange cfg b
  entry : t.action = .bankEvictAndFetch → ∃ e, t.mshrEntry = some e ∧ (a.mshr.heap e).block = some b
  data : ∀ i < cfg.blockSize, a.storage.data (b.cacheAddress cfg.geometry + i) = c.data i

/-- The transaction has the written bytes of the choice. -/
structure HasData (a : Flow cfg) (t : Transaction) (c : Choice) (arr : ArrayRef) : Prop where
  evictingData : t.evictingData = some arr
  line : a.slices.Line cfg arr
  data : ∀ i < cfg.blockSize, i ∈ c.written → (a.slices.bytes arr).getD i 0 = c.data i

/-- The transaction is to read a victim from the storage. -/
def WillRead (a : Flow cfg) (t : Transaction) : Prop :=
  t ∈ a.bank ∧ (t.action = .bankEvictAndWrite ∨ t.action = .bankEvictAndFetch)

/-- The transaction has the data of a victim: it waits for the write buffer or in it, or its request has been sent. -/
def HasRead (a : Flow cfg) (H : History) (t : Transaction) : Prop :=
  t ∈ a.wb ∧ (t.action = .writeBufferEvictAndWrite ∨ t.action = .writeBufferEvictAndFetch) ∨ t ∈ a.pending ∨ t ∈ H.sent

structure Copied (a : Flow cfg) (H : History) : Prop where
  willRead : ∀ t, a.WillRead t → ∃ c ∈ H.chosen, a.Follows t c ∧ ∃ b, a.Stored t c b
  hasRead : ∀ t, a.HasRead H t → ∃ c ∈ H.chosen, a.Follows t c ∧ ∃ arr, a.HasData t c arr
  paired : ∀ t t', a.HasRead H t → a.HasRead H t' → t.evictingData = t'.evictingData →
    t.evictingDirtyMask = t'.evictingDirtyMask
  inflight : ∀ t ∈ a.inflight, t ∈ H.sent

/-- The two transactions carry the same copy of a victim. -/
structure SameCopy (t t' : Transaction) : Prop where
  id : t'.id = t.id
  pid : t'.evictingPID = t.evictingPID
  address : t'.evictingAddr = t.evictingAddr
  data : t'.evictingData = t.evictingData
  mask : t'.evictingDirtyMask = t.evictingDirtyMask

theorem SameCopy.refl (t : Transaction) : SameCopy t t := ⟨rfl, rfl, rfl, rfl, rfl⟩

variable {t t' : Transaction} {c : Choice}

theorem Follows.step (hf : a.Follows t c) (h : a.Calm) (hs : Step a l a') : a'.Follows t c := by
  obtain ⟨m, hm, hline, hsteady, hbits⟩ := hf.mask
  obtain ⟨hsame, hsteady'⟩ := h.steady_step hs hline.1 hsteady
  refine ⟨hf.id, hf.pid, hf.address, m, hm, hline.grows (hs.grows h.inv.shaped), hsteady', fun i hi => ?_⟩
  rw [hsame i hi]
  exact hbits i hi

theorem Follows.congr (hf : a.Follows t c) (hid : t'.id = t.id) (hpid : t'.evictingPID = t.evictingPID)
    (haddress : t'.evictingAddr = t.evictingAddr) (hmask : t'.evictingDirtyMask = t.evictingDirtyMask) : a.Follows t' c := by
  obtain ⟨m, hm, hrest⟩ := hf.mask
  exact ⟨hf.id.trans hid.symm, hpid.trans hf.pid, haddress.trans hf.address, m, hmask.trans hm, hrest⟩

variable {b : BlockRef}

/-- The victim of a transaction in the bank is locked. -/
theorem Stored.isLocked (hstored : a.Stored t c b) (h : a.Calm) (ht : a.WillRead t) : (a.blocks b).isLocked = true := by
  obtain ⟨hmem, haction⟩ := ht
  have hwork : t ∈ a.work := mem_work.mpr (.inl hmem)
  refine h.inv.ownership.isLocked h.faithful.kept hstored.gen ?_
  rcases haction with haction | haction
  · exact Ledger.owners_pos_of_work (L := a.ledger) hwork (by simp [haction, Action.isWrite]) hstored.block
  · obtain ⟨_, he, hblock⟩ := hstored.entry haction
    obtain ⟨_, he', hentry, -⟩ := h.inv.custody.fetching t hwork (by simp [haction, Action.isFetch])
    cases he.symm.trans hentry
    exact Ledger.owners_pos_of_opened (L := a.ledger) (Ledger.mem_opened.mpr (.inl he')) hblock

theorem Stored.step (hstored : a.Stored t c b) (h : a.Calm) (hl : a.Unflushed l) (hs : Step a l a') (ht : a.WillRead t)
    (ht' : a'.WillRead t) : a'.Stored t c b := by
  have hgen' : b.gen = a'.gen := hstored.gen.trans (h.gen_step hs).symm
  have hentry : t.action = .bankEvictAndFetch → ∃ e, t.mshrEntry = some e ∧ (a'.mshr.heap e).block = some b := by
    intro haction
    obtain ⟨e, he, hblock⟩ := hstored.entry haction
    obtain ⟨_, he', hentry, -⟩ := h.inv.custody.fetching t (mem_work.mpr (.inl ht.1)) (by simp [haction, Action.isFetch])
    cases he.symm.trans hentry
    exact ⟨e, he, (hs.block (h.inv.custody.held_lt e (Ledger.mem_held_of_entries he'))).trans hblock⟩
  have hlock := hstored.isLocked h ht
  have hlock' : (a'.blocks b).isLocked = true := by
    have hprops : a'.Stored t { c with data := fun i => a'.storage.data (b.cacheAddress cfg.geometry + i) } b :=
      ⟨hstored.block, hstored.victim, hgen', hstored.inRange, hentry, fun _ _ => rfl⟩
    exact hprops.isLocked (h.step hl hs) ht'
  obtain ⟨-, -, hbytes | ⟨-, hunlock⟩⟩ := hs.spares h.inv h.faithful h.current b hstored.inRange hstored.gen (.inl hlock)
  · exact ⟨hstored.block, hstored.victim, hgen', hstored.inRange, hentry, fun i hi => (hbytes i hi).trans (hstored.data i hi)⟩
  · rw [hlock'] at hunlock
    cases hunlock

/-- How the directory evicts block `b` for `t`. -/
structure Evicts (a a' : Flow cfg) (t : Transaction) (b : BlockRef) : Prop where
  taken : ∃ t₀ d, a.dir = t₀ ::ₘ d ∧ a'.dir = d ∧ t.id = t₀.id
  enters : ∀ t', a.Enters a' t' ↔ t' = t
  gen : b.gen = a.gen
  inRange : InRange cfg b
  idle : a.Idle b
  dirty : a.Dirty b
  block : t.block = some b
  victim : ∃ v, t.victim = some v ∧ v.cacheAddress = b.cacheAddress cfg.geometry
  pid : t.evictingPID = (a.blocks b).pid
  address : t.evictingAddr = (a.blocks b).tag
  mask : t.evictingDirtyMask = (a.blocks b).dirtyMask
  action : t.action = .bankEvictAndWrite ∨ t.action = .bankEvictAndFetch
  slices : a'.slices = a.slices
  storage : a'.storage = a.storage
  fetches : t.action = .bankEvictAndFetch → ∃ e ∈ a'.mshr.entries, t.mshrEntry = some e ∧ (a'.mshr.heap e).block = some b

/-- What comes to the bank to evict a block is sent by the directory. -/
theorem Calm.evicts (h : a.Calm) (hl : a.Unflushed l) (hs : Step a l a') (henters : a.Enters a' t)
    (haction : t.action = .bankEvictAndWrite ∨ t.action = .bankEvictAndFetch) : ∃ b, a.Evicts a' t b ∧
      (t.action = .bankEvictAndWrite → ∃ x ∈ a.dir, ∃ w, x.write = some w ∧
        DirectoryStage.isWritingFullLine cfg w = true) := by
  have hother : ∀ {x : Transaction}, a'.bank = x ::ₘ a.bank → x.action ≠ .bankEvictAndWrite ∧ x.action ≠ .bankEvictAndFetch →
      False := by
    intro x hbank hx
    cases (enters_cons hbank).mp henters
    exact haction.elim hx.1 hx.2
  have hnone : a'.bank ≤ a.bank → False := fun hle => not_enters hle henters
  cases hs with
  | readHit | writeHit => exact (hother rfl (by simp)).elim
  | fetch => exact (hother rfl (by simp [asFetch])).elim
  | pullUp x k htoBank =>
    refine (hother rfl ?_).elim
    rcases h.inv.shaped.toBank x (htoBank ▸ mem_cons_self x k) with hx | hx <;> simp [hx]
  | evictAndFetch x d _ b hdir _ _ hset hidle hdirty =>
    cases (enters_cons rfl).mp henters
    refine ⟨b, ⟨⟨x, d, hdir, rfl, rfl⟩, fun _ => enters_cons rfl, hset.2.1, inRange_of_inSet hset, hidle, hdirty, rfl,
      ⟨_, rfl, rfl⟩, rfl, rfl, rfl, .inr rfl, rfl, rfl, fun _ => ⟨a.mshr.nextRef, ?_, rfl, ?_⟩⟩, fun hwrite => ?_⟩
    · exact mem_append_right _ (mem_singleton_self _)
    · simp [allocate]
    · cases hwrite
  | evictAndWrite x d w b hdir _ hwrite _ hset hidle hdirty hfull =>
    cases (enters_cons rfl).mp henters
    exact ⟨b, ⟨⟨x, d, hdir, rfl, rfl⟩, fun _ => enters_cons rfl, hset.2.1, inRange_of_inSet hset, hidle,
      hdirty, rfl, ⟨_, rfl, rfl⟩,
      rfl, rfl, rfl, .inl rfl, rfl, rfl, by simp⟩, fun _ => ⟨x, hdir ▸ mem_cons_self x d, w, hwrite, hfull⟩⟩
  | pullFetch x k hbank => exact (hnone (hbank ▸ le_cons_self k x)).elim
  | finishRead x k _ _ _ hbank => exact (hnone (hbank ▸ le_cons_self k x)).elim
  | finishWrite x k _ _ _ _ _ _ _ _ hbank => exact (hnone (hbank ▸ le_cons_self k x)).elim
  | finishFetched x k _ _ _ _ hbank => exact (hnone (hbank ▸ le_cons_self k x)).elim
  | finishEviction x k _ _ _ hbank => exact (hnone (hbank ▸ le_cons_self k x)).elim
  | discardFlush => exact hl.elim
  | evictFlush _ _ _ hflush => exact absurd hflush h.not_flushing
  | _ => exact (hnone le_rfl).elim

theorem enters_of_not_mem (ht' : t ∈ a'.bank) (ht : t ∉ a.bank) : a.Enters a' t := by
  rw [Enters, mem_sub, Multiset.count_eq_zero.mpr ht]
  exact Multiset.count_pos.mpr ht'

/-- What is chosen is as the notes say. -/
theorem Evicts.copied (he : a.Evicts a' t b) (h : a.Calm) (hacc : a.Accounted H) (hcareful : a.Careful l a')
    (hs : Step a l a') : a'.Follows t (a.choice H t b) ∧ a'.Stored t (a.choice H t b) b := by
  have henters := (he.enters t).mpr rfl
  obtain ⟨hwriters, hwaits⟩ := h.not_owned he.gen he.idle
  obtain ⟨m, hm, hbits⟩ : a.Marked H b := by
    refine (hacc.marked b he.gen he.dirty.1).resolve_right ?_
    rintro (⟨e, hmem, hblock⟩ | ⟨t', ht', w, hwrites, -⟩)
    · exact hwaits e hmem hblock
    · exact hwriters t' ht' hwrites
  have hline := h.inv.shaped.masks b m hm
  have hsteady : a'.Steady m := by
    rcases he.action with haction | haction
    · refine .inl ?_
      rw [he.slices]
      exact hcareful.whole t b m ⟨henters, he.action, he.block⟩ haction hm
    · refine .inr fun b' hb' => ?_
      cases hacc.unshared b b' m hm (hs.dirtyMask hline.1 hb')
      obtain ⟨e, hmem, -, hblock⟩ := he.fetches haction
      exact ⟨e, hmem, hblock⟩
  constructor
  · exact ⟨rfl, he.pid, he.address, m, he.mask.trans hm, he.slices ▸ hline, hsteady, he.slices ▸ hbits⟩
  · refine ⟨he.block, he.victim, he.gen.trans (h.gen_step hs).symm, he.inRange, fun haction => ?_,
      fun i _ => by rw [he.storage]; rfl⟩
    obtain ⟨e, -, hentry, hblock⟩ := he.fetches haction
    exact ⟨e, hentry, hblock⟩

theorem Copied.willRead_step (hcopied : a.Copied H) (h : a.Calm) (hacc : a.Accounted H) (hcareful : a.Careful l a')
    (hs : Step a l a') (ht : a'.WillRead t) : ∃ c ∈ (H.next a a').chosen, a'.Follows t c ∧ ∃ b, a'.Stored t c b := by
  by_cases hold : t ∈ a.bank
  · obtain ⟨c, hc, hfollows, b, hstored⟩ := hcopied.willRead t ⟨hold, ht.2⟩
    exact ⟨c, History.chosen_next hc, hfollows.step h hs, b, hstored.step h hcareful.unflushed hs ⟨hold, ht.2⟩ ht⟩
  · have henters := enters_of_not_mem ht.1 hold
    obtain ⟨b, he, -⟩ := h.evicts hcareful.unflushed hs henters ht.2
    obtain ⟨hfollows, hstored⟩ := he.copied h hacc hcareful hs
    exact ⟨_, .inr ⟨t, b, ⟨henters, he.action, he.block⟩, rfl⟩, hfollows, b, hstored⟩

/-- The bank has read the victim of `t`, which goes on as `t'`. -/
structure Reads (a a' : Flow cfg) (t t' : Transaction) : Prop where
  willRead : a.WillRead t
  id : t'.id = t.id
  pid : t'.evictingPID = t.evictingPID
  address : t'.evictingAddr = t.evictingAddr
  mask : t'.evictingDirtyMask = t.evictingDirtyMask
  fresh : t'.evictingData = some a.slices.next
  victim : ∃ v data, t.victim = some v ∧ a.storage.read v.cacheAddress cfg.blockSize = .ok data ∧
    a'.slices = (a.slices.newBytes data).2

theorem Copied.hasRead_cases (hcopied : a.Copied H) (h : a.Calm) (hl : a.Unflushed l) (hs : Step a l a') :
    ∃ p : Transaction → Prop, (∀ t' t'', p t' → p t'' → t' = t'') ∧ (∀ t', p t' → ∃ t, a.Reads a' t t') ∧
      ∀ t', a'.HasRead (H.next a a') t' → p t' ∨ ∃ t, a.HasRead H t ∧ SameCopy t t' := by
  have hinflight : ∀ t ∈ a.inflight, ∃ x, a.HasRead H x ∧ SameCopy x t :=
    fun t ht => ⟨t, .inr (.inr (hcopied.inflight t ht)), .refl t⟩
  have hpending : ∀ t ∈ a.pending, ∃ x, a.HasRead H x ∧ SameCopy x t := fun t ht => ⟨t, .inr (.inl ht), .refl t⟩
  have hwb : ∀ t ∈ a.wb, t.action = .writeBufferEvictAndWrite ∨ t.action = .writeBufferEvictAndFetch →
      ∃ x, a.HasRead H x ∧ SameCopy x t := fun t ht haction => ⟨t, .inl ⟨ht, haction⟩, .refl t⟩
  -- nothing is read
  have hsame : (∀ t ∈ a'.wb, t.action = .writeBufferEvictAndWrite ∨ t.action = .writeBufferEvictAndFetch →
        ∃ x, a.HasRead H x ∧ SameCopy x t) →
      (∀ t ∈ a'.pending, ∃ x, a.HasRead H x ∧ SameCopy x t) → (∀ t ∈ a'.inflight, ∃ x, a.HasRead H x ∧ SameCopy x t) →
      ∃ p : Transaction → Prop, (∀ t' t'', p t' → p t'' → t' = t'') ∧ (∀ t', p t' → ∃ t, a.Reads a' t t') ∧
        ∀ t', a'.HasRead (H.next a a') t' → p t' ∨ ∃ t, a.HasRead H t ∧ SameCopy t t' := by
    refine fun h₁ h₂ h₃ => ⟨fun _ => False, fun _ _ => False.elim, fun _ => False.elim, fun t' ht' => .inr ?_⟩
    rcases ht' with ⟨ht', haction⟩ | ht' | ht' | ht'
    · exact h₁ t' ht' haction
    · exact h₂ t' ht'
    · exact ⟨t', .inr (.inr ht'), .refl t'⟩
    · exact h₃ t' ht'
  cases hs with
  | pullFetch _ _ _ haction =>
    refine hsame (fun x hx hxa => ?_) hpending hinflight
    rcases mem_append.mp hx with hx | hx
    · exact hwb x hx hxa
    · cases mem_singleton.mp hx
      simp [haction] at hxa
  | finishEviction t k v data action hbank haction hvictim hdata =>
    have ht : t ∈ a.bank := hbank ▸ mem_cons_self t k
    have hevicts : t.action = .bankEvictAndWrite ∨ t.action = .bankEvictAndFetch := by
      rcases evictedAction_ok haction with ⟨hx, -⟩ | ⟨hx, -⟩ | ⟨hx, -⟩
      · exact absurd hx (h.bank t ht)
      · exact .inr hx
      · exact .inl hx
    refine ⟨(· = { t with evictingData := some a.slices.next, action := action }), fun _ _ hx hy => hx.trans hy.symm, ?_, ?_⟩
    · rintro _ rfl
      exact ⟨t, ⟨ht, hevicts⟩, rfl, rfl, rfl, rfl, rfl, v, data, hvictim, hdata, rfl⟩
    · rintro x (⟨hx, hxa⟩ | hx | hx | hx)
      · rcases mem_append.mp hx with hx | hx
        · exact .inr (hwb x hx hxa)
        · exact .inl (mem_singleton.mp hx)
      · exact .inr (hpending x hx)
      · exact .inr ⟨x, .inr (.inr hx), .refl x⟩
      · exact .inr (hinflight x hx)
  | sendEviction t _ _ _ hp =>
    refine hsame hwb (fun x hx => hpending x (hp ▸ mem_cons_of_mem _ hx)) fun x hx => ?_
    rcases mem_append.mp hx with hx | hx
    · exact hinflight x hx
    · cases mem_singleton.mp hx
      exact ⟨t, .inr (.inl (hp ▸ mem_cons_self)), rfl, rfl, rfl, rfl, rfl⟩
  | writeDone =>
    refine hsame hwb hpending fun x hx => hinflight x ?_
    exact mem_reverse.mp (mem_of_mem_eraseP (mem_reverse.mp hx))
  | fetchLocal _ _ _ _ _ _ _ _ _ hw => exact hsame (fun x hx => hwb x (hw ▸ mem_cons_of_mem _ hx)) hpending hinflight
  | fetchBottom _ _ _ hw => exact hsame (fun x hx => hwb x (hw ▸ mem_cons_of_mem _ hx)) hpending hinflight
  | parkAndWrite t _ hw haction =>
    refine hsame (fun x hx => hwb x (hw ▸ mem_cons_of_mem _ hx)) (fun x hx => ?_) hinflight
    rcases mem_append.mp hx with hx | hx
    · exact hpending x hx
    · cases mem_singleton.mp hx
      exact ⟨t, .inl ⟨hw ▸ mem_cons_self, .inl haction⟩, rfl, rfl, rfl, rfl, rfl⟩
  | parkAndFetch t _ hw haction =>
    refine hsame (fun x hx hxa => ?_) (fun x hx => ?_) hinflight
    · rcases mem_cons.mp hx with rfl | hx
      · simp at hxa
      · exact hwb x (hw ▸ mem_cons_of_mem _ hx) hxa
    · rcases mem_append.mp hx with hx | hx
      · exact hpending x hx
      · cases mem_singleton.mp hx
        exact ⟨t, .inl ⟨hw ▸ mem_cons_self, .inr haction⟩, .refl t⟩
  | parkFlush t _ hw haction => exact absurd haction (h.wb t (hw ▸ mem_cons_self))
  | discardFlush => exact hl.elim
  | evictFlush | finishFlush => exact absurd ‹_› h.not_flushing
  | _ => exact hsame hwb hpending hinflight

theorem Copied.hasRead_of_find (hcopied : a.Copied H) {ev : Transaction} (hfind : a.find t = some ev) : a.HasRead H ev := by
  unfold find at hfind
  split at hfind
  · next x hx =>
    cases hfind
    exact .inr (.inr (hcopied.inflight _ (mem_of_find?_eq_some hx)))
  · exact .inr (.inl (mem_of_find?_eq_some hfind))

/-- The written bytes stay as they are when only careful fetches are served. -/
theorem HasData.step {arr : ArrayRef} (hdata : a.HasData t c arr) (hcopied : a.Copied H) (h : a.Calm)
    (hcareful : a.Careful l a') (hs : Step a l a') (ht : a.HasRead H t) (hfollows : a.Follows t c) : a'.HasData t c arr := by
  refine ⟨hdata.evictingData, hdata.line.grows (hs.grows h.inv.shaped), fun i hi hwritten => ?_⟩
  rcases hs.bytes hdata.line.1 with hsame | ⟨rfl, x, rest, ev, e, hwb, hfind, harr, hentry, hsame⟩
  · rw [hsame]
    exact hdata.data i hi hwritten
  · obtain ⟨m, hm, -, -, hbits⟩ := hfollows.mask
    have hmask := hcopied.paired ev t (hcopied.hasRead_of_find hfind) ht (harr.trans hdata.evictingData.symm)
    rw [hsame i fun w hw => ?_]
    · exact hdata.data i hi hwritten
    · by_contra htouches
      have hclear := hcareful.apart rfl x rest ev m e w hwb hfind (hmask.trans hm) hentry hw i hi
        (Bool.eq_true_of_not_eq_false htouches)
      rw [(hbits i hi).mpr hwritten] at hclear
      cases hclear

theorem Reads.hasData (hreads : a.Reads a' t t') (hstored : a.Stored t c b) : a'.HasData t' c a.slices.next := by
  obtain ⟨_, data, hv, hread, hslices⟩ := hreads.victim
  obtain ⟨_, hv', haddress⟩ := hstored.victim
  cases hv.symm.trans hv'
  refine ⟨hreads.fresh, ?_, fun i hi _ => ?_⟩
  · rw [hslices]
    exact Slices.line_newBytes (Storage.length_of_read hread)
  · have hget : (a'.slices.bytes a.slices.next).getD i 0 = data.getD i 0 := by simp [hslices, Slices.newBytes]
    rw [hget, Storage.read_eq_ok hread, ← hstored.data i hi, ← haddress]
    simp [getD_eq_getElem?_getD, hi]

theorem HasData.congr {arr : ArrayRef} (hdata : a.HasData t c arr) (h : t'.evictingData = t.evictingData) :
    a.HasData t' c arr :=
  ⟨h.trans hdata.evictingData, hdata.line, hdata.data⟩

theorem Copied.ne_next (hcopied : a.Copied H) (ht : a.HasRead H t) : t.evictingData ≠ some a.slices.next := by
  obtain ⟨_, -, -, _, hdata⟩ := hcopied.hasRead t ht
  rw [hdata.evictingData]
  intro heq
  exact Nat.lt_irrefl _ (Option.some.inj heq ▸ hdata.line.1)

theorem Copied.step (hcopied : a.Copied H) (h : a.Calm) (hacc : a.Accounted H) (hcareful : a.Careful l a')
    (hs : Step a l a') :
    a'.Copied (H.next a a') := by
  obtain ⟨p, hunique, hreads, hcases⟩ := hcopied.hasRead_cases h hcareful.unflushed hs
  have hfresh : ∀ {t'}, p t' → t'.evictingData = some a.slices.next := fun ht' => (hreads _ ht').elim fun _ hr => hr.fresh
  constructor
  case willRead => exact fun t ht => hcopied.willRead_step h hacc hcareful hs ht
  case hasRead =>
    intro t' ht'
    rcases hcases t' ht' with hp | ⟨t, ht, hsame⟩
    · obtain ⟨t, hr⟩ := hreads t' hp
      obtain ⟨c, hc, hfollows, _, hstored⟩ := hcopied.willRead t hr.willRead
      exact ⟨c, History.chosen_next hc, (hfollows.step h hs).congr hr.id hr.pid hr.address hr.mask, _, hr.hasData hstored⟩
    · obtain ⟨c, hc, hfollows, arr, hdata⟩ := hcopied.hasRead t ht
      exact ⟨c, History.chosen_next hc, (hfollows.step h hs).congr hsame.id hsame.pid hsame.address hsame.mask, arr,
        (hdata.step hcopied h hcareful hs ht hfollows).congr hsame.data⟩
  case paired =>
    intro t' t'' ht' ht'' heq
    rcases hcases t' ht' with hp | ⟨t, ht, hsame⟩ <;> rcases hcases t'' ht'' with hp' | ⟨x, hx, hsame'⟩
    · rw [hunique t' t'' hp hp']
    · exact absurd (hsame'.data.symm.trans (heq.symm.trans (hfresh hp))) (hcopied.ne_next hx)
    · exact absurd (hsame.data.symm.trans (heq.trans (hfresh hp'))) (hcopied.ne_next ht)
    · rw [hsame.mask, hsame'.mask]
      exact hcopied.paired t x ht hx (hsame.data.symm.trans (heq.trans hsame'.data))
  case inflight => exact fun t ht => .inr ht

/-! ## IDs of choices -/

theorem Step.dir (hs : Step a l a') {x : Transaction} (hx : x ∈ a'.dir) : x ∈ a.dir ∨ x.id = a.nextID := by
  have hold : ∀ {y : Transaction} {d : Multiset Transaction}, a.dir = y ::ₘ d → x ∈ d → x ∈ a.dir ∨ x.id = a.nextID :=
    fun hdir hd => .inl (hdir ▸ Multiset.mem_cons_of_mem hd)
  cases hs with
  | accept req =>
    rcases Multiset.mem_cons.mp hx with rfl | hx
    · cases req <;> exact .inr rfl
    · exact .inl hx
  | join | readHit | writeHit | evictAndFetch | evictAndWrite | fetch => exact hold ‹_› hx
  | discardFlush => exact absurd hx (Multiset.notMem_zero x)
  | _ => exact .inl hx

theorem Step.nextID_le (hs : Step a l a') : a.nextID ≤ a'.nextID := by
  cases hs with
  | accept | sendEviction | fetchBottom => exact Nat.le_succ _
  | _ => exact le_rfl

/-- Each choice has an ID of its own, that of no transaction in the directory stage. -/
structure Identified (a : Flow cfg) (H : History) : Prop where
  injOn : Set.InjOn Choice.id H.chosen
  lt : ∀ c ∈ H.chosen, c.id < a.nextID
  dir : ∀ c ∈ H.chosen, ∀ x ∈ a.dir, x.id ≠ c.id

/-- The ID of what comes to the bank to evict a block was in the directory stage, and is there no more. -/
theorem Evicts.id_taken (he : a.Evicts a' t b) (h : a.Calm) :
    (∃ x ∈ a.dir, x.id = t.id) ∧ t.id < a.nextID ∧ ∀ x ∈ a'.dir, x.id ≠ t.id := by
  obtain ⟨t₀, d, hdir, hdir', hid⟩ := he.taken
  have hmem : t₀ ∈ a.ledger.dir := show t₀ ∈ a.dir from hdir ▸ mem_cons_self t₀ d
  refine ⟨⟨t₀, hmem, hid.symm⟩, ?_, fun x hx heq => ?_⟩
  · obtain ⟨y, hy, hyid⟩ := h.inv.custody.dir_live t₀ hmem
    rw [hid, ← hyid]
    exact h.inv.custody.inFlight_lt y hy
  · -- one transaction holds each ID
    have hle := h.inv.custody.holders_le t₀.id
    have hcount : a.ledger.dir.countP (fun y => y.id = t₀.id) = (d.countP fun y => y.id = t₀.id) + 1 := by
      show a.dir.countP _ = _
      rw [hdir, Multiset.countP_cons, if_pos rfl]
    have hpos : 0 < d.countP fun y => y.id = t₀.id := Multiset.countP_pos.mpr ⟨x, hdir' ▸ hx, heq.trans hid⟩
    unfold Ledger.holders at hle
    omega

theorem Identified.step (hids : a.Identified H) (h : a.Calm) (hl : a.Unflushed l) (hs : Step a l a') :
    a'.Identified (H.next a a') := by
  have hevicts : ∀ {t b}, a.Chooses a' t b → a.Evicts a' t b := by
    intro t b hchooses
    obtain ⟨b', he, -⟩ := h.evicts hl hs hchooses.enters hchooses.evicts
    cases he.block.symm.trans hchooses.block
    exact he
  have hnew : ∀ {c t b}, c ∈ H.chosen → a.Chooses a' t b → c.id ≠ t.id := by
    intro c t b hc hchooses heq
    obtain ⟨⟨x, hx, hid⟩, -, -⟩ := (hevicts hchooses).id_taken h
    exact hids.dir c hc x hx (hid.trans heq.symm)
  constructor
  case injOn =>
    rintro c (hc | ⟨t, b, hchooses, rfl⟩) c' (hc' | ⟨t', b', hchooses', rfl⟩) heq
    · exact hids.injOn hc hc' heq
    · exact absurd heq (hnew hc hchooses')
    · exact absurd heq.symm (hnew hc' hchooses)
    · -- one transaction comes to the bank, for one block
      cases ((hevicts hchooses).enters t').mp hchooses'.enters
      cases hchooses.block.symm.trans hchooses'.block
      rfl
  case lt =>
    rintro c (hc | ⟨t, b, hchooses, rfl⟩)
    · exact (hids.lt c hc).trans_le hs.nextID_le
    · exact ((hevicts hchooses).id_taken h).2.1.trans_le hs.nextID_le
  case dir =>
    rintro c (hc | ⟨t, b, hchooses, rfl⟩) x hx
    · rcases hs.dir hx with hx | hid
      · exact hids.dir c hc x hx
      · rw [hid]
        exact (hids.lt c hc).ne'
    · exact ((hevicts hchooses).id_taken h).2.2 x hx

/-! ## In the beginning -/

section
variable {m : Memory}

theorem init_accounted : ((init cfg m).flow []).Accounted {} where
  unshared b b' m' hb _ := by
    have hb : (((init cfg m).flow []).ledger.blocks b).dirtyMask = some m' := hb
    rw [init_blocks] at hb
    cases hb
  marked b _ hvalid := by
    have hvalid : (((init cfg m).flow []).ledger.blocks b).isValid = true := hvalid
    rw [init_blocks] at hvalid
    cases hvalid

theorem init_copied : ((init cfg m).flow []).Copied {} where
  willRead t ht := by
    have hwork : t ∈ ((init cfg m).flow []).work := mem_work.mpr (.inl ht.1)
    simp [init_work] at hwork
  hasRead t ht := by
    rcases ht with ⟨ht, -⟩ | ht | ht
    · exact absurd ht not_mem_nil
    · exact absurd ht not_mem_nil
    · exact ht.elim
  paired t t' ht := by
    rcases ht with ⟨ht, -⟩ | ht | ht
    · exact absurd ht not_mem_nil
    · exact absurd ht not_mem_nil
    · exact ht.elim
  inflight t ht := absurd ht not_mem_nil

theorem init_identified : ((init cfg m).flow []).Identified {} where
  injOn _ hc := hc.elim
  lt _ hc := hc.elim
  dir _ hc := hc.elim

end

end Flow

end Akita.WriteBack
