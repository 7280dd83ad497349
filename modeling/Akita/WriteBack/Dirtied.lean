import Akita.WriteBack.Calm

/-!
# Masks of blocks

The mask of a valid block is set for the bytes written to the block since it was last filled or allocated. While the block
waits for its line, or for a write of the whole line, its mask is the one of the line it had before.

* `Flow.Marked` : the mask of a block is as the notes say;
* `Flow.Accounted` : each valid block is marked or awaits a new mask.
-/

namespace Akita.WriteBack
open Sim Pipelining Mem Mem.Cache Option List Function
open Multiset (add_cons cons_add cons_coe le_cons_self mem_cons mem_cons_of_mem mem_cons_self)
open Transaction (writesTo)
open WriteBack.Action (isWrite)
open DirectoryStage (isWritingFullLine)

variable {cfg : Config}

namespace Flow

variable {a a' : Flow cfg} {l : Label} {H : History}

/-- The mask of the block is set for the bytes written to it since it was last filled or allocated. -/
def Marked (a : Flow cfg) (H : History) (b : BlockRef) : Prop :=
  ∃ m, (a.blocks b).dirtyMask = some m ∧ ∀ i < cfg.blockSize, (a.slices.masks m).getD i false = true ↔ i ∈ H.written b

/-- The block will get a new mask with its line, or a write of the whole line. -/
def Awaits (a : Flow cfg) (b : BlockRef) : Prop :=
  a.Waits b ∨ ∃ t ∈ a.work, ∃ w, t.writesTo b = true ∧ t.write = some w ∧ isWritingFullLine cfg w = true

structure Accounted (a : Flow cfg) (H : History) : Prop where
  unshared : ∀ b b' m, (a.blocks b).dirtyMask = some m → (a.blocks b').dirtyMask = some m → b = b'
  marked : ∀ b, b.gen = a.gen → (a.blocks b).isValid = true → a.Marked H b ∨ a.Awaits b

variable {t : Transaction} {b : BlockRef}

theorem Calm.writes_step (h : a.Calm) (hl : a.Unflushed l) (hs : Step a l a') (ht : t ∈ a.work)
    (hwrites : t.writesTo b = true) :
    (∃ t' ∈ a'.work, t'.writesTo b = true ∧ t'.write = t.write) ∨ t.action = .bankWriteHit ∧ a.Leaves a' t := by
  have haction : t.action.isWrite = true := by
    simp only [writesTo, Bool.and_eq_true] at hwrites
    exact hwrites.1
  -- another transaction comes, goes, or is handed on
  have hcome : ∀ {x : Transaction}, t ∈ (x ::ₘ a.bank) + a.toBank + ↑a.wb + ↑a.fetches := by
    intro x
    rw [cons_add, cons_add, cons_add]
    exact mem_cons_of_mem ht
  have hgo : ∀ {x : Transaction} {w : Multiset Transaction}, a.work = x ::ₘ w → x.action.isWrite = false → t ∈ w := by
    intro x w hw hx
    refine (mem_cons.mp (hw ▸ ht)).resolve_left ?_
    rintro rfl
    rw [haction] at hx
    cases hx
  have hhand : ∀ {x : Transaction} (x' : Transaction) {w w' : Multiset Transaction}, a.work = x ::ₘ w → w' = x' ::ₘ w →
      (t = x → x'.writesTo b = true ∧ x'.write = t.write) → ∃ t' ∈ w', t'.writesTo b = true ∧ t'.write = t.write := by
    rintro x x' w _ hw rfl hlike
    rcases mem_cons.mp (hw ▸ ht) with heq | ht
    · exact ⟨x', mem_cons_self _ _, hlike heq⟩
    · exact ⟨t, mem_cons_of_mem ht, hwrites, rfl⟩
  cases hs with
  | readHit | writeHit | evictAndFetch | evictAndWrite | fetch => exact .inl ⟨t, hcome, hwrites, rfl⟩
  | pullFetch x k hbank =>
    refine .inl (hhand (x := x) x (w := k + a.toBank + ↑a.wb + ↑a.fetches) ?_ ?_ fun heq => ⟨heq ▸ hwrites, heq ▸ rfl⟩)
    · simp only [work, hbank, cons_add]
    · simp only [work, coe_concat, cons_add, add_cons]
  | pullUp x k htoBank =>
    refine .inl (hhand (x := x) x (w := a.bank + k + ↑a.wb + ↑a.fetches) ?_ ?_ fun heq => ⟨heq ▸ hwrites, heq ▸ rfl⟩)
    · simp only [work, htoBank, cons_add, add_cons]
    · simp only [work, cons_add]
  | finishRead x _ _ _ _ hbank hx =>
    exact .inl ⟨t, hgo (x := x) (by simp only [work, hbank, cons_add]) (by simp [hx, isWrite]), hwrites, rfl⟩
  | finishWrite x k _ _ _ _ _ _ _ _ hbank hx =>
    have hwork : a.work = x ::ₘ (k + a.toBank + ↑a.wb + ↑a.fetches) := by simp only [work, hbank, cons_add]
    rcases mem_cons.mp (hwork ▸ ht) with rfl | ht
    · exact .inr ⟨hx, (leaves_cons hbank rfl).mpr rfl⟩
    · exact .inl ⟨t, ht, hwrites, rfl⟩
  | finishFetched x _ _ _ _ _ hbank hx =>
    exact .inl ⟨t, hgo (x := x) (by simp only [work, hbank, cons_add]) (by simp [hx, isWrite]), hwrites, rfl⟩
  | finishEviction x k _ _ action hbank hx =>
    refine .inl (hhand (x := x) { x with evictingData := some a.slices.next, action := action }
      (w := k + a.toBank + ↑a.wb + ↑a.fetches) (by simp only [work, hbank, cons_add])
      (by simp only [work, coe_concat, cons_add, add_cons]) fun heq => ?_)
    subst heq
    refine ⟨?_, rfl⟩
    simp only [writesTo, Bool.and_eq_true] at hwrites ⊢
    refine ⟨?_, hwrites.2⟩
    rcases evictedAction_ok hx with ⟨hold, rfl⟩ | ⟨hold, rfl⟩ | ⟨-, rfl⟩
    · simp [hold, isWrite] at haction
    · simp [hold, isWrite] at haction
    · rfl
  | dataReady rsp _ x _ _ _ _ _ _ hx =>
    have hmem := hgo (x := x) (w := a.bank + a.toBank + ↑a.wb + ↑(a.fetches.eraseP (awaitsRead rsp.respondTo)))
      (by simp only [work, coe_eraseP hx, add_cons])
      (by simp [h.inv.shaped.fetches x (mem_of_find?_eq_some hx), isWrite])
    refine .inl ⟨t, ?_, hwrites, rfl⟩
    simp only [work, cons_add, add_cons]
    exact mem_cons_of_mem hmem
  | fetchLocal x rest _ _ _ _ _ _ _ hwb hx =>
    have hmem := hgo (x := x) (w := a.bank + a.toBank + ↑rest + ↑a.fetches)
      (by simp only [work, hwb, ← cons_coe, cons_add, add_cons]) (by simp [hx, isWrite])
    refine .inl ⟨t, ?_, hwrites, rfl⟩
    simp only [work, cons_add, add_cons]
    exact mem_cons_of_mem hmem
  | fetchBottom x rest _ hwb hx =>
    have hmem := hgo (x := x) (w := a.bank + a.toBank + ↑rest + ↑a.fetches)
      (by simp only [work, hwb, ← cons_coe, cons_add, add_cons]) (by simp [hx, isWrite])
    refine .inl ⟨t, ?_, hwrites, rfl⟩
    simp only [work, coe_concat, add_cons]
    exact mem_cons_of_mem hmem
  | parkAndWrite x rest hwb =>
    refine .inl (hhand (x := x) { x with action := .bankWriteHit } (w := a.bank + a.toBank + ↑rest + ↑a.fetches)
      (by simp only [work, hwb, ← cons_coe, cons_add, add_cons])
      (by simp only [work, cons_add, add_cons]) fun heq => ?_)
    subst heq
    simp only [writesTo, Bool.and_eq_true] at hwrites ⊢
    exact ⟨⟨rfl, hwrites.2⟩, trivial⟩
  | parkAndFetch x rest hwb hx =>
    have hmem := hgo (x := x) (w := a.bank + a.toBank + ↑rest + ↑a.fetches)
      (by simp only [work, hwb, ← cons_coe, cons_add, add_cons]) (by simp [hx, isWrite])
    refine .inl ⟨t, ?_, hwrites, rfl⟩
    simp only [work, ← cons_coe, cons_add, add_cons]
    exact mem_cons_of_mem hmem
  | parkFlush x _ hwb hx => exact absurd hx (h.wb x (hwb ▸ mem_cons_self))
  | discardFlush => exact hl.elim
  | evictFlush _ _ _ hflush => exact absurd hflush h.not_flushing
  | _ => exact .inl ⟨t, ht, hwrites, rfl⟩

/-- The step leaves the line and the mask of block `b` alone. -/
structure Keeps (a a' : Flow cfg) (b : BlockRef) : Prop where
  dirtyMask : (a'.blocks b).dirtyMask = (a.blocks b).dirtyMask
  mask : ∀ m, (a.blocks b).dirtyMask = some m → a'.slices.masks m = a.slices.masks m
  isValid : (a'.blocks b).isValid = true → (a.blocks b).isValid = true
  pid : (a'.blocks b).pid = (a.blocks b).pid
  tag : (a'.blocks b).tag = (a.blocks b).tag
  fills : ∀ e, ¬ a.Fills a' e b
  puts : ∀ w, ¬ a.Puts a' w b

/-- The bank writes `w` to block `b` and marks its bytes. -/
structure Marks (a a' : Flow cfg) (w : TopWrite) (b : BlockRef) : Prop where
  writer : ∃ t k, a.work = t ::ₘ k ∧ t.writesTo b = true ∧ t.write = some w
  puts : ∀ w', a.Puts a' w' b ↔ w' = w
  fills : ∀ e, ¬ a.Fills a' e b
  pid : (a'.blocks b).pid = (a.blocks b).pid
  tag : (a'.blocks b).tag = (a.blocks b).tag
  mask : ∃ m, (a'.blocks b).dirtyMask = some m ∧ ((a.blocks b).dirtyMask = some m ∨ m = a.slices.next) ∧
    (∀ i, touches cfg w i = true → (a'.slices.masks m).getD i false = true) ∧
    ∀ m', (a.blocks b).dirtyMask = some m' → ∀ i, (a'.slices.masks m).getD i false =
      (touches cfg w i || (a.slices.masks m').getD i false)

/-- Block `b` gets the line of entry `e` and a new mask. -/
structure Renews (a a' : Flow cfg) (e : EntryRef) (b : BlockRef) : Prop where
  puts : ∀ w, ¬ a.Puts a' w b
  fills : ∀ e', a.Fills a' e' b ↔ e' = e
  mask : ∃ m, (a'.blocks b).dirtyMask = some m ∧ a.slices.next ≤ m ∧
    ∀ i, (a'.slices.masks m).getD i false = true ↔ ∃ w ∈ writesOf (a.mshr.heap e).requests, touches cfg w i = true

theorem writes_of_isWrite (haction : t.action.isWrite = true) (hblock : t.block = some b) :
    t.writesTo b = true := by
  simp [writesTo, haction, hblock]

theorem getD_replicate (n i : Nat) : (replicate n false).getD i false = false := by
  rw [getD_eq_getElem?_getD, getElem?_replicate]
  split <;> rfl

variable {slices : Slices} {mask : Mask}

theorem Calm.renews (h : a.Calm) {arr : ArrayRef} {e : EntryRef} {data : Bytes}
    {dirty : Bool} (hfill : a.Fill slices t arr e b data mask dirty) (hnext : a.slices.next ≤ slices.next)
    (hmshr : a'.mshr.entries = a.mshr.entries.erase e) (hblocks : a'.blocks = fillBlock a.blocks b slices.next dirty)
    (hslices : a'.slices = fillSlices slices arr data mask) (hbank : a'.bank = a.bank) : a.Renews a' e b where
  puts _ := not_puts fun _ hx => absurd hx (not_leaves hbank.ge)
  fills e' := by
    have hnodup : a.mshr.entries.Nodup := by
      refine nodup_iff_count_le_one.mpr fun e => ?_
      have hle := h.inv.custody.held_le e
      simp only [Ledger.held, Multiset.count_add, Multiset.coe_count] at hle
      exact (Nat.le_add_right _ _).trans ((Nat.le_add_right _ _).trans hle)
    constructor
    · intro hf
      by_contra hne
      exact hf.done (hmshr ▸ (mem_erase_of_ne hne).mpr hf.waits)
    · rintro rfl
      exact ⟨hfill.waits, hmshr ▸ hnodup.not_mem_erase, hfill.block⟩
  mask := by
    refine ⟨slices.next, by simp [hblocks, fillBlock], hnext, fun i => ?_⟩
    have hget : a'.slices.masks slices.next = mask := by simp [hslices, fillSlices]
    rw [hget, (combineRequests_getD hfill.combine i).1, getD_replicate]
    simp

theorem Calm.keeps_fill (h : a.Calm) {arr : ArrayRef} {e : EntryRef} {b b₀ : BlockRef} {data : Bytes}
    {dirty : Bool} (hfill : a.Fill slices t arr e b₀ data mask dirty) (hnext : a.slices.next ≤ slices.next) (hne : b ≠ b₀)
    (hmshr : a'.mshr.entries = a.mshr.entries.erase e) (hblocks : a'.blocks = fillBlock a.blocks b₀ slices.next dirty)
    (hslices : a'.slices.masks = update a.slices.masks slices.next mask) (hbank : a'.bank = a.bank) : a.Keeps a' b := by
  have hblk : a'.blocks b = a.blocks b := by rw [hblocks, fillBlock, update_of_ne hne]
  refine ⟨congrArg Block.dirtyMask hblk, fun m hm => ?_, fun hv => congrArg Block.isValid hblk ▸ hv, congrArg Block.pid hblk,
    congrArg Block.tag hblk, fun e' hf => ?_, fun _ => not_puts fun _ hx => absurd hx (not_leaves hbank.ge)⟩
  · rw [hslices]
    exact update_of_ne (Nat.ne_of_lt ((h.inv.shaped.masks b m hm).1.trans_le hnext)) _ _
  · have heq : e' = e := by
      by_contra hne'
      exact hf.done (hmshr ▸ (mem_erase_of_ne hne').mpr hf.waits)
    subst heq
    exact hne (some.inj (hf.block.symm.trans hfill.block))

variable {w : TopWrite}

theorem Calm.marks (h : a.Calm) {k : Multiset Transaction} {m : ArrayRef}
    {data data' : Bytes} (hbank : a.bank = t ::ₘ k) (hbank' : a'.bank = k) (haction : t.action = .bankWriteHit)
    (hwrite : t.write = some w) (hblock : t.block = some b)
    (hmask : BankStage.dirtyMaskOf cfg a.slices (a.blocks b) = (m, slices))
    (hover : overlay data (slices.masks m) (offsetOf cfg w.address) w.data w.dirtyMask = .ok (data', mask))
    (hblocks : a'.blocks = update a.blocks b
      { a.blocks b with isValid := true, isLocked := false, isDirty := true, dirtyMask := some m })
    (hslices : a'.slices = slices.setMask m mask) (hmshr : a'.mshr = a.mshr) : a.Marks a' w b where
  writer := by
    refine ⟨t, k + a.toBank + ↑a.wb + ↑a.fetches, ?_, writes_of_isWrite (by simp [haction, isWrite]) hblock, hwrite⟩
    simp only [work, hbank, cons_add]
  puts w' := by
    constructor
    · rintro ⟨x, hleaves, -, hx, -⟩
      rw [leaves_cons hbank hbank'] at hleaves
      rw [hleaves, hwrite, some.injEq] at hx
      exact hx.symm
    · rintro rfl
      exact ⟨t, (leaves_cons hbank hbank').mpr rfl, haction, hwrite, hblock⟩
  fills _ := not_fills fun e he => hmshr ▸ he
  pid := by simp [hblocks]
  tag := by simp [hblocks]
  mask := by
    have hget : a'.slices.masks m = mask := by simp [hslices, Slices.setMask]
    refine ⟨m, by simp [hblocks], (dirtyMaskOf_cases hmask).imp And.left And.left, fun i hi => ?_, fun m' hm' i => ?_⟩
    · rw [hget, (overlay_getD hover i).2]
      exact Bool.or_eq_true_iff.mpr (.inl hi)
    · rcases dirtyMaskOf_cases hmask with ⟨hold, rfl⟩ | ⟨rfl, -⟩
      · cases hold.symm.trans hm'
        rw [hget, (overlay_getD hover i).2]
        rfl
      · -- a block with a mask gets no new one
        unfold BankStage.dirtyMaskOf at hmask
        rw [hm'] at hmask
        cases hmask
        exact absurd (h.inv.shaped.masks b _ hm').1 (Nat.lt_irrefl _)

/-- **What a step does to a block.** -/
theorem Calm.block_cases (h : a.Calm)
    (hunshared : ∀ b b' m, (a.blocks b).dirtyMask = some m → (a.blocks b').dirtyMask = some m → b = b') (hl : a.Unflushed l)
    (hs : Step a l a') (b : BlockRef) : a.Keeps a' b ∨ a'.Awaits b ∨ (∃ w, a.Marks a' w b) ∨ ∃ e, a.Renews a' e b := by
  -- a step that leaves the block, but for its locks and readers
  have hkeep : ∀ {blk : Block}, a'.blocks b = blk → blk.dirtyMask = (a.blocks b).dirtyMask →
      (blk.isValid = true → (a.blocks b).isValid = true) → blk.pid = (a.blocks b).pid → blk.tag = (a.blocks b).tag →
      (∀ m, (a.blocks b).dirtyMask = some m → a'.slices.masks m = a.slices.masks m) →
      (∀ e ∈ a.mshr.entries, e ∈ a'.mshr.entries) → (∀ t, a.Leaves a' t → t.action ≠ .bankWriteHit) → a.Keeps a' b := by
    rintro blk rfl hdirty hvalid hpid htag hmask hentries hleaves
    exact ⟨hdirty, hmask, hvalid, hpid, htag, fun _ => not_fills hentries, fun _ => not_puts hleaves⟩
  have hstay : a.bank ≤ a'.bank → ∀ t, a.Leaves a' t → t.action ≠ .bankWriteHit := fun hle _ ht => absurd ht (not_leaves hle)
  have hpop : ∀ {x : Transaction} {k : Multiset Transaction}, a.bank = x ::ₘ k → a'.bank = k → x.action ≠ .bankWriteHit →
      ∀ t, a.Leaves a' t → t.action ≠ .bankWriteHit := by
    intro x k hbank hbank' hx t ht
    rw [leaves_cons hbank hbank'] at ht
    rwa [ht]
  have hallocate : ∀ (pid : PID) (line : Nat) (t : Transaction), a'.mshr = allocate a.mshr pid line b t → a'.Awaits b := by
    intro pid line t hmshr
    refine .inl ⟨a.mshr.nextRef, ?_, ?_⟩
    · rw [hmshr]
      exact mem_append_right _ (mem_singleton_self _)
    · simp [hmshr, allocate]
  have hwriter : ∀ {t : Transaction} {w : TopWrite}, t ∈ a'.bank → t.action.isWrite = true →
      t.block = some b → t.write = some w →
      isWritingFullLine cfg w = true → a'.Awaits b :=
    fun ht haction hblock hwrite hfull =>
      .inr ⟨_, mem_work.mpr (.inl ht), _, writes_of_isWrite haction hblock, hwrite, hfull⟩
  cases hs with
  | readHit _ _ _ b₀ =>
    by_cases heq : b = b₀
    · subst heq
      exact .inl (hkeep (update_self ..) rfl id rfl rfl (fun _ _ => rfl) (fun _ he => he) (hstay (le_cons_self _ _)))
    · exact .inl (hkeep (update_of_ne heq ..) rfl id rfl rfl (fun _ _ => rfl) (fun _ he => he) (hstay (le_cons_self _ _)))
  | writeHit _ _ _ b₀ _ _ hwrite _ _ _ _ hb =>
    by_cases heq : b = b₀
    · subst heq
      rcases hb with ⟨hvalid, htag, hpid⟩ | ⟨-, hfull, -⟩
      · exact .inl (hkeep (update_self ..) rfl (fun _ => hvalid) hpid.symm htag.symm (fun _ _ => rfl) (fun _ he => he)
          (hstay (le_cons_self _ _)))
      · exact .inr (.inl (hwriter (mem_cons_self _ _) rfl rfl hwrite hfull))
    · exact .inl (hkeep (update_of_ne heq ..) rfl id rfl rfl (fun _ _ => rfl) (fun _ he => he) (hstay (le_cons_self _ _)))
  | evictAndFetch | fetch =>
    by_cases heq : b = ‹_›
    · subst heq
      exact .inr (.inl (hallocate _ _ _ rfl))
    · exact .inl (hkeep (update_of_ne heq ..) rfl id rfl rfl (fun _ _ => rfl) (fun _ he => mem_append_left _ he)
        (hstay (le_cons_self _ _)))
  | evictAndWrite _ _ _ b₀ _ _ hwrite _ _ _ _ hfull =>
    by_cases heq : b = b₀
    · subst heq
      exact .inr (.inl (hwriter (mem_cons_self _ _) rfl rfl hwrite hfull))
    · exact .inl (hkeep (update_of_ne heq ..) rfl id rfl rfl (fun _ _ => rfl) (fun _ he => he) (hstay (le_cons_self _ _)))
  | pullFetch _ _ hbank haction =>
    exact .inl (hkeep rfl rfl id rfl rfl (fun _ _ => rfl) (fun _ he => he) (hpop hbank rfl (by simp [haction])))
  | pullUp =>
    exact .inl (hkeep rfl rfl id rfl rfl (fun _ _ => rfl) (fun _ he => he) (hstay (le_cons_self _ _)))
  | finishRead _ _ _ b₀ _ hbank haction =>
    have hleaves := hpop hbank rfl (by simp [haction])
    by_cases heq : b = b₀
    · subst heq
      exact .inl (hkeep (update_self ..) rfl id rfl rfl (fun _ _ => rfl) (fun _ he => he) hleaves)
    · exact .inl (hkeep (update_of_ne heq ..) rfl id rfl rfl (fun _ _ => rfl) (fun _ he => he) hleaves)
  | finishWrite _ _ w b₀ m slices _ _ _ _ hbank haction hwrite hblock _ _ hmask hover =>
    by_cases heq : b = b₀
    · subst heq
      exact .inr (.inr (.inl ⟨w, h.marks hbank rfl haction hwrite hblock hmask hover rfl rfl rfl⟩))
    · have hblk := update_of_ne heq { a.blocks b₀ with
        isValid := true, isLocked := false, isDirty := true, dirtyMask := some m } a.blocks
      refine .inl ⟨congrArg Block.dirtyMask hblk, fun m' hm' => ?_, fun hv => congrArg Block.isValid hblk ▸ hv,
        congrArg Block.pid hblk, congrArg Block.tag hblk, fun _ => not_fills fun _ he => he, ?_⟩
      · rcases dirtyMaskOf_cases hmask with ⟨hold, rfl⟩ | ⟨rfl, rfl⟩
        · refine update_of_ne ?_ _ _
          rintro rfl
          exact heq (hunshared b b₀ m' hm' hold)
        · have hne : m' ≠ a.slices.next := Nat.ne_of_lt (h.inv.shaped.masks b m' hm').1
          exact (update_of_ne hne ..).trans (update_of_ne hne ..)
      · rintro w' ⟨x, hx, -, -, hxb⟩
        rw [leaves_cons hbank rfl] at hx
        rw [hx, hblock, some.injEq] at hxb
        exact heq hxb.symm
  | finishFetched t k e b₀ _ _ hbank haction hentry hblock =>
    have hleaves := hpop hbank rfl (by simp [haction])
    by_cases heq : b = b₀
    · subst heq
      have hfilled : e ∈ a.ledger.filled :=
        Ledger.mem_filled.mpr ⟨t, mem_work.mpr (.inl (hbank ▸ mem_cons_self t k)), haction, hentry⟩
      have hgen := h.current.entries e (Ledger.mem_held.mpr (.inr (.inl hfilled))) b hblock
      have hholds := h.inv.ownership.entries e (Ledger.mem_opened.mpr (.inr hfilled)) b hblock hgen
      exact .inl (hkeep (update_self ..) rfl (fun _ => hholds.1) rfl rfl (fun _ _ => rfl) (fun _ he => he) hleaves)
    · exact .inl (hkeep (update_of_ne heq ..) rfl id rfl rfl (fun _ _ => rfl) (fun _ he => he) hleaves)
  | finishEviction _ _ _ _ _ hbank haction =>
    refine .inl (hkeep rfl rfl id rfl rfl (fun _ _ => rfl) (fun _ he => he) (hpop hbank rfl ?_))
    rcases evictedAction_ok haction with ⟨ha, -⟩ | ⟨ha, -⟩ | ⟨ha, -⟩ <;> simp [ha]
  | dataReady _ _ _ e b₀ _ _ _ _ _ hfill =>
    by_cases heq : b = b₀
    · subst heq
      exact .inr (.inr (.inr ⟨e, h.renews hfill (Nat.le_succ _) rfl rfl rfl rfl⟩))
    · exact .inl (h.keeps_fill hfill (Nat.le_succ _) heq rfl rfl rfl rfl)
  | fetchLocal _ _ _ _ e b₀ _ _ _ _ _ _ _ hfill =>
    by_cases heq : b = b₀
    · subst heq
      exact .inr (.inr (.inr ⟨e, h.renews hfill le_rfl rfl rfl rfl rfl⟩))
    · exact .inl (h.keeps_fill hfill le_rfl heq rfl rfl rfl rfl)
  | discardFlush => exact hl.elim
  | evictFlush | finishFlush => exact absurd ‹_› h.not_flushing
  | _ => exact .inl (hkeep rfl rfl id rfl rfl (fun _ _ => rfl) (fun _ he => he) (hstay le_rfl))

theorem Calm.legal_of_writes (h : a.Calm) (ht : t ∈ a.work)
    (hwrites : t.writesTo b = true) (hw : t.write = some w) : Legal cfg (.write w) := by
  have hshape := h.inv.shaped.work t ht
  simp only [writesTo, Bool.and_eq_true] at hwrites
  have hlegal : t.Writes cfg a.gen := by
    unfold Transaction.Shape at hshape
    cases hx : t.action <;> simp only [hx, isWrite, Bool.false_eq_true, false_and] at hshape hwrites
    · exact hshape
    · exact hshape.1
    · exact hshape.1
  obtain ⟨_, _, hasks, hlegal, -⟩ := hlegal
  cases hasks.2.symm.trans hw
  exact hlegal

theorem touches_of_full (hlegal : Legal cfg (.write w)) (hfull : isWritingFullLine cfg w = true) {i : Nat}
    (hi : i < cfg.blockSize) : touches cfg w i = true := by
  simp only [isWritingFullLine, Bool.and_eq_true, beq_iff_eq] at hfull
  have hfits : offsetOf cfg w.address + w.data.length ≤ cfg.blockSize := hlegal.fits
  have hoffset : offsetOf cfg w.address = 0 := by omega
  have hlt : i < w.data.length := by omega
  simp only [touches, covers, hoffset, Nat.zero_le, decide_true, Nat.zero_add, hlt, Bool.true_and, Nat.sub_zero]
  cases hmask : w.dirtyMask with
  | none => rfl
  | some mask =>
    have hlen : w.data.length ≤ mask.length := hlegal.mask w rfl mask hmask
    rw [hmask] at hfull
    have hmem : i < mask.length := hlt.trans_le hlen
    have hbit := all_eq_true.mp hfull.2 (mask[i]) (getElem_mem hmem)
    simp only [id_eq] at hbit
    show mask.getD i false = true
    rw [getD_eq_getElem?_getD, getElem?_eq_getElem hmem, getD_some, hbit]

theorem Calm.one_block (h : a.Calm) (hl : a.Unflushed l) (hs : Step a l a') :
    ∃ b₀, ∀ b, b ≠ b₀ → a'.blocks b = a.blocks b := by
  cases hs with
  | readHit _ _ _ b => exact ⟨b, fun _ hb => update_of_ne hb ..⟩
  | writeHit _ _ _ b => exact ⟨b, fun _ hb => update_of_ne hb ..⟩
  | evictAndFetch _ _ _ b => exact ⟨b, fun _ hb => update_of_ne hb ..⟩
  | evictAndWrite _ _ _ b => exact ⟨b, fun _ hb => update_of_ne hb ..⟩
  | fetch _ _ _ b => exact ⟨b, fun _ hb => update_of_ne hb ..⟩
  | finishRead _ _ _ b => exact ⟨b, fun _ hb => update_of_ne hb ..⟩
  | finishWrite _ _ _ b => exact ⟨b, fun _ hb => update_of_ne hb ..⟩
  | finishFetched _ _ _ b => exact ⟨b, fun _ hb => update_of_ne hb ..⟩
  | dataReady _ _ _ _ b => exact ⟨b, fun _ hb => update_of_ne hb ..⟩
  | fetchLocal _ _ _ _ _ b => exact ⟨b, fun _ hb => update_of_ne hb ..⟩
  | discardFlush => exact hl.elim
  | finishFlush _ hflush => exact absurd hflush h.not_flushing
  | _ => exact ⟨⟨0, 0, 0⟩, fun _ _ => rfl⟩

theorem Calm.gen_step (h : a.Calm) (hs : Step a l a') : a'.gen = a.gen := by
  cases hs with
  | finishFlush _ hflush => exact absurd hflush h.not_flushing
  | _ => rfl

section
variable (hacc : a.Accounted H) (h : a.Calm) (hl : a.Unflushed l) (hs : Step a l a')
include hacc h hl hs

theorem Accounted.unshared_step (b b' : BlockRef) (m : ArrayRef)
    (hb : (a'.blocks b).dirtyMask = some m) (hb' : (a'.blocks b').dirtyMask = some m) : b = b' := by
  rcases Nat.lt_or_ge m a.slices.next with hlt | hge
  · exact hacc.unshared b b' m (hs.dirtyMask hlt hb) (hs.dirtyMask hlt hb')
  · -- only the block that the step changes can have a new mask
    obtain ⟨b₀, hother⟩ := h.one_block hl hs
    have hnew : ∀ {b}, (a'.blocks b).dirtyMask = some m → b = b₀ := by
      intro b hb
      by_contra hne
      rw [hother b hne] at hb
      exact absurd (h.inv.shaped.masks b m hb).1 (Nat.not_lt.mpr hge)
    rw [hnew hb, hnew hb']

theorem Accounted.marked_step
    (hgen : b.gen = a.gen) (hvalid : (a'.blocks b).isValid = true) : a'.Marked (H.next a a') b ∨ a'.Awaits b := by
  rcases h.block_cases hacc.unshared hl hs b with hk | hawaits | ⟨w, hm⟩ | ⟨e, hr⟩
  · have hold : ∀ m, (a'.blocks b).dirtyMask = some m → m < a.slices.next :=
      fun m hm => (h.inv.shaped.masks b m (hk.dirtyMask.symm.trans hm)).1
    rcases hacc.marked b hgen (hk.isValid hvalid) with ⟨m, hm, hbits⟩ | hwaits | ⟨t, ht, w, hwrites, hw, hfull⟩
    · refine .inl ⟨m, hk.dirtyMask.trans hm, fun i hi => ?_⟩
      rw [hk.mask m hm, History.written_eq hk.fills hk.puts (not_allocates hk.isValid hk.pid hk.tag)]
      exact hbits i hi
    · refine (h.waits_step hs hwaits).elim (fun hw => .inr (.inl hw)) ?_
      rintro ⟨m, hm, hle⟩
      exact absurd (hold m hm) (Nat.not_lt.mpr hle)
    · rcases h.writes_step hl hs ht hwrites with ⟨t', ht', hwrites', hsame⟩ | ⟨haction, hleaves⟩
      · exact .inr (.inr ⟨t', ht', w, hwrites', hsame.trans hw, hfull⟩)
      · simp only [writesTo, Bool.and_eq_true, beq_iff_eq] at hwrites
        exact absurd ⟨t, hleaves, haction, hw, hwrites.2⟩ (hk.puts w)
  · exact .inr hawaits
  · obtain ⟨t, k, hwork, hwrites, hw⟩ := hm.writer
    have ht : t ∈ a.work := hwork ▸ mem_cons_self t k
    have hold : (a.blocks b).isValid = true := by
      have hwrites := hwrites
      simp only [writesTo, Bool.and_eq_true, beq_iff_eq] at hwrites
      exact (h.inv.ownership.hits t ht (Ledger.Action.isHit_of_isWrite hwrites.1) b hwrites.2 hgen).1
    have hkeeps := not_allocates (fun _ => hold) hm.pid hm.tag
    obtain ⟨m, hm', -, htouched, hbits'⟩ := hm.mask
    refine .inl ⟨m, hm', fun i hi => ?_⟩
    rw [History.mem_written_of_puts hm.fills hm.puts hkeeps]
    rcases hacc.marked b hgen hold with ⟨m₀, hm₀, hbits⟩ | ⟨e, he, hblock⟩ | ⟨t', ht', _, hwrites', hw', hfull⟩
    · rw [hbits' m₀ hm₀ i, Bool.or_eq_true, hbits i hi]
    · exact absurd hblock (h.not_waits ht hwrites e he)
    · -- a write of the whole line is the only one there is
      have heq : t' = t := (mem_cons.mp (hwork ▸ ht')).resolve_right fun hk => h.not_writes hwork hwrites hk hwrites'
      subst heq
      cases hw.symm.trans hw'
      have hi' := touches_of_full (h.legal_of_writes ht hwrites hw) hfull hi
      exact ⟨fun _ => .inl hi', fun _ => htouched i hi'⟩
  · obtain ⟨m, hm, -, hbits⟩ := hr.mask
    refine .inl ⟨m, hm, fun i _ => ?_⟩
    rw [hbits i, History.mem_written_of_fills hr.fills hr.puts]

theorem Accounted.step :
    a'.Accounted (H.next a a') where
  unshared := hacc.unshared_step h hl hs
  marked _ hgen hvalid := hacc.marked_step h hl hs (hgen.trans (h.gen_step hs)) hvalid

end

end Flow

end Akita.WriteBack
