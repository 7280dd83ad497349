import Akita.WriteBack.Conservation

/-!
# Blocks in use

* `Ledger.Current` : without discarding flushes nobody keeps a block of an old directory;
* `Flow.Spares` : a step leaves the line of a block in use alone;
* `Owned` : each line has one block, a locked block one owner, and `readCount` counts the readers.

`owned_of_reaches` : so it is in every run without discarding flushes.
-/

namespace Akita.WriteBack
open Sim Pipelining Mem Mem.Cache List Function
open Multiset (mem_cons mem_cons_of_mem mem_cons_self)

variable {cfg : Config}

namespace Ledger

/-- The blocks that hits and entries have are blocks of the directory. -/
structure Current (L : Ledger cfg) : Prop where
  hits : ∀ t ∈ L.work, t.action.isHit = true → ∀ b, t.block = some b → b.gen = L.gen
  entries : ∀ e ∈ L.held, ∀ b, (L.mshr.heap e).block = some b → b.gen = L.gen

section
variable {L L' : Ledger cfg} {t t' : Transaction} {w d : Multiset Transaction} {e : EntryRef}

/-- Transactions and entries move, and keep their blocks. -/
theorem Current.mono (h : L.Current) (hgen : L'.gen = L.gen)
    (hwork : ∀ t ∈ L'.work, t.action.isHit = true → ∃ t₀ ∈ L.work, t₀.action.isHit = true ∧ t₀.block = t.block)
    (hblock : ∀ e, (L'.mshr.heap e).block = (L.mshr.heap e).block) (hheld : ∀ e ∈ L'.held, e ∈ L.held) : L'.Current where
  hits := by
    intro t ht hhit b hb
    obtain ⟨t₀, ht₀, hhit₀, hblock₀⟩ := hwork t ht hhit
    rw [hgen]
    exact h.hits t₀ ht₀ hhit₀ b (hblock₀.trans hb)
  entries := by
    intro e he b hb
    rw [hgen]
    exact h.entries e (hheld e he) b ((hblock e).symm.trans hb)

theorem held_mono (hentries : ∀ e ∈ L'.mshr.entries, e ∈ L.mshr.entries)
    (hfilled : ∀ e, e ∈ L'.filled ∨ e ∈ L'.drain → e ∈ L.filled ∨ e ∈ L.drain) : ∀ e ∈ L'.held, e ∈ L.held := by
  intro e he
  rcases mem_held.mp he with he | he
  · exact mem_held.mpr (.inl (hentries e he))
  · exact mem_held.mpr (.inr (hfilled e he))

theorem block_modify {n : Nat} (m : MSHR n Transaction) (e e' : EntryRef) (requests : List Transaction) :
    ((m.modify e fun entry => { entry with requests := requests }).heap e').block = (m.heap e').block := by
  by_cases heq : e' = e
  · subst heq
    simp only [MSHR.heap_modify, update_self]
  · simp only [MSHR.heap_modify, update_of_ne heq]

variable {blocks : BlockRef → Block}

theorem Current.hit (h : L.Current) {b : BlockRef} (hblock : t'.block = some b) (hgen : b.gen = L.gen)
    (hhit : t'.action.isHit = true) : Current { L with dir := d, work := t' ::ₘ L.work, blocks := blocks } where
  hits := by
    intro t ht hhit' b' hb'
    rcases mem_cons.mp ht with rfl | ht
    · rw [hblock, Option.some.injEq] at hb'
      exact hb' ▸ hgen
    · exact h.hits t ht hhit' b' hb'
  entries := by
    have hheld : ∀ e ∈ held { L with dir := d, work := t' ::ₘ L.work, blocks := blocks }, e ∈ L.held := by
      refine held_mono (fun _ he => he) (filled_mono_of_mem rfl fun x hx ha => ?_)
      exact (mem_cons.mp hx).resolve_left fun heq => not_fill_of_hit hhit (heq ▸ ha)
    exact fun e he => h.entries e (hheld e he)

theorem Current.opening (h : L.Current) {pid : PID} {line : Nat} {b : BlockRef}
    (hgen : b.gen = L.gen) (haction : t'.action.isFetch = true) :
    Current { L with
      dir := d, work := t' ::ₘ L.work, mshr := Flow.allocate L.mshr pid line b t', blocks := blocks } where
  hits := by
    intro t ht hhit b' hb'
    rcases mem_cons.mp ht with rfl | ht
    · cases hx : t.action <;> simp [hx, Action.isHit, Action.isFetch] at hhit haction
    · exact h.hits t ht hhit b' hb'
  entries := by
    intro e he b' hb'
    by_cases heq : e = L.mshr.nextRef
    · simp only [Flow.allocate, heq, update_self, Option.some.injEq] at hb'
      exact hb' ▸ hgen
    · simp only [Flow.allocate, update_of_ne heq] at hb'
      refine h.entries e ?_ b' hb'
      rcases mem_held.mp he with he | he | he
      · exact mem_held.mpr (.inl ((mem_append.mp he).resolve_right fun hm => heq (mem_singleton.mp hm)))
      · obtain ⟨x, hx, ha, hentry⟩ := mem_filled.mp he
        refine mem_held.mpr (.inr (.inl (mem_filled.mpr ⟨x, (mem_cons.mp hx).resolve_left ?_, ha, hentry⟩)))
        rintro rfl
        rw [ha] at haction
        cases haction
      · exact mem_held.mpr (.inr (.inr he))

theorem Current.fill (h : L.Current) {arr : ArrayRef} (hwork : L.work = t ::ₘ w)
    (he : e ∈ L.mshr.entries) (haction' : t'.action = .bankWriteFetched) (hentry' : t'.mshrEntry = some e) :
    Current { L with work := t' ::ₘ w, mshr := Flow.fillMSHR L.mshr e arr, blocks := blocks } := by
  have hsub := mem_of_cons hwork
  refine h.mono rfl (fun x hx hhit => ?_) (fun e' => ?_) fun e' he' => ?_
  · rcases mem_cons.mp hx with rfl | hx
    · rw [haction'] at hhit
      cases hhit
    · exact ⟨x, hsub x hx, hhit, rfl⟩
  · by_cases heq : e' = e
    · subst heq
      simp only [Flow.fillMSHR, update_self]
    · simp only [Flow.fillMSHR, update_of_ne heq]
  · rcases mem_held.mp he' with he' | he' | he'
    · exact mem_held.mpr (.inl (mem_of_mem_erase he'))
    · obtain ⟨x, hx, ha, hentry⟩ := mem_filled.mp he'
      rcases mem_cons.mp hx with rfl | hx
      · rw [hentry', Option.some.injEq] at hentry
        exact mem_held.mpr (.inl (hentry ▸ he))
      · exact mem_held.mpr (.inr (.inl (mem_filled.mpr ⟨x, hsub x hx, ha, hentry⟩)))
    · exact mem_held.mpr (.inr (.inr he'))

/-- With nothing in flight nobody bears a request, and no entry is in use. -/
theorem Faithful.empty (h : L.Faithful) (hentries : L.Entries) (hin : L.inFlight = []) :
    (∀ t ∈ L.work, t.action.isHit = false) ∧ ∀ e, e ∉ L.held := by
  have hnobody : ∀ x, ¬ L.Bears x := by
    intro x hx
    obtain ⟨t, ht, -⟩ := h.present x hx
    rw [hin] at ht
    cases ht
  constructor
  · intro t ht
    cases hhit : t.action.isHit with
    | false => rfl
    | true => exact absurd (.inr (.inl ⟨ht, hhit⟩)) (hnobody t)
  · intro e he
    obtain ⟨x, hx⟩ := exists_mem_of_ne_nil _ (hentries.shape e he).requests
    exact hnobody x (.inr (.inr ⟨e, he, hx⟩))

end

theorem Current.step {L L' : Ledger cfg} (h : L.Current) (hf : L.Faithful) (hentries : L.Entries) (hs : L.Step L')
    (hd : L'.discarding = false) : L'.Current := by
  have hkeep : ∀ {w : Multiset Transaction}, (∀ x ∈ w, x ∈ L.work) → ∀ x ∈ w, x.action.isHit = true →
      ∃ t₀ ∈ L.work, t₀.action.isHit = true ∧ t₀.block = x.block :=
    fun hw x hx hhit => ⟨x, hw x hx, hhit, rfl⟩
  have hold : ∀ {w : Multiset Transaction}, (∀ x ∈ w, x ∈ L.work) → ∀ x ∈ w, x.action = .bankWriteFetched → x ∈ L.work :=
    fun hw x hx _ => hw x hx
  cases hs with
  | pass | accept => exact h.mono rfl (hkeep fun _ hx => hx) (fun _ => rfl) fun _ he => he
  | relabel t _ w hwork halike =>
    refine h.mono rfl (fun x hx hhit => ?_) (fun _ => rfl) (held_mono (fun _ he => he) (filled_mono rfl fun x hx ha => ?_))
    · rcases mem_cons.mp hx with rfl | hx
      · exact ⟨t, hwork ▸ mem_cons_self t w, halike.isHit ▸ hhit, halike.block.symm⟩
      · exact ⟨x, hwork ▸ mem_cons_of_mem hx, hhit, rfl⟩
    · rcases mem_cons.mp hx with rfl | hx
      · exact ⟨t, hwork ▸ mem_cons_self t w, halike.isFill.mp ha, halike.mshrEntry.symm⟩
      · exact ⟨x, hwork ▸ mem_cons_of_mem hx, ha, rfl⟩
  | drop _ w hwork =>
    have hsub := mem_of_cons hwork
    exact h.mono rfl (hkeep hsub) (fun _ => rfl) (held_mono (fun _ he => he) (filled_mono_of_mem rfl (hold hsub)))
  | add _ hidle =>
    refine h.mono rfl (fun x hx hhit => ?_) (fun _ => rfl)
      (held_mono (fun _ he => he) (filled_mono_of_mem rfl fun x hx ha => ?_))
    · rcases mem_cons.mp hx with rfl | hx
      · rw [hidle.isHit] at hhit
        cases hhit
      · exact ⟨x, hx, hhit, rfl⟩
    · exact (mem_cons.mp hx).resolve_left fun heq => hidle.isFill (heq ▸ ha)
  | join _ _ _ _ e _ _ _ he =>
    refine h.mono rfl (hkeep fun _ hx => hx) (fun e' => ?_) fun _ he => he
    by_cases heq : e' = e
    · subst heq
      simp only [MSHR.heap_modify, update_self]
    · simp only [MSHR.heap_modify, update_of_ne heq]
  | read _ _ _ _ _ _ _ haction hblock _ hset =>
    exact h.hit hblock (inSet_gen hset) (by rw [haction]; rfl)
  | write _ _ _ _ _ _ _ _ haction hblock _ _ hset =>
    exact h.hit hblock (inSet_gen hset) (Action.isHit_of_isWrite haction)
  | opening _ _ _ _ _ _ _ _ _ haction _ _ _ hset => exact h.opening (inSet_gen hset) haction
  | fill _ _ _ _ _ _ _ _ hwork _ _ he _ _ haction' hentry' => exact h.fill hwork he haction' hentry'
  | settle _ _ _ _ hwork haction hentry =>
    exact h.mono rfl (hkeep (mem_of_cons hwork)) (fun _ => rfl)
      (held_mono (fun _ he => he) (filled_settle hwork rfl haction hentry))
  | finishRead _ w _ hwork =>
    have hsub := mem_of_cons hwork
    exact h.mono rfl (hkeep hsub) (fun _ => rfl) (held_mono (fun _ he => he) (filled_mono_of_mem rfl (hold hsub)))
  | finishWrite _ w _ _ hwork =>
    have hsub := mem_of_cons hwork
    exact h.mono rfl (hkeep hsub) (fun _ => rfl) (held_mono (fun _ he => he) (filled_mono_of_mem rfl (hold hsub)))
  | answer e _ _ ts hdrain =>
    refine h.mono rfl (hkeep fun _ hx => hx) (fun e' => block_modify L.mshr e e' ts) (held_mono (fun _ he => he) ?_)
    rintro e' (he' | he')
    · exact .inl he'
    · refine .inr ?_
      rw [hdrain]
      dsimp only at he'
      split at he'
      · exact mem_cons_of_mem _ he'
      · exact he'
  | discard => cases hd
  | finish hin =>
    -- a flush ends with nothing in flight, so nobody has a block
    obtain ⟨hnohit, hnone⟩ := hf.empty hentries hin
    constructor
    · intro t ht hhit
      rw [hnohit t ht] at hhit
      cases hhit
    · intro e he
      refine absurd ?_ (hnone e)
      rcases mem_held.mp he with he | he
      · cases he
      · exact mem_held.mpr (.inr he)

end Ledger

/-! ## Blocks and storage -/

namespace Flow

/-- The block is locked or read. -/
def InUse (a : Flow cfg) (b : BlockRef) : Prop := (a.blocks b).isLocked = true ∨ 0 < (a.blocks b).readCount

/-- A block in use keeps its line; its bytes change only when the owner unlocks it. -/
def Spares (a a' : Flow cfg) : Prop :=
  ∀ b, InRange cfg b → b.gen = a.gen → a.InUse b →
    (a'.blocks b).pid = (a.blocks b).pid ∧ (a'.blocks b).tag = (a.blocks b).tag ∧
    ((∀ i < cfg.blockSize,
        a'.storage.data (b.cacheAddress cfg.geometry + i) = a.storage.data (b.cacheAddress cfg.geometry + i)) ∨
      (a.blocks b).isLocked = true ∧ (a'.blocks b).isLocked = false)

variable {a a' : Flow cfg} {l : Label}

theorem Spares.of_eq
    (hblocks : ∀ b, b.gen = a.gen → a.InUse b → (a'.blocks b).pid = (a.blocks b).pid ∧ (a'.blocks b).tag = (a.blocks b).tag)
    (hstorage : a'.storage = a.storage) : a.Spares a' := by
  intro b _ hgen huse
  obtain ⟨hpid, htag⟩ := hblocks b hgen huse
  exact ⟨hpid, htag, .inl fun i _ => by rw [hstorage]⟩

variable {b₀ : BlockRef}

theorem Spares.of_update {blk : Block} (hblocks : a'.blocks = update a.blocks b₀ blk)
    (hb₀ : a.Idle b₀ ∨ blk.pid = (a.blocks b₀).pid ∧ blk.tag = (a.blocks b₀).tag) (hstorage : a'.storage = a.storage) :
    a.Spares a' := by
  refine .of_eq (fun b _ huse => ?_) hstorage
  by_cases heq : b = b₀
  · subst heq
    rw [hblocks, update_self]
    rcases hb₀ with hidle | hsame
    · rcases huse with hlock | hread
      · rw [hidle.1] at hlock
        cases hlock
      · exact absurd hread (by have := hidle.2; omega)
    · exact hsame
  · rw [hblocks, update_of_ne heq]
    exact ⟨rfl, rfl⟩

theorem Spares.of_owner {blk : Block} {data : Bytes} (hblocks : a'.blocks = update a.blocks b₀ blk) (hgen₀ : b₀.gen = a.gen)
    (hb₀ : InRange cfg b₀) (hlock₀ : (a.blocks b₀).isLocked = true)
    (hsame : blk.pid = (a.blocks b₀).pid ∧ blk.tag = (a.blocks b₀).tag ∧ blk.isLocked = false)
    (hlen : data.length = cfg.blockSize) (hstore : a.storage.write (b₀.cacheAddress cfg.geometry) data = .ok a'.storage) :
    a.Spares a' := by
  intro b hb hgen _
  by_cases heq : b = b₀
  · subst heq
    rw [hblocks, update_self]
    exact ⟨hsame.1, hsame.2.1, .inr ⟨hlock₀, hsame.2.2⟩⟩
  · rw [hblocks, update_of_ne heq]
    exact ⟨rfl, rfl, .inl fun i hi => data_write_of_ne hb.2 hb₀.2 (hgen.trans hgen₀.symm) heq hlen hstore hi⟩

theorem spares_fill {m : ArrayRef} {dirty : Bool} (hblocks : a'.blocks = fillBlock a.blocks b₀ m dirty)
    (hstorage : a'.storage = a.storage) : a.Spares a' :=
  .of_update hblocks (.inr ⟨rfl, rfl⟩) hstorage

/-- **No step touches the line of a block in use**, but the one with which its owner is done. -/
theorem Step.spares (hinv : a.Inv) (hf : a.ledger.Faithful) (hcur : a.ledger.Current) (hs : Step a l a') : a.Spares a' := by
  cases hs with
  | readHit => exact .of_update rfl (.inr ⟨rfl, rfl⟩) rfl
  | writeHit | evictAndFetch | evictAndWrite | fetch => exact .of_update rfl (.inl ‹_›) rfl
  | finishRead => exact .of_update rfl (.inr ⟨rfl, rfl⟩) rfl
  | finishWrite t _ _ b _ _ _ _ _ _ hbank haction _ hblock _ hread _ hover hstore =>
    have hmem : t ∈ a.ledger.work := by
      show t ∈ a.work
      simp [work, hbank]
    have hgen : b.gen = a.gen := hcur.hits t hmem (by simp [haction, Action.isHit]) b hblock
    have hshape := hinv.shaped.work t hmem
    simp only [Transaction.Shape, haction] at hshape
    obtain ⟨_, b', -, -, hblock', -, hrange⟩ := hshape
    cases hblock.symm.trans hblock'
    have hpos := Ledger.owners_pos_of_work hmem (by simp [haction, Action.isWrite]) hblock
    refine .of_owner rfl hgen hrange (hinv.ownership.isLocked hf.kept hgen hpos) ⟨rfl, rfl, rfl⟩ ?_ hstore
    rw [(overlay_length hover).1, Storage.length_of_read hread]
  | finishFetched t _ e b data _ hbank haction hentry hblock hdata hstore =>
    have hmem : t ∈ a.ledger.work := by
      show t ∈ a.work
      simp [work, hbank]
    have hfilled : e ∈ a.ledger.filled := Ledger.mem_filled.mpr ⟨t, hmem, haction, hentry⟩
    have hheld : e ∈ a.ledger.held := Ledger.mem_held.mpr (.inr (.inl hfilled))
    have hgen : b.gen = a.gen := hcur.entries e hheld b hblock
    obtain ⟨_, hblock', -, hrange⟩ := (hinv.entries.shape e hheld).block
    cases hblock.symm.trans hblock'
    obtain ⟨arr, harr⟩ := hinv.entries.data e (.inl hfilled)
    have harr : (a.mshr.heap e).data = some arr := harr
    have hpos := Ledger.owners_pos_of_opened (Ledger.mem_opened.mpr (.inr hfilled)) hblock
    refine .of_owner rfl hgen hrange (hinv.ownership.isLocked hf.kept hgen hpos) ⟨rfl, rfl, rfl⟩ ?_ hstore
    rw [hdata, harr]
    exact (hinv.shaped.lines e arr harr).2
  | dataReady | fetchLocal => exact spares_fill rfl rfl
  | discardFlush =>
    refine .of_eq (fun b _ _ => ?_) rfl
    dsimp only
    split <;> exact ⟨rfl, rfl⟩
  | finishFlush =>
    refine .of_eq (fun b hgen _ => ?_) rfl
    dsimp only
    rw [if_neg (by omega)]
    exact ⟨rfl, rfl⟩
  | _ => exact .of_eq (fun _ _ _ => ⟨rfl, rfl⟩) rfl

variable {m : Memory}

theorem init_current : ((System.init cfg m).flow []).ledger.Current := by
  constructor
  · intro t ht
    have ht : t ∈ ((System.init cfg m).flow []).work := ht
    simp [init_work] at ht
  · intro e he
    simp [init_held.1] at he

theorem Reachable.current (h : Reachable Gentle m a) : a.ledger.Current := by
  refine h.induct (P := fun a => a.ledger.Current) init_current ?_
  intro a a' l hreach ih hG hs
  have hinv := hreach.inv fun _ _ => Gentle.allowed
  have hkept : a'.discarding = false := (Reachable.step hreach hG hs).answered.faithful.kept
  exact ih.step hreach.answered.faithful hinv.entries (hs.ledger hinv hG.allowed) hkept

/-- A step that leaves the lines of blocks in use alone. -/
def Sparing (a a' : Flow cfg) : Prop := (∃ l, Step a l a') ∧ a.Spares a'

theorem Reachable.sparing (h : Reachable Gentle m a) (hs : Step a l a') : a.Sparing a' :=
  ⟨⟨l, hs⟩, hs.spares (h.inv fun _ _ => Gentle.allowed) h.answered.faithful h.current⟩

theorem Reachable.path (h : Reachable Gentle m a) (hm : Moves l a a') :
    Relation.ReflTransGen Sparing a a' := by
  cases hm with
  | step hs => exact .single (h.sparing hs)
  | silent hs =>
    have hall : Relation.ReflTransGen Sparing a a' ∧ Reachable Gentle m a' := by
      induction hs with
      | refl => exact ⟨.refl, h⟩
      | tail _ hstep ih => exact ⟨ih.1.tail (ih.2.sparing hstep), .step (l := .silent) ih.2 trivial hstep⟩
    exact hall.1

end Flow

/-! ## The cache -/

/-- Runs in which no flush discards: any legal requests, any other flushes and restarts, any delays below. -/
def Rules.gentle (cfg : Config) : Rules cfg where
  request _ req := Legal cfg req
  control _ req := req.discards = false
  apply _ _ := True
  call _ _ := True

namespace Cache

/-- The transactions and entries that will write their data to the block. -/
def owners (c : Cache cfg) (b : BlockRef) : Nat :=
  c.working.countP (fun t => t.writesTo b = true) +
    ((↑c.mshr.entries + c.working.bind Transaction.fills).map fun e => if (c.mshr.heap e).block = some b then 1 else 0).sum

/-- The read hits of the block between the directory and the end of the bank. -/
def readers (c : Cache cfg) (b : BlockRef) : Nat := c.working.countP fun t => t.readsFrom b = true

end Cache

structure Owned (c : Cache cfg) : Prop where
  unique : ∀ b ∈ c.directory.allBlocks, ∀ b' ∈ c.directory.allBlocks, (c.directory.blocks b).isValid = true →
    (c.directory.blocks b').isValid = true → (c.directory.blocks b).tag = (c.directory.blocks b').tag →
    (c.directory.blocks b).pid = (c.directory.blocks b').pid → b = b'
  entries : ∀ e ∈ c.mshr.entries, ∃ b ∈ c.directory.allBlocks, (c.mshr.heap e).block = some b ∧
    (c.directory.blocks b).isLocked = true ∧ (c.directory.blocks b).isValid = true ∧
    (c.directory.blocks b).pid = (c.mshr.heap e).pid ∧ (c.directory.blocks b).tag = (c.mshr.heap e).address
  locked : ∀ b ∈ c.directory.allBlocks, c.owners b = if (c.directory.blocks b).isLocked then 1 else 0
  readCount : ∀ b ∈ c.directory.allBlocks, (c.directory.blocks b).readCount = c.readers b

theorem Tracked.owned {s : System cfg} {τ : List Moment} {m : Memory} (h : Tracked Flow.Gentle m s τ) : Owned s.cache := by
  obtain ⟨hw, _, hreach⟩ := h
  have hinv := hreach.inv fun _ _ => Flow.Gentle.allowed
  have hkept := hreach.answered.faithful.kept
  have hgen : ∀ b ∈ s.cache.directory.allBlocks, b.gen = (s.flow τ).gen :=
    fun b hb => ((Flusher.mem_allBlocks hw.directory).mp hb).1
  constructor
  case unique => exact fun b hb b' hb' => hinv.ownership.unique b b' (hgen b hb) (hgen b' hb')
  case entries =>
    intro e he
    have hheld : e ∈ (s.flow τ).ledger.held := Ledger.mem_held.mpr (.inl he)
    have hopened : e ∈ (s.flow τ).ledger.opened := Ledger.mem_opened.mpr (.inl he)
    obtain ⟨b, hblock, -, hrange⟩ := (hinv.entries.shape e hheld).block
    have hg : b.gen = (s.flow τ).gen := hreach.current.entries e hheld b hblock
    have hlock := hinv.ownership.isLocked hkept hg (Ledger.owners_pos_of_opened hopened hblock)
    obtain ⟨hvalid, htag, hpid⟩ := hinv.ownership.entries e hopened b hblock hg
    exact ⟨b, (Flusher.mem_allBlocks hw.directory).mpr ⟨hg, hrange⟩, hblock, hlock, hvalid, hpid, htag⟩
  case locked =>
    intro b hb
    split
    next hlock => exact hinv.ownership.locked b (hgen b hb) hlock
    next hlock => exact hinv.ownership.unlocked hkept b (hgen b hb) (Bool.eq_false_of_not_eq_true hlock)
  case readCount => exact fun b hb => hinv.ownership.reading b (hgen b hb)

/-- **Ownership of blocks.** In every state of a run without discarding flushes, also in the middle of a tick, the blocks
are owned; and what a stage call does is a sequence of steps none of which touches the line of a block in use. -/
theorem owned_of_reaches {m : Memory} {s : System cfg} {ks : List Call} (h : Reaches (Rules.gentle cfg) m s ks) :
    Owned s.cache ∧
      ∀ k ks', ks = k :: ks' → ∃ p c τ τ', k.exec s.cache = .ok (p, c) ∧
        Relation.ReflTransGen Flow.Sparing (s.flow τ) ((s.become c).flow τ') := by
  have hG : Ensures (Rules.gentle cfg) m Flow.Gentle := ensures_gentle (fun _ _ hreq => hreq) fun _ _ hreq => hreq
  obtain ⟨τ, hτ⟩ := h.flow hG
  refine ⟨hτ.owned, ?_⟩
  rintro k ks' rfl
  obtain ⟨p, c, τ', hok, -, hm⟩ := hτ.moves hG h
  exact ⟨p, c, τ, τ', hok, hτ.2.2.path hm⟩

/-- While the read is fetched, its block is locked. -/
theorem owned_of_reaches_fetch : let s := play (fun _ _ => True) fetchedRead
    (s.cache.directory.blocks { gen := 0, setID := 0, wayID := 0 }).isLocked = true ∧ Owned s.cache ∧
      ∃ p c, Call.controlPortSender.exec s.cache = .ok (p, c) := by
  have h := owned_of_reaches (.tick (reaches_play (R := Rules.gentle tiny) (G := fun _ _ => True) (fun _ _ _ => trivial)
    (allows_servedRead (fun _ _ hlegal => hlegal) fun _ _ => trivial).1))
  obtain ⟨p, c, -, -, hok, -⟩ := h.2 _ _ rfl
  exact ⟨by decide +kernel, h.1, p, c, hok⟩

end Akita.WriteBack
