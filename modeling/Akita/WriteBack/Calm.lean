import Akita.WriteBack.History

/-!
# Runs without flushes

As long as nobody asks for a flush, a block has at most one owner, a mask changes only when its block is written, and data
that was read from the storage changes only when an eviction serves a fetch.

* `Flow.Calm` : the flow of a run without flushes;
* `Flow.Steady` : the mask in an array will not change.
-/

namespace Akita.WriteBack
open Sim Pipelining Mem Mem.Cache List Function
open Multiset (countP_pos mem_cons_self)

variable {cfg : Config}

/-- The mask is set for every byte of a line. -/
def Slices.Full (cfg : Config) (s : Slices) (m : ArrayRef) : Prop := ∀ i < cfg.blockSize, (s.masks m).getD i false = true

namespace Flow

variable {a a' : Flow cfg} {l : Label}

/-- The facts of a run without flushes that the evictions depend on. -/
structure Calm (a : Flow cfg) : Prop where
  inv : a.Inv
  current : a.ledger.Current
  faithful : a.ledger.Faithful
  control : ∀ f, ControlReq.flush f ∉ a.control
  flush : a.flush = none
  bank : ∀ t ∈ a.bank, t.action ≠ .bankEvict
  wb : ∀ t ∈ a.wb, t.action ≠ .writeBufferFlush

theorem Calm.not_flushing (h : a.Calm) {req : FlushReq} : a.flush ≠ some req := by
  rw [h.flush]
  exact (Option.some_ne_none req).symm

section
variable (h : a.Calm) (hl : a.Unflushed l) (hs : Step a l a')
include h hl hs

theorem Calm.control_step :
    (∀ f, ControlReq.flush f ∉ a'.control) ∧ a'.flush = none := by
  cases hs with
  | command =>
    refine ⟨fun f hf => ?_, h.flush⟩
    rcases mem_append.mp hf with hf | hf
    · exact h.control f hf
    · exact hl f (mem_singleton.mp hf).symm
  | startFlush req _ hcontrol => exact absurd (hcontrol ▸ mem_cons_self) (h.control req)
  | discardFlush => exact hl.elim
  | prepare | evictFlush | finishFlush => exact absurd ‹_› h.not_flushing
  | restart _ _ _ _ hcontrol => exact ⟨fun f hf => h.control f (hcontrol ▸ mem_cons_of_mem _ hf), h.flush⟩
  | _ => exact ⟨h.control, h.flush⟩

theorem Calm.bank_step : ∀ t ∈ a'.bank, t.action ≠ .bankEvict := by
  have hnew : ∀ {x : Transaction}, x.action ≠ .bankEvict → ∀ t ∈ x ::ₘ a.bank, t.action ≠ .bankEvict := by
    intro x hx t ht
    rcases Multiset.mem_cons.mp ht with rfl | ht
    · exact hx
    · exact h.bank t ht
  have hold : ∀ {x : Transaction} {k : Multiset Transaction}, a.bank = x ::ₘ k → ∀ t ∈ k, t.action ≠ .bankEvict :=
    fun hbank t ht => h.bank t (hbank ▸ Multiset.mem_cons_of_mem ht)
  cases hs with
  | readHit | writeHit => exact hnew (by simp)
  | evictAndFetch => exact hnew (by simp [asFetch])
  | evictAndWrite => exact hnew (by simp)
  | fetch => exact hnew (by simp [asFetch])
  | pullFetch | finishRead | finishWrite | finishFetched | finishEviction => exact hold ‹_›
  | pullUp t k htoBank =>
    refine hnew ?_
    rcases h.inv.shaped.toBank t (htoBank ▸ mem_cons_self t k) with ha | ha <;> simp [ha]
  | discardFlush => exact hl.elim
  | evictFlush _ _ _ hflush => exact absurd hflush h.not_flushing
  | _ => exact h.bank

theorem Calm.wb_step : ∀ t ∈ a'.wb, t.action ≠ .writeBufferFlush := by
  have hnew : ∀ {x : Transaction}, x.action ≠ .writeBufferFlush → ∀ t ∈ a.wb ++ [x], t.action ≠ .writeBufferFlush := by
    intro x hx t ht
    rcases mem_append.mp ht with ht | ht
    · exact h.wb t ht
    · rwa [mem_singleton.mp ht]
  have hold : ∀ {x : Transaction} {rest : List Transaction}, a.wb = x :: rest → ∀ t ∈ rest, t.action ≠ .writeBufferFlush :=
    fun hwb t ht => h.wb t (hwb ▸ mem_cons_of_mem _ ht)
  cases hs with
  | pullFetch _ _ _ haction => exact hnew (by simp [haction])
  | finishEviction t k _ _ _ hbank haction =>
    refine hnew ?_
    have hevict := h.bank t (hbank ▸ mem_cons_self t k)
    rcases evictedAction_ok haction with ⟨ha, -⟩ | ⟨-, rfl⟩ | ⟨-, rfl⟩
    · exact absurd ha hevict
    · simp
    · simp
  | fetchLocal | fetchBottom | parkAndWrite | parkFlush => exact hold ‹_›
  | parkAndFetch _ _ hwb =>
    intro x hx
    rcases mem_cons.mp hx with rfl | hx
    · simp
    · exact hold hwb x hx
  | discardFlush => exact hl.elim
  | _ => exact h.wb

theorem Calm.step : a'.Calm := by
  have hdiscard : l ≠ .discard := by
    rintro rfl
    exact hl
  have hledger := hs.ledger h.inv hl.gentle.allowed
  have hfaithful := h.faithful.step h.inv.custody hledger (hs.discarding hdiscard h.faithful.kept)
  obtain ⟨hcontrol, hflush⟩ := h.control_step hl hs
  exact {
    inv := h.inv.step hl.gentle.allowed hs
    current := h.current.step h.faithful h.inv.entries hledger hfaithful.kept
    faithful := hfaithful
    control := hcontrol
    flush := hflush
    bank := h.bank_step hl hs
    wb := h.wb_step hl hs }

end

theorem init_calm {m : Memory} : ((System.init cfg m).flow []).Calm where
  inv := init_inv
  current := init_current
  faithful := init_answered.faithful
  control _ := not_mem_nil
  flush := rfl
  bank t ht := by
    have ht : t ∈ ((System.init cfg m).flow []).work := mem_work.mpr (.inl ht)
    simp [init_work] at ht
  wb _ ht := absurd ht not_mem_nil

/-! ## Owners of blocks -/

variable {b : BlockRef}

theorem Calm.owners_le (h : a.Calm) (hgen : b.gen = a.gen) : a.ledger.owners b ≤ 1 := by
  cases hlock : (a.blocks b).isLocked with
  | true => exact (h.inv.ownership.locked b hgen hlock).le
  | false => exact (h.inv.ownership.unlocked h.faithful.kept b hgen hlock).le.trans (Nat.zero_le 1)

theorem Calm.gen_of_writes (h : a.Calm) {t : Transaction} (ht : t ∈ a.work) (hwrites : t.writesTo b = true) :
    b.gen = a.gen := by
  simp only [Transaction.writesTo, Bool.and_eq_true, beq_iff_eq] at hwrites
  exact h.current.hits t ht (Ledger.Action.isHit_of_isWrite hwrites.1) b hwrites.2

theorem Calm.not_waits (h : a.Calm) {t : Transaction} (ht : t ∈ a.work) (hwrites : t.writesTo b = true) :
    ∀ e ∈ a.mshr.entries, (a.mshr.heap e).block ≠ some b := by
  intro e he hblock
  have hle := h.owners_le (h.gen_of_writes ht hwrites)
  have hwork : 0 < a.ledger.work.countP fun t => t.writesTo b = true := countP_pos.mpr ⟨t, ht, hwrites⟩
  have hopened : e ∈ a.ledger.opened := Ledger.mem_opened.mpr (.inl he)
  have hsum := Multiset.le_sum_of_mem (Multiset.mem_map_of_mem (fun e => Ledger.filling b (a.ledger.mshr.heap e)) hopened)
  rw [Ledger.filling, if_pos (show (a.ledger.mshr.heap e).block = some b from hblock)] at hsum
  unfold Ledger.owners at hle
  omega

theorem Calm.not_writes (h : a.Calm) {t t' : Transaction} {k : Multiset Transaction} (hwork : a.work = t ::ₘ k)
    (hwrites : t.writesTo b = true) (ht' : t' ∈ k) : ¬ t'.writesTo b = true := by
  intro hwrites'
  have hle := h.owners_le (h.gen_of_writes (hwork ▸ mem_cons_self t k) hwrites)
  have hcount : a.ledger.work.countP (fun t => t.writesTo b = true) = (k.countP fun t => t.writesTo b = true) + 1 := by
    show a.work.countP _ = _
    rw [hwork, Multiset.countP_cons, if_pos hwrites]
  have hpos : 0 < k.countP fun t => t.writesTo b = true := countP_pos.mpr ⟨t', ht', hwrites'⟩
  unfold Ledger.owners at hle
  omega

theorem Calm.not_owned (h : a.Calm) (hgen : b.gen = a.gen) (hidle : a.Idle b) :
    (∀ t ∈ a.work, ¬ t.writesTo b = true) ∧ ∀ e ∈ a.mshr.entries, (a.mshr.heap e).block ≠ some b := by
  have hnone := h.inv.ownership.unlocked h.faithful.kept b hgen hidle.1
  constructor
  · intro t ht hwrites
    have := h.gen_of_writes ht hwrites
    simp only [Transaction.writesTo, Bool.and_eq_true, beq_iff_eq] at hwrites
    have := Ledger.owners_pos_of_work (L := a.ledger) ht hwrites.1 hwrites.2
    omega
  · intro e he hblock
    have := Ledger.owners_pos_of_opened (L := a.ledger) (Ledger.mem_opened.mpr (.inl he)) hblock
    omega

/-! ## Arrays -/

/-- The writes of an entry, merged into a line, change the bytes they touch and mark them. -/
theorem combineRequests_getD {requests : List Transaction} {data data' : Bytes} {mask mask' : Mask} {dirty dirty' : Bool}
    (h : WriteBufferStage.combineRequests cfg requests data mask dirty = .ok (data', mask', dirty')) (i : Nat) :
    (mask'.getD i false = true ↔ (∃ w ∈ writesOf requests, touches cfg w i = true) ∨ mask.getD i false = true) ∧
      ((∀ w ∈ writesOf requests, touches cfg w i = false) → data'.getD i 0 = data.getD i 0) := by
  induction requests generalizing data mask dirty with
  | nil =>
    cases h
    simp [writesOf]
  | cons t requests ih =>
    unfold WriteBufferStage.combineRequests at h
    cases hr : t.read with
    | some =>
      rw [hr] at h
      have hsame : writesOf (t :: requests) = writesOf requests := by simp [writesOf, hr]
      rw [hsame]
      exact ih h
    | none =>
      rw [hr] at h
      cases hw : t.write with
      | none => simp [hw, deref, bind, Except.bind] at h
      | some w =>
        simp only [hw, deref, bind, Except.bind] at h
        have hcons : writesOf (t :: requests) = w :: writesOf requests := by simp [writesOf, hr, hw]
        split at h
        · cases h
        next r hover =>
        obtain ⟨hbyte, hbit⟩ := overlay_getD hover i
        obtain ⟨hmask, hdata⟩ := ih h
        rw [hcons]
        constructor
        · rw [hmask, hbit, exists_mem_cons_iff, Bool.or_eq_true, or_left_comm, or_assoc]
          exact Iff.rfl
        · intro hnone
          have hnot : covers (getCacheLineID w.address cfg.log2BlockSize).2 w.data w.dirtyMask i = false :=
            hnone w mem_cons_self
          rw [hdata fun w' hw' => hnone w' (mem_cons_of_mem _ hw'), hbyte, hnot]
          rfl

/-- Block `b` waits for its line. -/
def Waits (a : Flow cfg) (b : BlockRef) : Prop := ∃ e ∈ a.mshr.entries, (a.mshr.heap e).block = some b

variable {m : ArrayRef}

theorem dirtyMaskOf_cases {s s' : Slices} {block : Block} (h : BankStage.dirtyMaskOf cfg s block = (m, s')) :
    block.dirtyMask = some m ∧ s' = s ∨ m = s.next ∧ s' = (s.newMask (replicate cfg.blockSize false)).2 := by
  unfold BankStage.dirtyMaskOf at h
  split at h
  · next m' hm =>
    cases h
    exact .inl ⟨hm, rfl⟩
  · cases h
    exact .inr ⟨rfl, rfl⟩

/-- No step gives a block the mask of another. -/
theorem Step.dirtyMask (hs : Step a l a') (hm : m < a.slices.next)
    (hb : (a'.blocks b).dirtyMask = some m) : (a.blocks b).dirtyMask = some m := by
  have hupdate : ∀ {blocks : BlockRef → Block} {b₀ : BlockRef} {blk : Block}, (blocks b).dirtyMask = some m →
      blocks = update a.blocks b₀ blk → (blk.dirtyMask = some m → (a.blocks b₀).dirtyMask = some m) →
      (a.blocks b).dirtyMask = some m := by
    rintro blocks b₀ blk hb rfl hblk
    by_cases heq : b = b₀
    · subst heq
      rw [update_self] at hb
      exact hblk hb
    · rwa [update_of_ne heq] at hb
  -- a mask that is not one of the old arrays
  have hnew : ∀ {m₀ : ArrayRef}, a.slices.next ≤ m₀ → some m₀ = some m → False := by
    intro m₀ hle heq
    cases heq
    exact absurd hm (Nat.not_lt.mpr hle)
  cases hs with
  | readHit | writeHit | evictAndFetch | evictAndWrite | fetch | finishRead => exact hupdate hb rfl id
  | finishWrite _ _ _ _ _ _ _ _ _ _ _ _ _ _ _ _ hmask =>
    refine hupdate hb rfl fun heq => ?_
    rcases dirtyMaskOf_cases hmask with ⟨hold, -⟩ | ⟨hfresh, -⟩
    · exact hold.trans heq
    · exact (hnew hfresh.ge heq).elim
  | finishFetched => exact hupdate hb rfl id
  | dataReady => exact hupdate hb rfl fun heq => (hnew (Nat.le_succ _) heq).elim
  | fetchLocal => exact hupdate hb rfl fun heq => (hnew le_rfl heq).elim
  | discardFlush =>
    dsimp only at hb
    split at hb <;> exact hb
  | finishFlush =>
    dsimp only at hb
    split at hb
    · cases hb
    · exact hb
  | _ => exact hb

theorem Step.block (hs : Step a l a') {e : EntryRef} (he : e < a.mshr.nextRef) :
    (a'.mshr.heap e).block = (a.mshr.heap e).block := by
  have hupdate : ∀ {heap : EntryRef → MSHREntry Transaction} {e₀ : EntryRef} {entry : MSHREntry Transaction},
      heap = update a.mshr.heap e₀ entry → (e = e₀ → entry.block = (a.mshr.heap e₀).block) →
      (heap e).block = (a.mshr.heap e).block := by
    rintro heap e₀ entry rfl hentry
    by_cases heq : e = e₀
    · subst heq
      rw [update_self, hentry rfl]
    · rw [update_of_ne heq]
  cases hs with
  | join => exact hupdate rfl fun _ => rfl
  | evictAndFetch | fetch => exact hupdate rfl fun heq => absurd heq (Nat.ne_of_lt he)
  | dataReady | fetchLocal | respondRead | respondWrite | skip => exact hupdate rfl fun _ => rfl
  | _ => rfl

/-- Block `b` has got the line it waits for, and a new mask. -/
theorem Calm.waits_step (h : a.Calm) (hs : Step a l a') (hw : a.Waits b) :
    a'.Waits b ∨ ∃ m, (a'.blocks b).dirtyMask = some m ∧ a.slices.next ≤ m := by
  obtain ⟨e, he, hblock⟩ := hw
  have hblock' := (hs.block (h.inv.custody.held_lt e (Ledger.mem_held_of_entries he))).trans hblock
  have hfill : ∀ {e₀ : EntryRef} {b₀ : BlockRef} {m : ArrayRef} {dirty : Bool}, (a.mshr.heap e₀).block = some b₀ →
      a.slices.next ≤ m → e ∈ a.mshr.entries.erase e₀ ∨ ∃ m', (fillBlock a.blocks b₀ m dirty b).dirtyMask = some m' ∧
      a.slices.next ≤ m' := by
    intro e₀ b₀ m dirty hb₀ hm
    by_cases heq : e = e₀
    · subst heq
      cases hblock.symm.trans hb₀
      exact .inr ⟨m, by simp [fillBlock], hm⟩
    · exact .inl ((mem_erase_of_ne heq).mpr he)
  cases hs with
  | evictAndFetch | fetch => exact .inl ⟨e, mem_append_left _ he, hblock'⟩
  | dataReady _ _ _ _ _ _ _ _ _ _ hf =>
    exact (hfill hf.block (Nat.le_succ _)).imp_left fun he => ⟨e, he, hblock'⟩
  | fetchLocal _ _ _ _ _ _ _ _ _ _ _ _ _ hf =>
    exact (hfill hf.block le_rfl).imp_left fun he => ⟨e, he, hblock'⟩
  | finishFlush _ hflush => exact absurd hflush h.not_flushing
  | _ => exact .inl ⟨e, he, hblock'⟩

/-- A mask changes only when a transaction writes the block it is the mask of, and no bit is cleared. -/
theorem Step.masks (hs : Step a l a') (hm : m < a.slices.next) :
    a'.slices.masks m = a.slices.masks m ∨ ∃ t ∈ a.work, ∃ b, t.writesTo b = true ∧ (a.blocks b).dirtyMask = some m ∧
      ∀ i, (a.slices.masks m).getD i false = true → (a'.slices.masks m).getD i false = true := by
  have hne : m ≠ a.slices.next := Nat.ne_of_lt hm
  cases hs with
  | finishWrite t k _ b m₀ slices _ _ mask _ hbank haction _ hblock _ _ hmask hover =>
    rcases dirtyMaskOf_cases hmask with ⟨hold, rfl⟩ | ⟨rfl, rfl⟩
    · by_cases heq : m = m₀
      · subst heq
        refine .inr ⟨t, mem_work.mpr (.inl (hbank ▸ mem_cons_self t k)), b, ?_, hold, fun i hi => ?_⟩
        · simp [Transaction.writesTo, haction, Action.isWrite, hblock]
        · show (update a.slices.masks m mask m).getD i false = true
          rw [update_self, (overlay_getD hover i).2, hi, Bool.or_true]
      · exact .inl (update_of_ne heq _ _)
    · refine .inl ?_
      show update (update a.slices.masks a.slices.next _) a.slices.next mask m = _
      rw [update_of_ne hne, update_of_ne hne]
  | dataReady =>
    exact .inl (update_of_ne (Nat.ne_of_lt (hm.trans (Nat.lt_succ_self _))) _ _)
  | fetchLocal => exact .inl (update_of_ne hne _ _)
  | _ => exact .inl rfl

/-- The mask will not change: it is full, or its block waits for a line and so for a new mask. -/
def Steady (a : Flow cfg) (m : ArrayRef) : Prop :=
  a.slices.Full cfg m ∨ ∀ b, (a.blocks b).dirtyMask = some m → a.Waits b

theorem Calm.steady_step (h : a.Calm) (hs : Step a l a') (hm : m < a.slices.next) (hsteady : a.Steady m) :
    (∀ i < cfg.blockSize, (a'.slices.masks m).getD i false = (a.slices.masks m).getD i false) ∧ a'.Steady m := by
  rcases hs.masks hm with hsame | ⟨_, ht, b, hwrites, hb, hset⟩
  · refine ⟨fun i _ => by rw [hsame], ?_⟩
    rcases hsteady with hfull | hwaits
    · refine .inl fun i hi => ?_
      rw [hsame]
      exact hfull i hi
    · refine .inr fun b hb => ?_
      rcases h.waits_step hs (hwaits b (hs.dirtyMask hm hb)) with hw | ⟨_, hm', hle⟩
      · exact hw
      · cases hb.symm.trans hm'
        exact absurd hm (Nat.not_lt.mpr hle)
  · rcases hsteady with hfull | hwaits
    · exact ⟨fun i hi => by rw [hset i (hfull i hi), hfull i hi], .inl fun i hi => hset i (hfull i hi)⟩
    · obtain ⟨e, he, hblock⟩ := hwaits b hb
      exact absurd hblock (h.not_waits ht hwrites e he)

/-- Data changes only when an eviction's data is fetched, where the writes of the entry touch it. -/
theorem Step.bytes (hs : Step a l a') {arr : ArrayRef} (harr : arr < a.slices.next) :
    a'.slices.bytes arr = a.slices.bytes arr ∨ l = .localFetch ∧ ∃ t rest ev e, a.wb = t :: rest ∧ a.find t = some ev ∧
      ev.evictingData = some arr ∧ t.mshrEntry = some e ∧
      ∀ i, (∀ w ∈ writesOf (a.mshr.heap e).requests, touches cfg w i = false) →
        (a'.slices.bytes arr).getD i 0 = (a.slices.bytes arr).getD i 0 := by
  have hne : arr ≠ a.slices.next := Nat.ne_of_lt harr
  cases hs with
  | finishRead => exact .inl (update_of_ne hne _ _)
  | finishWrite _ _ _ _ _ _ _ _ _ _ _ _ _ _ _ _ hmask =>
    rcases dirtyMaskOf_cases hmask with ⟨-, rfl⟩ | ⟨-, rfl⟩ <;> exact .inl rfl
  | finishEviction => exact .inl (update_of_ne hne _ _)
  | dataReady =>
    refine .inl ?_
    show update (update a.slices.bytes a.slices.next _) a.slices.next _ arr = _
    rw [update_of_ne hne, update_of_ne hne]
  | fetchLocal t rest ev arr₀ e _ data _ _ hwb _ hfind harr₀ hfill =>
    by_cases heq : arr = arr₀
    · subst heq
      refine .inr ⟨rfl, t, rest, ev, e, hwb, hfind, harr₀, hfill.entry, fun i hi => ?_⟩
      show (update a.slices.bytes arr data arr).getD i 0 = _
      rw [update_self, (combineRequests_getD hfill.combine i).2 hi]
    · exact .inl (update_of_ne heq _ _)
  | _ => exact .inl rfl

end Flow

end Akita.WriteBack
