import Akita.WriteBack.Custody
import Mathlib.Algebra.Order.BigOperators.Group.Multiset
import Mathlib.Algebra.Order.Group.Nat

/-!
# Ownership of blocks

`Ownership` : a block is locked while exactly one transaction or entry will write it, its read count is the number of
read hits on their way to it, and no two blocks hold the same line of a process. `Ownership.step` : every step keeps it.
-/

namespace Akita.WriteBack
open Sim Pipelining Mem Mem.Cache Function
open Multiset (cons_bind countP_cons countP_le_of_le le_add_right map_cons mem_cons_of_mem mem_cons_self mem_of_le
  singleton_add sum_cons)
open Multiset (countP_pos mem_cons)
open Transaction (accessReq readsFrom writesTo)
open WriteBack.Action (isFetch isHit isWrite)
open WriteBack.Flow (allocate fillBlock fillMSHR)

variable {cfg : Config}

namespace Ledger

structure Ownership (L : Ledger cfg) : Prop where
  locked : ∀ b, b.gen = L.gen → (L.blocks b).isLocked = true → L.owners b = 1
  unlocked : L.discarding = false → ∀ b, b.gen = L.gen → (L.blocks b).isLocked = false → L.owners b = 0
  discarded : L.discarding = true → ∀ b, b.gen = L.gen → (L.blocks b).isLocked = false
  reading : ∀ b, b.gen = L.gen → (L.blocks b).readCount = L.readers b
  excl : ∀ b, b.gen = L.gen → (L.blocks b).isLocked = true → L.readers b = 0
  outside : ∀ b, L.gen < b.gen ∨ b.gen = L.gen ∧ ¬ InRange cfg b →
    L.blocks b = {} ∧ L.owners b = 0 ∧ L.readers b = 0
  placed : ∀ b, b.gen = L.gen → (L.blocks b).isValid = true → Flow.InSet cfg L.gen (L.blocks b).tag b
  unique : ∀ b b', b.gen = L.gen → b'.gen = L.gen → (L.blocks b).isValid = true → (L.blocks b').isValid = true →
    (L.blocks b).tag = (L.blocks b').tag → (L.blocks b).pid = (L.blocks b').pid → b = b'
  entries : ∀ e ∈ L.opened, ∀ b, (L.mshr.heap e).block = some b → b.gen = L.gen →
    Flow.Holds L.blocks b (L.mshr.heap e).pid (L.mshr.heap e).address
  hits : ∀ t ∈ L.work, t.action.isHit = true → ∀ b, t.block = some b → b.gen = L.gen →
    (L.blocks b).isValid = true ∧ ∀ req, t.accessReq = some req →
      (L.blocks b).tag = lineOf cfg req.address ∧ (L.blocks b).pid = req.pid

section
variable {L : Ledger cfg} {t t' : Transaction} {w d : Multiset Transaction} {b : BlockRef}

/-! ## Owners and readers -/

theorem writesTo_eq (h : t.Alike t') (b : BlockRef) : t'.writesTo b = t.writesTo b := by
  simp [writesTo, h.isWrite, h.block]

theorem readsFrom_eq (h : t.Alike t') (b : BlockRef) : t'.readsFrom b = t.readsFrom b := by
  have : (t'.action == .bankReadHit) = (t.action == .bankReadHit) := by
    rw [Bool.eq_iff_iff]
    simpa using h.isRead
  simp [readsFrom, this, h.block]

theorem isWrite_of_isHit {x : Action} (h : x.isHit = false) : x.isWrite = false := by
  cases x <;> simp [isHit, isWrite] at h ⊢

theorem not_writesTo_of_not_hit (h : t.action.isHit = false) (b : BlockRef) : ¬ t.writesTo b = true := by
  simp [writesTo, isWrite_of_isHit h]

theorem not_readsFrom_of_not_hit (h : t.action.isHit = false) (b : BlockRef) : ¬ t.readsFrom b = true := by
  have : t.action ≠ .bankReadHit := by
    intro ha
    simp [ha, isHit] at h
  simp [readsFrom, this]

theorem owners_pos_of_work (ht : t ∈ L.work) (hw : t.action.isWrite = true) (hb : t.block = some b) :
    0 < L.owners b := by
  have : 0 < L.work.countP fun t => t.writesTo b = true :=
    countP_pos.mpr ⟨t, ht, by simp [writesTo, hw, hb]⟩
  simp only [owners]
  omega

theorem owners_pos_of_opened {e : EntryRef} (he : e ∈ L.opened) (hb : (L.mshr.heap e).block = some b) :
    0 < L.owners b := by
  have : filling b (L.mshr.heap e) ≤ (L.opened.map fun e => filling b (L.mshr.heap e)).sum :=
    Multiset.le_sum_of_mem (Multiset.mem_map_of_mem (fun e => filling b (L.mshr.heap e)) he)
  rw [filling, if_pos hb] at this
  simp only [owners]
  omega

theorem readers_pos (ht : t ∈ L.work) (ha : t.action = .bankReadHit) (hb : t.block = some b) : 0 < L.readers b :=
  countP_pos.mpr ⟨t, ht, by simp [readsFrom, ha, hb]⟩

theorem opened_le_held (L : Ledger cfg) : L.opened ≤ L.held := le_add_right _ _

theorem busy_of_hit (ht : t ∈ L.work) (hhit : t.action.isHit = true) (hb : t.block = some b) :
    0 < L.owners b ∨ 0 < L.readers b := by
  by_cases ha : t.action = .bankReadHit
  · exact .inr (readers_pos ht ha hb)
  · refine .inl (owners_pos_of_work ht ?_ hb)
    cases hx : t.action <;> simp [hx, isHit, isWrite] at hhit ha ⊢

namespace Ownership

theorem free (h : L.Ownership) (hdisc : L.discarding = false) (hb : b.gen = L.gen)
    (hidle : (L.blocks b).isLocked = false ∧ (L.blocks b).readCount ≤ 0) : L.owners b = 0 ∧ L.readers b = 0 := by
  refine ⟨h.unlocked hdisc b hb hidle.1, ?_⟩
  have := h.reading b hb
  omega

theorem congr (h : L.Ownership) {L' : Ledger cfg} (hgen : L'.gen = L.gen) (hdisc : L'.discarding = L.discarding)
    (howners : ∀ b, L'.owners b = L.owners b) (hreaders : ∀ b, L'.readers b = L.readers b)
    (hblocks : ∀ b, (L'.blocks b).isLocked = (L.blocks b).isLocked ∧ (L'.blocks b).readCount = (L.blocks b).readCount ∧
      (L'.blocks b).isValid = (L.blocks b).isValid ∧ (L'.blocks b).tag = (L.blocks b).tag ∧
      (L'.blocks b).pid = (L.blocks b).pid)
    (hfree : ∀ b, L.owners b = 0 → L'.blocks b = L.blocks b)
    (hentries : ∀ e ∈ L'.opened, e ∈ L.opened ∧ (L'.mshr.heap e).block = (L.mshr.heap e).block ∧ (L'.mshr.heap e).pid =
      (L.mshr.heap e).pid ∧ (L'.mshr.heap e).address = (L.mshr.heap e).address)
    (hhits : ∀ t ∈ L'.work, t.action.isHit = true → ∃ t₀ ∈ L.work, t₀.action.isHit = true ∧ t.block = t₀.block ∧
      t.accessReq = t₀.accessReq) :
    L'.Ownership where
  locked := by
    intro b hb hl
    rw [howners]
    exact h.locked b (hgen ▸ hb) ((hblocks b).1 ▸ hl)
  unlocked := by
    intro hd b hb hl
    rw [howners]
    exact h.unlocked (hdisc ▸ hd) b (hgen ▸ hb) ((hblocks b).1 ▸ hl)
  discarded := fun hd b hb => (hblocks b).1.trans (h.discarded (hdisc ▸ hd) b (hgen ▸ hb))
  reading := by
    intro b hb
    rw [(hblocks b).2.1, hreaders]
    exact h.reading b (hgen ▸ hb)
  excl := by
    intro b hb hl
    rw [hreaders]
    exact h.excl b (hgen ▸ hb) ((hblocks b).1 ▸ hl)
  outside := by
    intro b hb
    rw [hgen] at hb
    obtain ⟨h1, h2, h3⟩ := h.outside b hb
    rw [howners, hreaders, hfree b h2]
    exact ⟨h1, h2, h3⟩
  placed := by
    intro b hb hv
    rw [hgen, (hblocks b).2.2.2.1]
    exact h.placed b (hgen ▸ hb) ((hblocks b).2.2.1 ▸ hv)
  unique := by
    intro b b' hb hb' hv hv' ht hp
    rw [(hblocks b).2.2.2.1, (hblocks b').2.2.2.1] at ht
    rw [(hblocks b).2.2.2.2, (hblocks b').2.2.2.2] at hp
    exact h.unique b b' (hgen ▸ hb) (hgen ▸ hb') ((hblocks b).2.2.1 ▸ hv) ((hblocks b').2.2.1 ▸ hv') ht hp
  entries := by
    intro e he b hb hg
    obtain ⟨he, hblock, hp, ha⟩ := hentries e he
    rw [hblock] at hb
    rw [Flow.Holds, (hblocks b).2.2.1, (hblocks b).2.2.2.1, (hblocks b).2.2.2.2, hp, ha]
    exact h.entries e he b hb (hgen ▸ hg)
  hits := by
    intro t ht hhit b hb hg
    obtain ⟨t₀, ht₀, hhit₀, hblock, hreq⟩ := hhits t ht hhit
    rw [(hblocks b).2.2.1, (hblocks b).2.2.2.1, (hblocks b).2.2.2.2, hreq]
    exact h.hits t₀ ht₀ hhit₀ b (hblock ▸ hb) (hgen ▸ hg)

theorem update (h : L.Ownership) {L' : Ledger cfg} {blk : Block} (hgen : L'.gen = L.gen)
    (hdisc : L'.discarding = L.discarding) (hblocks : L'.blocks = Function.update L.blocks b blk)
    (hin : ¬ (L.gen < b.gen ∨ b.gen = L.gen ∧ ¬ InRange cfg b))
    (hother : ∀ b', b' ≠ b → L'.owners b' = L.owners b' ∧ L'.readers b' = L.readers b')
    (hlocked : b.gen = L.gen → blk.isLocked = true → L'.owners b = 1 ∧ L'.readers b = 0 ∧ L.discarding = false)
    (hunlocked : b.gen = L.gen → blk.isLocked = false → L.discarding = false → L'.owners b = 0)
    (hreading : b.gen = L.gen → blk.readCount = L'.readers b)
    (hplaced : b.gen = L.gen → blk.isValid = true → Flow.InSet cfg L.gen blk.tag b)
    (hunique : b.gen = L.gen → blk.isValid = true → ∀ b', b' ≠ b → b'.gen = L.gen → (L.blocks b').isValid = true →
      (L.blocks b').tag = blk.tag → (L.blocks b').pid ≠ blk.pid)
    (hentries : ∀ e ∈ L'.opened, ∀ b', (L'.mshr.heap e).block = some b' → b'.gen = L.gen →
      Flow.Holds L'.blocks b' (L'.mshr.heap e).pid (L'.mshr.heap e).address)
    (hhits : ∀ t ∈ L'.work, t.action.isHit = true → ∀ b', t.block = some b' → b'.gen = L.gen →
      (L'.blocks b').isValid = true ∧ ∀ req, t.accessReq = some req →
        (L'.blocks b').tag = lineOf cfg req.address ∧ (L'.blocks b').pid = req.pid) : L'.Ownership := by
  have hself : L'.blocks b = blk := by rw [hblocks, update_self]
  have hne : ∀ b', b' ≠ b → L'.blocks b' = L.blocks b' := fun b' hb' => by rw [hblocks, update_of_ne hb']
  exact {
    locked := by
      intro b' hb' hl
      rw [hgen] at hb'
      by_cases heq : b' = b
      · subst heq
        exact (hlocked hb' (hself ▸ hl)).1
      · rw [(hother b' heq).1]
        exact h.locked b' hb' (hne b' heq ▸ hl)
    unlocked := by
      intro hd b' hb' hl
      rw [hgen] at hb'
      rw [hdisc] at hd
      by_cases heq : b' = b
      · subst heq
        exact hunlocked hb' (hself ▸ hl) hd
      · rw [(hother b' heq).1]
        exact h.unlocked hd b' hb' (hne b' heq ▸ hl)
    discarded := by
      intro hd b' hb'
      rw [hgen] at hb'
      rw [hdisc] at hd
      by_cases heq : b' = b
      · subst heq
        rw [hself]
        by_contra hl
        have := (hlocked hb' (Bool.eq_true_of_not_eq_false hl)).2.2
        simp [hd] at this
      · rw [hne b' heq]
        exact h.discarded hd b' hb'
    reading := by
      intro b' hb'
      rw [hgen] at hb'
      by_cases heq : b' = b
      · subst heq
        rw [hself]
        exact hreading hb'
      · rw [hne b' heq, (hother b' heq).2]
        exact h.reading b' hb'
    excl := by
      intro b' hb' hl
      rw [hgen] at hb'
      by_cases heq : b' = b
      · subst heq
        exact (hlocked hb' (hself ▸ hl)).2.1
      · rw [(hother b' heq).2]
        exact h.excl b' hb' (hne b' heq ▸ hl)
    outside := by
      intro b' hb'
      rw [hgen] at hb'
      have heq : b' ≠ b := fun heq => hin (heq ▸ hb')
      rw [hne b' heq, (hother b' heq).1, (hother b' heq).2]
      exact h.outside b' hb'
    placed := by
      intro b' hb' hv
      rw [hgen] at hb' ⊢
      by_cases heq : b' = b
      · subst heq
        rw [hself] at hv ⊢
        exact hplaced hb' hv
      · rw [hne b' heq] at hv ⊢
        exact h.placed b' hb' hv
    unique := by
      intro b₁ b₂ h₁ h₂ hv₁ hv₂ ht hp
      rw [hgen] at h₁ h₂
      by_cases heq₁ : b₁ = b <;> by_cases heq₂ : b₂ = b
      · rw [heq₁, heq₂]
      · rw [heq₁, hself] at ht hp hv₁
        rw [hne b₂ heq₂] at ht hp hv₂
        exact absurd hp.symm (hunique (heq₁ ▸ h₁) hv₁ b₂ heq₂ h₂ hv₂ ht.symm)
      · rw [heq₂, hself] at ht hp hv₂
        rw [hne b₁ heq₁] at ht hp hv₁
        exact absurd hp (hunique (heq₂ ▸ h₂) hv₂ b₁ heq₁ h₁ hv₁ ht)
      · rw [hne b₁ heq₁] at ht hp hv₁
        rw [hne b₂ heq₂] at ht hp hv₂
        exact h.unique b₁ b₂ h₁ h₂ hv₁ hv₂ ht hp
    entries := by
      rw [hgen]
      exact hentries
    hits := by
      rw [hgen]
      exact hhits }

end Ownership

end

/-! ## The steps -/

section
variable {L : Ledger cfg} {t t' : Transaction} {w d : Multiset Transaction} {b : BlockRef}

theorem ne_of_free (hown : L.owners b = 0) (hread : L.readers b = 0) :
    (∀ e ∈ L.opened, (L.mshr.heap e).block ≠ some b) ∧
      ∀ t ∈ L.work, t.action.isHit = true → t.block ≠ some b := by
  constructor
  · intro e he hb
    have := owners_pos_of_opened he hb
    omega
  · intro t ht hhit hb
    have := busy_of_hit ht hhit hb
    omega

theorem opened_hit (hhit : t'.action.isHit = true) (blocks : BlockRef → Block) :
    ({ L with dir := d, work := t' ::ₘ L.work, blocks := blocks } : Ledger cfg).opened = L.opened := by
  have hfill : t'.action ≠ .bankWriteFetched := by
    intro ha
    simp [ha, isHit] at hhit
  simp [opened, filled, fills_of_ne hfill]

theorem inSet_gen {gen addr : Nat} (h : Flow.InSet cfg gen addr b) : b.gen = gen := h.2.1

theorem not_outside {gen addr : Nat} (h : Flow.InSet cfg gen addr b) :
    ¬ (gen < b.gen ∨ b.gen = gen ∧ ¬ InRange cfg b) := by
  rintro (hlt | ⟨-, hr⟩)
  · rw [inSet_gen h] at hlt
    exact Nat.lt_irrefl _ hlt
  · exact hr (inRange_of_inSet h)

theorem Ownership.read (h : L.Ownership) {r : ReadReq} (haction : t'.action = .bankReadHit)
    (hblock : t'.block = some b) (hread : t'.read = some r) (hset : Flow.InSet cfg L.gen (lineOf cfg r.address) b)
    (hb : Flow.Holds L.blocks b r.pid (lineOf cfg r.address)) (hlock : (L.blocks b).isLocked = false) :
    Ownership { L with
      dir := d, work := t' ::ₘ L.work,
      blocks := Function.update L.blocks b { L.blocks b with readCount := (L.blocks b).readCount + 1 } } := by
  have hhit : t'.action.isHit = true := by simp [haction, isHit]
  have hgen := inSet_gen hset
  have hopened := opened_hit (L := L) (d := d) hhit
    (Function.update L.blocks b { L.blocks b with readCount := (L.blocks b).readCount + 1 })
  have hheld : ∀ b', (Function.update L.blocks b { L.blocks b with readCount := (L.blocks b).readCount + 1 } b').isValid =
      (L.blocks b').isValid ∧
      (Function.update L.blocks b { L.blocks b with readCount := (L.blocks b).readCount + 1 } b').tag =
      (L.blocks b').tag ∧
      (Function.update L.blocks b { L.blocks b with readCount := (L.blocks b).readCount + 1 } b').pid =
      (L.blocks b').pid := by
    intro b'
    by_cases heq : b' = b
    · subst heq
      simp
    · simp [update_of_ne heq]
  have howners : ∀ b', ({ L with
      dir := d, work := t' ::ₘ L.work,
      blocks := Function.update L.blocks b { L.blocks b with readCount := (L.blocks b).readCount + 1 } } :
      Ledger cfg).owners b' = L.owners b' := by
    intro b'
    have ht : ¬ t'.writesTo b' = true := by simp [writesTo, haction, isWrite]
    simp only [owners, hopened, countP_cons, if_neg ht, Nat.add_zero]
  have hreaders : ∀ b', ({ L with
      dir := d, work := t' ::ₘ L.work,
      blocks := Function.update L.blocks b { L.blocks b with readCount := (L.blocks b).readCount + 1 } } :
      Ledger cfg).readers b' = L.readers b' + if b = b' then 1 else 0 := by
    intro b'
    have ht : t'.readsFrom b' = true ↔ b = b' := by simp [readsFrom, haction, hblock]
    simp only [readers, countP_cons, ht]
  refine h.update rfl rfl rfl (not_outside hset) (fun b' hb' => ⟨howners b', ?_⟩) (fun _ hl => ?_) (fun _ hl hd => ?_)
    (fun _ => ?_) (fun _ hv => h.placed b hgen hv) (fun _ hv b' hb' hg hv' ht hp => ?_) ?_ ?_
  · rw [hreaders, if_neg fun heq => hb' heq.symm]
    rfl
  · simp [hlock] at hl
  · rw [howners]
    exact h.unlocked hd b hgen hlock
  · rw [hreaders, if_pos rfl]
    simp [h.reading b hgen]
  · exact hb' (h.unique b' b hg hgen hv' hv ht hp)
  · intro e he b' hb' hg
    rw [hopened] at he
    rw [Flow.Holds, (hheld b').1, (hheld b').2.1, (hheld b').2.2]
    exact h.entries e he b' hb' hg
  · intro x hx hhit' b' hb' hg
    rw [(hheld b').1, (hheld b').2.1, (hheld b').2.2]
    rcases mem_cons.mp hx with rfl | hx
    · cases hblock.symm.trans hb'
      refine ⟨hb.1, fun req hreq => ?_⟩
      simp only [accessReq, hread, Option.some.injEq] at hreq
      subst hreq
      exact hb.2
    · exact h.hits x hx hhit' b' hb' hg

variable {blk : Block}

theorem Ownership.acquire (h : L.Ownership) {L' : Ledger cfg} {pid : PID} {line : Nat}
    (hgen : L'.gen = L.gen) (hdisc' : L'.discarding = L.discarding) (hdisc : L.discarding = false)
    (hblocks : L'.blocks = Function.update L.blocks b blk) (hset : Flow.InSet cfg L.gen line b)
    (hidle : (L.blocks b).isLocked = false ∧ (L.blocks b).readCount ≤ 0)
    (howners : ∀ b', L'.owners b' = L.owners b' + if b = b' then 1 else 0)
    (hreaders : ∀ b', L'.readers b' = L.readers b')
    (hblk : Taken (L.blocks b) blk pid line)
    (hb : Flow.Holds L.blocks b pid line ∨
      ∀ b', Flow.InSet cfg L.gen line b' → ¬ Flow.Holds L.blocks b' pid line)
    (hentries : ∀ e ∈ L'.opened, (L'.mshr.heap e).block = some b ∧ (L'.mshr.heap e).pid = pid ∧
      (L'.mshr.heap e).address = line ∨ e ∈ L.opened ∧ L'.mshr.heap e = L.mshr.heap e)
    (hhits : ∀ t ∈ L'.work, t.action.isHit = true →
      (t.block = some b ∧ ∀ req, t.accessReq = some req → line = lineOf cfg req.address ∧ pid = req.pid) ∨ t ∈ L.work) :
    L'.Ownership := by
  have hbgen := inSet_gen hset
  obtain ⟨hown, hread⟩ := h.free hdisc hbgen hidle
  obtain ⟨hnoEntry, hnoHit⟩ := ne_of_free hown hread
  have hself : L'.blocks b = blk := by rw [hblocks, update_self]
  have hne : ∀ b', b' ≠ b → L'.blocks b' = L.blocks b' := fun b' hb' => by rw [hblocks, update_of_ne hb']
  refine h.update hgen hdisc' hblocks (not_outside hset) (fun b' hb' => ⟨?_, hreaders b'⟩) (fun _ _ => ⟨?_, ?_, hdisc⟩)
    (fun _ hl => ?_) (fun _ => ?_) (fun _ _ => ?_) (fun _ _ b' hb' hg hv ht hp => ?_) ?_ ?_
  · rw [howners, if_neg fun heq => hb' heq.symm, Nat.add_zero]
  · rw [howners, hown, if_pos rfl]
  · rw [hreaders, hread]
  · rw [hblk.isLocked] at hl
    cases hl
  · rw [hreaders, hblk.readCount, h.reading b hbgen]
  · rw [hblk.tag]
    exact hset
  · -- another block with this line would have been found
    rw [hblk.tag] at ht
    rw [hblk.pid] at hp
    rcases hb with hb | hb
    · exact hb' (h.unique b' b hg hbgen hv hb.1 (ht.trans hb.2.1.symm) (hp.trans hb.2.2.symm))
    · have hplaced := h.placed b' hg hv
      rw [ht] at hplaced
      exact hb b' hplaced ⟨hv, ht, hp⟩
  · intro e he b' hb' hg
    rcases hentries e he with ⟨hblock, hpid, haddr⟩ | ⟨he, heap⟩
    · cases hblock.symm.trans hb'
      rw [Flow.Holds, hself, hpid, haddr]
      exact ⟨hblk.isValid, hblk.tag, hblk.pid⟩
    · rw [heap] at hb' ⊢
      rw [Flow.Holds, hne b' fun heq => hnoEntry e he (heq ▸ hb')]
      exact h.entries e he b' hb' hg
  · intro x hx hhit b' hb' hg
    rcases hhits x hx hhit with ⟨hblock, hreq⟩ | hx
    · cases hblock.symm.trans hb'
      rw [hself, hblk.tag, hblk.pid]
      exact ⟨hblk.isValid, hreq⟩
    · rw [hne b' fun heq => hnoHit x hx hhit (heq ▸ hb')]
      exact h.hits x hx hhit b' hb' hg

theorem Ownership.write (h : L.Ownership) (hdisc : L.discarding = false) {x : TopWrite} (haction : t'.action.isWrite = true)
    (hblock : t'.block = some b) (hread : t'.read = none) (hwrite : t'.write = some x)
    (hset : Flow.InSet cfg L.gen (lineOf cfg x.address) b)
    (hidle : (L.blocks b).isLocked = false ∧ (L.blocks b).readCount ≤ 0)
    (hb : Flow.Holds L.blocks b x.pid (lineOf cfg x.address) ∨ ∀ b', Flow.InSet cfg L.gen (lineOf cfg x.address) b' →
      ¬ Flow.Holds L.blocks b' x.pid (lineOf cfg x.address))
    (hblk : Taken (L.blocks b) blk x.pid (lineOf cfg x.address)) :
    Ownership { L with dir := d, work := t' ::ₘ L.work, blocks := Function.update L.blocks b blk } := by
  have hhit := Action.isHit_of_isWrite haction
  have hopened := opened_hit (L := L) (d := d) hhit (Function.update L.blocks b blk)
  refine h.acquire rfl rfl hdisc rfl hset hidle (fun b' => ?_) (fun b' => ?_) hblk hb
    (fun e he => .inr ⟨hopened ▸ he, rfl⟩) (fun y hy _ => ?_)
  · have ht : t'.writesTo b' = true ↔ b = b' := by simp [writesTo, haction, hblock]
    simp only [owners, hopened, countP_cons, ht]
    omega
  · have ht : ¬ t'.readsFrom b' = true := by
      intro ht
      simp only [readsFrom, Bool.and_eq_true, beq_iff_eq] at ht
      simp [ht.1, isWrite] at haction
    simp only [readers, countP_cons, if_neg ht, Nat.add_zero]
  · rcases mem_cons.mp hy with rfl | hy
    · refine .inl ⟨hblock, fun req hreq => ?_⟩
      simp only [accessReq, hread, hwrite, Option.some.injEq] at hreq
      subst hreq
      exact ⟨rfl, rfl⟩
    · exact .inr hy

variable {e : EntryRef}

theorem opened_lt (hc : L.Custody) (he : e ∈ L.opened) : e < L.mshr.nextRef :=
  hc.held_lt e (mem_of_le (opened_le_held L) he)

theorem Ownership.opening (h : L.Ownership) (hc : L.Custody) (hdisc : L.discarding = false) {pid : PID} {line : Nat}
    (haction : t'.action.isFetch = true) (hset : Flow.InSet cfg L.gen line b)
    (hidle : (L.blocks b).isLocked = false ∧ (L.blocks b).readCount ≤ 0)
    (hb : ∀ b', Flow.InSet cfg L.gen line b' → ¬ Flow.Holds L.blocks b' pid line) (hblk : Taken (L.blocks b) blk pid line) :
    Ownership { L with
      dir := d, work := t' ::ₘ L.work, mshr := allocate L.mshr pid line b t',
      blocks := Function.update L.blocks b blk } := by
  have hhit : t'.action.isHit = false := by
    cases ha : t'.action <;> simp [ha, isHit, isFetch] at haction ⊢
  have hfill : t'.action ≠ .bankWriteFetched := by
    intro ha
    simp [ha, isFetch] at haction
  have hnew : L.mshr.nextRef ∉ L.opened := fun hm => Nat.lt_irrefl _ (opened_lt hc hm)
  have hheap : ∀ e ∈ L.opened, (allocate L.mshr pid line b t').heap e = L.mshr.heap e :=
    fun e he => update_of_ne (fun heq => hnew (by rwa [← heq])) _ _
  have hheap' : (allocate L.mshr pid line b t').heap L.mshr.nextRef =
      { pid, address := line, requests := [t'], block := some b } := update_self _ _ _
  have hopened : ({ L with
      dir := d, work := t' ::ₘ L.work, mshr := allocate L.mshr pid line b t',
      blocks := Function.update L.blocks b blk } : Ledger cfg).opened = L.mshr.nextRef ::ₘ L.opened := by
    simp only [opened, filled, cons_bind, fills_of_ne hfill, zero_add, allocate, ← Multiset.coe_add, Multiset.coe_singleton]
    rw [← singleton_add]
    simp only [add_assoc, add_left_comm]
  refine h.acquire rfl rfl hdisc rfl hset hidle (fun b' => ?_) (fun b' => ?_) hblk (.inr hb)
    (fun e he => ?_) (fun y hy hhit' => ?_)
  · have ht := not_writesTo_of_not_hit hhit b'
    have hsum : (L.opened.map fun e => filling b' ((allocate L.mshr pid line b t').heap e)).sum =
        (L.opened.map fun e => filling b' (L.mshr.heap e)).sum := sum_update_of_notMem hnew _
    have hfilling : filling b' ((allocate L.mshr pid line b t').heap L.mshr.nextRef) =
        if b = b' then 1 else 0 := by
      rw [hheap']
      simp [filling]
    simp only [owners, hopened, countP_cons, if_neg ht, map_cons, sum_cons]
    rw [hsum, hfilling]
    omega
  · simp only [readers, countP_cons, if_neg (not_readsFrom_of_not_hit hhit b'), Nat.add_zero]
  · rw [hopened] at he
    rcases mem_cons.mp he with rfl | he
    · refine .inl ?_
      change ((allocate L.mshr pid line b t').heap _).block = _ ∧
        ((allocate L.mshr pid line b t').heap _).pid = _ ∧ ((allocate L.mshr pid line b t').heap _).address = _
      rw [hheap']
      exact ⟨rfl, rfl, rfl⟩
    · exact .inr ⟨he, hheap e he⟩
  · rcases mem_cons.mp hy with rfl | hy
    · rw [hhit] at hhit'
      cases hhit'
    · exact .inr hy

theorem Ownership.fill (h : L.Ownership) {arr m : ArrayRef} {dirty : Bool} (hwork : L.work = t ::ₘ w)
    (haction : t.action.isFetch = true) (he : e ∈ L.mshr.entries) (hblock : (L.mshr.heap e).block = some b)
    (haction' : t'.action = .bankWriteFetched) (hentry' : t'.mshrEntry = some e) :
    Ownership { L with
      work := t' ::ₘ w, mshr := fillMSHR L.mshr e arr, blocks := fillBlock L.blocks b m dirty } := by
  have hhit : t.action.isHit = false := by
    cases ha : t.action <;> simp [ha, isHit, isFetch] at haction ⊢
  have hhit' : t'.action.isHit = false := by simp [haction', isHit]
  have hfill : t.action ≠ .bankWriteFetched := by
    intro ha
    simp [ha, isFetch] at haction
  have heap : ∀ e', ((fillMSHR L.mshr e arr).heap e').block = (L.mshr.heap e').block ∧
      ((fillMSHR L.mshr e arr).heap e').pid = (L.mshr.heap e').pid ∧
      ((fillMSHR L.mshr e arr).heap e').address = (L.mshr.heap e').address := by
    intro e'
    by_cases heq : e' = e
    · subst heq
      simp [fillMSHR]
    · simp [fillMSHR, update_of_ne heq]
  have hopened : ({ L with
      work := t' ::ₘ w, mshr := fillMSHR L.mshr e arr, blocks := fillBlock L.blocks b m dirty } :
      Ledger cfg).opened = L.opened := by
    have hcons : (↑L.mshr.entries : Multiset EntryRef) = {e} + ↑(L.mshr.entries.erase e) := by
      rw [← Multiset.coe_erase, singleton_add, Multiset.cons_erase (Multiset.mem_coe.mpr he)]
    simp only [opened, filled, hwork, cons_bind, fills_of_ne hfill, fills_of_fill haction' hentry', zero_add, fillMSHR, hcons]
    simp only [add_assoc, add_left_comm]
  have hmem : e ∈ L.opened := by simp [opened, he]
  refine h.congr rfl rfl (fun b' => ?_) (fun b' => ?_) (fun b' => ?_) (fun b' hb' => ?_)
    (fun e' he' => ⟨hopened ▸ he', heap e'⟩) (fun x hx hx' => ?_)
  · simp only [owners, hopened, hwork, countP_cons, if_neg (not_writesTo_of_not_hit hhit b'),
      if_neg (not_writesTo_of_not_hit hhit' b'), filling, (heap _).1]
  · simp only [readers, hwork, countP_cons, if_neg (not_readsFrom_of_not_hit hhit b'),
      if_neg (not_readsFrom_of_not_hit hhit' b')]
  · by_cases heq : b' = b
    · subst heq
      simp [fillBlock]
    · simp [fillBlock, update_of_ne heq]
  · refine update_of_ne (fun heq => ?_) _ _
    have := owners_pos_of_opened hmem (heq ▸ hblock)
    omega
  · rcases mem_cons.mp hx with rfl | hx
    · rw [hhit'] at hx'
      cases hx'
    · exact ⟨x, hwork ▸ mem_cons_of_mem hx, hx', rfl, rfl⟩

/-- A block is handed back: its line stays the same. -/
theorem Ownership.release (h : L.Ownership) {L' : Ledger cfg} (hgen : L'.gen = L.gen) (hdisc : L'.discarding = L.discarding)
    (hblocks : L'.blocks = Function.update L.blocks b blk) (hin : 0 < L.owners b ∨ 0 < L.readers b)
    (hother : ∀ b', b' ≠ b → L'.owners b' = L.owners b' ∧ L'.readers b' = L.readers b')
    (hlocked : b.gen = L.gen → blk.isLocked = true → L'.owners b = 1 ∧ L'.readers b = 0 ∧ L.discarding = false)
    (hunlocked : b.gen = L.gen → blk.isLocked = false → L.discarding = false → L'.owners b = 0)
    (hreading : b.gen = L.gen → blk.readCount = L'.readers b) (hvalid : b.gen = L.gen → (L.blocks b).isValid = true)
    (hblk : blk.tag = (L.blocks b).tag ∧ blk.pid = (L.blocks b).pid ∧ ((L.blocks b).isValid = true → blk.isValid = true))
    (hentries : ∀ e ∈ L'.opened, e ∈ L.opened) (hheap : L'.mshr.heap = L.mshr.heap) (hwork : ∀ t ∈ L'.work, t ∈ L.work) :
    L'.Ownership := by
  have hself : L'.blocks b = blk := by rw [hblocks, update_self]
  have hne : ∀ b', b' ≠ b → L'.blocks b' = L.blocks b' := fun b' hb' => by rw [hblocks, update_of_ne hb']
  have hline : ∀ b', (L'.blocks b').tag = (L.blocks b').tag ∧ (L'.blocks b').pid = (L.blocks b').pid ∧
      ((L.blocks b').isValid = true → (L'.blocks b').isValid = true) := by
    intro b'
    by_cases heq : b' = b
    · subst heq
      rw [hself]
      exact hblk
    · rw [hne b' heq]
      exact ⟨rfl, rfl, id⟩
  refine h.update hgen hdisc hblocks (fun hout => ?_) hother hlocked hunlocked hreading (fun hg _ => ?_)
    (fun hg _ b' hb' hg' hv ht hp => ?_) (fun e he b' hb' hg => ?_) (fun t ht hhit b' hb' hg => ?_)
  · obtain ⟨-, h1, h2⟩ := h.outside b hout
    omega
  · rw [hblk.1]
    exact h.placed b hg (hvalid hg)
  · exact hb' (h.unique b' b hg' hg hv (hvalid hg) (ht.trans hblk.1) (hp.trans hblk.2.1))
  · rw [hheap] at hb' ⊢
    obtain ⟨h1, h2, h3⟩ := h.entries e (hentries e he) b' hb' hg
    exact ⟨(hline b').2.2 h1, (hline b').1.trans h2, (hline b').2.1.trans h3⟩
  · obtain ⟨h1, h2⟩ := h.hits t (hwork t ht) hhit b' hb' hg
    rw [(hline b').1, (hline b').2.1]
    exact ⟨(hline b').2.2 h1, h2⟩

/-- A block somebody will write is locked, unless a discard has unlocked it. -/
theorem Ownership.isLocked (h : L.Ownership) (hdisc : L.discarding = false) (hg : b.gen = L.gen)
    (hown : 0 < L.owners b) : (L.blocks b).isLocked = true := by
  by_contra hl
  have := h.unlocked hdisc b hg (Bool.eq_false_of_not_eq_true hl)
  omega

theorem Ownership.settle (h : L.Ownership) (hwork : L.work = t ::ₘ w) (haction : t.action = .bankWriteFetched)
    (hentry : t.mshrEntry = some e) (hblock : (L.mshr.heap e).block = some b) :
    Ownership { L with
      work := w, drain := L.drain ++ [e],
      blocks := Function.update L.blocks b { L.blocks b with isLocked := false, isValid := true } } := by
  have hhit : t.action.isHit = false := by simp [haction, isHit]
  have hopened : L.opened = e ::ₘ ({ L with
      work := w, drain := L.drain ++ [e],
      blocks := Function.update L.blocks b { L.blocks b with isLocked := false, isValid := true } } :
      Ledger cfg).opened := by
    simp only [opened, filled, hwork, cons_bind, fills_of_fill haction hentry]
    rw [← singleton_add]
    simp only [add_left_comm]
  have hmem : e ∈ L.opened := hopened ▸ mem_cons_self _ _
  have hpos := owners_pos_of_opened hmem hblock
  have howners : ∀ b', (({ L with
      work := w, drain := L.drain ++ [e],
      blocks := Function.update L.blocks b { L.blocks b with isLocked := false, isValid := true } } :
      Ledger cfg).owners b' + if b = b' then 1 else 0) = L.owners b' := by
    intro b'
    simp only [owners]
    rw [hopened, hwork, countP_cons, if_neg (not_writesTo_of_not_hit hhit b'), map_cons, sum_cons]
    simp only [filling, hblock, Option.some.injEq]
    omega
  have hreaders : ∀ b', ({ L with
      work := w, drain := L.drain ++ [e],
      blocks := Function.update L.blocks b { L.blocks b with isLocked := false, isValid := true } } :
      Ledger cfg).readers b' = L.readers b' := by
    intro b'
    simp only [readers, hwork, countP_cons, if_neg (not_readsFrom_of_not_hit hhit b'), Nat.add_zero]
  refine h.release rfl rfl rfl (.inl hpos) (fun b' hb' => ⟨?_, hreaders b'⟩) (fun _ hl => by cases hl)
    (fun hg _ hd => ?_) (fun hg => ?_) (fun hg => (h.entries e hmem b hblock hg).1) ⟨rfl, rfl, fun _ => rfl⟩
    (fun e' he' => hopened ▸ mem_cons_of_mem he') rfl (fun x hx => hwork ▸ mem_cons_of_mem hx)
  · rw [← howners b', if_neg fun heq => hb' heq.symm, Nat.add_zero]
  · have h1 := h.locked b hg (h.isLocked hd hg hpos)
    have h2 := howners b
    rw [if_pos rfl] at h2
    omega
  · rw [hreaders]
    exact h.reading b hg

theorem opened_of_hit (hwork : L.work = t ::ₘ w) (hhit : t.action.isHit = true) (inFlight : List Transaction)
    (blocks : BlockRef → Block) :
    ({ L with work := w, inFlight := inFlight, blocks := blocks } : Ledger cfg).opened = L.opened := by
  have hfill : t.action ≠ .bankWriteFetched := by
    intro ha
    simp [ha, isHit] at hhit
  simp [opened, filled, hwork, fills_of_ne hfill]

variable {inFlight : List Transaction}

theorem Ownership.finishRead (h : L.Ownership) (hwork : L.work = t ::ₘ w)
    (haction : t.action = .bankReadHit) (hblock : t.block = some b) :
    Ownership { L with
      work := w, inFlight := inFlight,
      blocks := Function.update L.blocks b { L.blocks b with readCount := (L.blocks b).readCount - 1 } } := by
  have hhit : t.action.isHit = true := by simp [haction, isHit]
  have hmem : t ∈ L.work := hwork ▸ mem_cons_self t w
  have hopened := opened_of_hit hwork hhit inFlight
    (Function.update L.blocks b { L.blocks b with readCount := (L.blocks b).readCount - 1 })
  have hpos := readers_pos hmem haction hblock
  have howners : ∀ b', ({ L with
      work := w, inFlight := inFlight,
      blocks := Function.update L.blocks b { L.blocks b with readCount := (L.blocks b).readCount - 1 } } :
      Ledger cfg).owners b' = L.owners b' := by
    intro b'
    have ht : ¬ t.writesTo b' = true := by simp [writesTo, haction, isWrite]
    simp only [owners, hopened, hwork, countP_cons, if_neg ht, Nat.add_zero]
  have hreaders : ∀ b', (({ L with
      work := w, inFlight := inFlight,
      blocks := Function.update L.blocks b { L.blocks b with readCount := (L.blocks b).readCount - 1 } } :
      Ledger cfg).readers b' + if b = b' then 1 else 0) = L.readers b' := by
    intro b'
    have ht : t.readsFrom b' = true ↔ b = b' := by simp [readsFrom, haction, hblock]
    simp only [readers, hwork, countP_cons, ht]
  refine h.release rfl rfl rfl (.inr hpos) (fun b' hb' => ⟨howners b', ?_⟩) (fun hg hl => ?_) (fun hg hl hd => ?_)
    (fun hg => ?_) (fun hg => (h.hits t hmem hhit b hblock hg).1) ⟨rfl, rfl, id⟩ (fun e he => hopened ▸ he) rfl
    (fun x hx => hwork ▸ mem_cons_of_mem hx)
  · have := hreaders b'
    rw [if_neg fun heq => hb' heq.symm, Nat.add_zero] at this
    exact this
  · have := h.excl b hg hl
    omega
  · rw [howners]
    exact h.unlocked hd b hg hl
  · have h1 := h.reading b hg
    have h2 := hreaders b
    rw [if_pos rfl] at h2
    change (L.blocks b).readCount - 1 = _
    omega

theorem Ownership.finishWrite (h : L.Ownership) {m : ArrayRef}
    (hwork : L.work = t ::ₘ w) (haction : t.action = .bankWriteHit) (hblock : t.block = some b) :
    Ownership { L with
      work := w, inFlight := inFlight, blocks := Function.update L.blocks b
        { L.blocks b with isValid := true, isLocked := false, isDirty := true, dirtyMask := some m } } := by
  have hhit : t.action.isHit = true := by simp [haction, isHit]
  have hwrite : t.action.isWrite = true := by simp [haction, isWrite]
  have hmem : t ∈ L.work := hwork ▸ mem_cons_self t w
  have hopened := opened_of_hit hwork hhit inFlight
    (Function.update L.blocks b
      { L.blocks b with isValid := true, isLocked := false, isDirty := true, dirtyMask := some m })
  have hpos := owners_pos_of_work hmem hwrite hblock
  have howners : ∀ b', (({ L with
      work := w, inFlight := inFlight, blocks := Function.update L.blocks b
        { L.blocks b with isValid := true, isLocked := false, isDirty := true, dirtyMask := some m } } :
      Ledger cfg).owners b' + if b = b' then 1 else 0) = L.owners b' := by
    intro b'
    have ht : t.writesTo b' = true ↔ b = b' := by simp [writesTo, hwrite, hblock]
    simp only [owners, hopened, hwork, countP_cons, ht]
    omega
  have hreaders : ∀ b', ({ L with
      work := w, inFlight := inFlight, blocks := Function.update L.blocks b
        { L.blocks b with isValid := true, isLocked := false, isDirty := true, dirtyMask := some m } } :
      Ledger cfg).readers b' = L.readers b' := by
    intro b'
    have ht : ¬ t.readsFrom b' = true := by simp [readsFrom, haction]
    simp only [readers, hwork, countP_cons, if_neg ht, Nat.add_zero]
  refine h.release rfl rfl rfl (.inl hpos) (fun b' hb' => ⟨?_, hreaders b'⟩) (fun _ hl => by cases hl)
    (fun hg _ hd => ?_) (fun hg => ?_)
    (fun hg => (h.hits t hmem hhit b hblock hg).1) ⟨rfl, rfl, fun _ => rfl⟩ (fun e he => hopened ▸ he) rfl
    (fun x hx => hwork ▸ mem_cons_of_mem hx)
  · have := howners b'
    rw [if_neg fun heq => hb' heq.symm, Nat.add_zero] at this
    exact this
  · have h1 := h.locked b hg (h.isLocked hd hg hpos)
    have h2 := howners b
    rw [if_pos rfl] at h2
    omega
  · rw [hreaders]
    exact h.reading b hg

theorem owners_readers_le (L' : Ledger cfg) (hwork : L'.work ≤ L.work) (hopened : L'.opened ≤ L.opened)
    (hheap : L'.mshr.heap = L.mshr.heap) (b : BlockRef) : L'.owners b ≤ L.owners b ∧ L'.readers b ≤ L.readers b := by
  have h1 := countP_le_of_le (fun t => t.writesTo b = true) hwork
  have h2 := countP_le_of_le (fun t => t.readsFrom b = true) hwork
  have h3 := sum_le_of_le hopened fun e => filling b (L.mshr.heap e)
  simp only [owners, readers, hheap]
  omega

theorem Ownership.discard (h : L.Ownership) {blocks : BlockRef → Block} (hwork : w ≤ L.work)
    (hhit : ∀ t ∈ w, t.action.isHit = false)
    (hfree : ∀ b, b.gen = L.gen → (blocks b).isLocked = false ∧ (blocks b).readCount = 0)
    (hline : ∀ b, (blocks b).isValid = (L.blocks b).isValid ∧ (blocks b).tag = (L.blocks b).tag ∧
      (blocks b).pid = (L.blocks b).pid)
    (hnew : ∀ b, L.blocks b = {} → blocks b = {}) :
    Ownership { L with
      dir := 0, work := w, drain := [], inFlight := [], discarding := true, blocks := blocks } := by
  have hopened : ({ L with
      dir := 0, work := w, drain := [], inFlight := [], discarding := true, blocks := blocks } :
      Ledger cfg).opened ≤ L.opened := by
    obtain ⟨_, hr⟩ := Multiset.le_iff_exists_add.mp hwork
    simp only [opened, filled, hr, Multiset.add_bind]
    exact add_le_add_right (le_add_right _ _) _
  have hle := owners_readers_le (L := L) ({ L with
      dir := 0, work := w, drain := [], inFlight := [], discarding := true, blocks := blocks }) hwork hopened rfl
  have hnoRead : ∀ b, w.countP (fun t => t.readsFrom b = true) = 0 := fun b =>
    Multiset.countP_eq_zero.mpr fun t ht => not_readsFrom_of_not_hit (hhit t ht) b
  exact {
    locked := by
      intro b hb hl
      rw [(hfree b hb).1] at hl
      cases hl
    unlocked := fun hd => by cases hd
    discarded := fun _ b hb => (hfree b hb).1
    reading := by
      intro b hb
      simp only [(hfree b hb).2, readers, hnoRead]
      rfl
    excl := fun b _ _ => hnoRead b
    outside := by
      intro b hb
      obtain ⟨h1, h2, _⟩ := h.outside b hb
      exact ⟨hnew b h1, Nat.le_zero.mp (h2 ▸ (hle b).1), hnoRead b⟩
    placed := by
      intro b hb hv
      simp only [(hline b).1] at hv
      simp only [(hline b).2.1]
      exact h.placed b hb hv
    unique := by
      intro b b' hb hb' hv hv' ht hp
      simp only [(hline b).1, (hline b').1] at hv hv'
      simp only [(hline b).2.1, (hline b').2.1] at ht
      simp only [(hline b).2.2, (hline b').2.2] at hp
      exact h.unique b b' hb hb' hv hv' ht hp
    entries := by
      intro e he b hb hg
      simp only [Flow.Holds, (hline b).1, (hline b).2.1, (hline b).2.2]
      exact h.entries e (mem_of_le hopened he) b hb hg
    hits := by
      intro t ht hx
      rw [hhit t ht] at hx
      cases hx }

theorem Ownership.finish (h : L.Ownership) :
    Ownership { L with
      mshr := L.mshr.reset, gen := L.gen + 1, discarding := false,
      blocks := fun b => if b.gen = L.gen + 1 then {} else L.blocks b } := by
  have hopened : ({ L with
      mshr := L.mshr.reset, gen := L.gen + 1, discarding := false,
      blocks := fun b => if b.gen = L.gen + 1 then {} else L.blocks b } : Ledger cfg).opened ≤ L.opened := by
    simp only [opened, filled, MSHR.reset, Multiset.coe_nil, zero_add]
    exact Multiset.le_add_left _ _
  have hle := owners_readers_le (L := L) ({ L with
      mshr := L.mshr.reset, gen := L.gen + 1, discarding := false,
      blocks := fun b => if b.gen = L.gen + 1 then {} else L.blocks b }) le_rfl hopened rfl
  -- the blocks of the new directory are in nobody's hands
  have hnext : ∀ b : BlockRef, b.gen = L.gen + 1 → L.gen < b.gen := fun b hb => by omega
  have hnew : ∀ b, L.gen < b.gen → ({ L with
      mshr := L.mshr.reset, gen := L.gen + 1, discarding := false,
      blocks := fun b => if b.gen = L.gen + 1 then {} else L.blocks b } : Ledger cfg).owners b = 0 ∧ ({ L with
      mshr := L.mshr.reset, gen := L.gen + 1, discarding := false,
      blocks := fun b => if b.gen = L.gen + 1 then {} else L.blocks b } : Ledger cfg).readers b = 0 := by
    intro b hb
    obtain ⟨-, h1, h2⟩ := h.outside b (.inl hb)
    exact ⟨Nat.le_zero.mp (h1 ▸ (hle b).1), Nat.le_zero.mp (h2 ▸ (hle b).2)⟩
  have hblock : ∀ b, b.gen = L.gen + 1 → (if b.gen = L.gen + 1 then {} else L.blocks b : Block) = {} :=
    fun b hb => if_pos hb
  exact {
    locked := by
      intro b hb hl
      simp only [hblock b hb] at hl
      cases hl
    unlocked := fun _ b hb _ => (hnew b (hnext b hb)).1
    discarded := fun hd => by cases hd
    reading := by
      intro b hb
      rw [(hnew b (hnext b hb)).2]
      simp only [hblock b hb]
      rfl
    excl := fun b hb _ => (hnew b (hnext b hb)).2
    outside := by
      intro b hb
      have hlt : L.gen < b.gen := by
        rcases hb with hb | hb
        · exact Nat.lt_of_succ_lt hb
        · exact hnext b hb.1
      refine ⟨?_, hnew b hlt⟩
      simp only [(h.outside b (.inl hlt)).1]
      split <;> rfl
    placed := by
      intro b hb hv
      simp only [hblock b hb] at hv
      cases hv
    unique := by
      intro b b' hb _ hv
      simp only [hblock b hb] at hv
      cases hv
    entries := by
      intro e he b hb hg
      have h1 := owners_pos_of_opened he hb
      have h2 := hnew b (hnext b hg)
      omega
    hits := by
      intro t ht hhit b hb hg
      have h1 := busy_of_hit ht hhit hb
      have h2 := hnew b (hnext b hg)
      omega }

theorem Ownership.answer (h : L.Ownership) {ts : List Transaction} {drain : List EntryRef} :
    Ownership { L with
      inFlight := inFlight, mshr := L.mshr.modify e fun entry => { entry with requests := ts }, drain := drain } := by
  have heap : ∀ e', ((L.mshr.modify e fun entry => { entry with requests := ts }).heap e').block =
      (L.mshr.heap e').block := by
    intro e'
    by_cases heq : e' = e
    · subst heq
      simp
    · simp [update_of_ne heq]
  have hkeys := MSHR.keys_modify (m := L.mshr) (e := e) (f := fun entry => { entry with requests := ts })
    fun _ => ⟨rfl, rfl⟩
  refine h.congr rfl rfl (fun b => ?_) (fun _ => rfl) (fun _ => ⟨rfl, rfl, rfl, rfl, rfl⟩) (fun _ _ => rfl)
    (fun e' he' => ⟨he', heap e', hkeys e'⟩) (fun x hx hx' => ⟨x, hx, hx', rfl, rfl⟩)
  simp only [owners, filling, heap]
  rfl

theorem Ownership.join (h : L.Ownership) :
    Ownership { L with
      dir := d, mshr := L.mshr.modify e fun entry => { entry with requests := entry.requests ++ [t'] } } := by
  have heap : ∀ e', ((L.mshr.modify e fun entry => { entry with requests := entry.requests ++ [t'] }).heap e').block =
      (L.mshr.heap e').block := by
    intro e'
    by_cases heq : e' = e
    · subst heq
      simp
    · simp [update_of_ne heq]
  have hkeys := MSHR.keys_modify (m := L.mshr) (e := e)
    (f := fun entry => { entry with requests := entry.requests ++ [t'] }) fun _ => ⟨rfl, rfl⟩
  refine h.congr rfl rfl (fun b => ?_) (fun _ => rfl) (fun _ => ⟨rfl, rfl, rfl, rfl, rfl⟩) (fun _ _ => rfl)
    (fun e' he' => ⟨he', heap e', hkeys e'⟩) (fun x hx hx' => ⟨x, hx, hx', rfl, rfl⟩)
  simp only [owners, filling, heap]
  rfl

theorem Ownership.relabel (h : L.Ownership) (hwork : L.work = t ::ₘ w) (halike : t.Alike t') {k : Nat} :
    Ownership { L with work := t' ::ₘ w, nextID := k } := by
  have hopened : ({ L with work := t' ::ₘ w, nextID := k } : Ledger cfg).opened = L.opened := by
    simp [opened, filled, hwork, fills_eq halike]
  refine h.congr rfl rfl (fun b => ?_) (fun b => ?_) (fun _ => ⟨rfl, rfl, rfl, rfl, rfl⟩) (fun _ _ => rfl)
    (fun e he => ⟨hopened ▸ he, rfl, rfl, rfl⟩) (fun x hx hx' => ?_)
  · simp only [owners, hopened, hwork, countP_cons, writesTo_eq halike]
  · simp only [readers, hwork, countP_cons, readsFrom_eq halike]
  · rcases mem_cons.mp hx with rfl | hx
    · exact ⟨t, hwork ▸ mem_cons_self t w, halike.isHit ▸ hx', halike.block,
        by simp only [accessReq, halike.read, halike.write]⟩
    · exact ⟨x, hwork ▸ mem_cons_of_mem hx, hx', rfl, rfl⟩

theorem Ownership.drop (h : L.Ownership) (hwork : L.work = t ::ₘ w) (hidle : t.Idle) :
    Ownership { L with work := w } := by
  have hopened : ({ L with work := w } : Ledger cfg).opened = L.opened := by
    simp [opened, filled, hwork, fills_of_ne hidle.isFill]
  refine h.congr rfl rfl (fun b => ?_) (fun b => ?_) (fun _ => ⟨rfl, rfl, rfl, rfl, rfl⟩) (fun _ _ => rfl)
    (fun e he => ⟨hopened ▸ he, rfl, rfl, rfl⟩)
    (fun x hx hx' => ⟨x, hwork ▸ mem_cons_of_mem hx, hx', rfl, rfl⟩)
  · simp only [owners, hopened, hwork, countP_cons, if_neg (not_writesTo_of_not_hit hidle.isHit b), Nat.add_zero]
  · simp only [readers, hwork, countP_cons, if_neg (not_readsFrom_of_not_hit hidle.isHit b), Nat.add_zero]

theorem Ownership.add (h : L.Ownership) (hidle : t.Idle) : Ownership { L with work := t ::ₘ L.work } := by
  have hopened : ({ L with work := t ::ₘ L.work } : Ledger cfg).opened = L.opened := by
    simp [opened, filled, fills_of_ne hidle.isFill]
  refine h.congr rfl rfl (fun b => ?_) (fun b => ?_) (fun _ => ⟨rfl, rfl, rfl, rfl, rfl⟩) (fun _ _ => rfl)
    (fun e he => ⟨hopened ▸ he, rfl, rfl, rfl⟩) (fun x hx hx' => ?_)
  · simp only [owners, hopened, countP_cons, if_neg (not_writesTo_of_not_hit hidle.isHit b), Nat.add_zero]
  · simp only [readers, countP_cons, if_neg (not_readsFrom_of_not_hit hidle.isHit b), Nat.add_zero]
  · rcases mem_cons.mp hx with rfl | hx
    · rw [hidle.isHit] at hx'
      cases hx'
    · exact ⟨x, hx, hx', rfl, rfl⟩

end

theorem Custody.not_discarding {L : Ledger cfg} (h : L.Custody) {t : Transaction} {d : Multiset Transaction}
    (hdir : L.dir = t ::ₘ d) : L.discarding = false := by
  by_contra hd
  have := h.discarded (Bool.eq_true_of_not_eq_false hd)
  simp [hdir] at this

theorem Ownership.step {L L' : Ledger cfg} (h : L.Ownership) (hc : L.Custody) (hs : L.Step L') : L'.Ownership := by
  cases hs with
  | pass | accept => exact ⟨h.1, h.2, h.3, h.4, h.5, h.6, h.7, h.8, h.9, h.10⟩
  | relabel _ _ _ hwork halike => exact h.relabel hwork halike
  | drop _ _ hwork hidle => exact h.drop hwork hidle
  | add _ hidle => exact h.add hidle
  | join => exact h.join
  | read _ _ _ _ _ _ _ haction hblock hread hset hb hlock => exact h.read haction hblock hread hset hb hlock
  | write _ _ _ _ _ _ hdir _ haction hblock hread hwrite hset hidle _ hb hblk =>
    exact h.write (hc.not_discarding hdir) haction hblock hread hwrite hset hidle hb hblk
  | opening _ _ _ _ _ _ _ hdir _ haction _ _ _ hset hidle _ hb _ hblk =>
    exact h.opening hc (hc.not_discarding hdir) haction hset hidle hb hblk
  | fill _ _ _ _ _ _ _ _ hwork haction _ he hblock _ haction' hentry' =>
    exact h.fill hwork haction he hblock haction' hentry'
  | settle _ _ _ _ hwork haction hentry hblock => exact h.settle hwork haction hentry hblock
  | finishRead _ _ _ hwork haction hblock => exact h.finishRead hwork haction hblock
  | finishWrite _ _ _ _ hwork haction hblock => exact h.finishWrite hwork haction hblock
  | answer => exact h.answer
  | discard _ hwork hhit =>
    refine h.discard hwork hhit (fun b hb => ?_) (fun b => ?_) (fun b hb => ?_)
    · by_cases hr : InRange cfg b
      · rw [if_pos ⟨hb, hr⟩]
        exact ⟨rfl, rfl⟩
      · rw [if_neg fun hn => hr hn.2, (h.outside b (.inr ⟨hb, hr⟩)).1]
        exact ⟨rfl, rfl⟩
    · dsimp only
      split <;> exact ⟨rfl, rfl, rfl⟩
    · rw [hb]
      exact ite_self _
  | finish => exact h.finish

end Ledger

end Akita.WriteBack
