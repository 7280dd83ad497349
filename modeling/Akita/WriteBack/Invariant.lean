import Akita.WriteBack.Messages

/-!
# The invariant of the flow

`Flow.Inv` gathers custody, ownership, the shapes and the messages. `Flow.Step.ledger` : a step of the flow is a step of
its ledger. `Flow.Inv.step` : every allowed step keeps the invariant.
-/

namespace Akita.WriteBack
open Sim Pipelining Mem Mem.Cache Function
open Multiset (add_cons cons_add cons_coe forall_mem_cons mem_add mem_cons mem_cons_of_mem mem_cons_self)
open WriteBack.Action (isFetch isHit isWrite)
open List hiding forall_mem_cons
open DirectoryStage (withVictim)

variable {cfg : Config}

namespace Flow

/-- What the surroundings are allowed to do: requests are legal, and a discarding flush is not accepted while an
evict-and-write is on its way back to the bank. -/
def Allowed (a : Flow cfg) : Label → Prop
  | .request req => Legal cfg req
  | .discard => ∀ t ∈ a.toBank, t.action ≠ .bankWriteHit
  | _ => True

/-- The states of the flusher. -/
structure Modes (a : Flow cfg) : Prop where
  idle : a.flush = none → a.mode = .running ∨ a.mode = .paused
  busy : ∀ req, a.flush = some req → a.mode = .preFlushing ∨ a.mode = .flushing
  drained : a.mode = .flushing → a.inFlight = []
  toEvict : a.mode ≠ .flushing → a.toEvict = []

structure Inv (a : Flow cfg) : Prop where
  custody : a.ledger.Custody
  ownership : a.ledger.Ownership
  entries : a.ledger.Entries
  live : a.ledger.Live
  shaped : a.Shaped
  messages : a.Messages
  modes : a.Modes

variable {a a' : Flow cfg} {l : Label}

theorem Modes.flush_none_of_running (h : a.Modes) (hm : a.mode = .running) : a.flush = none := by
  cases hf : a.flush with
  | none => rfl
  | some req => rcases h.busy req hf with h' | h' <;> rw [hm] at h' <;> cases h'

theorem Modes.step (h : a.Modes) (hs : Step a l a') : a'.Modes := by
  cases hs with
  | accept _ _ hmode => exact ⟨h.1, h.2, fun hm => absurd (hmode.symm.trans hm) nofun, h.4⟩
  | finishRead | finishWrite | respondRead | respondWrite => exact ⟨h.1, h.2, fun hm => by simp [h.3 hm], h.4⟩
  | startFlush | discardFlush =>
    refine ⟨nofun, fun _ _ => .inl rfl, nofun, fun _ => ?_⟩
    rcases h.idle ‹_› with hm | hm <;> exact h.toEvict (by rw [hm]; nofun)
  | prepare _ _ hflush _ hin => 
    exact ⟨fun hf => absurd (hflush.symm.trans hf) nofun, fun _ _ => .inr rfl, fun _ => hin, fun hm => absurd rfl hm⟩
  | evictFlush _ _ _ _ hmode =>
    exact ⟨h.1, h.2, h.3, fun hm => absurd hmode hm⟩
  | finishFlush _ _ _ hevict =>
    refine ⟨fun _ => ?_, nofun, fun hm => ?_, fun _ => hevict⟩
    · dsimp only
      split
      · exact .inr rfl
      · exact .inl rfl
    · dsimp only at hm
      split at hm <;> cases hm
  | restart _ _ _ _ _ hflush =>
    refine ⟨fun _ => .inl rfl, fun req hreq => absurd (hflush.symm.trans hreq) nofun, nofun, fun _ => ?_⟩
    rcases h.idle hflush with hm | hm <;> exact h.toEvict (by rw [hm]; nofun)
  | _ => exact ⟨h.1, h.2, h.3, h.4⟩

/-! ## The ledger -/

theorem step_of_work {L : Ledger cfg} {w : Multiset Transaction} (hw : a.work = w)
    (hs : L.Step { a.ledger with work := w }) : L.Step a.ledger := by
  subst hw
  exact hs

theorem step_of_discarding {L : Ledger cfg} {d : Bool} (hd : a.discarding = d)
    (hs : L.Step { a.ledger with discarding := d }) : L.Step a.ledger := by
  subst hd
  exact hs

/-- The transaction that fills an entry goes to the bank with it. -/
theorem Fill.ledger {slices : Slices} {t : Transaction} {arr : ArrayRef} {e : EntryRef} {b : BlockRef} {data : Bytes}
    {mask : Mask} {dirty : Bool} (hfill : a.Fill slices t arr e b data mask dirty) (t' : Transaction)
    {w : Multiset Transaction} (hwork : a.work = t ::ₘ w) (haction : t.action = .writeBufferFetch) (hid : t'.id = t.id)
    (haction' : t'.action = .bankWriteFetched) (hentry' : t'.mshrEntry = t.mshrEntry) (m : ArrayRef) :
    a.ledger.Step { a.ledger with
      work := t' ::ₘ w, mshr := fillMSHR a.mshr e arr, blocks := fillBlock a.blocks b m dirty } :=
  .fill t t' w e arr b m dirty hwork (by simp [haction, isFetch]) hfill.entry hfill.waits hfill.block hid haction'
    (hentry'.trans hfill.entry)

theorem Step.ledger (h : a.Inv) (hG : a.Allowed l) (hs : Step a l a') : a.ledger.Step a'.ledger := by
  cases hs with
  | accept _ _ hmode =>
    refine .accept _ (by simp [Flow.ledger]) ?_
    simp [Flow.ledger, discarding, h.modes.flush_none_of_running hmode]
  | join t d req e hdir hreq hentry =>
    obtain ⟨req', hasks, hlegal⟩ := h.shaped.dir t (hdir ▸ mem_cons_self t d)
    cases (Transaction.accessReq_of_asks hasks).symm.trans hreq
    exact .join t { t with mshrEntry := some e } d req e hdir rfl hreq hentry (by cases req <;> exact hasks) hlegal
  | readHit t d r b hdir _ hread _ hset hb hlock =>
    refine step_of_work (w := { t with block := some b, action := .bankReadHit } ::ₘ a.work) (by simp [work]) ?_
    exact .read t _ d r b hdir rfl rfl rfl hread hset hb hlock rfl
  | writeHit t d w b hdir hread hwrite hnone hset hidle _ hb =>
    refine step_of_work (w := { t with block := some b, action := .bankWriteHit } ::ₘ a.work) (by simp [work]) ?_
    exact .write t _ d w b _ hdir rfl rfl rfl hread hwrite hset hidle hnone (hb.imp id And.left) ⟨rfl, rfl, rfl, rfl, rfl⟩ rfl
  | evictAndWrite t d w b hdir hread hwrite hmiss hset hidle hdirty =>
    refine step_of_work
      (w := { withVictim cfg t (a.blocks b) b with action := .bankEvictAndWrite } ::ₘ a.work)
      (by simp [work]) ?_
    exact .write t _ d w b _ hdir rfl rfl rfl hread hwrite hset hidle hmiss.noEntry (.inr hmiss.absent)
      ⟨hdirty.1, rfl, rfl, rfl, rfl⟩ rfl
  | evictAndFetch t d req b hdir hreq hmiss hset hidle hdirty =>
    obtain ⟨req', hasks, hlegal⟩ := h.shaped.dir t (hdir ▸ mem_cons_self t d)
    cases (Transaction.accessReq_of_asks hasks).symm.trans hreq
    refine step_of_work (w := asFetch (withVictim cfg t (a.blocks b) b) .bankEvictAndFetch req.pid
      (lineOf cfg req.address) b a.mshr.nextRef ::ₘ a.work) (by simp [work]) ?_
    exact .opening t _ d req.pid (lineOf cfg req.address) b _ hdir rfl rfl rfl rfl rfl hset hidle hmiss.noEntry
      hmiss.absent ⟨req, by cases req <;> exact hasks, hlegal, rfl, rfl⟩ ⟨hdirty.1, rfl, rfl, rfl, rfl⟩ rfl
  | fetch t d req b hdir hreq hmiss hset hidle =>
    obtain ⟨_, hasks, hlegal⟩ := h.shaped.dir t (hdir ▸ mem_cons_self t d)
    cases (Transaction.accessReq_of_asks hasks).symm.trans hreq
    refine step_of_work (w := asFetch t .writeBufferFetch req.pid (lineOf cfg req.address) b a.mshr.nextRef ::ₘ a.work)
      (by simp [work]) ?_
    exact .opening t _ d req.pid (lineOf cfg req.address) b _ hdir rfl rfl rfl rfl rfl hset hidle hmiss.noEntry
      hmiss.absent ⟨req, by cases req <;> exact hasks, hlegal, rfl, rfl⟩ ⟨rfl, rfl, rfl, rfl, rfl⟩ rfl
  | pullFetch _ _ hbank =>
    refine step_of_work (w := a.work) ?_ (.pass a.nextID le_rfl)
    simp only [work, hbank, coe_concat, cons_add, add_cons]
  | pullUp _ _ htoBank =>
    refine step_of_work (w := a.work) ?_ (.pass a.nextID le_rfl)
    simp only [work, htoBank, cons_add, add_cons]
  | finishRead t _ _ b _ hbank haction _ hblock =>
    exact .finishRead t _ b (by simp only [Flow.ledger, work, hbank, cons_add]) haction hblock
  | finishWrite t _ _ b m _ _ _ _ _ hbank haction _ hblock =>
    exact .finishWrite t _ b m (by simp only [Flow.ledger, work, hbank, cons_add]) haction hblock
  | finishFetched t _ e b _ _ hbank haction hentry hblock =>
    exact .settle t _ e b (by simp only [Flow.ledger, work, hbank, cons_add]) haction hentry hblock
  | finishEviction t k _ _ action hbank haction =>
    refine step_of_work (w := { t with evictingData := some a.slices.next, action := action } ::ₘ
      (k + a.toBank + ↑a.wb + ↑a.fetches)) ?_ ?_
    · simp only [work, coe_concat, cons_add, add_cons]
    · refine .relabel t _ _ (by simp only [Flow.ledger, work, hbank, cons_add]) ?_ a.nextID le_rfl
      rcases evictedAction_ok haction with ⟨h1, rfl⟩ | ⟨h1, rfl⟩ | ⟨h1, rfl⟩ <;>
        exact ⟨rfl, by simp [h1, isHit], by simp [h1, isWrite], by simp [h1], by simp [h1, isFetch],
          by simp [h1], rfl, rfl, rfl, rfl, rfl, rfl⟩
  | sendEviction => exact .pass _ (Nat.le_succ _)
  | dataReady rsp _ t _ _ _ _ _ _ ht hfill =>
    have hfetches := coe_eraseP ht
    refine step_of_work (w := { t with fetchedData := some a.slices.next, action := .bankWriteFetched } ::ₘ
      (a.bank + a.toBank + ↑a.wb + ↑(a.fetches.eraseP (awaitsRead rsp.respondTo)))) ?_ ?_
    · simp only [work, cons_add, add_cons]
    · exact hfill.ledger { t with fetchedData := some a.slices.next, action := .bankWriteFetched }
        (w := a.bank + a.toBank + ↑a.wb + ↑(a.fetches.eraseP (awaitsRead rsp.respondTo)))
        (by simp only [work, hfetches, add_cons])
        (h.shaped.fetches t (mem_of_find?_eq_some ht)) rfl rfl rfl _
  | fetchLocal t rest _ arr _ _ _ _ _ hwb haction _ _ hfill =>
    refine step_of_work (w := { t with fetchedData := some arr, action := .bankWriteFetched } ::ₘ
      (a.bank + a.toBank + ↑rest + ↑a.fetches)) ?_ ?_
    · simp only [work, cons_add, add_cons]
    · exact hfill.ledger { t with fetchedData := some arr, action := .bankWriteFetched }
        (w := a.bank + a.toBank + ↑rest + ↑a.fetches)
        (by simp only [work, hwb, ← cons_coe, cons_add, add_cons]) haction
        rfl rfl rfl _
  | fetchBottom t rest req hwb =>
    refine step_of_work (w := { t with fetchReadReq := some req } ::ₘ (a.bank + a.toBank + ↑rest + ↑a.fetches)) ?_ ?_
    · simp only [work, coe_concat, add_cons]
    · refine .relabel t { t with fetchReadReq := some req } (a.bank + a.toBank + ↑rest + ↑a.fetches) ?_
        ⟨rfl, rfl, rfl, Iff.rfl, rfl, Iff.rfl, rfl, rfl, rfl, rfl, rfl, rfl⟩ _ (Nat.le_succ _)
      simp only [Flow.ledger, work, hwb, ← cons_coe, cons_add, add_cons]
  | parkAndWrite t rest hwb haction =>
    refine step_of_work (w := { t with action := .bankWriteHit } ::ₘ (a.bank + a.toBank + ↑rest + ↑a.fetches)) ?_ ?_
    · simp only [work, cons_add, add_cons]
    · refine .relabel t { t with action := .bankWriteHit } (a.bank + a.toBank + ↑rest + ↑a.fetches) ?_
        ⟨rfl, by simp [haction, isHit], by simp [haction, isWrite],
        by simp [haction], by simp [haction, isFetch], by simp [haction], rfl, rfl, rfl, rfl, rfl, rfl⟩ _ le_rfl
      simp only [Flow.ledger, work, hwb, ← cons_coe, cons_add, add_cons]
  | parkAndFetch t rest hwb haction =>
    refine step_of_work (w := { t with action := .writeBufferFetch } ::ₘ (a.bank + a.toBank + ↑rest + ↑a.fetches)) ?_ ?_
    · simp only [work, ← cons_coe, cons_add, add_cons]
    · refine .relabel t { t with action := .writeBufferFetch } (a.bank + a.toBank + ↑rest + ↑a.fetches) ?_
        ⟨rfl, by simp [haction, isHit], by simp [haction, isWrite],
        by simp [haction], by simp [haction, isFetch], by simp [haction], rfl, rfl, rfl, rfl, rfl, rfl⟩ _ le_rfl
      simp only [Flow.ledger, work, hwb, ← cons_coe, cons_add, add_cons]
  | parkFlush t _ hwb haction =>
    refine .drop t _ ?_ ⟨by simp [haction, isHit], by simp [haction, isFetch], by simp [haction]⟩
    simp only [Flow.ledger, work, hwb, ← cons_coe, cons_add, add_cons]
  | respondRead e rest t ts _ _ hdrain hreqs => exact .answer e rest t ts hdrain hreqs
  | respondWrite e rest t ts _ hdrain hreqs => exact .answer e rest t ts hdrain hreqs
  | skip e rest t ts hdrain hreqs hin =>
    have hs := Ledger.Step.answer (L := a.ledger) e rest t ts hdrain hreqs
    have hkeep : a.inFlight.eraseP (·.id == t.id) = a.inFlight := by
      refine eraseP_of_forall_not fun x hx hid => ?_
      have := any_eq_false.mp hin x hx
      exact this hid
    simp only [Flow.ledger, hkeep] at hs
    exact hs
  | startFlush _ _ _ hflush hkeep =>
    exact step_of_discarding (d := a.ledger.discarding) (by simp [Flow.ledger, discarding, hflush, hkeep])
      (.pass a.nextID le_rfl)
  | discardFlush _ _ _ _ hdiscard =>
    have hle : a.toBank + ↑a.fetches ≤ a.work := by
      simp only [work]
      refine add_le_add_left ?_ _
      exact (Multiset.le_add_left _ _).trans (Multiset.le_add_right _ _)
    have hhit : ∀ t ∈ a.toBank + ↑a.fetches, t.action.isHit = false := by
      intro t ht
      rcases mem_add.mp ht with ht | ht
      · have hfetched := (h.shaped.toBank t ht).resolve_left (hG t ht)
        simp [hfetched, isHit]
      · simp [h.shaped.fetches t ht, isHit]
    have hs := Ledger.Step.discard (L := a.ledger) _ hle hhit
    rw [show a.toBank + ↑a.fetches = 0 + a.toBank + ↑([] : List Transaction) + ↑a.fetches by simp] at hs
    exact step_of_discarding (d := true) (by simp [discarding, hdiscard]) hs
  | evictFlush =>
    refine step_of_work (w := _ ::ₘ a.work) (by simp [work]; rfl) ?_
    exact .add _ ⟨rfl, rfl, fun haction => by cases haction⟩
  | finishFlush _ _ hmode _ hwb hfetches _ _ hbank =>
    have hwork : ∀ t ∈ a.work, t.action = .bankWriteHit ∨ t.action = .bankWriteFetched := by
      intro t ht
      rcases mem_work.mp ht with ht | ht | ht | ht
      · simp [hbank] at ht
      · exact h.shaped.toBank t ht
      · simp [hwb] at ht
      · simp [hfetches] at ht
    refine .finish (h.modes.drained hmode) (fun t ht => ?_) fun t ht => ?_
    · rcases hwork t ht with h | h <;> simp [h, isFetch]
    · rcases hwork t ht with h | h <;> simp [h]
  | _ => exact .pass a.nextID le_rfl

/-! ## The shapes -/

namespace Shaped

theorem top_step (h : a.Inv) (hG : a.Allowed l) (hs : Step a l a') : ∀ req ∈ a'.top, Legal cfg req := by
  cases hs with
  | request =>
    exact forall_mem_append.mpr ⟨h.shaped.top, forall_mem_singleton.mpr hG⟩
  | accept _ _ _ htop => exact fun r hr => h.shaped.top r (htop ▸ mem_cons_of_mem _ hr)
  | discardFlush | restart => simp
  | _ => exact h.shaped.top

section
variable (h : a.Inv) (hs : Step a l a')
include h hs

theorem dir_step : ∀ t ∈ a'.dir, ∃ req, t.Asks req ∧ Legal cfg req := by
  have hsub : ∀ {t : Transaction} {d : Multiset Transaction}, a.dir = t ::ₘ d →
      ∀ t ∈ d, ∃ req, t.Asks req ∧ Legal cfg req :=
    fun hdir t ht => h.shaped.dir t (hdir ▸ mem_cons_of_mem ht)
  cases hs with
  | accept req _ _ htop =>
    intro t ht
    rcases mem_cons.mp ht with rfl | ht
    · exact ⟨req, Transaction.asks_ofReq _ _, h.shaped.top req (htop ▸ mem_cons_self)⟩
    · exact h.shaped.dir t ht
  | join | readHit | writeHit | evictAndFetch | evictAndWrite | fetch => exact hsub ‹_›
  | discardFlush => simp
  | _ => exact h.shaped.dir

theorem bank_step : ∀ t ∈ a'.bank, t.action.inBank = true := by
  have hadd : ∀ {t : Transaction}, t.action.inBank = true → ∀ t' ∈ t ::ₘ a.bank, t'.action.inBank = true := by
    intro t ht t' ht'
    rcases mem_cons.mp ht' with rfl | ht'
    · exact ht
    · exact h.shaped.bank t' ht'
  have hsub : ∀ {t : Transaction} {k : Multiset Transaction}, a.bank = t ::ₘ k → ∀ t ∈ k, t.action.inBank = true :=
    fun hbank t ht => h.shaped.bank t (hbank ▸ mem_cons_of_mem ht)
  cases hs with
  | readHit | writeHit | evictAndFetch | evictAndWrite | fetch => exact hadd rfl
  | pullFetch | finishRead | finishWrite | finishFetched | finishEviction => exact hsub ‹_›
  | pullUp t k htoBank =>
    have ht := h.shaped.toBank t (htoBank ▸ mem_cons_self t k)
    exact hadd (by rcases ht with ht | ht <;> simp [ht, Action.inBank])
  | discardFlush => simp
  | evictFlush => exact hadd rfl
  | _ => exact h.shaped.bank

theorem toBank_step :
    ∀ t ∈ a'.toBank, t.action = .bankWriteHit ∨ t.action = .bankWriteFetched := by
  have hadd : ∀ {t : Transaction}, (t.action = .bankWriteHit ∨ t.action = .bankWriteFetched) →
      ∀ t' ∈ t ::ₘ a.toBank, t'.action = .bankWriteHit ∨ t'.action = .bankWriteFetched := by
    intro t ht t' ht'
    rcases mem_cons.mp ht' with rfl | ht'
    · exact ht
    · exact h.shaped.toBank t' ht'
  cases hs with
  | pullUp t _ htoBank => exact fun t ht => h.shaped.toBank t (htoBank ▸ mem_cons_of_mem ht)
  | dataReady | fetchLocal => exact hadd (.inr rfl)
  | parkAndWrite => exact hadd (.inl rfl)
  | _ => exact h.shaped.toBank

theorem wb_step : ∀ t ∈ a'.wb, t.action.inWriteBuffer = true := by
  have hadd : ∀ {t : Transaction}, t.action.inWriteBuffer = true → ∀ t' ∈ a.wb ++ [t], t'.action.inWriteBuffer = true := by
    intro t ht t' ht'
    rcases mem_append.mp ht' with ht' | ht'
    · exact h.shaped.wb t' ht'
    · rw [mem_singleton.mp ht']
      exact ht
  have hsub : ∀ {t : Transaction} {rest : List Transaction}, a.wb = t :: rest →
      ∀ t ∈ rest, t.action.inWriteBuffer = true :=
    fun hwb t ht => h.shaped.wb t (hwb ▸ mem_cons_of_mem _ ht)
  cases hs with
  | pullFetch t _ _ haction => exact hadd (t := t) (by simp [haction, Action.inWriteBuffer])
  | finishEviction t _ _ _ action _ haction =>
    have ha : action.inWriteBuffer = true := by
      rcases evictedAction_ok haction with ⟨-, rfl⟩ | ⟨-, rfl⟩ | ⟨-, rfl⟩ <;> rfl
    exact hadd (t := { t with evictingData := some a.slices.next, action := action }) ha
  | fetchLocal | fetchBottom | parkAndWrite | parkFlush => exact hsub ‹_›
  | parkAndFetch _ _ hwb =>
    intro t' ht'
    rcases mem_cons.mp ht' with rfl | ht'
    · rfl
    · exact hsub hwb t' ht'
  | discardFlush => simp
  | _ => exact h.shaped.wb

theorem fetches_step : ∀ t ∈ a'.fetches, t.action = .writeBufferFetch := by
  cases hs with
  | dataReady => exact fun t ht => h.shaped.fetches t (mem_of_mem_eraseP ht)
  | fetchBottom _ _ _ _ haction =>
    intro t' ht'
    rcases mem_append.mp ht' with ht' | ht'
    · exact h.shaped.fetches t' ht'
    · rw [mem_singleton.mp ht']
      exact haction
  | _ => exact h.shaped.fetches

end

variable {t : Transaction}

theorem asks_of_dir (h : a.Inv) {d : Multiset Transaction} {req : AccessReq} (hdir : a.dir = t ::ₘ d)
    (hreq : t.accessReq = some req) : t.Asks req ∧ Legal cfg req := by
  obtain ⟨_, hasks, hlegal⟩ := h.shaped.dir t (hdir ▸ mem_cons_self t d)
  cases (Transaction.accessReq_of_asks hasks).symm.trans hreq
  exact ⟨hasks, hlegal⟩

theorem accessReq_of_write {w : TopWrite} (hread : t.read = none) (hwrite : t.write = some w) :
    t.accessReq = some (.write w) := by simp [Transaction.accessReq, hread, hwrite]

theorem within_of_inSet {gen addr : Nat} {b : BlockRef} (h : InSet cfg gen addr b) : Within cfg gen b :=
  ⟨h.2.1.le, inRange_of_inSet h⟩

theorem work_step (h : a.Inv) (hs : Step a l a') : ∀ t ∈ a'.work, t.Shape cfg a'.slices a'.gen := by
  have hold : ∀ t ∈ a.work, t.Shape cfg a'.slices a'.gen :=
    fun t ht => (h.shaped.work t ht).later (hs.grows h.shaped) hs.gen_le
  have hall := forall_work.mp hold
  obtain ⟨hbank, htoBank, hwb, hfetches⟩ := hall
  cases hs with
  | readHit _ _ r b hdir hreq _ _ hset =>
    obtain ⟨hasks, hlegal⟩ := asks_of_dir h hdir hreq
    exact forall_work.mpr
      ⟨forall_mem_cons.mpr ⟨⟨r, b, hasks, hlegal, rfl, within_of_inSet hset⟩, hbank⟩, htoBank, hwb, hfetches⟩
  | writeHit _ _ w b hdir hread hwrite _ hset =>
    obtain ⟨hasks, hlegal⟩ := asks_of_dir h hdir (accessReq_of_write hread hwrite)
    exact forall_work.mpr
      ⟨forall_mem_cons.mpr ⟨⟨w, b, hasks, hlegal, rfl, within_of_inSet hset⟩, hbank⟩, htoBank, hwb, hfetches⟩
  | evictAndWrite t _ w b hdir hread hwrite _ hset =>
    obtain ⟨hasks, hlegal⟩ := asks_of_dir h hdir (accessReq_of_write hread hwrite)
    have hshape : Transaction.Writes cfg a.gen
        { withVictim cfg t (a.blocks b) b with action := .bankEvictAndWrite } ∧
        Transaction.Evicts cfg { withVictim cfg t (a.blocks b) b with action := .bankEvictAndWrite } :=
      ⟨⟨w, b, hasks, hlegal, rfl, within_of_inSet hset⟩, _, rfl, cacheAddress_le (inRange_of_inSet hset)⟩
    exact forall_work.mpr ⟨forall_mem_cons.mpr ⟨hshape, hbank⟩, htoBank, hwb, hfetches⟩
  | evictAndFetch t _ req b _ _ _ hset =>
    have hshape : Transaction.Evicts cfg (asFetch (withVictim cfg t (a.blocks b) b) .bankEvictAndFetch
        req.pid (lineOf cfg req.address) b a.mshr.nextRef) := ⟨_, rfl, cacheAddress_le (inRange_of_inSet hset)⟩
    exact forall_work.mpr ⟨forall_mem_cons.mpr ⟨hshape, hbank⟩, htoBank, hwb, hfetches⟩
  | fetch => exact forall_work.mpr ⟨forall_mem_cons.mpr ⟨trivial, hbank⟩, htoBank, hwb, hfetches⟩
  | pullFetch _ _ hk =>
    rw [hk, forall_mem_cons] at hbank
    refine forall_work.mpr ⟨hbank.2, htoBank, ?_, hfetches⟩
    exact forall_mem_append.mpr ⟨hwb, forall_mem_singleton.mpr hbank.1⟩
  | pullUp _ _ hk =>
    rw [hk, forall_mem_cons] at htoBank
    exact forall_work.mpr ⟨forall_mem_cons.mpr ⟨htoBank.1, hbank⟩, htoBank.2, hwb, hfetches⟩
  | finishRead _ _ _ _ _ hk =>
    rw [hk, forall_mem_cons] at hbank
    exact forall_work.mpr ⟨hbank.2, htoBank, hwb, hfetches⟩
  | finishWrite _ _ _ _ _ _ _ _ _ _ hk =>
    rw [hk, forall_mem_cons] at hbank
    exact forall_work.mpr ⟨hbank.2, htoBank, hwb, hfetches⟩
  | finishFetched _ _ _ _ _ _ hk =>
    rw [hk, forall_mem_cons] at hbank
    exact forall_work.mpr ⟨hbank.2, htoBank, hwb, hfetches⟩
  | finishEviction t _ _ data action hk haction _ hdata =>
    rw [hk, forall_mem_cons] at hbank
    have hline : Slices.Line cfg (a.slices.newBytes data).2 a.slices.next :=
      Slices.line_newBytes (Storage.length_of_read hdata)
    have hcarries : Transaction.Carries cfg (a.slices.newBytes data).2
        { t with evictingData := some a.slices.next, action := action } := ⟨_, rfl, hline⟩
    have hshape : Transaction.Shape cfg (a.slices.newBytes data).2 a.gen
        { t with evictingData := some a.slices.next, action := action } := by
      have ht := hbank.1
      rcases evictedAction_ok haction with ⟨h1, rfl⟩ | ⟨h1, rfl⟩ | ⟨h1, rfl⟩
      · exact hcarries
      · exact hcarries
      · simp only [Transaction.Shape, h1] at ht
        exact ⟨ht.1, hcarries⟩
    refine forall_work.mpr ⟨hbank.2, htoBank, ?_, hfetches⟩
    exact forall_mem_append.mpr ⟨hwb, forall_mem_singleton.mpr hshape⟩
  | dataReady =>
    exact forall_work.mpr ⟨hbank, forall_mem_cons.mpr ⟨trivial, htoBank⟩, hwb, fun t ht => hfetches t (mem_of_mem_eraseP ht)⟩
  | fetchLocal _ _ _ _ _ _ _ _ _ hk =>
    rw [hk, List.forall_mem_cons] at hwb
    exact forall_work.mpr ⟨hbank, forall_mem_cons.mpr ⟨trivial, htoBank⟩, hwb.2, hfetches⟩
  | fetchBottom t _ req hk haction =>
    rw [hk, List.forall_mem_cons] at hwb
    have hshape : Transaction.Shape cfg a.slices a.gen { t with fetchReadReq := some req } := by
      simp [Transaction.Shape, haction]
    refine forall_work.mpr ⟨hbank, htoBank, hwb.2, ?_⟩
    exact forall_mem_append.mpr ⟨hfetches, forall_mem_singleton.mpr hshape⟩
  | parkAndWrite _ _ hk haction =>
    rw [hk, List.forall_mem_cons] at hwb
    have hshape := hwb.1
    simp only [Transaction.Shape, haction] at hshape
    exact forall_work.mpr ⟨hbank, forall_mem_cons.mpr ⟨hshape.1, htoBank⟩, hwb.2, hfetches⟩
  | parkAndFetch _ _ hk =>
    rw [hk, List.forall_mem_cons] at hwb
    exact forall_work.mpr ⟨hbank, htoBank, List.forall_mem_cons.mpr ⟨trivial, hwb.2⟩, hfetches⟩
  | parkFlush _ _ hk =>
    rw [hk, List.forall_mem_cons] at hwb
    exact forall_work.mpr ⟨hbank, htoBank, hwb.2, hfetches⟩
  | discardFlush => exact forall_work.mpr ⟨by simp, htoBank, by simp, hfetches⟩
  | evictFlush _ b _ _ _ hevict =>
    have hshape := cacheAddress_le (h.shaped.toEvict b (hevict ▸ mem_cons_self))
    exact forall_work.mpr ⟨forall_mem_cons.mpr ⟨⟨_, rfl, hshape⟩, hbank⟩, htoBank, hwb, hfetches⟩
  | _ => exact forall_work.mpr ⟨hbank, htoBank, hwb, hfetches⟩

/-- An eviction at the head of the write buffer's queue has its line. -/
theorem carries_of_wb (h : a.Inv) {rest : List Transaction} (hwb : a.wb = t :: rest)
    (haction : t.action = .writeBufferFlush ∨ t.action = .writeBufferEvictAndFetch ∨
      t.action = .writeBufferEvictAndWrite) : t.Carries cfg a.slices := by
  have hshape := h.shaped.work t (mem_work.mpr (.inr (.inr (.inl (hwb ▸ mem_cons_self)))))
  rcases haction with ha | ha | ha <;> simp only [Transaction.Shape, ha] at hshape
  · exact hshape
  · exact hshape
  · exact hshape.2

theorem pending_step (h : a.Inv) (hs : Step a l a') : ∀ t ∈ a'.pending, t.Carries cfg a'.slices := by
  have hg := hs.grows h.shaped
  have hadd : ∀ {t t' : Transaction}, t.Carries cfg a.slices → t'.evictingData = t.evictingData →
      ∀ x ∈ a.pending ++ [t'], x.Carries cfg a.slices := by
    intro t t' ht heq
    exact forall_mem_append.mpr ⟨h.shaped.pending, forall_mem_singleton.mpr
      (by obtain ⟨arr, harr, hline⟩ := ht; exact ⟨arr, heq.trans harr, hline⟩)⟩
  cases hs with
  | sendEviction _ _ _ _ hpending => exact fun x hx => h.shaped.pending x (hpending ▸ mem_cons_of_mem _ hx)
  | parkAndWrite _ _ hwb ha => exact hadd (carries_of_wb h hwb (.inr (.inr ha))) rfl
  | parkAndFetch _ _ hwb ha => exact hadd (carries_of_wb h hwb (.inr (.inl ha))) rfl
  | parkFlush _ _ hwb ha => exact hadd (carries_of_wb h hwb (.inl ha)) rfl
  | _ => exact fun t ht => (h.shaped.pending t ht).grows hg

theorem inflight_step (h : a.Inv) (hs : Step a l a') : ∀ t ∈ a'.inflight, t.Carries cfg a'.slices := by
  have hg := hs.grows h.shaped
  cases hs with
  | sendEviction t _ _ _ hpending =>
    refine forall_mem_append.mpr ⟨h.shaped.inflight, forall_mem_singleton.mpr ?_⟩
    obtain ⟨arr, harr, hline⟩ := h.shaped.pending t (hpending ▸ mem_cons_self)
    exact ⟨arr, harr, hline⟩
  | writeDone =>
    exact fun t ht => h.shaped.inflight t (mem_reverse.mp (mem_of_mem_eraseP (mem_reverse.mp ht)))
  | _ => exact fun t ht => (h.shaped.inflight t ht).grows hg

theorem data_modify {n : Nat} {m : MSHR n Transaction} {e : EntryRef} (f : List Transaction → List Transaction)
    (e' : EntryRef) :
    ((m.modify e fun entry => { entry with requests := f entry.requests }).heap e').data = (m.heap e').data := by
  by_cases heq : e' = e
  · subst heq
    simp
  · simp [update_of_ne heq]

theorem lines_step (h : a.Inv) (hs : Step a l a') :
    ∀ e arr, (a'.mshr.heap e).data = some arr → a'.slices.Line cfg arr := by
  have hg := hs.grows h.shaped
  have hsame : ∀ {m : MSHR cfg.numMSHREntry Transaction}, (∀ e, (m.heap e).data = (a.mshr.heap e).data) →
      ∀ e arr, (m.heap e).data = some arr → a'.slices.Line cfg arr :=
    fun hm e arr hd => (h.shaped.lines e arr ((hm e).symm.trans hd)).grows hg
  have hopen : ∀ {pid : PID} {line : Nat} {b : BlockRef} {t : Transaction} (e' : EntryRef) (arr : ArrayRef),
      ((allocate a.mshr pid line b t).heap e').data = some arr → a'.slices.Line cfg arr := by
    intro pid line b t e' arr hd
    by_cases heq : e' = a.mshr.nextRef
    · subst heq
      simp [allocate] at hd
    · simp only [allocate, update_of_ne heq] at hd
      exact (h.shaped.lines e' arr hd).grows hg
  have hfilled : ∀ {e : EntryRef} {arr : ArrayRef}, a'.slices.Line cfg arr → ∀ e' arr',
      ((fillMSHR a.mshr e arr).heap e').data = some arr' → a'.slices.Line cfg arr' := by
    intro e arr harr e' arr' hd
    by_cases heq : e' = e
    · subst heq
      simp only [fillMSHR, update_self, Option.some.injEq] at hd
      exact hd ▸ harr
    · simp only [fillMSHR, update_of_ne heq] at hd
      exact (h.shaped.lines e' arr' hd).grows hg
  cases hs with
  | join t _ _ e => exact hsame (data_modify fun requests => requests ++ [{ t with mshrEntry := some e }])
  | evictAndFetch | fetch => exact hopen
  | dataReady rsp answers _ _ _ _ _ _ hanswers _ hfill =>
    have hlen := h.shaped.answers rsp (hanswers ▸ mem_cons_self _ _)
    exact hfilled ((Slices.line_newBytes hlen).grows hfill.grows.1)
  | fetchLocal _ _ ev _ _ _ _ _ _ _ _ hfind harr hfill =>
    have hev : ev ∈ a.inflight ∨ ev ∈ a.pending := by
      unfold find at hfind
      split at hfind
      · next e' he' =>
        cases hfind
        exact .inl (mem_of_find?_eq_some he')
      · exact .inr (mem_of_find?_eq_some hfind)
    obtain ⟨_, harr', hline⟩ := hev.elim (h.shaped.inflight ev) (h.shaped.pending ev)
    cases harr'.symm.trans harr
    exact hfilled (hline.grows hfill.grows.1)
  | respondRead _ _ _ ts => exact hsame (data_modify fun _ => ts)
  | respondWrite _ _ _ ts => exact hsame (data_modify fun _ => ts)
  | skip _ _ _ ts => exact hsame (data_modify fun _ => ts)
  | _ => exact fun e arr hd => (h.shaped.lines e arr hd).grows hg

theorem masks_step (h : a.Inv) (hs : Step a l a') :
    ∀ b m, (a'.blocks b).dirtyMask = some m → a'.slices.LineMask cfg m := by
  have hg := hs.grows h.shaped
  have hkeep : ∀ {b : BlockRef} {blk : Block}, blk.dirtyMask = (a.blocks b).dirtyMask →
      ∀ b' m, (update a.blocks b blk b').dirtyMask = some m → a'.slices.LineMask cfg m := by
    intro b blk hblk b' m hm
    refine (h.shaped.masks b' m ?_).grows hg
    by_cases heq : b' = b
    · subst heq
      rw [update_self] at hm
      rw [← hblk, hm]
    · rw [update_of_ne heq] at hm
      exact hm
  have hset : ∀ {b : BlockRef} {blk : Block} {m : ArrayRef}, blk.dirtyMask = some m → a'.slices.LineMask cfg m →
      ∀ b' m', (update a.blocks b blk b').dirtyMask = some m' → a'.slices.LineMask cfg m' := by
    intro b blk m hblk hline b' m' hm
    by_cases heq : b' = b
    · subst heq
      rw [update_self, hblk, Option.some.injEq] at hm
      exact hm ▸ hline
    · rw [update_of_ne heq] at hm
      exact (h.shaped.masks b' m' hm).grows hg
  cases hs with
  | readHit | writeHit | evictAndFetch | evictAndWrite | fetch | finishRead => exact hkeep rfl
  | finishWrite _ _ _ b _ _ _ _ _ _ _ _ _ _ _ _ hmask hover =>
    have hspec := dirtyMaskOf_spec (h.shaped.masks b) hmask
    exact hset rfl (hspec.2.1.grows (Slices.grows_setMask (overlay_length hover).2))
  | finishFetched => exact hkeep rfl
  | dataReady _ _ _ _ _ _ _ _ _ _ hfill => exact hset rfl hfill.grows.2
  | fetchLocal _ _ _ _ _ _ _ _ _ _ _ _ _ hfill => exact hset rfl hfill.grows.2
  | discardFlush =>
    intro b m hm
    refine h.shaped.masks b m ?_
    dsimp only at hm
    split at hm <;> exact hm
  | finishFlush =>
    intro b m hm
    refine h.shaped.masks b m ?_
    dsimp only at hm
    split at hm
    · cases hm
    · exact hm
  | _ => exact fun b m hm => (h.shaped.masks b m hm).grows hg

/-- The slice lies inside its array. -/
def Inside (s : Slices) (x : Slice) : Prop := x.arr < s.next ∧ x.off + x.len ≤ (s.bytes x.arr).length

theorem inside_grows {s s' : Slices} {x : Slice} (h : Inside s x) (hg : s.Grows s') : Inside s' x :=
  ⟨h.1.trans_le hg.next, (hg.bytes x.arr h.1).symm ▸ h.2⟩

section
variable (h : a.Inv) (hs : Step a l a')
include h hs

theorem topOut_step :
    ∀ r, .dataReady r ∈ a'.topOut → r.data.arr < a'.slices.next ∧
      r.data.off + r.data.len ≤ (a'.slices.bytes r.data.arr).length := by
  have hg := hs.grows h.shaped
  have hold : ∀ r, .dataReady r ∈ a.topOut → Inside a'.slices r.data :=
    fun r hr => inside_grows (h.shaped.topOut r hr) hg
  have hadd : ∀ {r : DataReadyRsp Slice}, Inside a'.slices r.data →
      ∀ r', .dataReady r' ∈ a.topOut ++ [AccessRsp.dataReady r] →
      Inside a'.slices r'.data := by
    intro r hr r' hr'
    rcases mem_append.mp hr' with hr' | hr'
    · exact hold r' hr'
    · cases mem_singleton.mp hr'
      exact hr
  have hdone : ∀ {d : WriteDoneRsp} (r : DataReadyRsp Slice), .dataReady r ∈ a.topOut ++ [AccessRsp.writeDone d] →
      Inside a'.slices r.data := by
    intro d r hr
    rcases mem_append.mp hr with hr | hr
    · exact hold r hr
    · cases mem_singleton.mp hr
  cases hs with
  | topSend _ _ hout => exact fun r hr => hold r (hout ▸ mem_cons_of_mem _ hr)
  | finishRead _ _ _ _ _ _ _ _ _ _ hdata =>
    refine hadd ⟨Nat.lt_succ_self _, ?_⟩
    simp [Slices.newBytes, Storage.length_of_read hdata]
  | finishWrite => exact hdone
  | respondRead e _ _ _ _ arr _ _ _ _ hdata hlen =>
    exact hadd ⟨(h.shaped.lines e arr hdata).1, hlen⟩
  | respondWrite => exact hdone
  | discardFlush => simp
  | _ => exact hold

theorem capacity_step : a'.storage.capacity = cfg.byteSize := by
  have hwrite : ∀ {s : Storage} {addr : Nat} {d : Bytes}, a.storage.write addr d = .ok s → s.capacity = cfg.byteSize := by
    intro s addr d hs
    rw [Storage.write_eq_ok hs]
    exact h.shaped.capacity
  cases hs with
  | finishWrite | finishFetched =>
    exact hwrite ‹_›
  | _ => exact h.shaped.capacity

theorem answers_step : ∀ r, .dataReady r ∈ a'.answers → r.data.length = cfg.blockSize := by
  cases hs with
  | writeDone _ answers hanswers => exact fun r hr => h.shaped.answers r (hanswers ▸ mem_cons_of_mem hr)
  | dataReady _ answers _ _ _ _ _ _ hanswers =>
    exact fun r hr => h.shaped.answers r (hanswers ▸ mem_cons_of_mem hr)
  | restart _ _ _ answers _ _ hanswers =>
    exact fun r hr => h.shaped.answers r (Multiset.mem_of_le hanswers hr)
  | serve _ req hreq =>
    intro r hr
    rcases mem_cons.mp hr with hr | hr
    · cases req with
      | read x =>
        cases hr
        simp [Memory.read, h.shaped.chan x (mem_of_getElem? hreq)]
      | write => cases hr
    · exact h.shaped.answers r hr
  | _ => exact h.shaped.answers

theorem chan_step : ∀ r, .read r ∈ a'.chan → r.accessByteSize = cfg.blockSize := by
  cases hs with
  | sendEviction =>
    intro r hr
    rcases mem_append.mp hr with hr | hr
    · exact h.shaped.chan r hr
    · cases mem_singleton.mp hr
  | fetchBottom _ _ _ _ _ _ hreq =>
    intro r hr
    rcases mem_append.mp hr with hr | hr
    · exact h.shaped.chan r hr
    · cases mem_singleton.mp hr
      rw [hreq]
  | serve => exact fun r hr => h.shaped.chan r (mem_of_mem_eraseIdx hr)
  | _ => exact h.shaped.chan

theorem toEvict_step : ∀ b ∈ a'.toEvict, InRange cfg b := by
  cases hs with
  | prepare _ _ _ _ _ hblocks =>
    refine forall_mem_append.mpr ⟨h.shaped.toEvict, fun b hb => ?_⟩
    obtain ⟨-, h1, h2, -⟩ := (hblocks b).mp hb
    exact ⟨h1, h2⟩
  | evictFlush _ _ _ _ _ hevict => exact fun x hx => h.shaped.toEvict x (hevict ▸ mem_cons_of_mem _ hx)
  | _ => exact h.shaped.toEvict

end

end Shaped

theorem Shaped.step (h : a.Inv) (hG : a.Allowed l) (hs : Step a l a') : a'.Shaped where
  top := Shaped.top_step h hG hs
  dir := Shaped.dir_step h hs
  bank := Shaped.bank_step h hs
  toBank := Shaped.toBank_step h hs
  wb := Shaped.wb_step h hs
  fetches := Shaped.fetches_step h hs
  work := Shaped.work_step h hs
  pending := Shaped.pending_step h hs
  inflight := Shaped.inflight_step h hs
  lines := Shaped.lines_step h hs
  masks := Shaped.masks_step h hs
  topOut := Shaped.topOut_step h hs
  capacity := Shaped.capacity_step h hs
  answers := Shaped.answers_step h hs
  chan := Shaped.chan_step h hs
  toEvict := Shaped.toEvict_step h hs

/-- **Every allowed step keeps the invariant.** -/
theorem Inv.step (h : a.Inv) (hG : a.Allowed l) (hs : Step a l a') : a'.Inv where
  custody := h.custody.step (hs.ledger h hG)
  ownership := h.ownership.step h.custody (hs.ledger h hG)
  entries := h.entries.step h.custody (hs.ledger h hG)
  live := h.live.step h.custody h.entries (hs.ledger h hG)
  shaped := Shaped.step h hG hs
  messages := h.messages.step hs
  modes := h.modes.step hs

end Flow

end Akita.WriteBack
