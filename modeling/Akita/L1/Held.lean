import Akita.L1.Steps

/-!
# What an L1 cache holds

* `dirItems`, `Bank.items` : the transactions in the directory stage and in a bank;
* `Holds c x` : the transaction `x` is in some list, buffer, pipeline or MSHR entry of the cache;
* `Step.holds` : a step brings in no transaction but a new one;
* `Step.log` : a step records events about transactions that are held or new.
-/

namespace Akita.L1
open Sim Pipelining Mem Mem.Cache Function List
open Multiset (coe_add mem_add mem_coe)

variable {cfg : Config}

/-- The transactions in the directory stage. -/
def Cache.dirItems (c : Cache cfg) : Multiset TransRef :=
  ↑c.dirBuf.elements + (c.dirPipeline.items + ↑c.dirPostBuf.elements)

/-- The transactions in a bank. -/
def Bank.items (k : Bank cfg) : Multiset TransRef := ↑k.buf.elements + (k.pipeline.items + ↑k.postPipelineBuf.elements)

/-- A transaction is somewhere in the cache. -/
inductive Cache.Holds (c : Cache cfg) (x : TransRef) : Prop
  | request (h : x ∈ c.transactions)
  | parked (h : x ∈ c.toCoalesce)
  | wave (h : x ∈ c.postCoalesceTransactions)
  | directory (h : x ∈ c.dirItems)
  | bank (i : Nat) (h : x ∈ (c.banks i).items)
  | joined (e : EntryRef) (he : e ∈ c.mshr.entries) (h : x ∈ (c.mshr.heap e).requests)

theorem mem_dirItems_of_peek {c : Cache cfg} {x : TransRef} (h : c.dirPostBuf.peek = some x) : x ∈ c.dirItems := by
  unfold Cache.dirItems
  rw [Buffer.peek_eq_some h]
  simp

theorem mem_items_of_peek {k : Bank cfg} {x : TransRef} (h : k.postPipelineBuf.peek = some x) : x ∈ k.items := by
  unfold Bank.items
  rw [Buffer.peek_eq_some h]
  simp

theorem mem_of_mem_popBuf {c : Cache cfg} {x : TransRef} (h : x ∈ (DirectoryStage.popBuf c).dirItems) : x ∈ c.dirItems := by
  simp only [Cache.dirItems, DirectoryStage.popBuf, Buffer.elements_pop, mem_add, mem_coe] at h ⊢
  exact h.imp_right fun h => h.imp_right mem_of_mem_tail

/-! ## Places -/

section
variable {G : Cache cfg → Call → Prop} {c c' : Cache cfg} {k : Call} {x : TransRef}

theorem Step.transactions (h : Step G c k c') :
    (c'.transactions.Sublist c.transactions ∧ c.nextRef ≤ c'.nextRef) ∨
      (c'.transactions = c.transactions ++ [c.nextRef] ∧ c'.nextRef = c.nextRef + 1) := by
  cases h with
  | respond => exact .inl ⟨erase_sublist, le_refl _⟩
  | park => exact .inr ⟨rfl, rfl⟩
  | wave => exact .inl ⟨List.Sublist.refl _, Nat.le_succ _⟩
  | writeHitAgain _ _ _ _ _ _ _ _ _ _ hfinish =>
    rcases finishWriteHit_eq hfinish with ⟨-, rfl⟩ | ⟨-, _, -, rfl⟩ <;> exact .inl ⟨List.Sublist.refl _, le_refl _⟩
  | _ => exact .inl ⟨List.Sublist.refl _, le_refl _⟩

theorem Step.toCoalesce (h : Step G c k c') (hk : k ≠ .coalesce) : c'.toCoalesce = c.toCoalesce := by
  cases h with
  | park | wave => exact absurd rfl hk
  | writeHitAgain _ _ _ _ _ _ _ _ _ _ hfinish =>
    rcases finishWriteHit_eq hfinish with ⟨-, rfl⟩ | ⟨-, _, -, rfl⟩ <;> rfl
  | _ => rfl

theorem Step.postCoalesce (h : Step G c k c') :
    (c'.postCoalesceTransactions.Sublist c.postCoalesceTransactions) ∨
      (c'.postCoalesceTransactions = c.postCoalesceTransactions ++ [c.nextRef] ∧ c'.nextRef = c.nextRef + 1) := by
  cases h with
  | writeDone => exact .inl erase_sublist
  | fill =>
    exact .inl (erase_sublist.trans (diff_sublist _ _))
  | readHitDone => exact .inl erase_sublist
  | wave => exact .inr ⟨rfl, rfl⟩
  | writeHitAgain _ _ _ _ _ _ _ _ _ _ hfinish =>
    rcases finishWriteHit_eq hfinish with ⟨-, rfl⟩ | ⟨-, _, -, rfl⟩ <;> exact .inl (List.Sublist.refl _)
  | _ => exact .inl (List.Sublist.refl _)

/-- The wave is gathered from requests that come in. -/
theorem Step.parked (h : Step G c k c') :
    c'.toCoalesce = c.toCoalesce ∨ (c'.toCoalesce = c.toCoalesce ++ [c.nextRef] ∧ c'.nextRef = c.nextRef + 1) ∨
      c'.toCoalesce = [] := by
  cases h with
  | park => exact .inr (.inl ⟨rfl, rfl⟩)
  | wave => exact .inr (.inr rfl)
  | writeHitAgain _ _ _ _ _ _ _ _ _ _ hfinish =>
    rcases finishWriteHit_eq hfinish with ⟨-, rfl⟩ | ⟨-, _, -, rfl⟩ <;> exact .inl rfl
  | _ => exact .inl rfl

theorem Step.mem_dirItems (h : Step G c k c') (hx : x ∈ c'.dirItems) :
    x ∈ c.dirItems ∨ (x = c.nextRef ∧ c'.nextRef = c.nextRef + 1) := by
  cases h with
  | moveDir _ _ _ _ _ _ _ hbuf hitems =>
    refine .inl ?_
    unfold Cache.dirItems at hx ⊢
    rw [hitems] at hx
    rw [hbuf, ← coe_add]
    simp only [mem_add] at hx ⊢
    tauto
  | wave _ _ _ dirBuf _ _ hpush =>
    have hbuf : dirBuf.elements = c.dirBuf.elements ++ [c.nextRef] := by
      unfold Buffer.push at hpush
      split at hpush
      · cases hpush
      · cases hpush
        rfl
    simp only [Cache.dirItems, hbuf, ← coe_add, mem_add, mem_coe, mem_singleton] at hx ⊢
    rcases hx with (hx | hx) | hx
    · exact .inl (.inl hx)
    · exact .inr ⟨hx, trivial⟩
    · exact .inl (.inr hx)
  | writeHitAgain _ _ _ _ _ _ _ _ _ _ hfinish =>
    rcases finishWriteHit_eq hfinish with ⟨-, rfl⟩ | ⟨-, _, -, rfl⟩ <;> exact .inl (mem_of_mem_popBuf hx)
  | joinRead | joinWrite | readHit | fetch | writeHit | invalidate | bypass => exact .inl (mem_of_mem_popBuf hx)
  | _ => exact .inl hx

/-- What a buffer of a bank was given. -/
theorem mem_items_push {i : Nat} {bank : Nat} {y : TransRef} {buf : Buffer cfg.numReqPerCycle TransRef}
    (hpush : (c.banks bank).buf.push y = .ok buf)
    (hx : x ∈ (update c.banks bank { c.banks bank with buf } i).items) : x ∈ (c.banks i).items ∨ x = y := by
  unfold Buffer.push at hpush
  split at hpush
  · cases hpush
  · cases hpush
    by_cases hi : i = bank
    · subst hi
      rw [update_self] at hx
      simp only [Bank.items, ← coe_add, mem_add, mem_coe, mem_singleton] at hx ⊢
      tauto
    · rw [update_of_ne hi] at hx
      exact .inl hx

theorem mem_items_popBuf {i j : Nat} (hx : x ∈ ((BankStage.popBuf c j).banks i).items) : x ∈ (c.banks i).items := by
  by_cases hi : i = j
  · subst hi
    simp only [BankStage.popBuf, Cache.modifyBank, update_self, Bank.items, Buffer.elements_pop, mem_add, mem_coe] at hx ⊢
    exact hx.imp_right fun h => h.imp_right mem_of_mem_tail
  · simpa [BankStage.popBuf, Cache.modifyBank, update_of_ne hi] using hx

theorem Step.mem_bank (h : Step G c k c') {i : Nat} (hx : x ∈ (c'.banks i).items) :
    x ∈ (c.banks i).items ∨ x ∈ c.dirItems ∨ x ∈ c.postCoalesceTransactions := by
  cases h with
  | fill _ _ _ _ _ _ _ _ _ ha _ _ _ _ hpush =>
    rcases mem_items_push hpush hx with hx | rfl
    · exact .inl hx
    · exact .inr (.inr (mem_of_find?_eq_some ha.find))
  | readHitDone | written | fetchWritten => exact .inl (mem_items_popBuf hx)
  | tickBank j _ _ hitems =>
    refine .inl ?_
    by_cases hi : i = j
    · subst hi
      simp only [Cache.modifyBank, update_self, Bank.items, hitems] at hx ⊢
      exact hx
    · simpa [Cache.modifyBank, update_of_ne hi] using hx
  | extract j _ _ _ hpeek hitems =>
    refine .inl ?_
    by_cases hi : i = j
    · subst hi
      simp only [Cache.modifyBank, update_self, Bank.items, hitems, Buffer.elements_pop, mem_add,
        Multiset.mem_cons, mem_coe] at hx ⊢
      rw [Buffer.peek_eq_some hpeek, Buffer.elements_pop, mem_cons]
      tauto
    · simpa [Cache.modifyBank, update_of_ne hi] using hx
  | readHit | writeHit =>
    rcases mem_items_push ‹_› hx with hx | rfl
    · exact .inl hx
    · exact .inr (.inl (mem_dirItems_of_peek ‹_›))
  | writeHitAgain _ _ _ _ _ _ hpeek _ _ _ hfinish =>
    rcases finishWriteHit_eq hfinish with ⟨-, rfl⟩ | ⟨-, _, hpush, rfl⟩
    · exact .inl hx
    · rcases mem_items_push hpush hx with hx | rfl
      · exact .inl hx
      · exact .inr (.inl (mem_dirItems_of_peek hpeek))
  | _ => exact .inl hx

/-- What a transaction that joins an entry leaves in the entries. -/
theorem joined_modify {m : MSHR cfg.numMSHREntry TransRef} {e e' : EntryRef} {y : TransRef}
    (block : Option BlockRef → Option BlockRef)
    (hx : x ∈ ((m.modify e' fun entry => { entry with requests := entry.requests ++ [y], block := block entry.block }).heap
      e).requests) :
    x ∈ (m.heap e).requests ∨ x = y := by
  by_cases he : e = e'
  · subst he
    simpa using hx
  · simp only [MSHR.heap_modify, update_of_ne he] at hx
    exact .inl hx

theorem Step.mem_joined (h : Step G c k c') {e : EntryRef} (he : e ∈ c'.mshr.entries) (hx : x ∈ (c'.mshr.heap e).requests) :
    (e ∈ c.mshr.entries ∧ x ∈ (c.mshr.heap e).requests) ∨ x ∈ c.dirItems := by
  cases h with
  | fill => exact .inl ⟨mem_of_mem_erase he, hx⟩
  | joinRead | joinWrite =>
    rcases joined_modify id hx with hx | rfl
    · exact .inl ⟨he, hx⟩
    · exact .inr (mem_dirItems_of_peek ‹_›)
  | fetch _ victim _ _ mshr hpeek _ _ _ _ _ _ hadd =>
    unfold MSHR.add at hadd
    split at hadd
    · cases hadd
    · split at hadd
      · cases hadd
      · cases hadd
        rcases joined_modify (fun _ => some victim) hx with hx | rfl
        · by_cases hnew : e = c.mshr.nextRef
          · subst hnew
            simp at hx
          · simp only [update_of_ne hnew] at hx
            refine .inl ⟨?_, hx⟩
            rcases mem_append.mp he with he | he
            · exact he
            · exact absurd (mem_singleton.mp he) hnew
        · exact .inr (mem_dirItems_of_peek hpeek)
  | writeHitAgain _ _ _ _ _ _ _ _ _ _ hfinish =>
    rcases finishWriteHit_eq hfinish with ⟨-, rfl⟩ | ⟨-, _, -, rfl⟩ <;> exact .inl ⟨he, hx⟩
  | _ => exact .inl ⟨he, hx⟩

/-- **A step brings in no transaction but a new one.** -/
theorem Step.holds (h : Step G c k c') (hx : c'.Holds x) : c.Holds x ∨ (x = c.nextRef ∧ c'.nextRef = c.nextRef + 1) := by
  cases hx with
  | request hx =>
    rcases h.transactions with ⟨hsub, -⟩ | ⟨heq, hnext⟩
    · exact .inl (.request (hsub.subset hx))
    · rw [heq, mem_append, mem_singleton] at hx
      exact hx.imp .request fun hx => ⟨hx, hnext⟩
  | parked hx =>
    rcases h.parked with heq | ⟨heq, hnext⟩ | heq <;> rw [heq] at hx
    · exact .inl (.parked hx)
    · rw [mem_append, mem_singleton] at hx
      exact hx.imp .parked fun hx => ⟨hx, hnext⟩
    · exact absurd hx not_mem_nil
  | wave hx =>
    rcases h.postCoalesce with hsub | ⟨heq, hnext⟩
    · exact .inl (.wave (hsub.subset hx))
    · rw [heq, mem_append, mem_singleton] at hx
      exact hx.imp .wave fun hx => ⟨hx, hnext⟩
  | directory hx => exact (h.mem_dirItems hx).imp_left .directory
  | bank i hx =>
    rcases h.mem_bank hx with hx | hx | hx
    · exact .inl (.bank i hx)
    · exact .inl (.directory hx)
    · exact .inl (.wave hx)
  | joined e he hx =>
    rcases h.mem_joined he hx with ⟨he, hx⟩ | hx
    · exact .inl (.joined e he hx)
    · exact .inl (.directory hx)

/-! ## Messages and events -/

/-- The ID of a request that a transaction has sent down. -/
def Transaction.HasSent (t : Transaction) (id : MsgID) : Prop :=
  (∃ r, t.readToBottom = some r ∧ r.id = id) ∨ ∃ w, t.writeToBottom = some w ∧ w.id = id

/-- The transactions that an event is about. -/
def Event.pointers : Event → List TransRef
  | .reqReceive r _ => [r]
  | .startTask x _ pre => x :: pre
  | .addTaskStep x _ => [x]
  | .reqInitiate x _ => [x]
  | .reqComplete r _ _ => [r]
  | _ => []

/-- The IDs that an event gives to messages to the lower level. -/
def Event.ids : Event → List MsgID
  | .reqInitiate _ req => [req.id]
  | _ => []

/-- The flush that an event is, with the pointers and IDs in use by then. -/
def Event.flush? : Event → Option (TransRef × MsgID)
  | .flushed _ nextRef nextID => some (nextRef, nextID)
  | _ => none

/-- IDs are given to the requests of the transactions in the directory stage. -/
theorem Step.sent (h : Step G c k c') {id : MsgID} (hid : (c'.heap x).HasSent id) :
    (c.heap x).HasSent id ∨ (x ∈ c.dirItems ∧ id = c.nextID ∧ c.nextID < c'.nextID) := by
  -- an update that keeps the requests sent
  have hkeep : ∀ {y : TransRef} {t : Transaction}, (update c.heap y t x).HasSent id →
      t.readToBottom = (c.heap y).readToBottom → t.writeToBottom = (c.heap y).writeToBottom → (c.heap x).HasSent id := by
    intro y t h hread hwrite
    by_cases hxy : x = y
    · subst hxy
      rw [update_self] at h
      unfold Transaction.HasSent at h ⊢
      rwa [hread, hwrite] at h
    · rwa [update_of_ne hxy] at h
  -- the write of a transaction
  have hsend : ∀ {y : TransRef} {w : WriteReq Bytes Mask} {conn : List Bool}, c.dirPostBuf.peek = some y →
      ((c.sent y w conn).heap x).HasSent id → (c.heap x).HasSent id ∨ (x ∈ c.dirItems ∧ id = c.nextID) := by
    intro y w conn hpeek h
    by_cases hxy : x = y
    · subst hxy
      simp only [Cache.sent, Cache.modify, Cache.record, update_self, Transaction.HasSent] at h
      rcases h with h | ⟨_, hw', rfl⟩
      · exact .inl (.inl h)
      · cases hw'
        exact .inr ⟨mem_dirItems_of_peek hpeek, rfl⟩
    · simp only [Cache.sent, Cache.modify, Cache.record, update_of_ne hxy] at h
      exact .inl h
  have hmarkRead : ∀ {data : Bytes} {tag : Nat} {rs : List TransRef},
      (markRead data tag rs c.heap x).HasSent id → (c.heap x).HasSent id := by
    intro data tag rs h
    unfold markRead at h
    split at h <;> exact h
  have hmarkDone : ∀ {rs : List TransRef}, (markDone rs c.heap x).HasSent id → (c.heap x).HasSent id := by
    intro rs h
    unfold markDone at h
    split at h <;> exact h
  cases h with
  | writeDone => exact .inl (hmarkDone hid)
  | joinedRead => exact .inl (hmarkRead hid)
  | joinedWrite => exact .inl (hmarkDone hid)
  | fill | readHit | flag => exact .inl (hkeep hid rfl rfl)
  | readHitDone => exact .inl (hmarkRead hid)
  | joinWrite | writeBottom | invalidate | bypass =>
    rcases hsend ‹_› hid with h | h
    · exact .inl h
    · exact .inr ⟨h.1, h.2, Nat.lt_succ_self _⟩
  | fetch y victim _ _ _ hpeek =>
    have hid : (update c.heap y { c.heap y with readToBottom := some (fetchOf c y), block := some victim } x).HasSent id :=
      hid
    by_cases hxy : x = y
    · subst hxy
      rw [update_self] at hid
      rcases hid with ⟨_, hr, rfl⟩ | hid
      · cases hr
        exact .inr ⟨mem_dirItems_of_peek hpeek, rfl, Nat.lt_succ_self _⟩
      · exact .inl (.inr hid)
    · rw [update_of_ne hxy] at hid
      exact .inl hid
  | writeHit y w _ _ conn _ _ _ hpeek =>
    have hid : (update (c.sent y w conn).heap y _ x).HasSent id := hid
    have hid : ((c.sent y w conn).heap x).HasSent id := by
      by_cases hxy : x = y
      · subst hxy
        simpa [Cache.sent, Cache.modify, Cache.record, Transaction.HasSent] using hid
      · rwa [update_of_ne hxy] at hid
    rcases hsend hpeek hid with h | h
    · exact .inl h
    · exact .inr ⟨h.1, h.2, Nat.lt_succ_self _⟩
  | writeHitAgain _ _ _ _ _ _ _ _ _ _ hfinish =>
    rcases finishWriteHit_eq hfinish with ⟨-, rfl⟩ | ⟨-, _, -, rfl⟩
    · exact .inl hid
    · exact .inl (hkeep hid rfl rfl)
  | park | wave =>
    have hid : (update c.heap c.nextRef _ x).HasSent id := hid
    by_cases hxy : x = c.nextRef
    · subst hxy
      rw [update_self] at hid
      simp [Transaction.HasSent] at hid
    · rw [update_of_ne hxy] at hid
      exact .inl hid
  | _ => exact .inl hid

theorem Step.nextID_le (h : Step G c k c') : c.nextID ≤ c'.nextID := by
  cases h with
  | ports _ _ _ _ hid => exact hid
  | writeHitAgain _ _ _ _ _ _ _ _ _ _ hfinish =>
    rcases finishWriteHit_eq hfinish with ⟨-, rfl⟩ | ⟨-, _, -, rfl⟩ <;> exact le_refl _
  | joinWrite | fetch | writeBottom | writeHit | invalidate | bypass | wave => exact Nat.le_succ _
  | _ => exact le_refl _

theorem Step.nextRef_le (h : Step G c k c') : c.nextRef ≤ c'.nextRef := by
  rcases h.transactions with ⟨-, hle⟩ | ⟨-, heq⟩
  · exact hle
  · rw [heq]
    exact Nat.le_succ _

/-- What is new about an event that a step records: it is about transactions that are held or new, and the IDs are new. -/
structure Event.Fits (c c' : Cache cfg) (e : Event) : Prop where
  flush : e.flush? = none
  pointers : ∀ r ∈ e.pointers, c.Holds r ∨ (r = c.nextRef ∧ c.nextRef < c'.nextRef)
  ids : ∀ id ∈ e.ids, c.nextID ≤ id ∧ id < c'.nextID

/-- **A step records events about transactions that are held or new.** -/
theorem Step.log (h : Step G c k c') : ∃ es, c'.log = c.log ++ es ∧ ∀ e ∈ es, e.Fits c c' := by
  -- one event about the transaction at the end of the directory stage
  have hhead : ∀ {y : TransRef} {what : TaskStep}, c.dirPostBuf.peek = some y → (Event.addTaskStep y what).Fits c c' := by
    intro y what hpeek
    refine ⟨rfl, fun r hr => ?_, forall_mem_nil _⟩
    rw [mem_singleton.mp hr]
    exact .inl (.directory (mem_dirItems_of_peek hpeek))
  -- and the message it sends
  have hsend : ∀ {y : TransRef} {req : AccessReq}, c.dirPostBuf.peek = some y → req.id = c.nextID → c.nextID < c'.nextID →
      (Event.reqInitiate y req).Fits c c' := by
    intro y req hpeek hid hlt
    refine ⟨rfl, fun r hr => ?_, fun id hid' => ?_⟩
    · rw [mem_singleton.mp hr]
      exact .inl (.directory (mem_dirItems_of_peek hpeek))
    · rw [mem_singleton.mp hid', hid]
      exact ⟨le_refl _, hlt⟩
  have hone : ∀ {e : Event}, e.Fits c c' → ∀ e' ∈ [e], e'.Fits c c' := by
    intro e he e' he'
    rwa [mem_singleton.mp he']
  have htwo : ∀ {e₁ e₂ : Event}, e₁.Fits c c' → e₂.Fits c c' → ∀ e' ∈ [e₁, e₂], e'.Fits c c' := by
    intro e₁ e₂ h₁ h₂ e' he'
    rcases mem_cons.mp he' with rfl | he'
    · exact h₁
    · exact hone h₂ e' he'
  have hnone : ∀ e' ∈ ([] : List Event), e'.Fits c c' := forall_mem_nil _
  cases h with
  | respond _ _ hr =>
    refine ⟨_, rfl, hone ⟨rfl, fun q hq => ?_, forall_mem_nil _⟩⟩
    rw [mem_singleton.mp hq]
    exact .inl (.request (mem_of_find?_eq_some hr))
  | joinRead | readHit => exact ⟨[_], rfl, hone (hhead ‹_›)⟩
  | joinWrite | fetch | writeHit | invalidate | bypass =>
    exact ⟨[_, _], append_assoc _ [_] [_], htwo (hsend ‹_› rfl (Nat.lt_succ_self _)) (hhead ‹_›)⟩
  | writeBottom _ _ _ hpeek =>
    exact ⟨[_], rfl, hone (hsend hpeek rfl (Nat.lt_succ_self _))⟩
  | writeHitAgain _ _ _ _ _ _ hpeek _ _ _ hfinish =>
    rcases finishWriteHit_eq hfinish with ⟨-, rfl⟩ | ⟨-, _, -, rfl⟩ <;> exact ⟨[_], rfl, hone (hhead hpeek)⟩
  | park =>
    refine ⟨[_], rfl, hone ⟨rfl, fun q hq => ?_, forall_mem_nil _⟩⟩
    rw [mem_singleton.mp hq]
    exact .inr ⟨rfl, Nat.lt_succ_self _⟩
  | wave =>
    refine ⟨[_], rfl, hone ⟨rfl, fun q hq => ?_, forall_mem_nil _⟩⟩
    rcases mem_cons.mp hq with rfl | hq
    · exact .inr ⟨rfl, Nat.lt_succ_self _⟩
    · exact .inl (.parked hq)
  | invalidated =>
    exact ⟨[_], rfl, hone ⟨rfl, forall_mem_nil _, forall_mem_nil _⟩⟩
  | _ => exact ⟨[], (append_nil _).symm, hnone⟩

end

end Akita.L1
