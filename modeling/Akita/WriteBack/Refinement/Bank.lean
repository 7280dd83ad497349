import Akita.WriteBack.Refinement.Basic

/-!
# The bank stage refines the flow

Which transaction of the post-pipeline buffer is finalised is not visible in the flow: `finalizeOne_refines` says what
happens to one of them, `finalizeTrans_refines` follows the loop that looks for the first that can proceed.
-/

namespace Akita.WriteBack
open Sim Pipelining Mem Mem.Cache List
open WriteBack.Flow (Silent Moves)
open Multiset (add_cons card_cons coe_add cons_add cons_coe)
open WriteBack.System (become flow)

variable {cfg : Config} {s : System cfg} {τ : List Moment} {l : Flow.Label}

namespace BankStage

theorem tickPipeline_refines (hw : Wired s.cache) (hlog : logOf τ = s.cache.log) :
    Refines s τ l (.ok (tickPipeline s.cache)) := by
  have hitems := items_tick s.cache.bank.pipeline s.cache.bank.postPipelineBuf
  unfold tickPipeline
  generalize s.cache.bank.pipeline.tick s.cache.bank.postPipelineBuf = r at hitems ⊢
  obtain ⟨_, _, _⟩ := r
  simp only at hitems
  refine .same ⟨hw.directory, ?_, ?_, hw.sent⟩ hlog rfl ?_
  · rw [hitems]
    exact hw.counted
  · rw [hitems]
    exact hw.noFetch
  · simp only [flow, become, hitems]

theorem wired_pull (hw : Wired s.cache) {t : Transaction} (ht : t.action ≠ .writeBufferFetch)
    {pipeline : Pipeline cfg.laneWidth cfg.bankLatency Transaction} {buf : Buffer cfg.laneWidth Transaction}
    (hitems : pipeline.items + ↑buf.elements = t ::ₘ (s.cache.bank.pipeline.items + ↑s.cache.bank.postPipelineBuf.elements)) :
    s.cache.bank.inflightTransCount + 1 = (pipeline.items + (↑buf.elements : Multiset Transaction)).card ∧
      ∀ x ∈ pipeline.items + (↑buf.elements : Multiset Transaction), x.action ≠ .writeBufferFetch := by
  rw [hitems, card_cons, hw.counted]
  exact ⟨by push_cast; rfl, Multiset.forall_mem_cons.mpr ⟨ht, hw.noFetch⟩⟩

theorem pullFromBuf_refines (hw : Wired s.cache) (hlog : logOf τ = s.cache.log) (hinv : (s.flow τ).Inv) :
    Refines s τ l (pullFromBuf s.cache) := by
  unfold pullFromBuf
  split
  · exact .refl hw hlog false
  next hcan =>
  have hcan : s.cache.bank.pipeline.canAccept s.cache.bank.postPipelineBuf = true := by simpa using hcan
  split
  · next t ht =>
    have helems := Buffer.peek_eq_some ht
    obtain ⟨⟨pipeline, buf⟩, hok⟩ := PipelineImpl.accept_ok hcan t
    have hitems := items_accept hok
    have hnot : t.action ≠ .writeBufferFetch := by
      have hmem : t ∈ (s.flow τ).toBank := by
        show t ∈ (↑s.cache.writeBufferToBankBuffer.elements : Multiset Transaction)
        rw [helems]
        exact mem_cons_self
      rcases hinv.shaped.toBank t hmem with h | h <;> rw [h] <;> nofun
    simp only [pullFromWriteBuffer, hok, bind_ok]
    obtain ⟨hcount, hfetch⟩ := wired_pull hw hnot hitems
    refine .silent τ ⟨hw.directory, hcount, hfetch, hw.sent⟩ hlog ?_
    convert Flow.Step.pullUp (a := s.flow τ) t ↑s.cache.writeBufferToBankBuffer.pop.elements ?_ using 1
    · simp only [flow, become, hitems, add_cons]
    · show (↑s.cache.writeBufferToBankBuffer.elements : Multiset Transaction) = _
      rw [helems]
      rfl
  · split
    · exact .refl hw hlog false
    next hpush =>
    split
    · exact .refl hw hlog false
    split
    · exact .refl hw hlog false
    next t ht =>
    have helems := Buffer.peek_eq_some ht
    unfold pullFromDirectory
    split
    · next hfetch =>
      simp only [Buffer.push_of_canPush (b := s.cache.writeBufferBuffer) (by simpa using hpush), bind_ok]
      refine .silent τ (hw.of_eq rfl rfl rfl rfl) hlog ?_
      convert Flow.Step.pullFetch (a := s.flow τ) t (↑s.cache.dirToBankBuffer.pop.elements +
        (s.cache.bank.pipeline.items + ↑s.cache.bank.postPipelineBuf.elements)) ?_ hfetch using 1
      · rfl
      · show (↑s.cache.dirToBankBuffer.elements + _ : Multiset Transaction) = _
        rw [helems, ← cons_coe, cons_add]
    · next hnot =>
      obtain ⟨⟨pipeline, _⟩, hok⟩ := PipelineImpl.accept_ok hcan t
      have hitems := items_accept hok
      simp only [hok, bind_ok]
      obtain ⟨hcount, hfetch⟩ := wired_pull hw hnot hitems
      refine .same ⟨hw.directory, hcount, hfetch, hw.sent⟩ hlog rfl ?_
      simp only [flow, become, hitems]
      rw [helems, ← cons_coe, cons_add, add_cons]

/-! ## Finalisation -/

/-- The transaction is taken out of the post-pipeline buffer `pre ++ t :: rest`. -/
def without (c : Cache cfg) (pre rest : List Transaction) : Cache cfg :=
  { c with bank := { c.bank with postPipelineBuf := ⟨pre ++ rest⟩ } }

section
variable {t : Transaction} {pre rest : List Transaction}

/-- One transaction of the post-pipeline buffer: it waits, or it is finalised in one step. -/
def FinalizesOne (s : System cfg) (τ : List Moment) (pre rest : List Transaction) (r : Result cfg) : Prop :=
  r = .ok (false, s.cache) ∨ ∃ c τ', r = .ok (true, c) ∧ Wired (without c pre rest) ∧ logOf τ' = c.log ∧
    Flow.Step (s.flow τ) .silent ((s.become (without c pre rest)).flow τ')

theorem bank_eq (helems : s.cache.bank.postPipelineBuf.elements = pre ++ t :: rest) (τ : List Moment) :
    (s.flow τ).bank = t ::ₘ (↑s.cache.dirToBankBuffer.elements + (s.cache.bank.pipeline.items + ↑(pre ++ rest))) := by
  show (↑s.cache.dirToBankBuffer.elements + (s.cache.bank.pipeline.items + ↑s.cache.bank.postPipelineBuf.elements) :
    Multiset Transaction) = _
  rw [helems, ← coe_add, ← cons_coe, ← coe_add]
  simp only [add_cons]

theorem mem_bank (helems : s.cache.bank.postPipelineBuf.elements = pre ++ t :: rest) (τ : List Moment) :
    t ∈ (s.flow τ).bank := bank_eq helems τ ▸ Multiset.mem_cons_self t _

theorem wired_without (hw : Wired s.cache) (helems : s.cache.bank.postPipelineBuf.elements = pre ++ t :: rest)
    {c : Cache cfg} (hdir : c.directory.gen = s.cache.directory.gen ∧ c.directory.sets = s.cache.directory.sets)
    (hpipe : c.bank.pipeline = s.cache.bank.pipeline)
    (hcount : c.bank.inflightTransCount = s.cache.bank.inflightTransCount - 1)
    (hsent : c.topPort.outgoing = sentOf c.log) : Wired (without c pre rest) := by
  have hitems : s.cache.bank.pipeline.items + (↑s.cache.bank.postPipelineBuf.elements : Multiset Transaction) =
      t ::ₘ (c.bank.pipeline.items + ↑(pre ++ rest)) := by
    rw [helems, hpipe, ← coe_add, ← cons_coe, ← coe_add]
    simp only [add_cons]
  refine ⟨hw.directory.of_eq hdir.1 hdir.2, ?_, ?_, hsent⟩
  · have hcounted := hw.counted
    rw [hitems, card_cons] at hcounted
    show c.bank.inflightTransCount = ((c.bank.pipeline.items + ↑(pre ++ rest)).card : Int)
    rw [hcount, hcounted]
    omega
  · have hfetch := hw.noFetch
    rw [hitems] at hfetch
    exact fun x hx => hfetch x (Multiset.mem_cons_of_mem hx)

theorem removeTransaction_ok {c : Cache cfg} (h : c.inFlightTransactions.any (·.id == t.id) = true) :
    c.removeTransaction t =
      .ok { c with inFlightTransactions := c.inFlightTransactions.eraseP (·.id == t.id) } := by
  unfold Cache.removeTransaction
  rw [if_pos h]

theorem live_of_hit (hinv : (s.flow τ).Inv) (ht : t ∈ (s.flow τ).bank) (hhit : t.action.isHit = true) :
    s.cache.inFlightTransactions.any (·.id == t.id) = true := by
  obtain ⟨t', ht', hid⟩ := hinv.custody.work_live t (Flow.mem_work.mpr (.inl ht)) hhit
  exact any_eq_true.mpr ⟨t', ht', by simpa using hid⟩

theorem finalizeReadHit_refines (hw : Wired s.cache) (hlog : logOf τ = s.cache.log) (hinv : (s.flow τ).Inv)
    (hn : 0 < cfg.numReqPerCycle) (helems : s.cache.bank.postPipelineBuf.elements = pre ++ t :: rest)
    (haction : t.action = .bankReadHit) : FinalizesOne s τ pre rest (finalizeReadHit s.cache t) := by
  have hmem := mem_bank helems τ
  have hshape := hinv.shaped.work t (Flow.mem_work.mpr (.inl hmem))
  simp only [Transaction.Shape, haction] at hshape
  obtain ⟨r, b, hasks, hlegal, hblock, -, hrange⟩ := hshape
  obtain ⟨room, hroom⟩ := s.cache.topSender.canSend_ok (show 0 < cfg.numReqPerCycle * 4 by omega)
  unfold finalizeReadHit
  rw [hroom, bind_ok]
  cases room with
  | false => exact .inl rfl
  | true =>
    have hlive := live_of_hit hinv hmem (by rw [haction]; rfl)
    have hfits : b.cacheAddress cfg.geometry + offsetOf cfg r.address + r.accessByteSize ≤ s.cache.storage.capacity := by
      have hfits : offsetOf cfg r.address + r.accessByteSize ≤ cfg.blockSize := hlegal.fits
      have hin := cacheAddress_le hrange
      have hcap : s.cache.storage.capacity = cfg.byteSize := hinv.shaped.capacity
      omega
    obtain ⟨data, hdata⟩ : ∃ data, s.cache.storage.read (b.cacheAddress cfg.geometry + offsetOf cfg r.address)
        r.accessByteSize = .ok data := ⟨_, Storage.read_ok hfits⟩
    have hoffset : (getCacheLineID r.address cfg.log2BlockSize).2 = offsetOf cfg r.address := rfl
    have hsend := BufferedSender.send_of_canSend hroom
    simp only [if_bnot_true, hasks.1, hblock, deref, bind_ok, hoffset, hdata,
      removeTransaction_ok hlive, countDown, Slices.newBytes, hsend]
    refine .inr ⟨_, τ ++ [Moment.event (.reqComplete (.read r))], rfl, ?_, by rw [logOf_concat, hlog], ?_⟩
    · exact wired_without hw helems ⟨rfl, rfl⟩ rfl rfl (hw.sent.trans (sentOf_concat rfl).symm)
    · convert Flow.Step.finishRead (a := s.flow τ) t _ r b data (bank_eq helems τ) haction hasks.1 hblock hlive hdata
        using 1
      rfl

theorem writeData_ok (hinv : (s.flow τ).Inv) {w : TopWrite} {b : BlockRef} (hlegal : Legal cfg (.write w))
    (hrange : InRange cfg b) : ∃ data m slices data' mask storage,
      s.cache.storage.read (b.cacheAddress cfg.geometry) cfg.blockSize = .ok data ∧
      dirtyMaskOf cfg s.cache.slices (s.cache.directory.blocks b) = (m, slices) ∧
      overlay data (slices.masks m) (offsetOf cfg w.address) w.data w.dirtyMask = .ok (data', mask) ∧
      s.cache.storage.write (b.cacheAddress cfg.geometry) data' = .ok storage ∧
      writeData s.cache b w (offsetOf cfg w.address) = .ok (m, slices.setMask m mask, storage) := by
  have hcap : s.cache.storage.capacity = cfg.byteSize := hinv.shaped.capacity
  have hin : b.cacheAddress cfg.geometry + cfg.blockSize ≤ s.cache.storage.capacity := hcap ▸ cacheAddress_le hrange
  obtain ⟨data, hdata⟩ : ∃ data, s.cache.storage.read (b.cacheAddress cfg.geometry) cfg.blockSize = .ok data :=
    ⟨_, Storage.read_ok hin⟩
  obtain ⟨m, slices, hmask⟩ : ∃ m slices, dirtyMaskOf cfg s.cache.slices (s.cache.directory.blocks b) = (m, slices) :=
    ⟨_, _, rfl⟩
  have hlen : data.length = cfg.blockSize := Storage.length_of_read hdata
  have hmaskLen : (slices.masks m).length = cfg.blockSize := (dirtyMaskOf_spec (hinv.shaped.masks b) hmask).2.1.2
  have hfits : offsetOf cfg w.address + w.data.length ≤ cfg.blockSize := hlegal.fits
  obtain ⟨⟨data', mask⟩, hover⟩ := overlay_ok (hfits.trans hlen.ge) (hfits.trans hmaskLen.ge)
    (hlegal.mask w rfl)
  have hlen' : data'.length = cfg.blockSize := (overlay_length hover).1.trans hlen
  obtain ⟨storage, hstore⟩ : ∃ storage, s.cache.storage.write (b.cacheAddress cfg.geometry) data' = .ok storage :=
    ⟨_, Storage.write_ok (hlen' ▸ hin)⟩
  refine ⟨data, m, slices, data', mask, storage, hdata, hmask, hover, hstore, ?_⟩
  unfold writeData
  simp only [hdata, bind_ok, hmask, hover, hstore]
  rfl

section
variable (hw : Wired s.cache) (hlog : logOf τ = s.cache.log) (hinv : (s.flow τ).Inv)
include hw hlog hinv

theorem finalizeWriteHit_refines
    (hn : 0 < cfg.numReqPerCycle) (helems : s.cache.bank.postPipelineBuf.elements = pre ++ t :: rest)
    (haction : t.action = .bankWriteHit) : FinalizesOne s τ pre rest (finalizeWriteHit s.cache t) := by
  have hmem := mem_bank helems τ
  have hshape := hinv.shaped.work t (Flow.mem_work.mpr (.inl hmem))
  simp only [Transaction.Shape, haction] at hshape
  obtain ⟨w, b, hasks, hlegal, hblock, -, hrange⟩ := hshape
  obtain ⟨room, hroom⟩ := s.cache.topSender.canSend_ok (show 0 < cfg.numReqPerCycle * 4 by omega)
  unfold finalizeWriteHit
  rw [hroom, bind_ok]
  cases room with
  | false => exact .inl rfl
  | true =>
    have hlive := live_of_hit hinv hmem (by rw [haction]; rfl)
    have hoffset : (getCacheLineID w.address cfg.log2BlockSize).2 = offsetOf cfg w.address := rfl
    obtain ⟨data, m, slices, data', mask, storage, hdata, hmask, hover, hstore, hwrite⟩ := writeData_ok hinv hlegal hrange
    have hsend := BufferedSender.send_of_canSend hroom
    have hremove : ∀ slices storage directory,
        ({ s.cache with slices, storage, directory } : Cache cfg).removeTransaction t = .ok { s.cache with
          slices, storage, directory
          inFlightTransactions := s.cache.inFlightTransactions.eraseP (·.id == t.id) } :=
      fun _ _ _ => removeTransaction_ok hlive
    simp only [if_bnot_true, hasks.2, hblock, deref, bind_ok, hoffset, hwrite, hremove, countDown, hsend]
    refine .inr ⟨_, τ ++ [Moment.effect w, .event (.reqComplete (.write w))], rfl, ?_, ?_, ?_⟩
    · exact wired_without hw helems ⟨rfl, rfl⟩ rfl rfl (hw.sent.trans (sentOf_concat rfl).symm)
    · rw [logOf_effect, hlog]
    · convert Flow.Step.finishWrite (a := s.flow τ) t _ w b m slices data data' mask storage (bank_eq helems τ) haction
        hasks.2 hblock hlive hdata hmask hover hstore using 1
      rfl

theorem finalizeBankWriteFetched_refines (helems : s.cache.bank.postPipelineBuf.elements = pre ++ t :: rest)
    (haction : t.action = .bankWriteFetched) : FinalizesOne s τ pre rest (finalizeBankWriteFetched s.cache t) := by
  have hmem := mem_bank helems τ
  have hwork := Flow.mem_work.mpr (.inl hmem)
  unfold finalizeBankWriteFetched
  split
  · exact .inl rfl
  next hpush =>
  obtain ⟨e, he⟩ := hinv.custody.filling t hwork haction
  have hfilled : e ∈ (s.flow τ).ledger.filled := Ledger.mem_filled.mpr ⟨t, hwork, haction, he⟩
  obtain ⟨b, hb, -, hrange⟩ := (hinv.entries.shape e (Ledger.mem_held.mpr (.inr (.inl hfilled)))).block
  obtain ⟨arr, harr⟩ := hinv.entries.data e (.inl hfilled)
  have hb : (s.cache.mshr.heap e).block = some b := hb
  have harr : (s.cache.mshr.heap e).data = some arr := harr
  have hin : b.cacheAddress cfg.geometry + (s.cache.slices.bytes arr).length ≤ s.cache.storage.capacity := by
    have hlen : (s.cache.slices.bytes arr).length = cfg.blockSize := (hinv.shaped.lines e arr harr).2
    have hcap : s.cache.storage.capacity = cfg.byteSize := hinv.shaped.capacity
    rw [hlen, hcap]
    exact cacheAddress_le hrange
  obtain ⟨storage, hstore⟩ : ∃ storage, s.cache.storage.write (b.cacheAddress cfg.geometry) (s.cache.slices.bytes arr) =
      .ok storage := ⟨_, Storage.write_ok hin⟩
  simp only [he, deref, bind_ok, hb, harr, hstore,
    Buffer.push_of_canPush (b := s.cache.mshrStageBuffer) (by simpa using hpush)]
  refine .inr ⟨_, τ, rfl, ?_, hlog, ?_⟩
  · exact wired_without hw helems ⟨rfl, rfl⟩ rfl rfl hw.sent
  · convert Flow.Step.finishFetched (a := s.flow τ) t _ e b (s.cache.slices.bytes arr) storage (bank_eq helems τ) haction he
      hb ?_ hstore using 1
    · simp only [flow, become, without, append_assoc]
      rfl
    · simp [flow, harr]

theorem finalizeBankEviction_refines (helems : s.cache.bank.postPipelineBuf.elements = pre ++ t :: rest) {action : Action}
    (haction : evictedAction t.action = .ok action) : FinalizesOne s τ pre rest (finalizeBankEviction s.cache t) := by
  have hmem := mem_bank helems τ
  have hshape := hinv.shaped.work t (Flow.mem_work.mpr (.inl hmem))
  have hevicts : t.Evicts cfg := by
    unfold Transaction.Shape at hshape
    rcases evictedAction_ok haction with ⟨h, -⟩ | ⟨h, -⟩ | ⟨h, -⟩ <;> rw [h] at hshape
    · exact hshape
    · exact hshape
    · exact hshape.2
  obtain ⟨v, hv, hin⟩ := hevicts
  unfold finalizeBankEviction
  split
  · exact .inl rfl
  next hpush =>
  have hcap : s.cache.storage.capacity = cfg.byteSize := hinv.shaped.capacity
  obtain ⟨data, hdata⟩ : ∃ data, s.cache.storage.read v.cacheAddress cfg.blockSize = .ok data :=
    ⟨_, Storage.read_ok (hcap ▸ hin)⟩
  have hderef : deref t.victim = .ok v := by rw [hv]; rfl
  simp only [hderef, bind_ok, hdata, haction, Slices.newBytes, countDown,
    Buffer.push_of_canPush (b := s.cache.writeBufferBuffer) (by simpa using hpush)]
  refine .inr ⟨_, τ, rfl, ?_, hlog, ?_⟩
  · exact wired_without hw helems ⟨rfl, rfl⟩ rfl rfl hw.sent
  · convert Flow.Step.finishEviction (a := s.flow τ) t _ v data action (bank_eq helems τ) haction hv hdata using 1
    rfl

theorem finalizeOne_refines
    (hn : 0 < cfg.numReqPerCycle) (helems : s.cache.bank.postPipelineBuf.elements = pre ++ t :: rest) :
    FinalizesOne s τ pre rest (finalizeOne s.cache t) := by
  have hin := hinv.shaped.bank t (mem_bank helems τ)
  have hnot : t.action ≠ .writeBufferFetch := by
    refine hw.noFetch t (Multiset.mem_add.mpr (.inr ?_))
    rw [helems]
    exact mem_append_right _ mem_cons_self
  unfold finalizeOne
  cases haction : t.action <;> simp only [haction, Action.inBank, Bool.false_eq_true] at hin hnot ⊢
  case bankReadHit => exact finalizeReadHit_refines hw hlog hinv hn helems haction
  case bankWriteHit => exact finalizeWriteHit_refines hw hlog hinv hn helems haction
  case bankWriteFetched => exact finalizeBankWriteFetched_refines hw hlog hinv helems haction
  case bankEvict => exact finalizeBankEviction_refines hw hlog hinv helems (by rw [haction]; rfl)
  case bankEvictAndWrite => exact finalizeBankEviction_refines hw hlog hinv helems (by rw [haction]; rfl)
  case bankEvictAndFetch => exact finalizeBankEviction_refines hw hlog hinv helems (by rw [haction]; rfl)
  case writeBufferFetch => exact absurd rfl hnot

theorem finalizeFrom_refines (hn : 0 < cfg.numReqPerCycle) (pre rest : List Transaction)
    (helems : s.cache.bank.postPipelineBuf.elements = pre ++ rest) : Refines s τ l (finalizeFrom s.cache pre rest) := by
  induction rest generalizing pre with
  | nil => exact .refl hw hlog false
  | cons t _ ih =>
    unfold finalizeFrom
    rcases finalizeOne_refines hw hlog hinv hn helems with hwait | ⟨_, τ', hok, hw', hlog', hstep⟩
    · simp only [hwait, bind_ok, Bool.false_eq_true, if_false]
      exact ih (pre ++ [t]) (by rw [helems, append_assoc, singleton_append])
    · simp only [hok, bind_ok, if_true]
      exact .silent τ' hw' hlog' hstep

theorem finalizeTrans_refines (hn : 0 < cfg.numReqPerCycle) : Refines s τ l (finalizeTrans s.cache) :=
  finalizeFrom_refines hw hlog hinv hn [] _ rfl

end

end

end BankStage

end Akita.WriteBack
