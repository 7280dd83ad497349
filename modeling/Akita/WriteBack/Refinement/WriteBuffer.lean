import Akita.WriteBack.Refinement.Bank
import Akita.WriteBack.Refinement.Directory

/-!
# The write buffer and the MSHR stage refine the flow

`fillEntry_ok` is what `sendFetchedDataToBank` and `processDataReadyRsp` share: the entry of a fetch is in the MSHR, so
its requests can be merged into the line.
-/

namespace Akita.WriteBack
open Sim Pipelining Mem Mem.Cache List
open WriteBack.Flow (Silent Moves)
open WriteBack.System (become flow)

variable {cfg : Config} {s : System cfg} {τ : List Moment} {l : Flow.Label}

namespace WriteBufferStage

theorem write_refines (hw : Wired s.cache) (hlog : logOf τ = s.cache.log) (hinv : (s.flow τ).Inv)
    (hn : 0 < cfg.numReqPerCycle) : Refines s τ l (write s.cache) := by
  unfold write
  split
  · exact .refl hw hlog false
  next t rest hpending =>
  split
  · exact .refl hw hlog false
  obtain ⟨room, hroom⟩ := s.cache.bottomSender.canSend_ok (show 0 < cfg.numReqPerCycle * 4 by omega)
  rw [hroom, bind_ok]
  cases room with
  | false => exact .refl hw hlog false
  | true =>
    obtain ⟨arr, harr, -⟩ := hinv.shaped.pending t (by show t ∈ s.cache.writeBuffer.pendingEvictions; simp [hpending])
    have hderef : deref t.evictingData = .ok arr := by rw [harr]; rfl
    simp only [if_bnot_true, hderef, bind_ok, BufferedSender.send_of_canSend hroom]
    refine .silent (τ ++ [Moment.event (.reqInitiate (.write _))]) (hw.of_eq rfl rfl rfl (sentOf_concat rfl))
      (by rw [logOf_concat, hlog]) ?_
    convert Flow.Step.sendEviction (a := s.flow τ) t rest arr _ hpending harr rfl using 1
    simp only [flow, become, append_assoc]

/-! ## Filling an entry -/

theorem combineRequests_ok {requests : List Transaction} {line : Nat} {pid : PID} {data : Bytes} {mask : Mask} (dirty : Bool)
    (h : ∀ t ∈ requests, ∃ req, t.Asks req ∧ Legal cfg req ∧ req.pid = pid ∧ lineOf cfg req.address = line)
    (hdata : data.length = cfg.blockSize) (hmask : mask.length = cfg.blockSize) :
    ∃ data' mask' dirty', combineRequests cfg requests data mask dirty = .ok (data', mask', dirty') := by
  induction requests generalizing data mask dirty with
  | nil => exact ⟨data, mask, dirty, rfl⟩
  | cons t _ ih =>
    have htail := fun x hx => h x (mem_cons_of_mem _ hx)
    obtain ⟨req, hasks, hlegal, -⟩ := h t mem_cons_self
    unfold combineRequests
    cases req with
    | read =>
      simp only [hasks.1]
      exact ih dirty htail hdata hmask
    | write w =>
      have hfits : offsetOf cfg w.address + w.data.length ≤ cfg.blockSize := hlegal.fits
      obtain ⟨⟨_, _⟩, hover⟩ := overlay_ok (hfits.trans hdata.ge) (hfits.trans hmask.ge)
        (hlegal.mask w rfl)
      obtain ⟨h1, h2⟩ := overlay_length hover
      have hoffset : (getCacheLineID w.address cfg.log2BlockSize).2 = offsetOf cfg w.address := rfl
      simp only [hasks.1, hasks.2, deref, bind_ok, hoffset, hover]
      exact ih true htail (h1.trans hdata) (h2.trans hmask)

variable {arr : ArrayRef}

theorem fill_exists {a : Flow cfg} (hinv : a.Inv) {t : Transaction} (ht : t ∈ a.work) (hfetch : t.action = .writeBufferFetch)
    {slices : Slices} (hlen : (slices.bytes arr).length = cfg.blockSize) :
    ∃ e b data mask dirty, a.Fill slices t arr e b data mask dirty := by
  obtain ⟨e, he, hentry, -⟩ := hinv.custody.fetching t ht (by rw [hfetch]; rfl)
  have hshape := hinv.entries.shape e (Ledger.mem_held_of_entries he)
  obtain ⟨b, hb, -⟩ := hshape.block
  obtain ⟨data, mask, dirty, hok⟩ := combineRequests_ok (a.blocks b).isDirty hshape.asked hlen
    (show (replicate cfg.blockSize false).length = cfg.blockSize by simp)
  exact ⟨e, b, data, mask, dirty, hentry, he, hb, hok⟩

theorem query_modify {n : Nat} {m : MSHR n Transaction} {e : EntryRef} (pid : PID) (addr : Nat) :
    (m.modify e fun entry => { entry with data := some arr }).query pid addr = m.query pid addr := by
  have hkeys := MSHR.keys_modify (m := m) (e := e) (f := fun entry => { entry with data := some arr }) fun _ => ⟨rfl, rfl⟩
  unfold MSHR.query
  congr 1
  funext e'
  rw [(hkeys e').1, (hkeys e').2]

theorem fillEntry_ok {c : Cache cfg} {t : Transaction} {e : EntryRef} {b : BlockRef} {data : Bytes} {mask : Mask}
    {dirty : Bool} (hentry : t.mshrEntry = some e) (hblock : (c.mshr.heap e).block = some b)
    (hquery : c.mshr.query (c.mshr.heap e).pid (c.mshr.heap e).address = some e)
    (hcombine : combineRequests cfg (c.mshr.heap e).requests (c.slices.bytes arr) (replicate cfg.blockSize false)
      (c.directory.blocks b).isDirty = .ok (data, mask, dirty))
    (hpush : c.writeBufferToBankBuffer.canPush = true) :
    fillEntry c t arr = .ok { c with
      mshr := Flow.fillMSHR c.mshr e arr
      directory := c.directory.modify b fun block => { block with dirtyMask := some c.slices.next, isDirty := dirty }
      slices := Flow.fillSlices c.slices arr data mask
      writeBufferToBankBuffer := ⟨c.writeBufferToBankBuffer.elements ++
        [{ t with fetchedData := some arr, action := .bankWriteFetched }]⟩ } := by
  have hremove : (c.mshr.modify e fun entry => { entry with data := some arr }).remove (c.mshr.heap e).pid
      (c.mshr.heap e).address = .ok (Flow.fillMSHR c.mshr e arr) := by
    unfold MSHR.remove
    rw [query_modify, hquery]
    rfl
  unfold fillEntry combineData
  simp only [hentry, deref, bind_ok, pure_bind, MSHR.heap_modify, Function.update_self, hblock, Slices.newMask, hcombine]
  simp only [MSHR.modify] at hremove ⊢
  simp only [hremove, bind_ok, Buffer.push_of_canPush hpush, Slices.setMask, Slices.setBytes, Function.update_idem,
    Flow.fillSlices]
  rfl

/-! ## Answers from below -/

theorem answers_eq {rsp : AccessRsp Bytes} (hrsp : s.cache.bottomPort.peek = some rsp) (τ : List Moment) :
    (s.flow τ).answers = rsp ::ₘ (↑s.answers + ↑s.cache.bottomPort.retrieve.buf.elements) := by
  have helems := Buffer.peek_eq_some hrsp
  show (↑s.answers + ↑s.cache.bottomPort.buf.elements : Multiset (AccessRsp Bytes)) = _
  rw [helems, ← Multiset.cons_coe, Multiset.add_cons]
  rfl

theorem find_of_countP_pos {α : Type} {p : α → Bool} {l : List α} (h : 0 < l.countP p) : ∃ x, l.find? p = some x := by
  obtain ⟨x, hx, hp⟩ := countP_pos_iff.mp h
  exact Option.isSome_iff_exists.mp (find?_isSome.mpr ⟨x, hx, hp⟩)

section
variable (hw : Wired s.cache) (hlog : logOf τ = s.cache.log) (hinv : (s.flow τ).Inv)
include hw hlog hinv

theorem processDataReadyRsp_refines {rsp : DataReadyRsp Bytes} (hrsp : s.cache.bottomPort.peek = some (.dataReady rsp)) :
    Refines s τ l (processDataReadyRsp s.cache rsp) := by
  have hanswers := answers_eq hrsp τ
  have hmem : .dataReady rsp ∈ (s.flow τ).answers := hanswers ▸ Multiset.mem_cons_self _ _
  obtain ⟨t, ht⟩ : ∃ t, s.cache.writeBuffer.inflightFetch.find? (Flow.awaitsRead rsp.respondTo) = some t := by
    refine find_of_countP_pos (lt_of_lt_of_le ?_ (hinv.messages.reads rsp.respondTo))
    have hpos : 0 < (s.flow τ).answers.countP fun m => isDataReady rsp.respondTo m = true :=
      Multiset.countP_pos.mpr ⟨_, hmem, by simp [isDataReady]⟩
    unfold Flow.readMessages
    omega
  have hfind : findInflightFetch s.cache rsp.respondTo = .ok t := by
    unfold findInflightFetch
    rw [show s.cache.writeBuffer.inflightFetch.find? (fun t => t.fetchReadReq.any (·.id == rsp.respondTo)) = some t from ht]
  have hfetches : t ∈ (s.flow τ).fetches := mem_of_find?_eq_some ht
  have hwork : t ∈ (s.flow τ).work := Flow.mem_work.mpr (.inr (.inr (.inr hfetches)))
  have hfetch := hinv.shaped.fetches t hfetches
  unfold processDataReadyRsp
  simp only [hfind, bind_ok]
  split
  · exact .refl hw hlog false
  next hpush =>
  have hlen : ((s.cache.slices.newBytes rsp.data).2.bytes s.cache.slices.next).length = cfg.blockSize := by
    simpa [Slices.newBytes] using hinv.shaped.answers rsp hmem
  obtain ⟨e, b, data, mask, dirty, hfill⟩ := fill_exists hinv hwork hfetch hlen
  have hquery := hinv.custody.query_eq hfill.waits
  have hok := fillEntry_ok (c := { s.cache with slices := (s.cache.slices.newBytes rsp.data).2 }) hfill.entry hfill.block
    hquery hfill.combine (by simpa using hpush)
  have hnew : s.cache.slices.newBytes rsp.data = (s.cache.slices.next, (s.cache.slices.newBytes rsp.data).2) := rfl
  rw [hnew]
  simp only [hok, bind_ok]
  refine .silent (τ ++ (Flow.writesOf (s.cache.mshr.heap e).requests).map .effect)
    ⟨hw.directory.of_eq rfl rfl, hw.counted, hw.noFetch, hw.sent⟩ (by rw [logOf_effects, hlog]) ?_
  convert Flow.Step.dataReady (a := s.flow τ) rsp _ t e b data mask dirty hanswers ht hfill using 1
  simp only [flow, become, coe_concat]
  rfl

theorem processWriteDoneRsp_refines {rsp : WriteDoneRsp} (hrsp : s.cache.bottomPort.peek = some (.writeDone rsp)) :
    Refines s τ l (processWriteDoneRsp s.cache rsp) := by
  have hanswers := answers_eq hrsp τ
  have hany : s.cache.writeBuffer.inflightEviction.any (Flow.awaitsWrite rsp.respondTo) = true := by
    have hpos : 0 < (s.flow τ).answers.countP fun m => isWriteDone rsp.respondTo m = true :=
      Multiset.countP_pos.mpr ⟨_, hanswers ▸ Multiset.mem_cons_self _ _, by simp [isWriteDone]⟩
    have hle := hinv.messages.writes rsp.respondTo
    have hcount : 0 < (s.flow τ).inflight.countP (Flow.awaitsWrite rsp.respondTo) := by
      unfold Flow.writeMessages at hle
      omega
    exact any_eq_true.mpr (countP_pos_iff.mp hcount)
  have hany' : s.cache.writeBuffer.inflightEviction.any (fun t => t.evictionWriteReq.any (·.id == rsp.respondTo)) = true :=
    hany
  unfold processWriteDoneRsp
  simp only [hany', if_true]
  refine .silent τ (hw.of_eq rfl rfl rfl rfl) hlog ?_
  exact Flow.Step.writeDone (a := s.flow τ) rsp _ hanswers hany

theorem processReturnRsp_refines :
    Refines s τ l (processReturnRsp s.cache) := by
  unfold processReturnRsp
  split
  · exact .refl hw hlog false
  · next rsp hrsp => exact processDataReadyRsp_refines hw hlog hinv hrsp
  · next rsp hrsp => exact processWriteDoneRsp_refines hw hlog hinv hrsp

end

/-! ## New transactions -/

section
variable {t : Transaction}

theorem data_of_find (hinv : (s.flow τ).Inv) {ev : Transaction} (hfind : (s.flow τ).find t = some ev) :
    ev.Carries cfg s.cache.slices := by
  have hev : ev ∈ (s.flow τ).inflight ∨ ev ∈ (s.flow τ).pending := by
    unfold Flow.find at hfind
    split at hfind
    · next e he =>
      cases hfind
      exact .inl (mem_of_find?_eq_some he)
    · exact .inr (mem_of_find?_eq_some hfind)
  exact hev.elim (hinv.shaped.inflight ev) (hinv.shaped.pending ev)

theorem processWriteBufferFetch_refines (hw : Wired s.cache) (hlog : logOf τ = s.cache.log) (hinv : (s.flow τ).Inv)
    (hn : 0 < cfg.numReqPerCycle) {rest : List Transaction} (hwb : s.cache.writeBufferBuffer.elements = t :: rest)
    (haction : t.action = .writeBufferFetch) : Refines s τ .localFetch (processWriteBufferFetch s.cache t) := by
  have hpop : s.cache.writeBufferBuffer.pop.elements = rest := by rw [Buffer.elements_pop, hwb, tail_cons]
  have hwork : t ∈ (s.flow τ).work := Flow.mem_work.mpr (.inr (.inr (.inl (by
    show t ∈ s.cache.writeBufferBuffer.elements
    rw [hwb]
    exact mem_cons_self))))
  unfold processWriteBufferFetch
  split
  · next ev hfind =>
    obtain ⟨arr, harr, hline⟩ := data_of_find hinv hfind
    have hderef : deref ev.evictingData = .ok arr := by rw [harr]; rfl
    simp only [hderef, bind_ok, sendFetchedDataToBank]
    split
    · exact .refl hw hlog false
    next hpush =>
    obtain ⟨e, b, data, mask, dirty, hfill⟩ := fill_exists hinv hwork haction hline.2
    have hok := fillEntry_ok (c := s.cache) hfill.entry hfill.block (hinv.custody.query_eq hfill.waits) hfill.combine
      (by simpa using hpush)
    simp only [hok, bind_ok]
    refine .step (τ ++ (Flow.writesOf (s.cache.mshr.heap e).requests).map .effect)
      ⟨hw.directory.of_eq rfl rfl, hw.counted, hw.noFetch, hw.sent⟩ (by rw [logOf_effects, hlog]) ?_
    convert Flow.Step.fetchLocal (a := s.flow τ) t rest ev arr e b data mask dirty hwb haction hfind harr hfill using 1
    simp only [flow, become, coe_concat, hpop]
    rfl
  · next hfind =>
    unfold fetchFromBottom
    split
    · exact .refl hw hlog false
    obtain ⟨room, hroom⟩ := s.cache.bottomSender.canSend_ok (show 0 < cfg.numReqPerCycle * 4 by omega)
    rw [hroom, bind_ok]
    cases room with
    | false => exact .refl hw hlog false
    | true =>
      simp only [if_bnot_true, BufferedSender.send_of_canSend hroom, bind_ok]
      refine .silent (τ ++ [Moment.event (.reqInitiate (.read _))]) (hw.of_eq rfl rfl rfl (sentOf_concat rfl))
        (by rw [logOf_concat, hlog]) ?_
      convert Flow.Step.fetchBottom (a := s.flow τ) t rest _ hwb haction hfind rfl using 1
      simp only [flow, become, append_assoc, hpop]

theorem processNewTransaction_refines (hw : Wired s.cache) (hlog : logOf τ = s.cache.log) (hinv : (s.flow τ).Inv)
    (hn : 0 < cfg.numReqPerCycle) : Refines s τ .localFetch (processNewTransaction s.cache) := by
  unfold processNewTransaction
  split
  · exact .refl hw hlog false
  next t ht =>
  have hwb := Buffer.peek_eq_some ht
  have hin := hinv.shaped.wb t (by
    show t ∈ s.cache.writeBufferBuffer.elements
    rw [hwb]
    exact mem_cons_self)
  cases haction : t.action <;> simp only [haction, Action.inWriteBuffer, Bool.false_eq_true] at hin ⊢
  case writeBufferFetch => exact processWriteBufferFetch_refines hw hlog hinv hn hwb haction
  case writeBufferEvictAndFetch =>
    unfold processWriteBufferFetchAndEvict processWriteBufferFlush
    by_cases hfull : writeBufferFull s.cache = true
    · simp only [hfull, if_true, Bool.false_eq_true, if_false]
      exact .refl hw hlog false
    · simp only [hfull, Bool.false_eq_true, if_false, if_true]
      exact .silent τ (hw.of_eq rfl rfl rfl rfl) hlog (.parkAndFetch (a := s.flow τ) t _ hwb haction)
  case writeBufferEvictAndWrite =>
    unfold processWriteBufferEvictAndWrite
    split
    · exact .refl hw hlog false
    split
    · exact .refl hw hlog false
    next hpush =>
    simp only [Buffer.push_of_canPush (b := s.cache.writeBufferToBankBuffer) (by simpa using hpush), bind_ok]
    refine .silent τ (hw.of_eq rfl rfl rfl rfl) hlog ?_
    convert Flow.Step.parkAndWrite (a := s.flow τ) t _ hwb haction using 1
    simp only [flow, become, coe_concat]
  case writeBufferFlush =>
    unfold processWriteBufferFlush
    split
    · exact .refl hw hlog false
    · exact .silent τ (hw.of_eq rfl rfl rfl rfl) hlog (.parkFlush (a := s.flow τ) t _ hwb haction)

end

end WriteBufferStage

namespace MSHRStage

theorem drain_drop (e : EntryRef) (ts : List Transaction) (rest : List EntryRef) :
    ((if ts.isEmpty then none else some e).toList ++ rest : List EntryRef) = if ts.isEmpty then rest else e :: rest := by
  split <;> rfl

theorem processOneReq_refines (hw : Wired s.cache) (hlog : logOf τ = s.cache.log) (hinv : (s.flow τ).Inv)
    (hn : 0 < cfg.numReqPerCycle) {e : EntryRef} (he : s.cache.processingMSHREntry = some e) :
    Refines s τ l (processOneReq s.cache e) := by
  have hdrain : (s.flow τ).drain = e :: s.cache.mshrStageBuffer.elements := by
    show s.cache.processingMSHREntry.toList ++ _ = _
    rw [he]
    rfl
  have hmem : e ∈ (s.flow τ).ledger.drain := by
    show e ∈ (s.flow τ).drain
    rw [hdrain]
    exact mem_cons_self
  have hshape := hinv.entries.shape e (Ledger.mem_held_of_drain hmem)
  obtain ⟨arr, harr⟩ := hinv.entries.data e (.inr hmem)
  have hline : s.cache.slices.Line cfg arr := hinv.shaped.lines e arr harr
  obtain ⟨room, hroom⟩ := s.cache.topSender.canSend_ok (show 0 < cfg.numReqPerCycle * 4 by omega)
  unfold processOneReq
  rw [hroom, bind_ok]
  cases room with
  | false => exact .refl hw hlog false
  | true =>
    simp only [if_bnot_true]
    split
    · next hnil => exact absurd hnil hshape.requests
    next t ts hreqs =>
    have htail : (s.cache.mshr.heap e).requests.tail = ts := by rw [hreqs, tail_cons]
    obtain ⟨req, hasks, hlegal, -⟩ := hshape.asked t (by
      show t ∈ (s.cache.mshr.heap e).requests
      rw [hreqs]
      exact mem_cons_self)
    have hdeq := drain_drop e ts s.cache.mshrStageBuffer.elements
    split
    · next hin =>
      have hin : s.cache.inFlightTransactions.any (·.id == t.id) = true := hin
      have hremove : s.cache.removeTransaction t = _ := BankStage.removeTransaction_ok hin
      simp only [hremove, bind_ok]
      cases req with
      | read r =>
        have hfits : offsetOf cfg r.address + r.accessByteSize ≤ (s.cache.slices.bytes arr).length :=
          hline.2 ▸ hlegal.fits
        have hoffset : (getCacheLineID r.address cfg.log2BlockSize).2 = offsetOf cfg r.address := rfl
        have harr : deref (s.cache.mshr.heap e).data = .ok arr := by
          rw [show (s.cache.mshr.heap e).data = some arr from harr]
          rfl
        simp only [hasks.1, respondRead, harr, bind_ok, hoffset, if_neg (not_lt.mpr hfits),
          BufferedSender.send_of_canSend hroom, pure_bind, dropRequest, htail, he]
        refine .silent (τ ++ [Moment.event (.reqComplete (.read r))]) (hw.of_eq rfl rfl rfl (sentOf_concat rfl))
          (by rw [logOf_concat, hlog]) ?_
        convert Flow.Step.respondRead (a := s.flow τ) e _ t ts r arr hdrain hreqs hin hasks.1 ‹_› hfits using 1
        simp only [flow, become, hdeq]
      | write w =>
        have hwrite : deref t.write = .ok w := by rw [hasks.2]; rfl
        simp only [hasks.1, respondWrite, hwrite, bind_ok, BufferedSender.send_of_canSend hroom, pure_bind, dropRequest,
          htail, he]
        refine .silent (τ ++ [Moment.event (.reqComplete (.write w))]) (hw.of_eq rfl rfl rfl (sentOf_concat rfl))
          (by rw [logOf_concat, hlog]) ?_
        convert Flow.Step.respondWrite (a := s.flow τ) e _ t ts w hdrain hreqs hin hasks.1 hasks.2 using 1
        simp only [flow, become, hdeq]
    · next hin =>
      have hin : s.cache.inFlightTransactions.any (·.id == t.id) = false := Bool.eq_false_iff.mpr hin
      simp only [dropRequest, htail, he]
      refine .silent τ (hw.of_eq rfl rfl rfl rfl) hlog ?_
      convert Flow.Step.skip (a := s.flow τ) e _ t ts hdrain hreqs hin using 1
      simp only [flow, become, hdeq]

theorem tick_refines (hw : Wired s.cache) (hlog : logOf τ = s.cache.log) (hinv : (s.flow τ).Inv)
    (hn : 0 < cfg.numReqPerCycle) : Refines s τ l (tick s.cache) := by
  unfold tick
  split
  · next e he => exact processOneReq_refines hw hlog hinv hn he
  next hnone =>
  split
  · exact .refl hw hlog false
  next e he =>
  have helems := Buffer.peek_eq_some he
  have hflow : s.flow τ = (s.become { s.cache with
      mshrStageBuffer := s.cache.mshrStageBuffer.pop, processingMSHREntry := some e }).flow τ := by
    simp only [flow, become, hnone, helems]
    rfl
  rw [hflow] at hinv
  refine .after hflow ?_
  refine processOneReq_refines (s := s.become _) ?_ ?_ hinv hn rfl
  · exact hw.of_eq rfl rfl rfl rfl
  · exact hlog

end MSHRStage

end Akita.WriteBack
