import Akita.L1.Coalescing
import Akita.L1.Ledger

/-!
# The answers of an L1 cache

* `AtTop c c'` : what a step does at the top port; `Finishes c c'` : which requests it finishes;
* `Answered c` : what has been accepted is in flight or answered, and answered once;
* `served_once_of_reaches`, `lower_level_of_reaches`, `placed_of_reaches` : every run of reads and writes whose waves are
  alike;
* `parked_forever` : a read that can wait stays unanswered in a cache in which nothing else is in flight.
-/

namespace Akita.L1
open Sim Pipelining Mem Mem.Cache Option List Function
open Event (received served)

variable {cfg : Config}

/-! ## The top port -/

/-- A request with its transaction and the response to it. -/
def Event.completion : Event → Option (TransRef × AccessReq × AccessRsp Bytes)
  | .reqComplete r q rsp => some (r, q, rsp)
  | _ => none

def Cache.completions (c : Cache cfg) : List (TransRef × AccessReq × AccessRsp Bytes) := c.log.filterMap Event.completion

inductive AtTop (c c' : Cache cfg) : Prop
  | quiet (hlog : c'.completions = c.completions) (htrans : c'.transactions = c.transactions)
      (hout : c'.topPort.outgoing = c.topPort.outgoing) (hbuf : c'.topPort.buf = c.topPort.buf)
      (hreceived : c'.told.filterMap received = c.told.filterMap received)
  | accepts (req : AccessReq) (hpeek : c.topPort.peek = some (.access req)) (hlog : c'.completions = c.completions)
      (htrans : c'.transactions = c.transactions ++ [c.nextRef]) (hout : c'.topPort.outgoing = c.topPort.outgoing)
      (hbuf : c'.topPort.buf = c.topPort.buf.pop) (hnew : (c'.heap c.nextRef).done = false)
      (hreceived : c'.told.filterMap received = c.told.filterMap received ++ [c.nextRef])
  | responds (r : TransRef) (hr : c.transactions.find? (fun r => (c.heap r).done) = some r)
      (hlog : c'.completions = c.completions ++ [(r, (c.heap r).req, RespondStage.response (c.heap r))])
      (htrans : c'.transactions = c.transactions.erase r) (hheap : c'.heap = c.heap)
      (hout : c'.topPort.outgoing = c.topPort.outgoing ++ [.access (RespondStage.response (c.heap r))])
      (hbuf : c'.topPort.buf = c.topPort.buf) (hreceived : c'.told.filterMap received = c.told.filterMap received)
  | invalidates (src : PortID) (pid : PID) (hpeek : c.topPort.peek = some (.gl0Invalidate src pid))
      (hlog : c'.completions = c.completions) (htrans : c'.transactions = c.transactions)
      (hreceived : c'.told.filterMap received = c.told.filterMap received)

theorem completions_append (l es : List Event) (hes : ∀ e ∈ es, e.completion = none) :
    (l ++ es).filterMap Event.completion = l.filterMap Event.completion := by
  have hnil : es.filterMap Event.completion = [] := filterMap_eq_nil_iff.mpr hes
  rw [filterMap_append, hnil, append_nil]

theorem completions_concat (l : List Event) {e : Event} (he : e.completion = none) :
    (l ++ [e]).filterMap Event.completion = l.filterMap Event.completion :=
  completions_append l [e] fun e' he' => by rw [mem_singleton.mp he']; exact he

theorem completions_two (l : List Event) {e e' : Event} (he : e.completion = none) (he' : e'.completion = none) :
    (l ++ [e] ++ [e']).filterMap Event.completion = l.filterMap Event.completion :=
  (completions_concat _ he').trans (completions_concat l he)

section
variable {G : Cache cfg → Call → Prop} {c c' : Cache cfg} {k : Call} {x r : TransRef}

/-- **What a step does at the top port.** -/
theorem Step.atTop (hs : Step G c k c') : AtTop c c' := by
  have htold : k ≠ .coalesce → c'.told.filterMap received = c.told.filterMap received := fun hk => by rw [hs.told hk]
  cases hs with
  | respond r _ hr =>
    exact .responds r hr (filterMap_concat _ _ _) rfl rfl rfl rfl (htold (by decide))
  | joinRead | readHit | writeBottom => exact .quiet (completions_concat _ rfl) rfl rfl rfl (htold (by decide))
  | joinWrite | fetch | writeHit | invalidate | bypass =>
    exact .quiet (completions_two _ rfl rfl) rfl rfl rfl (htold (by decide))
  | writeHitAgain _ _ _ _ _ _ _ _ _ _ hfinish =>
    have htold := htold (by decide)
    rcases finishWriteHit_eq hfinish with ⟨-, rfl⟩ | ⟨-, _, -, rfl⟩
    · exact .quiet (completions_concat _ rfl) rfl rfl rfl htold
    · exact .quiet (completions_concat _ rfl) rfl rfl rfl htold
  | park req hreq =>
    refine .accepts req hreq (completions_concat _ rfl) rfl rfl rfl
      ((congrArg Transaction.done (update_self c.nextRef _ c.heap)).trans rfl) ?_
    have htold : (Coalescer.createTransaction c req).told = c.told ++ [Event.reqReceive c.nextRef req] := filter_append _ _
    rw [htold]
    exact filterMap_concat _ _ _
  | wave _ _ req =>
    refine .quiet (completions_concat _ rfl) rfl rfl rfl ?_
    show ((c.log ++ [Event.startTask c.nextRef req c.toCoalesce]).filter fun e => e.allocated.isSome).filterMap received = _
    rw [filter_append, filterMap_append]
    exact append_nil _
  | invalidated src pid _ hreq =>
    refine .invalidates src pid hreq (completions_concat _ rfl) rfl (congrArg (filterMap received) ?_)
    exact told_append c.log [_] fun e he => by rw [mem_singleton.mp he]; rfl
  | moveDir => exact .quiet rfl rfl rfl rfl rfl
  | _ => exact .quiet rfl rfl rfl rfl rfl

/-! ## Requests that are finished -/

/-- The lower level has answered the write of `x`, or the fetch of the entry that `x` joined. -/
inductive Settles (G : Cache cfg → Call → Prop) (c : Cache cfg) (x : TransRef) : Prop
  | written (rsp : WriteDoneRsp) (w : WriteReq Bytes Mask) (hrsp : c.bottomPort.peek = some (.writeDone rsp))
      (hw : (c.heap x).writeToBottom = some w) (hid : w.id = rsp.respondTo)
  | fetched (x₀ : TransRef) (rsp : DataReadyRsp Bytes) (rd : ReadReq) (e : EntryRef) (victim : BlockRef) (data : Bytes)
      (ha : Arrival c x₀ rsp rd e victim data) (hG : ∃ c₀, Marked c₀ c ∧ G c₀ .parse) (hx : x ∈ (c.mshr.heap e).requests)

/-- A wave that is past the directory stage is finished, or none is. -/
inductive Finishes (G : Cache cfg → Call → Prop) (c c' : Cache cfg) : Prop
  | none (h : ∀ r, Received c r → (c'.heap r).done = (c.heap r).done ∧ (c'.heap r).data = (c.heap r).data)
  | reads (x : TransRef) (data : Bytes) (tag : Nat) (hx : Started c x) (hdir : x ∉ c.dirItems)
      (hreads : ∀ r ∈ (c.heap x).preCoalesceTransactions, ReadsFrom data tag (c.heap r).req)
      (hheap : c'.heap = markRead data tag (c.heap x).preCoalesceTransactions c.heap)
  | writes (x : TransRef) (w : WriteReq Bytes Mask) (hx : Started c x) (hdir : x ∉ c.dirItems)
      (hw : (c.heap x).req = .write w)
      (hsettles : Settles G c x) (hheap : c'.heap = markDone (c.heap x).preCoalesceTransactions c.heap)

/-- **Which requests a step finishes.** -/
theorem Step.finishes (ht : Told c) (hp : Placed c)
    (hl : ∀ x w, Started c x → (c.heap x).writeToBottom = some w → ∃ w₀, (c.heap x).req = .write w₀) (hs : Step G c k c') :
    Finishes G c c' := by
  -- a request is no wave
  have hwave : ∀ {y : TransRef} {t : Transaction}, Started c y → ∀ r, Received c r →
      (update c.heap y t r).done = (c.heap r).done ∧ (update c.heap y t r).data = (c.heap r).data := by
    rintro y t ⟨q, pre, hy⟩ r ⟨q', hr⟩
    have hne : r ≠ y := by
      rintro rfl
      exact ht.apart hr hy
    rw [update_of_ne hne]
    exact ⟨rfl, rfl⟩
  have hnew : ∀ {t : Transaction} r, Received c r →
      (update c.heap c.nextRef t r).done = (c.heap r).done ∧ (update c.heap c.nextRef t r).data = (c.heap r).data := by
    rintro t r ⟨q', hr⟩
    rw [update_of_ne (Nat.ne_of_lt (ht.lt_of_received hr))]
    exact ⟨rfl, rfl⟩
  cases hs with
  | writeDone rsp y hrsp hfind hflag =>
    obtain ⟨hpost, w', hw', hid⟩ := findWrite_eq_some hfind
    have hstarted := hp.started y hpost
    obtain ⟨w₀, hw₀⟩ := hl y w' hstarted hw'
    refine .writes y w₀ hstarted (fun hd => ?_) hw₀ (.written rsp w' hrsp hw' hid) rfl
    rw [(hp.begun y hd).1 (by rw [hw']; rfl)] at hflag
    cases hflag
  | joinedRead _ y _ _ _ e _ data ha _ hy _ hreads =>
    have he := (MSHR.query_eq_some ha.entry).1
    exact .reads y data _ (hp.inEntry e he y hy) (fun hd => (hp.queued y hd).2.2.2 e he hy) hreads rfl
  | joinedWrite x₀ y rsp rd w e victim data ha hG hy hreq =>
    have he := (MSHR.query_eq_some ha.entry).1
    exact .writes y w (hp.inEntry e he y hy) (fun hd => (hp.queued y hd).2.2.2 e he hy) hreq
      (.fetched x₀ rsp rd e victim data ha hG hy) rfl
  | fill y _ _ _ _ _ _ _ _ ha =>
    exact .none (hwave (hp.started y (findRead_eq_some ha.find).1))
  | readHitDone i y _ _ data hpeek _ _ _ _ hreads =>
    have hy := mem_items_of_peek hpeek
    exact .reads y data _ (hp.inBank i y hy) (fun hd => (hp.queued y hd).2.2.1 i hy) hreads rfl
  | joinWrite | readHit | fetch | flag | writeBottom | invalidate | bypass => exact .none (hwave (hp.head ‹_›).2)
  | writeHit y w _ _ conn _ _ _ hpeek =>
    refine .none fun r hr => ?_
    have hne : r ≠ y := by
      rintro rfl
      obtain ⟨_, hq⟩ := hr
      obtain ⟨_, _, hy⟩ := (hp.head hpeek).2
      exact ht.apart hq hy
    show (update (c.sent y w conn).heap y _ r).done = _ ∧ (update (c.sent y w conn).heap y _ r).data = _
    rw [update_of_ne hne]
    exact hwave (hp.head hpeek).2 r hr
  | writeHitAgain _ _ _ _ _ _ hpeek hreq hsent hb => exact absurd hb fun hb => (hp.waiting hpeek hsent).not_hit hreq hb
  | park | wave => exact .none hnew
  | _ => exact .none fun r _ => ⟨rfl, rfl⟩

/-! ## Waves and their requests -/

theorem Received.mem {c : Cache cfg} {r : TransRef} (h : Received c r) : r ∈ c.told.filterMap received := by
  obtain ⟨_, hq⟩ := h
  exact mem_filterMap.mpr ⟨_, hq, rfl⟩

theorem Told.wave_unique (h : Told c) {x' : TransRef} {q q' : AccessReq} {pre pre' : List TransRef}
    (hx : .startTask x q pre ∈ c.told) (hx' : .startTask x' q' pre' ∈ c.told) (hr : r ∈ pre) (hr' : r ∈ pre') : x = x' := by
  have hnodup := h.received_nodup
  rw [← h.gathered, nodup_append] at hnodup
  by_contra hne
  have : Std.Symm (onFun List.Disjoint Event.gathered) := ⟨fun _ _ h => h.symm⟩
  have hdisjoint := (nodup_flatMap.mp hnodup.1).2.forall hx hx' fun heq => hne (by cases heq; rfl)
  exact hdisjoint hr hr'

/-! ## Answers -/

/-- A request that is done is in a wave that is past the directory stage, and a read has its bytes. -/
structure Answered (c : Cache cfg) : Prop where
  nodup : c.transactions.Nodup
  once : (c.completions.map Prod.fst).Nodup
  completed : ∀ p ∈ c.completions, .reqReceive p.1 p.2.1 ∈ c.told ∧ p.2.2.map length = p.2.1.answer ∧ p.1 ∉ c.transactions ∧
    (c.heap p.1).done = true
  pending : ∀ r, Received c r → r ∈ c.transactions ∨ r ∈ c.completions.map Prod.fst
  gathered : ∀ r, Received c r → (c.heap r).done = true → ∃ x q pre, .startTask x q pre ∈ c.told ∧ r ∈ pre ∧ x ∉ c.dirItems
  data : ∀ r, Received c r → (c.heap r).done = true → ∀ rd, (c.heap r).req = .read rd →
    (c.heap r).data.length = rd.accessByteSize

theorem Finishes.done (hf : Finishes G c c') (hr : Received c r) (hdone : (c.heap r).done = true) :
    (c'.heap r).done = true := by
  cases hf with
  | none h => exact (h r hr).1.trans hdone
  | reads _ _ _ _ _ _ hheap =>
    rw [hheap]
    unfold markRead
    split
    · rfl
    · exact hdone
  | writes _ _ _ _ _ _ hheap =>
    rw [hheap]
    unfold markDone
    split
    · rfl
    · exact hdone

/-- A request that is done was done, or is in the wave that is finished. -/
theorem Finishes.finished (ht : Told c) (hf : Finishes G c c') (hr : Received c r) (hdone : (c'.heap r).done = true) :
    ((c.heap r).done = true ∧ ((c'.heap r).data = (c.heap r).data)) ∨
      ∃ x q pre, .startTask x q pre ∈ c.told ∧ r ∈ pre ∧ x ∉ c.dirItems ∧
        ∀ rd, (c.heap r).req = .read rd → (c'.heap r).data.length = rd.accessByteSize := by
  cases hf with
  | none h =>
    rw [(h r hr).1] at hdone
    exact .inl ⟨hdone, (h r hr).2⟩
  | reads x data tag hx hdir hreads hheap =>
    rw [hheap] at hdone ⊢
    obtain ⟨q, pre, hx⟩ := hx
    rw [(ht.started x q pre hx).2] at hdone hreads ⊢
    unfold markRead at hdone ⊢
    by_cases hmem : r ∈ pre
    · refine .inr ⟨x, q, pre, hx, hmem, hdir, fun rd hrd => ?_⟩
      obtain ⟨_, hrd', _⟩ := hreads r hmem
      rw [hrd] at hrd'
      cases hrd'
      rw [if_pos hmem]
      show ((data.drop (offsetIn (c.heap r).req.address tag)).take (c.heap r).req.byteSize).length = _
      rw [hrd, length_take, length_drop]
      show min rd.accessByteSize (data.length - offsetIn rd.address tag) = _
      omega
    · rw [if_neg hmem] at hdone ⊢
      exact .inl ⟨hdone, rfl⟩
  | writes x _ hx hdir hw _ hheap =>
    rw [hheap] at hdone ⊢
    obtain ⟨q, pre, hx⟩ := hx
    rw [(ht.started x q pre hx).2] at hdone ⊢
    unfold markDone at hdone ⊢
    by_cases hmem : r ∈ pre
    · refine .inr ⟨x, q, pre, hx, hmem, hdir, fun rd hrd => ?_⟩
      -- a wave of writes has no reads
      have hkind := (ht.serves x q pre hx r hmem).alike.kind
      rw [← (ht.started x q pre hx).1, hw, hrd] at hkind
      cases hkind
    · rw [if_neg hmem] at hdone ⊢
      exact .inl ⟨hdone, rfl⟩

theorem AtTop.received (ha : AtTop c c') (hr : Received c' r) :
    Received c r ∨ (r = c.nextRef ∧ (c'.heap c.nextRef).done = false) := by
  have hmem := hr.mem
  cases ha with
  | quiet _ _ _ _ hreceived =>
    rw [hreceived] at hmem
    exact .inl (mem_received hmem)
  | accepts _ _ _ _ _ _ hnew hreceived =>
    rw [hreceived, mem_append, mem_singleton] at hmem
    exact hmem.imp mem_received fun h => ⟨h, hnew⟩
  | responds _ _ _ _ _ _ _ hreceived =>
    rw [hreceived] at hmem
    exact .inl (mem_received hmem)
  | invalidates _ _ _ _ _ hreceived =>
    rw [hreceived] at hmem
    exact .inl (mem_received hmem)

theorem Answered.step (h : Answered c) (ht : Told c) (hp : Placed c)
    (hl : ∀ x w, Started c x → (c.heap x).writeToBottom = some w → ∃ w₀, (c.heap x).req = .write w₀) (hs : Step G c k c') :
    Answered c' := by
  have hf := hs.finishes ht hp hl
  have ha := hs.atTop
  have htold : ∀ e ∈ c.told, e ∈ c'.told := by
    obtain ⟨_, hlog, -⟩ := hs.log
    intro e he
    unfold Cache.told
    rw [hlog, filter_append]
    exact mem_append_left _ he
  have hdir : ∀ {x q pre}, .startTask x q pre ∈ c.told → x ∉ c.dirItems → x ∉ c'.dirItems := by
    intro x q pre hx hnot hmem
    rcases hs.mem_dirItems hmem with hmem | ⟨rfl, -⟩
    · exact hnot hmem
    · exact lt_irrefl _ (ht.lt_of_started hx)
  have hgathered : ∀ r, Received c' r → (c'.heap r).done = true → ∃ x q pre, .startTask x q pre ∈ c'.told ∧
      r ∈ pre ∧ x ∉ c'.dirItems := by
    intro r hr hdone
    rcases ha.received hr with hold | ⟨rfl, hnew⟩
    · rcases hf.finished ht hold hdone with ⟨hdone, -⟩ | ⟨x, q, pre, hx, hmem, hnot, -⟩
      · obtain ⟨x, q, pre, hx, hmem, hnot⟩ := h.gathered r hold hdone
        exact ⟨x, q, pre, htold _ hx, hmem, hdir hx hnot⟩
      · exact ⟨x, q, pre, htold _ hx, hmem, hdir hx hnot⟩
    · rw [hnew] at hdone
      cases hdone
  have hdata : ∀ r, Received c' r → (c'.heap r).done = true → ∀ rd, (c'.heap r).req = .read rd →
      (c'.heap r).data.length = rd.accessByteSize := by
    intro r hr hdone rd hrd
    rcases ha.received hr with hold | ⟨rfl, hnew⟩
    · obtain ⟨q, hq⟩ := hold
      rw [(hs.same_req (ht.lt_of_received hq)).1] at hrd
      rcases hf.finished ht ⟨q, hq⟩ hdone with ⟨hdone, heq⟩ | ⟨_, q, _, _, hmem, hnot, hlen⟩
      · rw [heq]
        exact h.data r ⟨q, hq⟩ hdone rd hrd
      · exact hlen rd hrd
    · rw [hnew] at hdone
      cases hdone
  have hcompleted : ∀ p ∈ c.completions, .reqReceive p.1 p.2.1 ∈ c'.told ∧ p.2.2.map length = p.2.1.answer ∧
      (c'.heap p.1).done = true := by
    intro p hp'
    obtain ⟨hrec, hrsp, -, hdone⟩ := h.completed p hp'
    exact ⟨htold _ hrec, hrsp, hf.done ⟨_, hrec⟩ hdone⟩
  have hquiet : c'.completions = c.completions → c'.transactions = c.transactions →
      c'.told.filterMap received = c.told.filterMap received → Answered c' := by
    intro hlog htrans hreceived
    refine ⟨by rw [htrans]; exact h.nodup, by rw [hlog]; exact h.once, fun p hp' => ?_, fun r hr => ?_, hgathered, hdata⟩
    · rw [hlog] at hp'
      have ⟨h1, h2, h3⟩ := hcompleted p hp'
      rw [htrans]
      exact ⟨h1, h2, (h.completed p hp').2.2.1, h3⟩
    · have hmem := hr.mem
      rw [hreceived] at hmem
      rw [htrans, hlog]
      exact h.pending r (mem_received hmem)
  have hold : ∀ p ∈ c.completions, p.1 < c.nextRef := fun p hp' => ht.lt_of_received (h.completed p hp').1
  cases ha with
  | quiet | invalidates => exact hquiet ‹_› ‹_› ‹_›
  | accepts _ _ hlog htrans _ _ _ hreceived =>
    have hfresh : c.nextRef ∉ c.transactions := by
      intro hmem
      obtain ⟨q, hq⟩ := hp.accepted _ hmem
      exact lt_irrefl _ (ht.lt_of_received hq)
    refine ⟨?_, by rw [hlog]; exact h.once, fun p hp' => ?_, fun r hr => ?_, hgathered, hdata⟩
    · rw [htrans]
      exact h.nodup.append (nodup_singleton _) (disjoint_singleton.mpr hfresh)
    · rw [hlog] at hp'
      have ⟨h1, h2, h3⟩ := hcompleted p hp'
      refine ⟨h1, h2, fun hmem => ?_, h3⟩
      rw [htrans, mem_append, mem_singleton] at hmem
      rcases hmem with hmem | hmem
      · exact (h.completed p hp').2.2.1 hmem
      · exact absurd (hold p hp') (hmem ▸ lt_irrefl _)
    · have hmem := hr.mem
      rw [hreceived, mem_append, mem_singleton] at hmem
      rw [htrans, hlog]
      rcases hmem with hmem | rfl
      · exact (h.pending r (mem_received hmem)).imp_left (mem_append_left _)
      · exact .inl (mem_append_right _ (mem_singleton_self _))
  | responds r₀ hr₀ hlog htrans hheap _ _ hreceived =>
    have hmem₀ := mem_of_find?_eq_some hr₀
    have hdone₀ : (c.heap r₀).done = true := by simpa using find?_some hr₀
    obtain ⟨q₀, hq₀⟩ := hp.accepted r₀ hmem₀
    have hreq₀ := ht.received r₀ q₀ hq₀
    refine ⟨by rw [htrans]; exact h.nodup.erase r₀, ?_, fun p hp' => ?_, fun r hr => ?_, hgathered, hdata⟩
    · rw [hlog, map_append]
      refine h.once.append (nodup_singleton _) (disjoint_singleton.mpr fun hmem => ?_)
      obtain ⟨p, hp', heq⟩ := mem_map.mp hmem
      have hnot := (h.completed p hp').2.2.1
      rw [heq] at hnot
      exact hnot hmem₀
    · rw [hlog, mem_append, mem_singleton] at hp'
      rw [htrans]
      rcases hp' with hp' | rfl
      · have ⟨h1, h2, h3⟩ := hcompleted p hp'
        exact ⟨h1, h2, fun hmem => (h.completed p hp').2.2.1 (mem_of_mem_erase hmem), h3⟩
      · refine ⟨htold _ (by rw [hreq₀]; exact hq₀), ?_, fun hmem => (h.nodup.mem_erase_iff.mp hmem).1 rfl, hheap ▸ hdone₀⟩
        show (RespondStage.response (c.heap r₀)).map length = (c.heap r₀).req.answer
        unfold RespondStage.response
        cases hreq : (c.heap r₀).req with
        | read rd =>
          simp only [AccessRsp.map, AccessReq.answer]
          rw [h.data r₀ ⟨q₀, hq₀⟩ hdone₀ rd hreq]
        | write => rfl
    · have hmem := hr.mem
      rw [hreceived] at hmem
      rw [htrans, hlog, map_append]
      by_cases hrr : r = r₀
      · subst hrr
        exact .inr (mem_append_right _ (mem_singleton_self _))
      · refine (h.pending r (mem_received hmem)).imp (fun hmem => ?_) (mem_append_left _)
        exact (mem_erase_of_ne hrr).mpr hmem

end

/-! ## Runs -/

/-- Only reads and writes wait at the top port, and only answers to them have been sent. -/
structure Accesses (c : Cache cfg) : Prop where
  top : ∀ q ∈ c.topPort.buf.elements, ∃ req, q = TopReq.access req
  outgoing : c.topPort.outgoing = c.completions.map fun p => TopRsp.access p.2.2

theorem Accesses.step {G : Cache cfg → Call → Prop} {c c' : Cache cfg} {k : Call} (h : Accesses c) (hs : Step G c k c') :
    Accesses c' := by
  cases hs.atTop with
  | quiet hlog _ hout hbuf => exact ⟨by rw [hbuf]; exact h.top, by rw [hout, hlog]; exact h.outgoing⟩
  | accepts _ _ hlog _ hout hbuf =>
    refine ⟨fun q hq => h.top q ?_, by rw [hout, hlog]; exact h.outgoing⟩
    rw [hbuf] at hq
    exact mem_of_mem_tail hq
  | responds _ _ hlog _ _ hout hbuf =>
    refine ⟨by rw [hbuf]; exact h.top, ?_⟩
    rw [hout, hlog, map_append, h.outgoing]
    rfl
  | invalidates _ _ hpeek =>
    obtain ⟨_, hreq⟩ := h.top _ (mem_of_mem_head? hpeek)
    cases hreq

/-- Reads and writes, in waves of one kind and one process. -/
def Rules.waves (cfg : Config) : Rules cfg where
  request top := ∃ req, top = .access req
  control _ := False
  apply _ _ := True
  call := Homogeneous

/-- What the waves of a run of reads and writes have answered. -/
structure Serving (c : Cache cfg) : Prop where
  answered : Answered c
  accesses : Accesses c

theorem Ledger.writes {s : System cfg} (h : Ledger s) (ht : Told s.cache) {x : TransRef} {w : WriteReq Bytes Mask}
    (hx : Started s.cache x) (hw : (s.cache.heap x).writeToBottom = some w) : ∃ w₀, (s.cache.heap x).req = .write w₀ := by
  obtain ⟨w₀, hw₀, -⟩ := (h.asks x (.write w) ((h.sent x (ht.lt_of_started' hx) (.write w)).mp hw)).2
  exact ⟨w₀, hw₀⟩

theorem serving_of_reaches {m : Memory} {s : System cfg} {ks : List Call} (h : Reaches (Rules.waves cfg) m s ks) :
    Tracked s ∧ Serving s.cache := by
  -- what is told and answered is read off the log and the heap
  have hsame : ∀ {c c' : Cache cfg}, Answered c → c'.told = c.told → c'.completions = c.completions →
      c'.transactions = c.transactions →
      c'.dirItems = c.dirItems → c'.heap = c.heap → Answered c' := by
    intro c c' ha htold hlog htrans hdir hheap
    have hreceived : ∀ r, Received c' r → Received c r := fun r ⟨q, hq⟩ => ⟨q, htold ▸ hq⟩
    refine ⟨htrans ▸ ha.nodup, hlog ▸ ha.once, fun p hp => ?_, fun r hr => ?_, fun r hr hdone => ?_, fun r hr hdone => ?_⟩
    · rw [htold, htrans, hheap]
      exact ha.completed p (hlog ▸ hp)
    · rw [htrans, hlog]
      exact ha.pending r (hreceived r hr)
    · rw [htold, hdir]
      exact ha.gathered r (hreceived r hr) (hheap ▸ hdone)
    · rw [hheap] at hdone ⊢
      exact ha.data r (hreceived r hr) hdone
  refine h.tracked (I := fun s => Serving s.cache) (fun _ h => h) (fun _ _ h => h) ⟨?_, forall_mem_nil _, rfl⟩
    (fun s req ht hs hreq => ?_)
    (fun s top bottom control ht hs => ?_) (fun s k req ht hs hk hreq => ?_)
    (fun s k rsp ht hs hrsp => ?_) fun s k c' ht _ hs hstep => ?_
  · refine ⟨nodup_nil, nodup_nil, forall_mem_nil _, ?_, ?_, ?_⟩
    all_goals
      rintro r ⟨q, hq⟩
      exact absurd hq not_mem_nil
  · refine ⟨hsame hs.answered rfl rfl rfl rfl rfl, fun q hq => ?_, hs.accesses.outgoing⟩
    rcases mem_append.mp hq with hq | hq
    · exact hs.accesses.top q hq
    · rw [mem_singleton.mp hq]
      exact hreq
  · exact ⟨hsame hs.answered rfl rfl rfl rfl rfl, hs.accesses.top, hs.accesses.outgoing⟩
  · have htold : (s.cache.log ++ [served req (System.serve s.memory req).1]).filter (fun e => e.allocated.isSome) =
        s.cache.told :=
      told_append s.cache.log [_] fun e he => by rw [mem_singleton.mp he]; rfl
    have hlog : (s.cache.log ++ [served req (System.serve s.memory req).1]).filterMap Event.completion =
        s.cache.completions :=
      completions_concat _ rfl
    refine ⟨hsame hs.answered htold hlog rfl rfl rfl, hs.accesses.top, ?_⟩
    show s.cache.topPort.outgoing = map _ (filterMap _ (s.cache.log ++ [_]))
    rw [hlog]
    exact hs.accesses.outgoing
  · exact ⟨hsame hs.answered rfl rfl rfl rfl rfl, hs.accesses.top, hs.accesses.outgoing⟩
  · exact ⟨hs.answered.step ht.told ht.placed (fun x w hx hw => ht.ledger.writes ht.told hx hw) hstep, hs.accesses.step hstep⟩

/-- The writes that the wave `x` has sent to the lower level. -/
def Cache.writesOf (c : Cache cfg) (x : TransRef) : List (WriteReq Bytes Mask) :=
  c.initiated.filterMap fun p =>
    match p.2 with
    | .write w => if p.1 = x then some w else none
    | .read _ => none

/-- Nothing is in the buffers, the pipelines and the MSHR of the cache, and nothing is under way below it. -/
structure Quiescent (s : System cfg) : Prop where
  ports : s.cache.topPort.buf.elements = [] ∧ s.cache.bottomPort.buf.elements = []
  lower : s.cache.bottomPort.outgoing = [] ∧ s.answers = []
  directory : s.cache.dirItems = 0
  banks : ∀ i, (s.cache.banks i).items = 0
  mshr : s.cache.mshr.entries = []

/-- The same write, under the ID and the ports of another message. -/
structure SameWrite (w w' : WriteReq Bytes Mask) : Prop where
  pid : w'.pid = w.pid
  address : w'.address = w.address
  data : w'.data = w.data
  dirtyMask : w'.dirtyMask = w.dirtyMask

/-- `once`, `answers`, `sent` : a request that was accepted has at most one response, which is for it and of its size;
`waves` : it is parked or in one wave; `merged`, `forwarded` : a wave of writes does what its requests do, and is written to
the lower level once, before one of them is answered; `forwardedOnly` : nothing else is written there; `drained` : what is not
answered in a quiescent state is parked, or is done and waits for the top port. -/
structure ServedOnce (s : System cfg) : Prop where
  once : (s.cache.completions.map Prod.fst).Nodup
  answers : ∀ r q rsp, .reqComplete r q rsp ∈ s.cache.log → .reqReceive r q ∈ s.cache.log ∧ rsp.map length = q.answer
  sent : s.cache.topPort.outgoing = s.cache.completions.map fun p => .access p.2.2
  waves : (s.cache.log.filterMap received).Nodup ∧
    s.cache.log.flatMap Event.gathered ++ s.cache.toCoalesce = s.cache.log.filterMap received
  merged : ∀ x q pre, .startTask x q pre ∈ s.cache.log → (∀ r ∈ pre, .reqReceive r (s.cache.heap r).req ∈ s.cache.log) ∧
    ∀ m, effect q m = effects s.cache.heap pre m
  forwarded : ∀ x w pre, .startTask x (.write w) pre ∈ s.cache.log → (s.cache.writesOf x).length ≤ 1 ∧
    (∀ w' ∈ s.cache.writesOf x, SameWrite w w') ∧
    ((Quiescent s ∨ ∃ r ∈ pre, ∃ q rsp, .reqComplete r q rsp ∈ s.cache.log) → (s.cache.writesOf x).length = 1)
  forwardedOnly : ∀ x w', (x, .write w') ∈ s.cache.initiated → ∃ w pre, .startTask x (.write w) pre ∈ s.cache.log
  drained : Quiescent s → ∀ r q, .reqReceive r q ∈ s.cache.log → (∃ rsp, .reqComplete r q rsp ∈ s.cache.log) ∨
    r ∈ s.cache.toCoalesce ∨ (r ∈ s.cache.transactions ∧ (s.cache.heap r).done = true)

section
variable {s : System cfg} {x : TransRef}

theorem mem_completions {c : Cache cfg} {r : TransRef} {q : AccessReq} {rsp : AccessRsp Bytes} :
    (r, q, rsp) ∈ c.completions ↔ .reqComplete r q rsp ∈ c.log := by
  unfold Cache.completions
  rw [mem_filterMap]
  constructor
  · rintro ⟨e, he, heq⟩
    cases e with
    | reqComplete =>
      cases heq
      exact he
    | _ => cases heq
  · exact fun h => ⟨_, h, rfl⟩

theorem mem_writesOf {c : Cache cfg} {w : WriteReq Bytes Mask} : w ∈ c.writesOf x ↔ (x, .write w) ∈ c.initiated := by
  unfold Cache.writesOf
  rw [mem_filterMap]
  constructor
  · rintro ⟨⟨y, q⟩, hmem, heq⟩
    cases q with
    | read => cases heq
    | write =>
      simp only [ite_none_right_eq_some, some.injEq] at heq
      obtain ⟨rfl, rfl⟩ := heq
      exact hmem
  · exact fun h => ⟨_, h, if_pos rfl⟩

theorem Ledger.writesOf_eq (h : Ledger s) (hx : x < s.cache.nextRef) :
    s.cache.writesOf x = ((s.cache.heap x).writeToBottom).toList := by
  have hmem : ∀ w, w ∈ s.cache.writesOf x ↔ (s.cache.heap x).writeToBottom = some w := fun w =>
    mem_writesOf.trans (h.sent x hx (.write w)).symm
  have hnodup : (s.cache.writesOf x).Nodup := by
    have hall : s.cache.initiated.Nodup := List.Nodup.of_map _ (h.ids.imp Nat.ne_of_lt)
    refine hall.filterMap fun p p' w hw hw' => ?_
    obtain ⟨_, q⟩ := p
    obtain ⟨_, q'⟩ := p'
    cases q with
    | read => cases hw
    | write =>
      cases q' with
      | read => cases hw'
      | write =>
        simp only [mem_def, ite_none_right_eq_some, some.injEq] at hw hw'
        rw [hw.1, hw.2, hw'.1, hw'.2]
  cases hw : (s.cache.heap x).writeToBottom with
  | none =>
    refine eq_nil_iff_forall_not_mem.mpr fun w hmem' => ?_
    cases hw.symm.trans ((hmem w).mp hmem')
  | some w =>
    refine perm_singleton.mp ((perm_ext_iff_of_nodup hnodup (nodup_singleton w)).mpr fun w' => ?_)
    rw [hmem w', hw, mem_singleton, some.injEq, eq_comm]

theorem Tracked.no_waves (h : Tracked s) (hq : Quiescent s) : s.cache.postCoalesceTransactions = [] := by
  refine eq_nil_iff_forall_not_mem.mpr fun x hx => ?_
  cases h.placed.places x hx with
  | queued hd =>
    rw [hq.directory] at hd
    exact Multiset.notMem_zero x hd
  | joined _ he =>
    rw [hq.mshr] at he
    exact not_mem_nil he
  | hit i hi =>
    rw [hq.banks i] at hi
    exact Multiset.notMem_zero x hi
  | sent hw hflag =>
    -- its write is under way
    obtain ⟨w, hw⟩ := isSome_iff_exists.mp hw
    have hwait := h.ledger.waiting x (.write w) ⟨hx, hw, .inr hflag⟩
    unfold System.inFlight at hwait
    rw [hq.lower.1, hq.lower.2, hq.ports.2] at hwait
    exact not_mem_nil hwait

theorem Serving.servedOnce (ht : Tracked s) (h : Serving s.cache) : ServedOnce s := by
  have hsent : ∀ {x w pre}, .startTask x (.write w) pre ∈ s.cache.told → x ∉ s.cache.dirItems →
      (s.cache.writesOf x).length = 1 := by
    intro x w pre hx hdir
    obtain ⟨w', hw'⟩ := ht.ledger.left x ⟨_, pre, hx⟩ hdir (by rw [(ht.told.started x _ pre hx).1]; rfl)
    rw [ht.ledger.writesOf_eq (ht.told.lt_of_started hx), hw']
    rfl
  refine ⟨h.answered.once, fun r q rsp hmem => ?_, h.accesses.outgoing, ⟨?_, ?_⟩, fun x q pre hx => ⟨fun r hr => ?_, ?_⟩,
    fun x w pre hx => ?_, fun x w' hx => ?_, fun hq r q hr => ?_⟩
  · have hc := h.answered.completed _ (mem_completions.mpr hmem)
    exact ⟨mem_told_of_received.mp hc.1, hc.2.1⟩
  · rw [← told_received]
    exact ht.told.received_nodup
  · rw [← told_received, ← told_gathered]
    exact ht.told.gathered
  · obtain ⟨q', hq'⟩ := ht.told.received_of_pre (mem_told_of_started.mpr hx) hr
    rw [ht.told.received r q' hq']
    exact mem_told_of_received.mp hq'
  · exact ht.told.merged x q pre (mem_told_of_started.mpr hx)
  · have hx := mem_told_of_started.mpr hx
    have hlt := ht.told.lt_of_started hx
    refine ⟨?_, fun w' hw' => ?_, fun hcase => ?_⟩
    · rw [ht.ledger.writesOf_eq hlt]
      cases (s.cache.heap x).writeToBottom with
      | none => exact Nat.zero_le 1
      | some => exact le_refl 1
    · obtain ⟨w₀, hw₀, hpid, haddr, hdata, hmask⟩ := (ht.ledger.asks x _ (mem_writesOf.mp hw')).2
      rw [(ht.told.started x _ pre hx).1] at hw₀
      cases hw₀
      exact ⟨hpid, haddr, hdata, hmask⟩
    · refine hsent hx fun hdir => ?_
      rcases hcase with hq | ⟨r, hr, q, rsp, hmem⟩
      · rw [hq.directory] at hdir
        exact Multiset.notMem_zero x hdir
      · -- the wave of a request that is done is past the directory stage
        have hc := h.answered.completed _ (mem_completions.mpr hmem)
        obtain ⟨_, q', _, hx', hr', hnot⟩ := h.answered.gathered r ⟨q, hc.1⟩ hc.2.2.2
        rw [ht.told.wave_unique hx hx' hr hr'] at hdir
        exact hnot hdir
  · obtain ⟨⟨q, pre, hstart⟩, w₀, hw₀, -⟩ := ht.ledger.asks x _ hx
    rw [(ht.told.started x q pre hstart).1] at hw₀
    subst hw₀
    exact ⟨w₀, pre, mem_told_of_started.mp hstart⟩
  · have hr := mem_told_of_received.mpr hr
    rcases h.answered.pending r ⟨q, hr⟩ with htrans | hdone
    · refine .inr ?_
      cases hdone : (s.cache.heap r).done with
      | true => exact .inr ⟨htrans, rfl⟩
      | false =>
        rcases ht.placed.undone r htrans hdone with hpark | ⟨_, hx, -⟩
        · exact .inl hpark
        · rw [ht.no_waves hq] at hx
          exact absurd hx not_mem_nil
    · obtain ⟨⟨_, _, rsp⟩, hmem, rfl⟩ := mem_map.mp hdone
      have hrec := (h.answered.completed _ hmem).1
      cases ht.told.unique hr hrec rfl rfl
      exact .inl ⟨rsp, mem_completions.mp hmem⟩

end

/-- **Every request is answered at most once, and every write is written through once**, in every run of reads and writes
whose waves are alike; and in a quiescent state only requests that are parked or wait for the top port are not answered. -/
theorem served_once_of_reaches {m : Memory} {s : System cfg} {ks : List Call} (h : Reaches (Rules.waves cfg) m s ks) :
    ServedOnce s := by
  obtain ⟨ht, hs⟩ := serving_of_reaches h
  exact hs.servedOnce ht

/-- Two reads and then two writes, in a wave each. -/
def twoWaves : List Input :=
  servedWave (readAt 7 0 true) (readAt 8 1 false) ++ servedWave (writeAt 9 0 true) (writeAt 10 1 false)

theorem allows_twoWaves {R : Rules (tiny .writethrough)} (hreq : ∀ req, R.request (.access req))
    (happly : ∀ reqs k, R.apply reqs k) : ∀ i ∈ twoWaves, R.Allows i :=
  forall_mem_append.mpr ⟨allows_servedWave (hreq _) (hreq _) happly, allows_servedWave (hreq _) (hreq _) happly⟩

theorem served_once_of_reaches_waves : let s := play LikeHead twoWaves
    s.cache.topPort.outgoing = [.access (.dataReady { dst := 9, respondTo := 7, data := [0] }),
      .access (.dataReady { dst := 9, respondTo := 8, data := [0] }), .access (.writeDone { dst := 9, respondTo := 9 }),
      .access (.writeDone { dst := 9, respondTo := 10 })] ∧ ServedOnce s :=
  ⟨by decide +kernel, served_once_of_reaches
    (reaches_play (fun _ _ => LikeHead.homogeneous) (allows_twoWaves (fun _ => ⟨_, rfl⟩) fun _ _ => trivial))⟩

/-- A read that can wait is parked, and nothing ends its wave. -/
theorem parked_forever : ∃ s, (System.init (tiny .writethrough) fun _ _ => 0).run
      [.connect [true] [true] [true], .request (.access (readAt 7 0 true)), .tick] = .ok s ∧ Quiescent s ∧
    s.cache.log = [.reqReceive 0 (readAt 7 0 true)] ∧ s.cache.toCoalesce = [0] ∧ ∃ c, tick s.cache = .ok (false, c) := by
  refine ⟨_, rfl, ⟨by decide +kernel, by decide +kernel, by decide +kernel, fun i => ?_, by decide +kernel⟩,
    by decide +kernel, by decide +kernel, _, rfl⟩
  cases i with
  | zero => decide +kernel
  | succ => rfl

/-! ## The lower level -/

/-- `asks` : a message to the lower level is the fetch of a wave's line or its write; `once` : a wave sends one of each at
most; `applied` : what is sent is on its way or has been served; `answers` : a response on its way was given to one of the
messages and is of its kind and size; `awaited` : what a wave waits for is on its way, once. -/
structure LowerLevel (s : System cfg) : Prop where
  ids : (s.cache.initiated.map fun p => p.2.id).Pairwise (· < ·)
  asks : ∀ x q, (x, q) ∈ s.cache.initiated → ∃ q₀ pre, .startTask x q₀ pre ∈ s.cache.log ∧ Asks cfg q₀ q
  once : ∀ x q q', (x, q) ∈ s.cache.initiated → (x, q') ∈ s.cache.initiated → isRead q = isRead q' → q = q'
  applied : ∀ x q, (x, q) ∈ s.cache.initiated → q ∈ s.cache.bottomPort.outgoing ∨ ∃ rsp, .served q rsp ∈ s.cache.log
  answers : ∀ rsp ∈ s.answers ++ s.cache.bottomPort.buf.elements, ∃ x q, (x, q) ∈ s.cache.initiated ∧
    rsp.map length = q.answer ∧
    .served q rsp ∈ s.cache.log
  awaited : s.inFlight.Nodup ∧ ∀ x q, Awaits s.cache x q → q.id ∈ s.inFlight

/-- **The traffic with the lower level** is that of the waves, in every run of reads and writes whose waves are alike. -/
theorem lower_level_of_reaches {m : Memory} {s : System cfg} {ks : List Call} (h : Reaches (Rules.waves cfg) m s ks) :
    LowerLevel s := by
  obtain ⟨⟨ht, -, hl, -⟩, -⟩ := serving_of_reaches h
  refine ⟨hl.ids, fun x q hq => ?_, fun x q q' hq hq' hkind => ?_, hl.applied, hl.answers, hl.once, hl.waiting⟩
  · obtain ⟨⟨q₀, pre, hx⟩, hasks⟩ := hl.asks x q hq
    rw [(ht.started x q₀ pre hx).1] at hasks
    exact ⟨q₀, pre, mem_of_mem_filter hx, hasks⟩
  · have hx := ht.lt_of_started' (hl.asks x q hq).1
    have hsent := (hl.sent x hx q).mpr hq
    have hsent' := (hl.sent x hx q').mpr hq'
    cases q <;> cases q' <;> cases hkind <;> exact congrArg _ (some.inj (hsent.symm.trans hsent'))

/-- Two reads in a wave are fetched. -/
def fetchedWave : List Input := parked (readAt 7 0 true) (readAt 8 1 false) ++ [.tick, .tick]

theorem reaches_fetchedWave : Reaches (Rules.waves _) (fun _ _ => 0) (play LikeHead fetchedWave) [] :=
  reaches_play (fun _ _ => LikeHead.homogeneous)
    (forall_mem_append.mpr ⟨allows_parked ⟨_, rfl⟩ ⟨_, rfl⟩, by simp [Rules.Allows]⟩)

theorem lower_level_of_reaches_fetch : let s := play LikeHead fetchedWave
    s.cache.bottomPort.outgoing = [.read { id := 1, src := 0, dst := 0, pid := 1, address := 0, accessByteSize := 2 }] ∧
    LowerLevel s :=
  ⟨by decide +kernel, lower_level_of_reaches reaches_fetchedWave⟩

/-- **Where the waves are**, in every run of reads and writes whose waves are alike. -/
theorem placed_of_reaches {m : Memory} {s : System cfg} {ks : List Call} (h : Reaches (Rules.waves cfg) m s ks) :
    Placed s.cache :=
  (serving_of_reaches h).1.placed

theorem placed_of_reaches_fetch : let c := (play LikeHead fetchedWave).cache
    c.transactions = [0, 1] ∧ c.postCoalesceTransactions = [2] ∧ c.mshr.entries = [0] ∧ Placed c :=
  ⟨by decide +kernel, by decide +kernel, by decide +kernel, placed_of_reaches reaches_fetchedWave⟩

end Akita.L1
