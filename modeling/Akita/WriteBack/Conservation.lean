import Akita.WriteBack.Agreement

/-!
# Conservation of requests

* `Flow.Answered` : the responses answer the completed requests, in order, and the received requests are the completed
  ones and those in flight. Every step but a discarding flush keeps it.
* `Conserved` : the same of the cache, with the count of those that hold each request.

`conserved_of_reaches` : every run without control requests conserves its requests and does not panic.
-/

namespace Akita.WriteBack
open Sim Pipelining Mem Mem.Cache List
open Option hiding map map_map

variable {cfg : Config}

def Event.received? : Event → Option AccessReq
  | .reqReceive req => some req
  | _ => none

def Event.completed? : Event → Option AccessReq
  | .reqComplete req => some req
  | _ => none

/-- The requests that the top parser has accepted. -/
def receivedOf (log : List Event) : List AccessReq := log.filterMap Event.received?

/-- The requests whose response has been handed to the top sender. -/
def completedOf (log : List Event) : List AccessReq := log.filterMap Event.completed?

/-- The responses sent and those that wait in the top sender. -/
def responses (sent : List (AccessRsp Bytes)) (waiting : List (AccessRsp Slice)) : List (AccessRsp Nat) :=
  sent.map (AccessRsp.map length) ++ waiting.map (AccessRsp.map Slice.len)

section
variable {trace : List Moment} {e : Event}

theorem receivedOf_concat (log : List Event) (e : Event) :
    receivedOf (log ++ [e]) = receivedOf log ++ e.received?.toList := by
  unfold receivedOf
  rw [filterMap_append]
  cases h : e.received? <;> simp [h]

theorem completedOf_concat (log : List Event) (e : Event) :
    completedOf (log ++ [e]) = completedOf log ++ e.completed?.toList := by
  unfold completedOf
  rw [filterMap_append]
  cases h : e.completed? <;> simp [h]

end

namespace Flow

/-- The requests of the transactions in flight. -/
def asked (a : Flow cfg) : List AccessReq := a.inFlight.filterMap Transaction.accessReq

structure Answered (a : Flow cfg) : Prop where
  faithful : a.ledger.Faithful
  asks : ∀ t ∈ a.inFlight, ∃ req, t.accessReq = some req
  responses : WriteBack.responses (sentOf (logOf a.trace)) a.topOut = (completedOf (logOf a.trace)).map AccessReq.answer
  balance : (↑(receivedOf (logOf a.trace)) : Multiset AccessReq) = ↑(completedOf (logOf a.trace)) + ↑a.asked

variable {a a' : Flow cfg} {l : Label}

section
variable (h : a.Answered) (hfaithful : a'.ledger.Faithful) (hin : a'.inFlight = a.inFlight) (hout : a'.topOut = a.topOut)
include h hfaithful hin hout

theorem Answered.of_eq (hlog : sentOf (logOf a'.trace) = sentOf (logOf a.trace))
    (hrec : receivedOf (logOf a'.trace) = receivedOf (logOf a.trace))
    (hcomp : completedOf (logOf a'.trace) = completedOf (logOf a.trace)) : a'.Answered := by
  refine ⟨hfaithful, hin ▸ h.asks, ?_, ?_⟩
  · rw [hout, hlog, hcomp]
    exact h.responses
  · unfold asked
    rw [hin, hrec, hcomp]
    exact h.balance

theorem Answered.of_event {e : Event} (htrace : a'.trace = a.trace ++ [Moment.event e]) (hsent : e.sent? = none)
    (hrec : e.received? = none) (hcomp : e.completed? = none) : a'.Answered := by
  have hlog : logOf a'.trace = logOf a.trace ++ [e] := by rw [htrace, logOf_concat]
  refine h.of_eq hfaithful hin hout ?_ ?_ ?_
  · rw [hlog, sentOf_concat hsent]
  · simp [hlog, receivedOf_concat, hrec]
  · simp [hlog, completedOf_concat, hcomp]

theorem Answered.of_effects {ws : List TopWrite} (htrace : a'.trace = a.trace ++ ws.map .effect) : a'.Answered := by
  have hlog : logOf a'.trace = logOf a.trace := by rw [htrace, logOf_effects]
  exact h.of_eq hfaithful hin hout (by rw [hlog]) (by rw [hlog]) (by rw [hlog])

end

variable {t : Transaction}

theorem Answered.complete (h : a.Answered) (hfaithful : a'.ledger.Faithful) {req : AccessReq}
    {msg : AccessRsp Slice} (hbears : a.ledger.Bears t) (hreq : t.accessReq = some req)
    (hany : a.inFlight.any (·.id == t.id) = true) (hmsg : msg.map Slice.len = req.answer)
    (hin : a'.inFlight = a.inFlight.eraseP (·.id == t.id)) (hout : a'.topOut = a.topOut ++ [msg])
    (hlog : logOf a'.trace = logOf a.trace ++ [Event.reqComplete req]) : a'.Answered := by
  obtain ⟨t₀, hfind⟩ := isSome_iff_exists.mp (find?_isSome.mpr (any_eq_true.mp hany))
  have hmem : t₀ ∈ a.inFlight := mem_of_find?_eq_some hfind
  have hid : t.id = t₀.id := by
    have heq := find?_some hfind
    exact (beq_iff_eq.mp heq).symm
  have hsame : t₀.accessReq = some req := (h.faithful.agree t₀ hmem t hbears hid).symm.trans hreq
  refine ⟨hfaithful, ?_, ?_, ?_⟩
  · rw [hin]
    exact fun t ht => h.asks t (mem_of_mem_eraseP ht)
  · have hresponses := h.responses
    rw [hlog, hout, sentOf_concat rfl, completedOf_concat]
    unfold WriteBack.responses at hresponses ⊢
    rw [map_append, ← append_assoc, hresponses, map_append]
    simp [Event.completed?, hmsg]
  · have hasked : (↑a.asked : Multiset AccessReq) = req ::ₘ ↑a'.asked := by
      unfold asked
      rw [hin, ← Multiset.filterMap_coe, ← Multiset.filterMap_coe, coe_eraseP hfind, Multiset.filterMap_cons_some _ _ _ hsame]
    rw [hlog, receivedOf_concat, completedOf_concat]
    simp only [Event.received?, Event.completed?, toList_none, toList_some, append_nil]
    rw [h.balance, hasked, coe_concat, Multiset.cons_add, Multiset.add_cons]

theorem init_answered {m : Memory} : ((System.init cfg m).flow []).Answered := by
  refine ⟨⟨fun _ ht => absurd ht not_mem_nil, fun x hx => ?_, rfl⟩, fun _ ht => absurd ht not_mem_nil, rfl, rfl⟩
  have hpos := Ledger.holders_pos_of_bears hx
  rw [init_holders] at hpos
  cases hpos

theorem Answered.accept (h : a.Answered) (hfaithful : a'.ledger.Faithful) {req : AccessReq}
    (hin : a'.inFlight = a.inFlight ++ [Transaction.ofReq a.nextID req]) (hout : a'.topOut = a.topOut)
    (htrace : a'.trace = a.trace ++ [Moment.event (.reqReceive req)]) : a'.Answered := by
  have hlog : logOf a'.trace = logOf a.trace ++ [Event.reqReceive req] := by rw [htrace, logOf_concat]
  refine ⟨hfaithful, ?_, ?_, ?_⟩
  · intro t ht
    rw [hin] at ht
    rcases mem_append.mp ht with ht | ht
    · exact h.asks t ht
    · exact ⟨req, by rw [mem_singleton.mp ht, Transaction.accessReq_ofReq]⟩
  · rw [hlog, hout, sentOf_concat rfl, completedOf_concat]
    simpa [Event.completed?] using h.responses
  · have hasked : a'.asked = a.asked ++ [req] := by simp [asked, hin]
    rw [hlog, receivedOf_concat, completedOf_concat, hasked]
    simp only [Event.received?, Event.completed?, toList_none, toList_some, append_nil]
    rw [coe_concat, coe_concat, h.balance, Multiset.add_cons]

theorem Answered.send (h : a.Answered) (hshape : a.Shaped) (hfaithful : a'.ledger.Faithful) {msg : AccessRsp Slice}
    (hin : a'.inFlight = a.inFlight) (hout : a.topOut = msg :: a'.topOut)
    (htrace : a'.trace = a.trace ++ [Moment.event (.topSend (msg.map a.slices.view))]) : a'.Answered := by
  have hlog : logOf a'.trace = logOf a.trace ++ [Event.topSend (msg.map a.slices.view)] := by rw [htrace, logOf_concat]
  have hsize : (msg.map a.slices.view).map length = msg.map Slice.len := by
    cases msg with
    | writeDone => rfl
    | dataReady r =>
      obtain ⟨-, _⟩ := hshape.topOut r (hout ▸ mem_cons_self)
      simp only [AccessRsp.map, Slices.view, length_take, length_drop]
      congr 2
      omega
  have hsent : sentOf (logOf a'.trace) = sentOf (logOf a.trace) ++ [msg.map a.slices.view] := by
    rw [hlog]
    simp [sentOf, Event.sent?]
  refine ⟨hfaithful, hin ▸ h.asks, ?_, ?_⟩
  · have hresponses := h.responses
    rw [hsent, hlog, completedOf_concat]
    unfold WriteBack.responses at hresponses ⊢
    rw [hout] at hresponses
    simpa [Event.completed?, hsize] using hresponses
  · have hasked : a'.asked = a.asked := by rw [asked, hin, asked]
    rw [hlog, receivedOf_concat, completedOf_concat, hasked]
    simp only [Event.received?, Event.completed?, toList_none, append_nil]
    exact h.balance

theorem bears_of_bank (hinv : a.Inv) {k : Multiset Transaction} (hbank : a.bank = t ::ₘ k)
    (hhit : t.action.isHit = true) : a.ledger.Bears t ∧ t.Shape cfg a.slices a.gen := by
  have hmem : t ∈ a.work := by simp [work, hbank]
  exact ⟨.inr (.inl ⟨hmem, hhit⟩), hinv.shaped.work t hmem⟩

theorem bears_of_drain (hinv : a.Inv) {e : EntryRef} {rest : List EntryRef} {ts : List Transaction}
    (hdrain : a.drain = e :: rest) (hreqs : (a.mshr.heap e).requests = t :: ts) : a.ledger.Bears t ∧ ∃ req, t.Asks req := by
  have hheld : e ∈ a.ledger.held := Ledger.mem_held.mpr (.inr (.inr (by
    show e ∈ a.drain
    rw [hdrain]
    exact mem_cons_self)))
  have hmem : t ∈ (a.mshr.heap e).requests := hreqs ▸ mem_cons_self
  obtain ⟨req, hasks, -⟩ := (hinv.entries.shape e hheld).asked t hmem
  exact ⟨.inr (.inr ⟨e, hheld, hmem⟩), req, hasks⟩

theorem Step.discarding (hs : Step a l a') (hl : l ≠ .discard) (h : a.discarding = false) : a'.discarding = false := by
  cases hs with
  | startFlush _ _ _ _ hkeep => simpa [Flow.discarding] using hkeep
  | discardFlush => exact absurd rfl hl
  | finishFlush => rfl
  | _ => exact h

/-- **Every step but a discarding flush conserves the requests.** -/
theorem Answered.step (h : a.Answered) (hinv : a.Inv) (hG : a.Allowed l) (hs : Step a l a') (hl : l ≠ .discard) :
    a'.Answered := by
  have hfaithful : a'.ledger.Faithful :=
    h.faithful.step hinv.custody (hs.ledger hinv hG) (hs.discarding hl h.faithful.kept)
  cases hs with
  | accept => exact h.accept hfaithful rfl rfl rfl
  | topSend _ _ hout => exact h.send hinv.shaped hfaithful rfl hout rfl
  | bottomSend | sendEviction | fetchBottom | startFlush | finishFlush => exact h.of_event hfaithful rfl rfl rfl rfl rfl rfl
  | finishRead _ _ _ _ _ hbank haction hread _ hin =>
    obtain ⟨hbears, -⟩ := bears_of_bank hinv hbank (by simp [haction, Action.isHit])
    exact h.complete hfaithful hbears (by simp [Transaction.accessReq, hread]) hin rfl rfl rfl (logOf_concat _ _)
  | finishWrite _ _ _ _ _ _ _ _ _ _ hbank haction hwrite _ hin =>
    obtain ⟨hbears, hshape⟩ := bears_of_bank hinv hbank (by simp [haction, Action.isHit])
    simp only [Transaction.Shape, haction] at hshape
    obtain ⟨_, _, hasks, -⟩ := hshape
    exact h.complete hfaithful hbears (by simp [Transaction.accessReq, hasks.1, hwrite]) hin rfl rfl rfl (logOf_effect _ _ _)
  | dataReady | fetchLocal => exact h.of_effects hfaithful rfl rfl rfl
  | respondRead _ _ _ _ _ _ hdrain hreqs hin hread =>
    obtain ⟨hbears, -⟩ := bears_of_drain hinv hdrain hreqs
    exact h.complete hfaithful hbears (by simp [Transaction.accessReq, hread]) hin rfl rfl rfl (logOf_concat _ _)
  | respondWrite _ _ _ _ _ hdrain hreqs hin hread hwrite =>
    obtain ⟨hbears, -⟩ := bears_of_drain hinv hdrain hreqs
    exact h.complete hfaithful hbears (by simp [Transaction.accessReq, hread, hwrite]) hin rfl rfl rfl (logOf_concat _ _)
  | discardFlush => exact absurd rfl hl
  | _ => exact h.of_eq hfaithful rfl rfl rfl rfl rfl

end Flow

/-! ## Runs without discarding flushes -/

/-- Requests are legal, and no flush discards. -/
def Flow.Gentle (_ : Flow cfg) : Flow.Label → Prop
  | .request req => Legal cfg req
  | .command req => req.discards = false
  | .discard => False
  | _ => True

namespace Flow

variable {a a' : Flow cfg} {l : Label} {m : Memory}

theorem Gentle.allowed (h : a.Gentle l) : a.Allowed l := by
  cases l with
  | request => exact h
  | discard => exact h.elim
  | _ => trivial

/-- No discarding flush waits. -/
theorem Reachable.control (h : Reachable Gentle m a) : ∀ req ∈ a.control, req.discards = false := by
  refine h.induct (P := fun a => ∀ req ∈ a.control, req.discards = false)
    (forall_mem_nil _) ?_
  intro a a' l _ ih hG hs
  cases hs with
  | command =>
    intro req' hreq'
    rcases mem_append.mp hreq' with hreq' | hreq'
    · exact ih req' hreq'
    · rw [mem_singleton.mp hreq']
      exact hG
  | startFlush req _ hcontrol => exact fun req hreq => ih req (hcontrol ▸ mem_cons_of_mem _ hreq)
  | discardFlush => exact hG.elim
  | restart _ _ _ _ hcontrol => exact fun req hreq => ih req (hcontrol ▸ mem_cons_of_mem _ hreq)
  | _ => exact ih

theorem Reachable.answered (h : Reachable Gentle m a) : a.Answered := by
  refine h.induct init_answered ?_
  intro a a' l hreach ih hG hs
  refine ih.step (hreach.inv fun _ _ => Gentle.allowed) hG.allowed hs ?_
  rintro rfl
  exact hG

end Flow

/-- Runs whose requests are legal and whose flushes do not discard. -/
theorem ensures_gentle {R : Rules cfg} {m : Memory} (hrequest : ∀ s req, R.request s req → Legal cfg req)
    (hcontrol : ∀ s req, R.control s req → req.discards = false) : Ensures R m Flow.Gentle where
  allowed _ _ := Flow.Gentle.allowed
  silent _ := trivial
  request s _ req h _ _ := hrequest s req h
  control s _ req h _ _ := hcontrol s req h
  apply _ _ _ _ _ _ := trivial
  call := by
    intro s τ k _ _ hreach
    cases k with
    | flusher =>
      have hno : Flusher.acceptsDiscard s.cache = false := by
        unfold Flusher.acceptsDiscard
        cases hpeek : s.cache.controlPort.peek with
        | none => simp
        | some req =>
          have hmem : req ∈ s.cache.controlPort.buf.elements := mem_of_mem_head? hpeek
          have hkeeps := hreach.control req hmem
          cases req with
          | flush => simpa [ControlReq.discards] using fun _ => hkeeps
          | restart => simp
      show Flow.Gentle _ (if Flusher.acceptsDiscard s.cache then .discard else .silent)
      rw [hno]
      trivial
    | _ => trivial

/-- Runs without control requests: any legal requests, any back-pressure, a lower memory that applies and answers in any
order. -/
def Rules.plain (cfg : Config) : Rules cfg where
  request _ req := Legal cfg req
  control _ _ := False
  apply _ _ := True
  call _ _ := True

/-! ## The cache -/

namespace Cache

/-- The transactions in the directory stage: its input buffer, its pipeline and its buffer. -/
def inDirectory (c : Cache cfg) : Multiset Transaction :=
  ↑c.dirStageBuffer.elements + (c.dirPipeline.items + ↑c.dirBuf.elements)

/-- The transactions on their way through the bank and the write buffer. -/
def working (c : Cache cfg) : Multiset Transaction :=
  (↑c.dirToBankBuffer.elements + (c.bank.pipeline.items + ↑c.bank.postPipelineBuf.elements)) +
    ↑c.writeBufferToBankBuffer.elements + ↑c.writeBufferBuffer.elements + ↑c.writeBuffer.inflightFetch

/-- The MSHR entries in use: in the MSHR, carried by a fetched line, or being answered by the MSHR stage. -/
def entriesInUse (c : Cache cfg) : Multiset EntryRef :=
  ↑c.mshr.entries + c.working.bind Transaction.fills + ↑(c.processingMSHREntry.toList ++ c.mshrStageBuffer.elements)

/-- The transaction is a hit or an evict-and-write on its way, or waits in the directory stage or in an MSHR entry. -/
def Bears (c : Cache cfg) (x : Transaction) : Prop :=
  x ∈ c.inDirectory ∨ (x ∈ c.working ∧ x.action.isHit = true) ∨ ∃ e ∈ c.entriesInUse, x ∈ (c.mshr.heap e).requests

/-- How many hold the request of the transaction with ID `i`. -/
def holders (c : Cache cfg) (i : Nat) : Nat :=
  c.inDirectory.countP (fun t => t.id = i) + c.working.countP (fun t => t.holds i = true) +
    (c.entriesInUse.map fun e => (c.mshr.heap e).requests.countP (·.id == i)).sum

end Cache

/-- `responses` : the responses are those of the completed requests, in order; `balance` : each received request is
completed or in flight; `held` : one holds the request of a transaction in flight, nobody that of another. -/
structure Conserved (c : Cache cfg) : Prop where
  responses : responses c.topPort.outgoing c.topSender.buffer.elements = (completedOf c.log).map AccessReq.answer
  asks : ∀ t ∈ c.inFlightTransactions, ∃ req, t.accessReq = some req
  balance : (↑(receivedOf c.log) : Multiset AccessReq) =
    ↑(completedOf c.log) + ↑(c.inFlightTransactions.filterMap Transaction.accessReq)
  once : (c.inFlightTransactions.map (·.id)).Nodup
  held : ∀ i, c.holders i = if ∃ t ∈ c.inFlightTransactions, t.id = i then 1 else 0
  copies : ∀ t ∈ c.inFlightTransactions, ∀ x, c.Bears x → x.id = t.id → x.accessReq = t.accessReq

theorem Tracked.conserved {s : System cfg} {τ : List Moment} {m : Memory} (h : Tracked Flow.Gentle m s τ) :
    Conserved s.cache := by
  obtain ⟨hw, hlog, hreach⟩ := h
  have hanswered := hreach.answered
  have hcustody := (hreach.inv fun _ _ => Flow.Gentle.allowed).custody
  have hresponses := hanswered.responses
  have hbalance := hanswered.balance
  have htrace : logOf (s.flow τ).trace = s.cache.log := hlog
  rw [htrace] at hresponses hbalance
  exact {
    responses := hw.sent ▸ hresponses
    asks := hanswered.asks
    balance := hbalance
    once := hcustody.inFlight_nodup
    held := hanswered.faithful.holders_eq hcustody
    copies := hanswered.faithful.agree }

@[simp] theorem respondTo_answer (req : AccessReq) : req.answer.respondTo = req.id := by cases req <;> rfl

theorem Conserved.at_most_once {c : Cache cfg} (h : Conserved c) (hids : ((receivedOf c.log).map AccessReq.id).Nodup) :
    ((WriteBack.responses c.topPort.outgoing c.topSender.buffer.elements).map AccessRsp.respondTo).Nodup := by
  have hids' : ((completedOf c.log).map AccessReq.id).Nodup := by
    have hle : (↑(completedOf c.log) : Multiset AccessReq) ≤ ↑(receivedOf c.log) := by
      rw [h.balance]
      exact Multiset.le_add_right _ _
    have hnodup : (Multiset.map AccessReq.id ↑(receivedOf c.log)).Nodup := by
      rw [Multiset.map_coe, Multiset.coe_nodup]
      exact hids
    have := Multiset.nodup_of_le (Multiset.map_le_map hle) hnodup
    rwa [Multiset.map_coe, Multiset.coe_nodup] at this
  rw [h.responses, map_map]
  simpa [Function.comp_def] using hids'

/-- **Conservation.** In every state of a run without control requests, also in the middle of a tick, every received
request is answered once or held by one; and no stage panics. -/
theorem conserved_of_reaches {m : Memory} {s : System cfg} {ks : List Call} (h : Reaches (Rules.plain cfg) m s ks) :
    Conserved s.cache ∧
      (((receivedOf s.cache.log).map AccessReq.id).Nodup →
        ((responses s.cache.topPort.outgoing s.cache.topSender.buffer.elements).map AccessRsp.respondTo).Nodup) ∧
      (∀ k ks', ks = k :: ks' → ∃ p c, k.exec s.cache = .ok (p, c)) ∧
      (ks = [] → ∃ p c, tick s.cache = .ok (p, c)) := by
  have hG : Ensures (Rules.plain cfg) m Flow.Gentle :=
    ensures_gentle (fun _ _ hreq => hreq) fun _ _ hreq => hreq.elim
  obtain ⟨_, hτ⟩ := h.flow hG
  refine ⟨hτ.conserved, hτ.conserved.at_most_once, ?_, ?_⟩
  · rintro k ks' rfl
    exact h.no_panic hG trivial
  · rintro rfl
    obtain ⟨p, c, hok, -⟩ := h.tick_ok hG fun _ _ => trivial
    exact ⟨p, c, hok⟩

/-- A cache with one line of two bytes. -/
def tiny : Config where
  log2BlockSize := 1
  byteSize := 2
  wayAssociativity := 1
  numReqPerCycle := 1
  numMSHREntry := 2
  writeBufferCapacity := 4
  maxInflightFetch := 2
  maxInflightEviction := 1
  dirLatency := 0
  bankLatency := 0
  addrConverter := none
  lowModuleFinder := fun _ => 0

theorem legal_tiny_read (id addr : Nat) :
    Legal tiny (.read { id, src := 0, pid := 0, address := addr, accessByteSize := 1 }) where
  fits := by
    show addr % 2 + 1 ≤ 2
    omega
  mask := nofun
  mapped := ⟨_, rfl⟩

theorem legal_tiny_write (id line : Nat) (x y : UInt8) :
    Legal tiny (.write { id, src := 1, pid := 0, address := line * 2, data := [x, y], dirtyMask := none }) where
  fits := by
    show line * 2 % 2 + 2 ≤ 2
    omega
  mask w h := by
    cases h
    exact fun _ hm => nomatch hm
  mapped := ⟨_, rfl⟩

theorem legal_tiny_byte (id : Nat) (x : UInt8) :
    Legal tiny (.write { id, src := 1, pid := 0, address := 0, data := [x], dirtyMask := none }) where
  fits := by
    show 0 % 2 + 1 ≤ 2
    omega
  mask w h := by
    cases h
    exact fun _ hm => nomatch hm
  mapped := ⟨_, rfl⟩

/-- The inputs `is` to a cache of one line, with `G` before each call. -/
def play (G : Cache tiny → Call → Prop) [∀ c k, Decidable (G c k)] (is : List Input) : System tiny :=
  is.foldl (System.replay G) (.init tiny fun _ _ => 0)

theorem reaches_play {R : Rules tiny} {G : Cache tiny → Call → Prop} [∀ c k, Decidable (G c k)]
    (hG : ∀ c k, G c k → R.call c k) {is : List Input} (his : ∀ i ∈ is, R.Allows i) :
    Reaches R (fun _ _ => 0) (play G is) [] := .replay hG his .init

/-- A read of the byte at 3 misses, and its line is fetched. -/
def fetchedRead : List Input :=
  [.connect [true] [true] [], .request (.read { id := 7, src := 0, pid := 0, address := 3, accessByteSize := 1 })] ++
    replicate 5 .tick

/-- The line comes, and the read is answered. -/
def servedRead : List Input := fetchedRead ++ [.apply 0, .answer 0] ++ replicate 5 .tick

theorem allows_servedRead {R : Rules tiny} (hreq : ∀ s req, Legal tiny req → R.request s req) (happly : ∀ s k, R.apply s k) :
    (∀ i ∈ fetchedRead, R.Allows i) ∧ ∀ i ∈ servedRead, R.Allows i := by
  simp [servedRead, fetchedRead, Rules.Allows, or_imp, forall_and, happly, hreq, legal_tiny_read]

theorem conserved_of_reaches_served : let s := play (fun _ _ => True) servedRead
    s.cache.topPort.outgoing = [.dataReady { dst := 0, respondTo := 7, data := [0] }] ∧ Conserved s.cache ∧
    ∃ p c, tick s.cache = .ok (p, c) := by
  have h := conserved_of_reaches (reaches_play (R := Rules.plain tiny) (G := fun _ _ => True) (fun _ _ _ => trivial)
    (allows_servedRead (fun _ _ hlegal => hlegal) fun _ _ => trivial).2)
  exact ⟨by decide +kernel, h.1, h.2.2.2 rfl⟩

/-- A byte of line 0 is written and served; then a read of line 2 evicts the line. -/
def evictedByte : List Input :=
  [.connect [true, true] [true, true, true] [],
    .request (.write { id := 101, src := 1, pid := 0, address := 0, data := [1], dirtyMask := none })] ++ replicate 4 .tick ++
    [.apply 0, .answer 0] ++ replicate 5 .tick ++
    [.request (.read { id := 102, src := 0, pid := 0, address := 2, accessByteSize := 1 })] ++
    replicate 3 .tick

theorem allows_evictedByte {R : Rules tiny} (happly : ∀ s k, R.apply s k)
    (hreq : ∀ s req, Legal tiny req → (∀ w, req = .write w → w.data.length = 1) → R.request s req) :
    ∀ i ∈ evictedByte, R.Allows i := by
  simp [evictedByte, Rules.Allows, or_imp, forall_and, happly, hreq, legal_tiny_read, legal_tiny_byte]

end Akita.WriteBack
