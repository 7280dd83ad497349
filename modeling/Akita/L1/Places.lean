import Akita.L1.Waves

/-!
# Where the waves are

A wave that is not finished is in the directory stage, in an MSHR entry, in a bank as a read hit, or its write has been sent.

* `Where c x` : one of these places;
* `Placed c` : every wave is in its place, and every request that is not done is parked or in a wave;
* `Placed.step` : every step keeps it.
-/

namespace Akita.L1
open Sim Pipelining Mem Mem.Cache Function
open List hiding mem_cons mem_singleton nodup_cons
open Multiset (add_cons cons_add cons_coe mem_add mem_cons mem_cons_of_mem mem_singleton nodup_cons notMem_zero singleton_add)
open DirectoryStage (isPartialWrite popBuf processMSHRHit writeToBottom)

variable {cfg : Config}

def Started (c : Cache cfg) (x : TransRef) : Prop := ∃ q pre, .startTask x q pre ∈ c.told

def Received (c : Cache cfg) (r : TransRef) : Prop := ∃ q, .reqReceive r q ∈ c.told

/-- The line of a transaction is not in the cache, and no fetch of it is under way. -/
structure Absent (c : Cache cfg) (x : TransRef) : Prop where
  query : c.mshr.query (c.heap x).req.pid (cfg.cacheLineID (c.heap x).req.address) = none
  lookup : c.directory.lookup (c.heap x).req.pid (cfg.cacheLineID (c.heap x).req.address) = .ok none

/-- A partial write at the head of the directory stage that has begun its miss, and waits for a block or an entry. -/
structure Waiting (c : Cache cfg) (x : TransRef) : Prop extends Absent c x where
  head : c.dirPostBuf.peek = some x
  policy : cfg.policy = .writethrough
  partly : ∃ w, (c.heap x).req = .write w ∧ isPartialWrite cfg w = true

inductive Where (c : Cache cfg) (x : TransRef) : Prop
  | queued (h : x ∈ c.dirItems)
  | joined (e : EntryRef) (he : e ∈ c.mshr.entries) (h : x ∈ (c.mshr.heap e).requests)
  | hit (i : Nat) (h : x ∈ (c.banks i).items) (hact : (c.heap x).bankAction = .readHit)
  | sent (h : (c.heap x).writeToBottom.isSome = true) (hflag : (c.heap x).fetchAndWrite = false)

structure Placed (c : Cache cfg) : Prop where
  keyed : c.mshr.Keyed
  dirNodup : c.dirItems.Nodup
  postNodup : c.postCoalesceTransactions.Nodup
  accepted : ∀ r ∈ c.transactions, Received c r
  started : ∀ x ∈ c.postCoalesceTransactions, Started c x
  inBank : ∀ i, ∀ x ∈ (c.banks i).items, Started c x
  inEntry : ∀ e ∈ c.mshr.entries, ∀ x ∈ (c.mshr.heap e).requests, Started c x
  queued : ∀ x ∈ c.dirItems, x ∈ c.postCoalesceTransactions ∧ (c.heap x).readToBottom = none ∧
    (∀ i, x ∉ (c.banks i).items) ∧ ∀ e ∈ c.mshr.entries, x ∉ (c.mshr.heap e).requests
  begun : ∀ x ∈ c.dirItems, ((c.heap x).writeToBottom.isSome = true → (c.heap x).fetchAndWrite = true) ∧
    ((c.heap x).fetchAndWrite = true → Waiting c x)
  fetching : ∀ x ∈ c.postCoalesceTransactions, ∀ rd, (c.heap x).readToBottom = some rd → ∃ e ∈ c.mshr.entries,
    x ∈ (c.mshr.heap e).requests ∧ (c.mshr.heap e).pid = rd.pid ∧ (c.mshr.heap e).address =
      cfg.cacheLineID (c.heap x).req.address
  places : ∀ x ∈ c.postCoalesceTransactions, Where c x
  undone : ∀ r ∈ c.transactions, (c.heap r).done = false →
    r ∈ c.toCoalesce ∨ ∃ x ∈ c.postCoalesceTransactions, r ∈ (c.heap x).preCoalesceTransactions

/-- What a stage may change of a transaction that keeps its place. -/
structure Same (t t' : Transaction) : Prop where
  req : t'.req = t.req
  pre : t'.preCoalesceTransactions = t.preCoalesceTransactions
  readToBottom : t'.readToBottom = t.readToBottom
  writeToBottom : t'.writeToBottom = t.writeToBottom
  fetchAndWrite : t'.fetchAndWrite = t.fetchAndWrite
  bankAction : t'.bankAction = t.bankAction
  block : t'.block = t.block

theorem Same.refl (t : Transaction) : Same t t := ⟨rfl, rfl, rfl, rfl, rfl, rfl, rfl⟩

theorem Marked.same {c c' : Cache cfg} (h : Marked c c') (x : TransRef) : Same (c.heap x) (c'.heap x) := by
  obtain ⟨_, done, hx, -⟩ := h.heap x
  rw [hx]
  exact ⟨rfl, rfl, rfl, rfl, rfl, rfl, rfl⟩

section
variable {G : Cache cfg → Call → Prop} {c c' : Cache cfg} {k : Call} {x y : TransRef}

/-! ## Steps in which waves keep their places or are finished -/

/-- Nothing but finished waves goes. -/
structure Shrinks (c c' : Cache cfg) : Prop where
  told : c'.told = c.told
  keyed : c'.mshr.Keyed
  entries : ∀ e ∈ c'.mshr.entries, e ∈ c.mshr.entries
  heap : c'.mshr.heap = c.mshr.heap
  query : ∀ pid addr, c.mshr.query pid addr = none → c'.mshr.query pid addr = none
  lookup : ∀ pid addr, c.directory.lookup pid addr = .ok none → c'.directory.lookup pid addr = .ok none
  dirItems : c'.dirItems = c.dirItems
  head : ∀ x, c.dirPostBuf.peek = some x → c'.dirPostBuf.peek = some x
  post : c'.postCoalesceTransactions.Sublist c.postCoalesceTransactions
  dirPost : ∀ x ∈ c.dirItems, x ∈ c'.postCoalesceTransactions
  banks : ∀ i, ∀ x ∈ (c'.banks i).items, x ∈ (c.banks i).items ∨
    x ∈ c.postCoalesceTransactions ∧ (c.heap x).readToBottom.isSome = true
  transactions : c'.transactions.Sublist c.transactions
  same : ∀ x ∈ c'.postCoalesceTransactions, Same (c.heap x) (c'.heap x)
  joined : ∀ x ∈ c'.postCoalesceTransactions, ∀ e ∈ c.mshr.entries, x ∈ (c.mshr.heap e).requests → e ∈ c'.mshr.entries
  hits : ∀ x ∈ c'.postCoalesceTransactions, (c.heap x).bankAction = .readHit → ∀ i, x ∈ (c.banks i).items →
    x ∈ (c'.banks i).items
  undone : ∀ r ∈ c'.transactions, (c'.heap r).done = false → (c.heap r).done = false ∧
    (r ∈ c.toCoalesce → r ∈ c'.toCoalesce) ∧ ∀ x ∈ c.postCoalesceTransactions, r ∈ (c.heap x).preCoalesceTransactions →
      x ∈ c'.postCoalesceTransactions

theorem Absent.shrinks (h : Absent c x) (hs : Shrinks c c') (hreq : (c'.heap x).req = (c.heap x).req) : Absent c' x := by
  constructor
  · rw [hreq]
    exact hs.query _ _ h.query
  · rw [hreq]
    exact hs.lookup _ _ h.lookup

theorem Placed.shrinks (h : Placed c) (hs : Shrinks c c') : Placed c' := by
  have hpost : ∀ x ∈ c'.postCoalesceTransactions, x ∈ c.postCoalesceTransactions := fun x hx => hs.post.subset hx
  have hstarted : ∀ x, Started c x → Started c' x := by
    rintro x ⟨q, pre, hx⟩
    exact ⟨q, pre, hs.told ▸ hx⟩
  refine ⟨hs.keyed, ?_, h.postNodup.sublist hs.post, fun r hr => ?_, fun x hx => hstarted x (h.started x (hpost x hx)),
    fun i x hx => ?_,
    fun e he x hx => ?_, fun x hx => ?_, fun x hx => ?_, fun x hx rd hrd => ?_, fun x hx => ?_, fun r hr hdone => ?_⟩
  · rw [hs.dirItems]
    exact h.dirNodup
  · obtain ⟨q, hq⟩ := h.accepted r (hs.transactions.subset hr)
    exact ⟨q, hs.told ▸ hq⟩
  · rcases hs.banks i x hx with hx | ⟨hx, -⟩
    · exact hstarted x (h.inBank i x hx)
    · exact hstarted x (h.started x hx)
  · rw [hs.heap] at hx
    exact hstarted x (h.inEntry e (hs.entries e he) x hx)
  · rw [hs.dirItems] at hx
    obtain ⟨-, hread, hbank, hentry⟩ := h.queued x hx
    have hx' := hs.dirPost x hx
    refine ⟨hx', (hs.same x hx').readToBottom.trans hread, fun i hi => ?_, fun e he => ?_⟩
    · rcases hs.banks i x hi with hi | ⟨-, hsome⟩
      · exact hbank i hi
      · rw [hread] at hsome
        cases hsome
    · rw [hs.heap]
      exact hentry e (hs.entries e he)
  · rw [hs.dirItems] at hx
    have hsame := hs.same x (hs.dirPost x hx)
    rw [hsame.writeToBottom, hsame.fetchAndWrite]
    refine ⟨(h.begun x hx).1, fun hflag => ?_⟩
    have hw := (h.begun x hx).2 hflag
    refine ⟨hw.toAbsent.shrinks hs hsame.req, hs.head x hw.head, hw.policy, ?_⟩
    rw [hsame.req]
    exact hw.partly
  · rw [(hs.same x hx).readToBottom] at hrd
    obtain ⟨e, he, hxe, hpid, haddr⟩ := h.fetching x (hpost x hx) rd hrd
    refine ⟨e, hs.joined x hx e he hxe, ?_⟩
    rw [hs.heap, (hs.same x hx).req]
    exact ⟨hxe, hpid, haddr⟩
  · have hsame := hs.same x hx
    cases h.places x (hpost x hx) with
    | queued hd => exact .queued (hs.dirItems ▸ hd)
    | joined e he hxe => exact .joined e (hs.joined x hx e he hxe) (by rw [hs.heap]; exact hxe)
    | hit i hi hact => exact .hit i (hs.hits x hx hact i hi) (hsame.bankAction.trans hact)
    | sent hw hflag => exact .sent (by rw [hsame.writeToBottom]; exact hw) (hsame.fetchAndWrite.trans hflag)
  · obtain ⟨hdone, hparked, hwave⟩ := hs.undone r hr hdone
    rcases h.undone r (hs.transactions.subset hr) hdone with hr' | ⟨x, hx, hrx⟩
    · exact .inl (hparked hr')
    · have hx' := hwave x hx hrx
      refine .inr ⟨x, hx', ?_⟩
      rw [(hs.same x hx').pre]
      exact hrx

/-! ## Steps that take the head of the directory stage on -/

/-- The head `y` of the directory stage goes on. -/
structure Advances (c c' : Cache cfg) (y : TransRef) : Prop where
  told : c'.told = c.told
  keyed : c'.mshr.Keyed
  peek : c.dirPostBuf.peek = some y
  dirItems : c.dirItems = y ::ₘ c'.dirItems
  post : c'.postCoalesceTransactions = c.postCoalesceTransactions
  transactions : c'.transactions = c.transactions
  toCoalesce : c'.toCoalesce = c.toCoalesce
  heap : ∀ x, x ≠ y → c'.heap x = c.heap x
  pre : (c'.heap y).preCoalesceTransactions = (c.heap y).preCoalesceTransactions
  banks : ∀ i x, x ∈ (c.banks i).items → x ∈ (c'.banks i).items
  inBank : ∀ i, ∀ x ∈ (c'.banks i).items, x ∈ (c.banks i).items ∨ x = y
  entries : ∀ e ∈ c.mshr.entries, e ∈ c'.mshr.entries ∧ (c'.mshr.heap e).pid = (c.mshr.heap e).pid ∧
    (c'.mshr.heap e).address = (c.mshr.heap e).address ∧ ∀ x ∈ (c.mshr.heap e).requests, x ∈ (c'.mshr.heap e).requests
  inEntry : ∀ e ∈ c'.mshr.entries, ∀ x ∈ (c'.mshr.heap e).requests, (e ∈ c.mshr.entries ∧ x ∈ (c.mshr.heap e).requests) ∨
    x = y
  place : Where c' y
  fetch : ∀ rd, (c'.heap y).readToBottom = some rd → ∃ e ∈ c'.mshr.entries, y ∈ (c'.mshr.heap e).requests ∧
    (c'.mshr.heap e).pid = rd.pid ∧ (c'.mshr.heap e).address = cfg.cacheLineID (c'.heap y).req.address

theorem Placed.head (h : Placed c) (hpeek : c.dirPostBuf.peek = some y) :
    y ∈ c.postCoalesceTransactions ∧ Started c y := by
  have hy := (h.queued y (mem_dirItems_of_peek hpeek)).1
  exact ⟨hy, h.started y hy⟩

theorem Placed.advances (h : Placed c) (ht : Told c) (ha : Advances c c' y) : Placed c' := by
  obtain ⟨_, hystarted⟩ := h.head ha.peek
  have hnodup := ha.dirItems ▸ h.dirNodup
  have hydir : y ∉ c'.dirItems := (nodup_cons.mp hnodup).1
  have hdir : ∀ x ∈ c'.dirItems, x ∈ c.dirItems ∧ x ≠ y := by
    intro x hx
    refine ⟨ha.dirItems ▸ mem_cons_of_mem hx, fun hxy => ?_⟩
    subst hxy
    exact hydir hx
  have hstarted : ∀ x, Started c x → Started c' x := by
    rintro x ⟨q, pre, hx⟩
    exact ⟨q, pre, ha.told ▸ hx⟩
  have hreceived : ∀ r ∈ c.transactions, r ≠ y := by
    rintro r hr rfl
    obtain ⟨q, hq⟩ := h.accepted r hr
    obtain ⟨_, pre, hy⟩ := hystarted
    exact ht.apart hq hy
  refine ⟨ha.keyed, (nodup_cons.mp hnodup).2, ?_, fun r hr => ?_, fun x hx => ?_, fun i x hx => ?_, fun e he x hx => ?_,
    fun x hx => ?_, fun x hx => ?_, fun x hx rd hrd => ?_, fun x hx => ?_, fun r hr hdone => ?_⟩
  · rw [ha.post]
    exact h.postNodup
  · rw [ha.transactions] at hr
    obtain ⟨q, hq⟩ := h.accepted r hr
    exact ⟨q, ha.told ▸ hq⟩
  · rw [ha.post] at hx
    exact hstarted x (h.started x hx)
  · rcases ha.inBank i x hx with hx | rfl
    · exact hstarted x (h.inBank i x hx)
    · exact hstarted x hystarted
  · rcases ha.inEntry e he x hx with ⟨he, hx⟩ | rfl
    · exact hstarted x (h.inEntry e he x hx)
    · exact hstarted x hystarted
  · obtain ⟨hx, hxy⟩ := hdir x hx
    obtain ⟨hpost, hread, hbank, hentry⟩ := h.queued x hx
    refine ⟨ha.post ▸ hpost, by rw [ha.heap x hxy]; exact hread, fun i hi => ?_, fun e he hxe => ?_⟩
    · rcases ha.inBank i x hi with hi | rfl
      · exact hbank i hi
      · exact hxy rfl
    · rcases ha.inEntry e he x hxe with ⟨he, hxe⟩ | rfl
      · exact hentry e he hxe
      · exact hxy rfl
  · -- only the head has begun its miss
    obtain ⟨hx, hxy⟩ := hdir x hx
    rw [ha.heap x hxy]
    refine ⟨(h.begun x hx).1, fun hflag => ?_⟩
    have hhead := ((h.begun x hx).2 hflag).head
    rw [ha.peek, Option.some.injEq] at hhead
    exact absurd hhead.symm hxy
  · by_cases hxy : x = y
    · subst hxy
      exact ha.fetch rd hrd
    · rw [ha.post] at hx
      rw [ha.heap x hxy] at hrd ⊢
      obtain ⟨e, he, hxe, hpid, haddr⟩ := h.fetching x hx rd hrd
      obtain ⟨he', hpid', haddr', hreq⟩ := ha.entries e he
      exact ⟨e, he', hreq x hxe, hpid'.trans hpid, haddr'.trans haddr⟩
  · by_cases hxy : x = y
    · subst hxy
      exact ha.place
    · rw [ha.post] at hx
      cases h.places x hx with
      | queued hd =>
        rw [ha.dirItems] at hd
        exact .queued ((mem_cons.mp hd).resolve_left hxy)
      | joined e he hxe => exact .joined e (ha.entries e he).1 ((ha.entries e he).2.2.2 x hxe)
      | hit i hi hact => exact .hit i (ha.banks i x hi) (by rw [ha.heap x hxy]; exact hact)
      | sent hw hflag => exact .sent (by rw [ha.heap x hxy]; exact hw) (by rw [ha.heap x hxy]; exact hflag)
  · rw [ha.transactions] at hr
    rw [ha.heap r (hreceived r hr)] at hdone
    rcases h.undone r hr hdone with hr' | ⟨x, hx, hrx⟩
    · exact .inl (ha.toCoalesce ▸ hr')
    · refine .inr ⟨x, ha.post ▸ hx, ?_⟩
      by_cases hxy : x = y
      · subst hxy
        rw [ha.pre]
        exact hrx
      · rw [ha.heap x hxy]
        exact hrx

/-- The head `y` of the directory stage begins a miss of a partial write. -/
theorem Placed.begins (h : Placed c) (ht : Told c) (hpeek : c.dirPostBuf.peek = some y) (t : Transaction)
    (hreq : t.req = (c.heap y).req) (hpre : t.preCoalesceTransactions = (c.heap y).preCoalesceTransactions)
    (hread : t.readToBottom = (c.heap y).readToBottom) (hflag : t.fetchAndWrite = true) (habsent : Absent c y)
    (hpolicy : cfg.policy = .writethrough) (hpartly : ∃ w, (c.heap y).req = .write w ∧ isPartialWrite cfg w = true)
    (bottomPort : Port cfg.numReqPerCycle (AccessRsp Bytes) AccessReq) (nextID : MsgID) (log : List Event)
    (htold : log.filter (fun e => e.allocated.isSome) = c.told) :
    Placed { c with bottomPort, nextID, log, heap := update c.heap y t } := by
  obtain ⟨_, hystarted⟩ := h.head hpeek
  have hydir := mem_dirItems_of_peek hpeek
  have hself : update c.heap y t y = t := update_self y t c.heap
  have hother : ∀ x, x ≠ y → update c.heap y t x = c.heap x := fun x hxy => update_of_ne hxy t c.heap
  have hheap : ∀ x, (update c.heap y t x).req = (c.heap x).req ∧
      (update c.heap y t x).preCoalesceTransactions = (c.heap x).preCoalesceTransactions ∧
      (update c.heap y t x).readToBottom = (c.heap x).readToBottom := by
    intro x
    by_cases hxy : x = y
    · subst hxy
      rw [hself]
      exact ⟨hreq, hpre, hread⟩
    · rw [hother x hxy]
      exact ⟨rfl, rfl, rfl⟩
  have hstarted : ∀ x, Started c x → Started { c with bottomPort, nextID, log, heap := update c.heap y t } x := by
    rintro x ⟨q, pre, hx⟩
    refine ⟨q, pre, ?_⟩
    show .startTask x q pre ∈ log.filter _
    rw [htold]
    exact hx
  refine ⟨h.keyed, h.dirNodup, h.postNodup, fun r hr => ?_, fun x hx => hstarted x (h.started x hx),
    fun i x hx => hstarted x (h.inBank i x hx), fun e he x hx => hstarted x (h.inEntry e he x hx),
    fun x hx => ?_, fun x hx => ?_, fun x hx rd hrd => ?_, fun x hx => ?_, fun r hr hdone => ?_⟩
  · obtain ⟨q, hq⟩ := h.accepted r hr
    refine ⟨q, ?_⟩
    show .reqReceive r q ∈ log.filter _
    rw [htold]
    exact hq
  · obtain ⟨hpost, hnone, hrest⟩ := h.queued x hx
    exact ⟨hpost, (hheap x).2.2.trans hnone, hrest⟩
  · show ((update c.heap y t x).writeToBottom.isSome = true → (update c.heap y t x).fetchAndWrite = true) ∧
      ((update c.heap y t x).fetchAndWrite = true → Waiting _ x)
    by_cases hxy : x = y
    · subst hxy
      rw [hself]
      refine ⟨fun _ => hflag, fun _ => ⟨⟨?_, ?_⟩, hpeek, hpolicy, ?_⟩⟩
      · show c.mshr.query (update c.heap x t x).req.pid (cfg.cacheLineID (update c.heap x t x).req.address) = none
        rw [hself, hreq]
        exact habsent.query
      · show c.directory.lookup (update c.heap x t x).req.pid (cfg.cacheLineID (update c.heap x t x).req.address) = _
        rw [hself, hreq]
        exact habsent.lookup
      · show ∃ w, (update c.heap x t x).req = _ ∧ _
        rw [hself, hreq]
        exact hpartly
    · rw [hother x hxy]
      refine ⟨(h.begun x hx).1, fun hxflag => ?_⟩
      have hhead := ((h.begun x hx).2 hxflag).head
      rw [hpeek, Option.some.injEq] at hhead
      exact absurd hhead.symm hxy
  · have hrd' := (hheap x).2.2.symm.trans hrd
    obtain ⟨e, he, hxe, hpid, haddr⟩ := h.fetching x hx rd hrd'
    refine ⟨e, he, hxe, hpid, ?_⟩
    show _ = cfg.cacheLineID (update c.heap y t x).req.address
    rw [(hheap x).1]
    exact haddr
  · by_cases hxy : x = y
    · subst hxy
      exact .queued hydir
    · cases h.places x hx with
      | queued hd => exact .queued hd
      | joined e he hxe => exact .joined e he hxe
      | hit i hi hact =>
        refine .hit i hi ?_
        show (update c.heap y t x).bankAction = _
        rw [hother x hxy]
        exact hact
      | sent hw hxflag =>
        refine .sent ?_ ?_
        · show (update c.heap y t x).writeToBottom.isSome = _
          rw [hother x hxy]
          exact hw
        · show (update c.heap y t x).fetchAndWrite = _
          rw [hother x hxy]
          exact hxflag
  · have hry : r ≠ y := by
      rintro rfl
      obtain ⟨_, hq⟩ := h.accepted r hr
      obtain ⟨_, _, hy⟩ := hystarted
      exact ht.apart hq hy
    have hdone' : (update c.heap y t r).done = false := hdone
    rw [hother r hry] at hdone'
    rcases h.undone r hr hdone' with hr' | ⟨x, hx, hrx⟩
    · exact .inl hr'
    · refine .inr ⟨x, hx, ?_⟩
      show r ∈ (update c.heap y t x).preCoalesceTransactions
      rw [(hheap x).2.1]
      exact hrx

/-! ## Steps that make a transaction -/

/-- A new transaction does not touch the others. -/
structure Makes (c c' : Cache cfg) (e : Event) : Prop where
  told : c'.told = c.told ++ [e]
  heap : ∀ x, x < c.nextRef → c'.heap x = c.heap x
  mshr : c'.mshr = c.mshr
  directory : c'.directory = c.directory
  banks : c'.banks = c.banks
  dirPostBuf : c'.dirPostBuf = c.dirPostBuf

/-- What a new transaction leaves alone. -/
structure Kept (c c' : Cache cfg) (x : TransRef) : Prop where
  queued : x ∈ c.dirItems → (c'.heap x).readToBottom = none ∧ (∀ i, x ∉ (c'.banks i).items) ∧
    ∀ e ∈ c'.mshr.entries, x ∉ (c'.mshr.heap e).requests
  begun : x ∈ c.dirItems → ((c'.heap x).writeToBottom.isSome = true → (c'.heap x).fetchAndWrite = true) ∧
    ((c'.heap x).fetchAndWrite = true → Waiting c' x)
  fetching : ∀ rd, (c'.heap x).readToBottom = some rd → ∃ e ∈ c'.mshr.entries,
    x ∈ (c'.mshr.heap e).requests ∧ (c'.mshr.heap e).pid = rd.pid ∧ (c'.mshr.heap e).address =
      cfg.cacheLineID (c'.heap x).req.address
  place : (∀ y ∈ c.dirItems, y ∈ c'.dirItems) → Where c' x

theorem Placed.kept {e : Event} (h : Placed c) (ht : Told c) (hm : Makes c c' e) (hx : x ∈ c.postCoalesceTransactions) :
    Kept c c' x := by
  obtain ⟨_, _, hstart⟩ := h.started x hx
  have hheap := hm.heap x (ht.lt_of_started hstart)
  refine ⟨fun hd => ?_, fun hd => ?_, fun rd hrd => ?_, fun hdir => ?_⟩
  · rw [hheap, hm.banks, hm.mshr]
    exact (h.queued x hd).2
  · rw [hheap]
    refine ⟨(h.begun x hd).1, fun hflag => ?_⟩
    have hw := (h.begun x hd).2 hflag
    refine ⟨⟨?_, ?_⟩, ?_, hw.policy, ?_⟩
    · rw [hm.mshr, hheap]
      exact hw.query
    · rw [hm.directory, hheap]
      exact hw.lookup
    · rw [hm.dirPostBuf]
      exact hw.head
    · rw [hheap]
      exact hw.partly
  · rw [hheap] at hrd ⊢
    rw [hm.mshr]
    exact h.fetching x hx rd hrd
  · cases h.places x hx with
    | queued hd => exact .queued (hdir x hd)
    | joined e he hxe => exact .joined e (by rw [hm.mshr]; exact he) (by rw [hm.mshr]; exact hxe)
    | hit i hi hact => exact .hit i (by rw [hm.banks]; exact hi) (by rw [hheap]; exact hact)
    | sent hw hflag => exact .sent (by rw [hheap]; exact hw) (by rw [hheap]; exact hflag)

theorem Makes.started {e : Event} (hm : Makes c c' e) (h : Started c x) : Started c' x := by
  obtain ⟨q, pre, hx⟩ := h
  exact ⟨q, pre, by rw [hm.told]; exact mem_append_left _ hx⟩

theorem Makes.received {e : Event} (hm : Makes c c' e) (h : Received c x) : Received c' x := by
  obtain ⟨q, hx⟩ := h
  exact ⟨q, by rw [hm.told]; exact mem_append_left _ hx⟩

theorem Placed.park (h : Placed c) (ht : Told c) (req : AccessReq) : Placed (Coalescer.createTransaction c req) := by
  have hm : Makes c (Coalescer.createTransaction c req) (.reqReceive c.nextRef req) := by
    refine ⟨?_, fun x hx => update_of_ne (Nat.ne_of_lt hx) _ _, rfl, rfl, rfl, rfl⟩
    show (c.log ++ [Event.reqReceive c.nextRef req]).filter _ = c.log.filter _ ++ [Event.reqReceive c.nextRef req]
    rw [filter_append]
    rfl
  refine ⟨h.keyed, h.dirNodup, h.postNodup, fun r hr => ?_, fun x hx => hm.started (h.started x hx),
    fun i x hx => hm.started (h.inBank i x hx),
    fun e he x hx => hm.started (h.inEntry e he x hx), fun x hx => ?_, fun x hx => ?_, fun x hx => (h.kept ht hm hx).fetching,
    fun x hx => (h.kept ht hm hx).place fun _ hy => hy, fun r hr hdone => ?_⟩
  · rcases mem_append.mp hr with hr | hr
    · exact hm.received (h.accepted r hr)
    · refine ⟨req, ?_⟩
      rw [List.mem_singleton.mp hr, hm.told]
      exact mem_append_right _ (mem_singleton_self _)
  · have hpost := (h.queued x hx).1
    exact ⟨hpost, (h.kept ht hm hpost).queued hx⟩
  · exact (h.kept ht hm (h.queued x hx).1).begun hx
  · show r ∈ c.toCoalesce ++ [c.nextRef] ∨ _
    rcases mem_append.mp hr with hr | hr
    · obtain ⟨_, hq⟩ := h.accepted r hr
      rw [hm.heap r (ht.lt_of_received hq)] at hdone
      rcases h.undone r hr hdone with hr' | ⟨x, hx, hrx⟩
      · exact .inl (mem_append_left _ hr')
      · obtain ⟨_, _, hstart⟩ := h.started x hx
        refine .inr ⟨x, hx, ?_⟩
        rw [hm.heap x (ht.lt_of_started hstart)]
        exact hrx
    · exact .inl (mem_append_right _ hr)

theorem Placed.wave (h : Placed c) (ht : Told c) {req : AccessReq} {dirBuf : Buffer cfg.numReqPerCycle TransRef}
    (hpush : c.dirBuf.push c.nextRef = .ok dirBuf)
    (hc' : c' = { c with
        heap := update c.heap c.nextRef { req, preCoalesceTransactions := c.toCoalesce }
        nextRef := c.nextRef + 1
        dirBuf
        postCoalesceTransactions := c.postCoalesceTransactions ++ [c.nextRef]
        toCoalesce := []
        nextID := c.nextID + 1
        log := c.log ++ [Event.startTask c.nextRef req c.toCoalesce] }) : Placed c' := by
  have hdir : c'.dirItems = c.nextRef ::ₘ c.dirItems := by
    unfold Buffer.push at hpush
    split at hpush
    · cases hpush
    · cases hpush
      subst hc'
      show ↑(c.dirBuf.elements ++ [c.nextRef]) + (c.dirPipeline.items + ↑c.dirPostBuf.elements) = c.nextRef ::ₘ c.dirItems
      rw [coe_concat, cons_add]
      rfl
  have hm : Makes c c' (.startTask c.nextRef req c.toCoalesce) := by
    subst hc'
    refine ⟨?_, fun x hx => update_of_ne (Nat.ne_of_lt hx) _ _, rfl, rfl, rfl, rfl⟩
    show (c.log ++ [_]).filter _ = c.log.filter _ ++ [_]
    rw [filter_append]
    rfl
  have hpost : ∀ x, x ∈ c'.postCoalesceTransactions ↔ x ∈ c.postCoalesceTransactions ∨ x = c.nextRef := by
    intro x
    subst hc'
    show x ∈ c.postCoalesceTransactions ++ [c.nextRef] ↔ _
    rw [mem_append, List.mem_singleton]
  have hself : c'.heap c.nextRef = { req, preCoalesceTransactions := c.toCoalesce } := by
    subst hc'
    exact update_self _ _ _
  -- the new wave is nowhere yet
  have hfresh : ∀ x, Started c x → x ≠ c.nextRef := by
    rintro x ⟨q, pre, hx⟩
    exact Nat.ne_of_lt (ht.lt_of_started hx)
  have hstarted : Started c' c.nextRef := by
    refine ⟨req, c.toCoalesce, ?_⟩
    rw [hm.told]
    exact mem_append_right _ (mem_singleton_self _)
  have hnotDir : c.nextRef ∉ c.dirItems := fun hd => hfresh _ (h.started _ (h.queued _ hd).1) rfl
  have hbanks : ∀ i, (c'.banks i).items = (c.banks i).items := fun i => by rw [hm.banks]
  refine ⟨hm.mshr ▸ h.keyed, ?_, ?_, fun r hr => ?_, fun x hx => ?_, fun i x hx => ?_, fun e he x hx => ?_, fun x hx => ?_,
    fun x hx => ?_, fun x hx => ?_, fun x hx => ?_, fun r hr hdone => ?_⟩
  · rw [hdir]
    exact nodup_cons.mpr ⟨hnotDir, h.dirNodup⟩
  · subst hc'
    refine h.postNodup.append (nodup_singleton _) (disjoint_singleton.mpr fun hmem => ?_)
    exact hfresh _ (h.started _ hmem) rfl
  · subst hc'
    exact hm.received (h.accepted r hr)
  · rcases (hpost x).mp hx with hx | rfl
    · exact hm.started (h.started x hx)
    · exact hstarted
  · rw [hbanks] at hx
    exact hm.started (h.inBank i x hx)
  · rw [hm.mshr] at he hx
    exact hm.started (h.inEntry e he x hx)
  · rw [hdir] at hx
    rcases mem_cons.mp hx with rfl | hx
    · refine ⟨(hpost _).mpr (.inr rfl), by rw [hself], fun i hi => ?_, fun e he hxe => ?_⟩
      · rw [hbanks] at hi
        exact hfresh _ (h.inBank i _ hi) rfl
      · rw [hm.mshr] at he hxe
        exact hfresh _ (h.inEntry e he _ hxe) rfl
    · have hxp := (h.queued x hx).1
      exact ⟨(hpost x).mpr (.inl hxp), (h.kept ht hm hxp).queued hx⟩
  · rw [hdir] at hx
    rcases mem_cons.mp hx with rfl | hx
    · rw [hself]
      exact ⟨fun hw => absurd hw Bool.false_ne_true, fun hflag => absurd hflag Bool.false_ne_true⟩
    · exact (h.kept ht hm (h.queued x hx).1).begun hx
  · rcases (hpost x).mp hx with hx | rfl
    · exact (h.kept ht hm hx).fetching
    · intro rd hrd
      rw [hself] at hrd
      cases hrd
  · have hmem : ∀ y ∈ c.dirItems, y ∈ c'.dirItems := fun y hy => hdir ▸ mem_cons_of_mem hy
    rcases (hpost x).mp hx with hx | rfl
    · exact (h.kept ht hm hx).place hmem
    · exact .queued (hdir ▸ Multiset.mem_cons_self _ _)
  · have hrt : r ∈ c.transactions := by
      subst hc'
      exact hr
    obtain ⟨_, hq⟩ := h.accepted r hrt
    rw [hm.heap r (ht.lt_of_received hq)] at hdone
    -- what was parked is in the new wave
    rcases h.undone r hrt hdone with hr' | ⟨x, hx, hrx⟩
    · refine .inr ⟨c.nextRef, (hpost _).mpr (.inr rfl), ?_⟩
      rw [hself]
      exact hr'
    · obtain ⟨_, _, hstart⟩ := h.started x hx
      refine .inr ⟨x, (hpost x).mpr (.inl hx), ?_⟩
      rw [hm.heap x (ht.lt_of_started hstart)]
      exact hrx

/-! ## Every step -/

theorem peek_of_prefix {n : Nat} {buf buf' : Buffer n TransRef} (h : buf.elements <+: buf'.elements)
    (hx : buf.peek = some x) :
    buf'.peek = some x := by
  obtain ⟨_, ht⟩ := h
  unfold Buffer.peek at hx ⊢
  rw [← ht]
  cases hb : buf.elements with
  | nil => rw [hb] at hx; cases hx
  | cons => rw [hb] at hx; exact hx

theorem dirItems_popBuf (h : c.dirPostBuf.peek = some y) : c.dirItems = y ::ₘ (popBuf c).dirItems := by
  unfold Cache.dirItems popBuf
  rw [Buffer.peek_eq_some h, ← cons_coe, add_cons, add_cons]

theorem items_popBuf (i : Nat) (hpeek : (c.banks i).postPipelineBuf.peek = some y) (j : Nat) :
    (c.banks j).items = (if j = i then {y} else 0) + ((BankStage.popBuf c i).banks j).items := by
  by_cases hj : j = i
  · subst hj
    rw [if_pos rfl]
    unfold Bank.items BankStage.popBuf Cache.modifyBank
    simp only [update_self]
    rw [Buffer.peek_eq_some hpeek, ← cons_coe, add_cons, add_cons, singleton_add]
  · rw [if_neg hj, zero_add]
    simp [BankStage.popBuf, Cache.modifyBank, update_of_ne hj]

variable {buf : Buffer cfg.numReqPerCycle TransRef} {bank : Nat}

theorem items_push (hpush : (c.banks bank).buf.push y = .ok buf) (j : Nat) :
    (update c.banks bank { c.banks bank with buf } j).items = (if j = bank then {y} else 0) + (c.banks j).items := by
  unfold Buffer.push at hpush
  split at hpush
  · cases hpush
  · cases hpush
    by_cases hj : j = bank
    · subst hj
      rw [if_pos rfl, update_self]
      unfold Bank.items
      rw [coe_concat, cons_add, singleton_add]
    · rw [if_neg hj, zero_add, update_of_ne hj]

variable {w : WriteReq Bytes Mask} {b : BlockRef}

/-- A write that waits for its line is partial and does not find it. -/
theorem Waiting.not_hit (hw : Waiting c x) (hreq : (c.heap x).req = .write w)
    (hb : c.directory.lookup w.pid (cfg.cacheLineID w.address) = .ok (some b) ∨ isPartialWrite cfg w = false) : False := by
  rcases hb with hb | hb
  · have hnone := hw.lookup
    rw [hreq] at hnone
    rw [show c.directory.lookup w.pid (cfg.cacheLineID w.address) = .ok none from hnone] at hb
    cases hb
  · obtain ⟨_, hw', hpart⟩ := hw.partly
    rw [hreq] at hw'
    cases hw'
    rw [hpart] at hb
    cases hb

theorem Placed.waiting (h : Placed c) (hpeek : c.dirPostBuf.peek = some x) (hsent : (c.heap x).writeToBottom.isSome = true) :
    Waiting c x := by
  have hx := mem_dirItems_of_peek hpeek
  exact (h.begun x hx).2 ((h.begun x hx).1 hsent)

theorem mem_of_mem_popped {i j : Nat} {s : Multiset TransRef} (hxy : x ≠ y) (hx : x ∈ (if j = i then {y} else 0) + s) :
    x ∈ s := by
  rcases mem_add.mp hx with hx | hx
  · split at hx
    · exact absurd (mem_singleton.mp hx) hxy
    · exact absurd hx (notMem_zero x)
  · exact hx

theorem findWrite_eq_some {id : MsgID} (h : BottomParser.findTransactionByWriteToBottomID c id = some x) :
    x ∈ c.postCoalesceTransactions ∧ ∃ w, (c.heap x).writeToBottom = some w ∧ w.id = id := by
  unfold BottomParser.findTransactionByWriteToBottomID at h
  have hany := find?_some h
  simp only [Option.any_eq_true, beq_iff_eq] at hany
  exact ⟨mem_of_find?_eq_some h, hany⟩

theorem findRead_eq_some {id : MsgID} (h : BottomParser.findTransactionByReadToBottomID c id = some x) :
    x ∈ c.postCoalesceTransactions ∧ ∃ rd, (c.heap x).readToBottom = some rd ∧ rd.id = id := by
  unfold BottomParser.findTransactionByReadToBottomID at h
  have hany := find?_some h
  simp only [Option.any_eq_true, beq_iff_eq] at hany
  exact ⟨mem_of_find?_eq_some h, hany⟩

section
variable (h : Placed c) (htold : c'.told = c.told) (hmshr : c'.mshr = c.mshr) (hlook : ∀ pid addr,
  c.directory.lookup pid addr = .ok none → c'.directory.lookup pid addr = .ok none) (hdir : c'.dirItems = c.dirItems)
include h htold hmshr hlook hdir

theorem Shrinks.quiet
   
    (hhead : ∀ x, c.dirPostBuf.peek = some x → c'.dirPostBuf.peek = some x)
    (hpost : c'.postCoalesceTransactions = c.postCoalesceTransactions) (hbanks : ∀ i, (c'.banks i).items = (c.banks i).items)
    (htrans : c'.transactions.Sublist c.transactions) (hcoal : c'.toCoalesce = c.toCoalesce)
    (hheap : ∀ x, Same (c.heap x) (c'.heap x) ∧ ((c.heap x).done = true → (c'.heap x).done = true)) : Shrinks c c' where
  told := htold
  keyed := hmshr ▸ h.keyed
  entries e he := hmshr ▸ he
  heap := by rw [hmshr]
  query pid addr hq := by rw [hmshr]; exact hq
  lookup := hlook
  dirItems := hdir
  head := hhead
  post := by rw [hpost]
  dirPost x hx := by rw [hpost]; exact (h.queued x hx).1
  banks i x hx := .inl (hbanks i ▸ hx)
  transactions := htrans
  same x _ := (hheap x).1
  joined x _ e he _ := by rw [hmshr]; exact he
  hits x _ _ i hi := by rw [hbanks i]; exact hi
  undone r _ hdone := by
    refine ⟨?_, fun hr => by rw [hcoal]; exact hr, fun x hx _ => by rw [hpost]; exact hx⟩
    by_contra hne
    rw [(hheap r).2 (by simpa using hne)] at hdone
    cases hdone

/-- A wave `y` that is finished leaves, and its requests are done. -/
theorem Shrinks.finish
   
    (hhead : c'.dirPostBuf = c.dirPostBuf)
    (hpost : c'.postCoalesceTransactions = c.postCoalesceTransactions.erase y) (hy : y ∉ c.dirItems)
    (hbanks : ∀ i, ∀ x ∈ (c'.banks i).items, x ∈ (c.banks i).items)
    (hhits : ∀ x ≠ y, (c.heap x).bankAction = .readHit → ∀ i, x ∈ (c.banks i).items → x ∈ (c'.banks i).items)
    (htrans : c'.transactions = c.transactions) (hcoal : c'.toCoalesce = c.toCoalesce)
    (hheap : ∀ x, Same (c.heap x) (c'.heap x) ∧ ((c.heap x).done = true → (c'.heap x).done = true))
    (hdone : ∀ r ∈ (c.heap y).preCoalesceTransactions, (c'.heap r).done = true) : Shrinks c c' where
  told := htold
  keyed := hmshr ▸ h.keyed
  entries e he := hmshr ▸ he
  heap := by rw [hmshr]
  query pid addr hq := by rw [hmshr]; exact hq
  lookup := hlook
  dirItems := hdir
  head x hx := by rw [hhead]; exact hx
  post := by rw [hpost]; exact erase_sublist
  dirPost x hx := by
    rw [hpost]
    refine (mem_erase_of_ne ?_).mpr (h.queued x hx).1
    rintro rfl
    exact hy hx
  banks i x hx := .inl (hbanks i x hx)
  transactions := by rw [htrans]
  same x _ := (hheap x).1
  joined x _ e he _ := by rw [hmshr]; exact he
  hits x hx hact i hi := by
    refine hhits x ?_ hact i hi
    rintro rfl
    rw [hpost] at hx
    exact h.postNodup.not_mem_erase hx
  undone r _ hundone := by
    have hwas : (c.heap r).done = false := by
      by_contra hne
      rw [(hheap r).2 (by simpa using hne)] at hundone
      cases hundone
    refine ⟨hwas, fun hr => by rw [hcoal]; exact hr, fun x hx hrx => ?_⟩
    rw [hpost]
    refine (mem_erase_of_ne ?_).mpr hx
    rintro rfl
    rw [hdone r hrx] at hundone
    cases hundone

end

theorem Shrinks.leaveBank (h : Placed c) {i : Nat} (hpeek : (c.banks i).postPipelineBuf.peek = some y)
    (hact : (c.heap y).bankAction ≠ .readHit) (htold : c'.told = c.told) (hmshr : c'.mshr = c.mshr)
    (hlook : ∀ pid addr, c.directory.lookup pid addr = .ok none → c'.directory.lookup pid addr = .ok none)
    (hdir : c'.dirItems = c.dirItems) (hhead : c'.dirPostBuf = c.dirPostBuf)
    (hpost : c'.postCoalesceTransactions = c.postCoalesceTransactions) (hbanks : c'.banks = (BankStage.popBuf c i).banks)
    (htrans : c'.transactions = c.transactions) (hcoal : c'.toCoalesce = c.toCoalesce) (hheap : c'.heap = c.heap) :
    Shrinks c c' where
  told := htold
  keyed := hmshr ▸ h.keyed
  entries e he := hmshr ▸ he
  heap := by rw [hmshr]
  query pid addr hq := by rw [hmshr]; exact hq
  lookup := hlook
  dirItems := hdir
  head x hx := by rw [hhead]; exact hx
  post := by rw [hpost]
  dirPost x hx := by rw [hpost]; exact (h.queued x hx).1
  banks j x hx := by
    rw [hbanks] at hx
    rw [items_popBuf i hpeek j]
    exact .inl (mem_add.mpr (.inr hx))
  transactions := by rw [htrans]
  same x _ := by rw [hheap]; exact .refl _
  joined x _ e he _ := by rw [hmshr]; exact he
  hits x _ hxact j hx := by
    rw [items_popBuf i hpeek j] at hx
    rw [hbanks]
    refine mem_of_mem_popped ?_ hx
    rintro rfl
    exact hact hxact
  undone r _ hundone := by
    rw [hheap] at hundone
    exact ⟨hundone, fun hr => by rw [hcoal]; exact hr, fun x hx _ => by rw [hpost]; exact hx⟩

theorem Marked.unlike (hm : Marked c c') (x : TransRef) :
    Same (c.heap x) (c'.heap x) ∧ ((c.heap x).done = true → (c'.heap x).done = true) := ⟨hm.same x, hm.done⟩

theorem markDone_done {rs : List TransRef} {heap : TransRef → Transaction} {r : TransRef} (hr : r ∈ rs) :
    (markDone rs heap r).done = true := by
  unfold markDone
  rw [if_pos hr]

variable {data : Bytes}

theorem markRead_done {tag : Nat} {rs : List TransRef} {heap : TransRef → Transaction} {r : TransRef} (hr : r ∈ rs) :
    (markRead data tag rs heap r).done = true := by
  unfold markRead
  rw [if_pos hr]

variable {e : EntryRef}

variable {victim : BlockRef}

theorem Placed.arrival (h : Placed c) {rsp : DataReadyRsp Bytes} {rd : ReadReq} (ha : Arrival c x rsp rd e victim data) :
    x ∈ c.postCoalesceTransactions ∧ e ∈ c.mshr.entries ∧ x ∈ (c.mshr.heap e).requests := by
  have hx := mem_of_find?_eq_some ha.find
  obtain ⟨_, he', hxe, hpid, haddr⟩ := h.fetching x hx rd ha.fetch
  have hquery := h.keyed.query he'
  rw [hpid, haddr, ha.entry, Option.some.injEq] at hquery
  subst hquery
  exact ⟨hx, he', hxe⟩

theorem shrinks_fill (h : Placed c) {rsp : DataReadyRsp Bytes} {rd : ReadReq} (ha : Arrival c x rsp rd e victim data)
    (hdone : ∀ y ∈ (c.mshr.heap e).requests, ∀ r ∈ (c.heap y).preCoalesceTransactions, (c.heap r).done = true)
    (hpush : (c.banks bank).buf.push x = .ok buf) :
    Shrinks c (BottomParser.retrieve ({ c with
        mshr := { c.mshr with entries := c.mshr.entries.erase e }
        heap := update c.heap x { c.heap x with bankAction := .writeFetched, data }
        postCoalesceTransactions := (c.postCoalesceTransactions.diff (c.mshr.heap e).requests).erase x }.modifyBank bank
          fun k => { k with buf })) := by
  obtain ⟨hx, he, hxe⟩ := h.arrival ha
  -- who is left is not the wave, and not in its entry
  have hleft : ∀ y ∈ (c.postCoalesceTransactions.diff (c.mshr.heap e).requests).erase x, y ≠ x ∧
      y ∉ (c.mshr.heap e).requests := by
    intro y hy
    have hdiff := mem_of_mem_erase hy
    have hout := (h.postNodup.mem_sdiff_iff.mp hdiff).2
    refine ⟨?_, hout⟩
    rintro rfl
    exact hout hxe
  have hstays : ∀ y ∈ c.postCoalesceTransactions, y ∉ (c.mshr.heap e).requests →
      y ∈ (c.postCoalesceTransactions.diff (c.mshr.heap e).requests).erase x := by
    intro y hy hout
    refine (mem_erase_of_ne ?_).mpr (h.postNodup.mem_sdiff_iff.mpr ⟨hy, hout⟩)
    rintro rfl
    exact hout hxe
  have hother : ∀ y, y ≠ x → update c.heap x { c.heap x with bankAction := .writeFetched, data } y = c.heap y :=
    fun y hyx => update_of_ne hyx _ _
  refine ⟨rfl, h.keyed.erase e, fun e' he' => mem_of_mem_erase he', rfl, fun pid addr hq => MSHR.query_erase hq e,
    fun pid addr hl => hl, rfl, fun y hy => hy, erase_sublist.trans (diff_sublist _ _),
    fun y hy => hstays y (h.queued y hy).1 ((h.queued y hy).2.2.2 e he), fun i y hy => ?_,
      List.Sublist.refl _, fun y hy => ?_,
    fun y hy e' he' hye' => ?_, fun y hy hact i hi => ?_, fun r hr hundone => ?_⟩
  · have hitems := items_push hpush i
    have hy : y ∈ (update c.banks bank { c.banks bank with buf } i).items := hy
    rw [hitems] at hy
    rcases mem_add.mp hy with hy | hy
    · refine .inr ?_
      split at hy
      · rw [mem_singleton.mp hy]
        exact ⟨hx, by rw [ha.fetch]; rfl⟩
      · exact absurd hy (notMem_zero y)
    · exact .inl hy
  · show Same (c.heap y) (update c.heap x _ y)
    rw [hother y (hleft y hy).1]
    exact .refl _
  · refine (mem_erase_of_ne ?_).mpr he'
    rintro rfl
    exact (hleft y hy).2 hye'
  · show y ∈ (update c.banks bank { c.banks bank with buf } i).items
    rw [items_push hpush i]
    exact mem_add.mpr (.inr hi)
  · have hundone : (update c.heap x { c.heap x with bankAction := .writeFetched, data } r).done = false := hundone
    have hwas : (c.heap r).done = false := by
      by_cases hrx : r = x
      · subst hrx
        rw [update_self] at hundone
        exact hundone
      · rwa [hother r hrx] at hundone
    refine ⟨hwas, fun hr => hr, fun y hy hry => hstays y hy fun hye => ?_⟩
    rw [hdone y hye r hry] at hwas
    cases hwas

variable {what : TaskStep}

section
variable (h : Placed c) (hpeek : c.dirPostBuf.peek = some y)
include h hpeek

theorem advances_join {c₁ : Cache cfg}
    (he : e ∈ c.mshr.entries) (hread : (c.heap y).readToBottom = none) (htold : (processMSHRHit c₁ y e what).told = c.told)
    (hmshr : c₁.mshr = c.mshr) (hdir : c₁.dirItems = c.dirItems) (hpost : c₁.dirPostBuf = c.dirPostBuf)
    (hlists : c₁.postCoalesceTransactions = c.postCoalesceTransactions ∧ c₁.transactions = c.transactions ∧
      c₁.toCoalesce = c.toCoalesce ∧ c₁.banks = c.banks) (hheap : ∀ x, x ≠ y → c₁.heap x = c.heap x)
    (hy : (c₁.heap y).preCoalesceTransactions = (c.heap y).preCoalesceTransactions ∧
      (c₁.heap y).readToBottom = (c.heap y).readToBottom) :
    Advances c (processMSHRHit c₁ y e what) y := by
  have hheap' : (processMSHRHit c₁ y e what).mshr =
      c.mshr.modify e fun entry => { entry with requests := entry.requests ++ [y] } := by
    rw [← hmshr]
    rfl
  have hkeys : ∀ entry : MSHREntry TransRef, ({ entry with requests := entry.requests ++ [y] } : MSHREntry TransRef).pid =
      entry.pid ∧
      ({ entry with requests := entry.requests ++ [y] } : MSHREntry TransRef).address = entry.address := fun _ => ⟨rfl, rfl⟩
  have hrequests : ∀ e' x, x ∈ ((processMSHRHit c₁ y e what).mshr.heap e').requests ↔
      x ∈ (c.mshr.heap e').requests ∨ (e' = e ∧ x = y) := by
    intro e' x
    rw [hheap', MSHR.heap_modify]
    by_cases he' : e' = e
    · subst he'
      simp
    · simp [he']
  refine ⟨htold, hheap' ▸ h.keyed.modify hkeys, hpeek, ?_, hlists.1, hlists.2.1, hlists.2.2.1, hheap, hy.1, fun i x hx => ?_,
    fun i x hx => .inl ?_, fun e' he' => ⟨?_, ?_, ?_, fun x hx => (hrequests e' x).mpr (.inl hx)⟩, fun e' he' x hx => ?_, ?_,
    fun rd hrd => ?_⟩
  · rw [← hdir]
    exact dirItems_popBuf (c := { c₁ with mshr := _ }) (hpost ▸ hpeek)
  · show x ∈ (c₁.banks i).items
    rw [hlists.2.2.2]
    exact hx
  · have hx : x ∈ (c₁.banks i).items := hx
    rwa [hlists.2.2.2] at hx
  · rw [hheap']
    exact he'
  · rw [hheap']
    exact (MSHR.keys_modify hkeys e').1
  · rw [hheap']
    exact (MSHR.keys_modify hkeys e').2
  · rw [hheap'] at he'
    rcases (hrequests e' x).mp hx with hx | ⟨-, rfl⟩
    · exact .inl ⟨he', hx⟩
    · exact .inr rfl
  · refine .joined e ?_ ((hrequests e y).mpr (.inr ⟨rfl, rfl⟩))
    rw [hheap']
    exact he
  · have hrd : (c₁.heap y).readToBottom = some rd := hrd
    rw [hy.2, hread] at hrd
    cases hrd

theorem advances_leave (htold : c'.told = c.told) (hmshr : c'.mshr = c.mshr) (hdir : c'.dirItems = (popBuf c).dirItems)
    (hlists : c'.postCoalesceTransactions = c.postCoalesceTransactions ∧ c'.transactions = c.transactions ∧
      c'.toCoalesce = c.toCoalesce)
    (hbanks : c'.banks = c.banks ∨ ∃ bank buf, (c.banks bank).buf.push y = .ok buf ∧
      c'.banks = update c.banks bank { c.banks bank with buf })
    (hheap : ∀ x, x ≠ y → c'.heap x = c.heap x)
    (hpre : (c'.heap y).preCoalesceTransactions = (c.heap y).preCoalesceTransactions)
    (hread : (c'.heap y).readToBottom = (c.heap y).readToBottom) (hplace : Where c' y) : Advances c c' y := by
  have hitems : ∀ i x, (x ∈ (c.banks i).items → x ∈ (c'.banks i).items) ∧
      (x ∈ (c'.banks i).items → x ∈ (c.banks i).items ∨ x = y) := by
    intro i x
    rcases hbanks with heq | ⟨_, _, hpush, heq⟩
    · rw [heq]
      exact ⟨fun hx => hx, fun hx => .inl hx⟩
    · rw [heq, items_push hpush i]
      refine ⟨fun hx => mem_add.mpr (.inr hx), fun hx => ?_⟩
      rcases mem_add.mp hx with hx | hx
      · split at hx
        · exact .inr (mem_singleton.mp hx)
        · exact absurd hx (notMem_zero x)
      · exact .inl hx
  refine ⟨htold, hmshr ▸ h.keyed, hpeek, ?_, hlists.1, hlists.2.1, hlists.2.2, hheap, hpre, fun i x => (hitems i x).1,
    fun i x => (hitems i x).2, fun e he => ?_, fun e he x hx => .inl ?_, hplace, fun rd hrd => ?_⟩
  · rw [hdir]
    exact dirItems_popBuf hpeek
  · rw [hmshr]
    exact ⟨he, rfl, rfl, fun x hx => hx⟩
  · rw [hmshr] at he hx
    exact ⟨he, hx⟩
  · rw [hread, (h.queued y (mem_dirItems_of_peek hpeek)).2.1] at hrd
    cases hrd

theorem advances_fetch {conn : List Bool} {mshr : MSHR cfg.numMSHREntry TransRef}
   
    (hadd : c.mshr.add (c.heap y).req.pid (cfg.cacheLineID (c.heap y).req.address) = .ok (e, mshr))
    (htold : ((popBuf (c.fetched y victim conn e mshr)).record (.addTaskStep y what)).told = c.told) :
    Advances c ((popBuf (c.fetched y victim conn e mshr)).record (.addTaskStep y what)) y := by
  have hkeys : ∀ entry : MSHREntry TransRef,
      ({ entry with requests := entry.requests ++ [y], block := some victim } : MSHREntry TransRef).pid = entry.pid ∧
      ({ entry with requests := entry.requests ++ [y], block := some victim } : MSHREntry TransRef).address = entry.address :=
    fun _ => ⟨rfl, rfl⟩
  have hkeyed := (h.keyed.add hadd).modify (e := e) hkeys
  obtain ⟨hentries, hself, hold⟩ :=
    h.keyed.add_modify hadd fun entry => { entry with requests := entry.requests ++ [y], block := some victim }
  have hmem : e ∈ (mshr.modify e fun entry =>
      { entry with requests := entry.requests ++ [y], block := some victim }).entries := by
    rw [hentries]
    exact mem_append_right _ (mem_singleton_self _)
  have hy : y ∈ ((mshr.modify e fun entry => { entry with requests := entry.requests ++ [y], block := some victim }).heap
      e).requests := by
    rw [hself]
    exact mem_singleton_self y
  have hheap : ∀ x, x ≠ y → update c.heap y { c.heap y with readToBottom := some (fetchOf c y), block := some victim } x =
      c.heap x :=
    fun x hxy => update_of_ne hxy _ _
  have hyheap : update c.heap y { c.heap y with readToBottom := some (fetchOf c y), block := some victim } y =
      { c.heap y with readToBottom := some (fetchOf c y), block := some victim } := update_self _ _ _
  refine ⟨htold, hkeyed, hpeek, dirItems_popBuf (c := c.fetched y victim conn e mshr) hpeek, rfl, rfl, rfl, hheap,
    (congrArg Transaction.preCoalesceTransactions hyheap).trans rfl, fun i x hx => hx, fun i x hx => .inl hx,
    fun e' he' => ?_, fun e' he' x hx => ?_, .joined e hmem hy, fun rd hrd => ⟨e, hmem, hy, ?_⟩⟩
  · have heq := (hold e' he').2
    refine ⟨?_, congrArg MSHREntry.pid heq, congrArg MSHREntry.address heq, fun x hx => ?_⟩
    · show e' ∈ (mshr.modify e _).entries
      rw [hentries]
      exact mem_append_left _ he'
    · exact (congrArg MSHREntry.requests heq).symm ▸ hx
  · have he' : e' ∈ (mshr.modify
        e fun entry => { entry with requests := entry.requests ++ [y], block := some victim }).entries := he'
    have hx : x ∈ ((mshr.modify e fun entry => { entry with requests := entry.requests ++ [y], block := some victim }).heap
        e').requests := hx
    rw [hentries] at he'
    rcases mem_append.mp he' with he' | he'
    · rw [(hold e' he').2] at hx
      exact .inl ⟨he', hx⟩
    · rw [List.mem_singleton.mp he', hself] at hx
      exact .inr (List.mem_singleton.mp hx)
  · have hrd : (update c.heap y _ y).readToBottom = some rd := hrd
    rw [hyheap] at hrd
    cases hrd
    refine ⟨congrArg MSHREntry.pid hself, ?_⟩
    refine (congrArg MSHREntry.address hself).trans ?_
    show _ = cfg.cacheLineID (update c.heap y _ y).req.address
    rw [hyheap]

section
variable (hreq : (c.heap y).req = .write w) (hb : c.directory.lookup w.pid (cfg.cacheLineID w.address) = .ok (some b) ∨
  isPartialWrite cfg w = false)
include hreq hb

theorem Placed.not_flagged
   
    :
    (c.heap y).fetchAndWrite = false := by
  by_contra hflag
  exact ((h.begun y (mem_dirItems_of_peek hpeek)).2 (by simpa using hflag)).not_hit hreq hb

theorem advances_writeHit {conn : List Bool}
   
   
    (hpush : (c.banks bank).buf.push y = .ok buf)
    (htold : (((c.sent y w conn).locked y w b bank buf).record (.addTaskStep y what)).told = c.told) :
    Advances c (((c.sent y w conn).locked y w b bank buf).record (.addTaskStep y what)) y := by
  have hself : (((c.sent y w conn).locked y w b bank buf).record (.addTaskStep y what)).heap y =
      { c.heap y with writeToBottom := some (writeToBottom c w), bankAction := .write, block := some b } := by
    show update (c.sent y w conn).heap y _ y = _
    rw [update_self]
    show ({ (update c.heap y _ y) with bankAction := _, block := _ } : Transaction) = _
    rw [update_self]
  have hother : ∀ x, x ≠ y → (((c.sent y w conn).locked y w b bank buf).record (.addTaskStep y what)).heap x = c.heap x := by
    intro x hx
    show update (c.sent y w conn).heap y _ x = _
    rw [update_of_ne hx]
    exact update_of_ne hx _ _
  refine advances_leave h hpeek htold rfl rfl ⟨rfl, rfl, rfl⟩ (.inr ⟨bank, buf, hpush, rfl⟩) hother ?_ ?_ (.sent ?_ ?_)
  · rw [hself]
  · rw [hself]
  · rw [hself]
    rfl
  · rw [hself]
    exact h.not_flagged hpeek hreq hb

end

end

/-- Outside the directory and the coalescer waves stay in their places, or are finished. -/
theorem Step.shrinks (hs : Step G c k c') (h : Placed c) (hp : k ≠ .process) (hc : k ≠ .coalesce) : Shrinks c c' := by
  have htold : c'.told = c.told := hs.told hc
  have hrefl : ∀ x, Same (c.heap x) (c.heap x) ∧ ((c.heap x).done = true → (c.heap x).done = true) :=
    fun x => ⟨.refl _, fun h => h⟩
  have hunlock : ∀ b pid addr, c.directory.lookup pid addr = .ok none →
      (c.directory.modify b fun b => { b with isLocked := false }).lookup pid addr = .ok none := by
    intro b pid addr hl
    rw [Directory.lookup_modify]
    · exact hl
    · exact fun _ => ⟨rfl, rfl, rfl⟩
  cases hs with
  | ports | dropDone | dropData =>
    exact (.quiet h rfl rfl (fun _ _ hl => hl) rfl (fun _ hx => hx) rfl (fun _ => rfl) (.refl _) rfl hrefl)
  | respond =>
    exact (.quiet h htold rfl (fun _ _ hl => hl) rfl (fun _ hx => hx) rfl (fun _ => rfl) erase_sublist rfl hrefl)
  | writeDone _ y _ hfind hflag =>
    have hm : Marked c (c.finishWrite y) := .of_finishWrite y
    have hy : y ∉ c.dirItems := by
      intro hy
      obtain ⟨-, _, hw, -⟩ := findWrite_eq_some hfind
      rw [(h.begun y hy).1 (by rw [hw]; rfl)] at hflag
      cases hflag
    exact (.finish (y := y) h rfl rfl (fun _ _ hl => hl) rfl rfl rfl hy (fun _ _ hx => hx) (fun _ _ _ _ hx => hx) rfl rfl
      hm.unlike
      fun r hr => markDone_done hr)
  | joinedRead _ y _ _ _ _ _ data =>
    exact (.quiet h rfl rfl (fun _ _ hl => hl) rfl (fun _ hx => hx) rfl (fun _ => rfl) (.refl _) rfl
      (Marked.of_finishRead data _ y).unlike)
  | joinedWrite _ y =>
    exact (.quiet h rfl rfl (fun _ _ hl => hl) rfl (fun _ hx => hx) rfl (fun _ => rfl) (.refl _) rfl
      (Marked.of_finishWrite y).unlike)
  | fill _ _ _ _ _ _ _ _ _ ha _ hdone _ _ hpush => exact shrinks_fill h ha hdone hpush
  | readHitDone i y b _ data hpeek =>
    have hy : y ∉ c.dirItems := fun hy => (h.queued y hy).2.2.1 i (mem_items_of_peek hpeek)
    have hitems := items_popBuf i hpeek
    have hlook : ∀ pid addr, c.directory.lookup pid addr = .ok none →
        (c.directory.modify b fun b => { b with readCount := b.readCount - 1 }).lookup pid addr = .ok none := by
      intro pid addr hl
      rw [Directory.lookup_modify]
      · exact hl
      · exact fun _ => ⟨rfl, rfl, rfl⟩
    have hheap : ∀ x, Same (c.heap x) (markRead data (c.directory.blocks b).tag (c.heap y).preCoalesceTransactions c.heap x) ∧
        ((c.heap x).done = true → (markRead data (c.directory.blocks b).tag (c.heap y).preCoalesceTransactions
          c.heap x).done = true) :=
      (Marked.of_finishRead data (c.directory.blocks b).tag y).unlike
    refine .finish h htold rfl hlook rfl rfl rfl hy (fun j x hx => ?_) (fun x hxy _ j hx => ?_)
      rfl rfl hheap fun r hr => markRead_done hr
    · rw [hitems j]
      exact mem_add.mpr (.inr hx)
    · rw [hitems j] at hx
      exact mem_of_mem_popped hxy hx
  | written _ _ b _ _ _ _ _ hpeek hact =>
    exact (.leaveBank h hpeek (by rw [hact]; decide) rfl rfl (hunlock b) rfl rfl rfl rfl rfl rfl rfl)
  | fetchWritten _ _ b _ hpeek hact =>
    exact (.leaveBank h hpeek (by rw [hact]; decide) rfl rfl (hunlock b) rfl rfl rfl rfl rfl rfl rfl)
  | tickBank i _ _ hitems =>
    refine (.quiet h rfl rfl (fun _ _ hl => hl) rfl (fun _ hx => hx) rfl (fun j => ?_) (.refl _) rfl hrefl)
    by_cases hj : j = i
    · subst hj
      simp only [Cache.modifyBank, update_self, Bank.items, hitems]
    · simp only [Cache.modifyBank, update_of_ne hj]
  | extract i _ _ _ hpeek hitems =>
    refine (.quiet h rfl rfl (fun _ _ hl => hl) rfl (fun _ hx => hx) rfl (fun j => ?_) (.refl _) rfl hrefl)
    by_cases hj : j = i
    · subst hj
      simp only [Cache.modifyBank, update_self, Bank.items, hitems]
      rw [Buffer.peek_eq_some hpeek, ← cons_coe, cons_add, add_cons]
    · simp only [Cache.modifyBank, update_of_ne hj]
  | moveDir _ _ _ dirBuf dirPipeline dirPostBuf hhead hbuf hitems =>
    refine (.quiet h rfl rfl (fun _ _ hl => hl) ?_ (fun x hx => peek_of_prefix hhead hx) rfl (fun _ => rfl) (.refl _) rfl
      hrefl)
    show ↑dirBuf.elements + (dirPipeline.items + ↑dirPostBuf.elements) = c.dirItems
    rw [hitems, Cache.dirItems, hbuf, ← Multiset.coe_add, add_left_comm, add_assoc]
  | joinRead | joinWrite | readHit | fetch | flag | writeBottom | writeHit | invalidate | writeHitAgain | bypass =>
    exact absurd rfl hp
  | park | wave | reset | invalidated => exact absurd rfl hc

theorem Placed.process (h : Placed c) (ht : Told c) (hs : Step G c .process c') : Placed c' := by
  have htold : c'.told = c.told := hs.told (by decide)
  -- what the head does to the heap when it sends its write
  have hsent : ∀ {y : TransRef} {w : WriteReq Bytes Mask} {conn : List Bool},
      (c.sent y w conn).heap y = { c.heap y with writeToBottom := some (writeToBottom c w) } :=
    fun {y w conn} => update_self _ _ _
  have hsent' : ∀ {y x : TransRef} {w : WriteReq Bytes Mask} {conn : List Bool}, x ≠ y →
      (c.sent y w conn).heap x = c.heap x :=
    fun {y x w conn} hxy => update_of_ne hxy _ _
  -- the head has not begun a miss if its line is there
  have hfresh : ∀ {y : TransRef}, c.dirPostBuf.peek = some y → ¬ Waiting c y → (c.heap y).fetchAndWrite = false := by
    intro y hpeek hnot
    by_contra hflag
    exact hnot ((h.begun y (mem_dirItems_of_peek hpeek)).2 (by simpa using hflag))
  cases hs with
  | ports =>
    have hrefl : ∀ x, Same (c.heap x) (c.heap x) ∧ ((c.heap x).done = true → (c.heap x).done = true) :=
      fun x => ⟨.refl _, fun h => h⟩
    exact h.shrinks (.quiet h rfl rfl (fun _ _ hl => hl) rfl (fun _ hx => hx) rfl (fun _ => rfl) (.refl _) rfl hrefl)
  | moveDir _ hk => rcases hk with hk | hk <;> cases hk
  | joinRead y _ _ hpeek _ he =>
    exact h.advances ht (advances_join h hpeek (MSHR.query_eq_some he).1 (h.queued y (mem_dirItems_of_peek hpeek)).2.1
      htold rfl rfl rfl ⟨rfl, rfl, rfl, rfl⟩ (fun _ _ => rfl) ⟨rfl, rfl⟩)
  | joinWrite y _ _ _ hpeek _ he =>
    exact h.advances ht (advances_join h hpeek (MSHR.query_eq_some he).1 (h.queued y (mem_dirItems_of_peek hpeek)).2.1
      htold rfl rfl rfl ⟨rfl, rfl, rfl, rfl⟩ (fun x hx => hsent' hx) ⟨by rw [hsent], by rw [hsent]⟩)
  | readHit y _ _ bank buf hpeek _ _ _ _ _ hpush =>
    refine h.advances ht (advances_leave h hpeek htold rfl rfl ⟨rfl, rfl, rfl⟩ (.inr ⟨bank, buf, hpush, rfl⟩)
      (fun x hx => update_of_ne hx _ _) ?_ ?_ (.hit bank ?_ ?_))
    · exact (congrArg Transaction.preCoalesceTransactions (update_self y _ c.heap)).trans rfl
    · exact (congrArg Transaction.readToBottom (update_self y _ c.heap)).trans rfl
    · show y ∈ (update c.banks bank { c.banks bank with buf } bank).items
      rw [items_push hpush, if_pos rfl]
      exact mem_add.mpr (.inl (Multiset.mem_singleton_self y))
    · exact congrArg Transaction.bankAction (update_self y _ c.heap)
  | fetch _ _ _ _ _ hpeek _ _ _ _ _ _ hadd =>
    exact h.advances ht (advances_fetch h hpeek hadd htold)
  | flag y w hpolicy hpeek hreq hpart hquery hlook =>
    exact h.begins ht hpeek { c.heap y with fetchAndWrite := true } rfl rfl rfl rfl
      ⟨by rw [hreq]; exact hquery, by rw [hreq]; exact hlook⟩ hpolicy
      ⟨w, hreq, hpart⟩ c.bottomPort c.nextID c.log rfl
  | writeBottom y w _ hpeek _ _ _ hflag =>
    have hw := (h.begun y (mem_dirItems_of_peek hpeek)).2 hflag
    exact h.begins ht hpeek { c.heap y with writeToBottom := some (writeToBottom c w) } rfl rfl rfl hflag hw.toAbsent
      hw.policy
      hw.partly _ _ _ htold
  | writeHit _ _ _ _ _ _ _ _ hpeek hreq _ hb _ _ _ hpush =>
    exact h.advances ht (advances_writeHit h hpeek hreq (hb.imp_right fun hb => hb.2.1) hpush htold)
  | invalidate _ _ _ _ _ hpolicy hpeek =>
    have hflag := hfresh hpeek fun hw => by rw [hw.policy] at hpolicy; cases hpolicy
    refine h.advances ht (advances_leave h hpeek htold rfl rfl ⟨rfl, rfl, rfl⟩ (.inl rfl) (fun x hx => hsent' hx) ?_ ?_
      (.sent ?_ ?_))
    · exact (congrArg Transaction.preCoalesceTransactions hsent).trans rfl
    · exact (congrArg Transaction.readToBottom hsent).trans rfl
    · exact (congrArg (fun t => t.writeToBottom.isSome) hsent).trans rfl
    · exact (congrArg Transaction.fetchAndWrite hsent).trans hflag
  | writeHitAgain _ _ _ _ _ _ hpeek hreq hsent hb => exact absurd hb fun hb => (h.waiting hpeek hsent).not_hit hreq hb
  | bypass _ _ _ hpolicy hpeek =>
    have hflag := hfresh hpeek fun hw => hpolicy hw.policy
    refine h.advances ht (advances_leave h hpeek htold rfl rfl ⟨rfl, rfl, rfl⟩ (.inl rfl) (fun x hx => hsent' hx) ?_ ?_
      (.sent ?_ ?_))
    · exact (congrArg Transaction.preCoalesceTransactions hsent).trans rfl
    · exact (congrArg Transaction.readToBottom hsent).trans rfl
    · exact (congrArg (fun t => t.writeToBottom.isSome) hsent).trans rfl
    · exact (congrArg Transaction.fetchAndWrite hsent).trans hflag

theorem Placed.coalesce (h : Placed c) (ht : Told c) (hs : Step G c .coalesce c') : Placed c' := by
  have hrefl : ∀ x, Same (c.heap x) (c.heap x) ∧ ((c.heap x).done = true → (c.heap x).done = true) :=
    fun x => ⟨.refl _, fun h => h⟩
  cases hs with
  | ports =>
    exact h.shrinks (.quiet h rfl rfl (fun _ _ hl => hl) rfl (fun _ hx => hx) rfl (fun _ => rfl) (.refl _) rfl hrefl)
  | moveDir _ hk => rcases hk with hk | hk <;> cases hk
  | park req => exact h.park ht req
  | wave _ _ _ _ _ _ hpush => exact h.wave ht hpush rfl
  | reset =>
    exact h.shrinks (.quiet h rfl rfl (fun _ _ hl => Directory.lookup_reset hl) rfl (fun _ hx => hx) rfl
      (fun _ => rfl) (.refl _) rfl hrefl)
  | invalidated =>
    refine h.shrinks (.quiet h ?_ rfl (fun _ _ hl => hl) rfl (fun _ hx => hx) rfl (fun _ => rfl) (.refl _) rfl hrefl)
    exact told_append c.log [_] fun e he => by rw [List.mem_singleton.mp he]; rfl

/-- **Every step leaves the waves in their places.** -/
theorem Placed.step (h : Placed c) (ht : Told c) (hs : Step G c k c') : Placed c' := by
  by_cases hp : k = .process
  · subst hp
    exact h.process ht hs
  · by_cases hc : k = .coalesce
    · subst hc
      exact h.coalesce ht hs
    · exact h.shrinks (hs.shrinks h hp hc)

end

end Akita.L1
