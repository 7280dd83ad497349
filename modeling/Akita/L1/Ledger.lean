import Akita.L1.Places

/-!
# What an L1 cache asks of the lower level

* `Cache.initiated` : the requests sent to the lower level, each with the wave it was sent for;
* `AtBottom c c'` : what a step does at the bottom port;
* `Ledger s` : every request sent is under way once or has been answered, and the waves that wait for an answer wait for one
  that is under way.
-/

namespace Akita.L1
open Sim Pipelining Mem Mem.Cache Function
open List hiding getElem?_eq_some_iff map
open L1.System (serve)
open AccessRsp (map respondTo)
open DirectoryStage (popBuf writeToBottom)

variable {cfg : Config}

/-! ## Requests to the lower level -/

def Event.initiated : Event → Option (TransRef × AccessReq)
  | .reqInitiate x q => some (x, q)
  | _ => none

/-- The requests sent to the lower level, in order. -/
def Cache.initiated (c : Cache cfg) : List (TransRef × AccessReq) := c.log.filterMap Event.initiated

/-- The transaction has sent the request. -/
def Transaction.Sent (t : Transaction) : AccessReq → Prop
  | .read rd => t.readToBottom = some rd
  | .write w => t.writeToBottom = some w

/-- `q` is the fetch or the write of a wave with the request `t`. -/
def Asks (cfg : Config) (t : AccessReq) : AccessReq → Prop
  | .read rd => rd.pid = t.pid ∧ rd.address = cfg.cacheLineID t.address ∧ rd.accessByteSize = cfg.blockSize
  | .write w => ∃ w₀, t = .write w₀ ∧ w.pid = w₀.pid ∧ w.address = w₀.address ∧ w.data = w₀.data ∧ w.dirtyMask = w₀.dirtyMask

/-- Nothing is sent. -/
structure Silent (c c' : Cache cfg) : Prop where
  outgoing : c'.bottomPort.outgoing = c.bottomPort.outgoing
  log : c'.initiated = c.initiated
  nextID : c.nextID ≤ c'.nextID
  heap : ∀ x, x < c.nextRef → ∀ q, (c'.heap x).Sent q ↔ (c.heap x).Sent q
  fresh : ∀ x, c.nextRef ≤ x → x < c'.nextRef → ∀ q, ¬ (c'.heap x).Sent q
  flag : ∀ x, x < c.nextRef → (c'.heap x).fetchAndWrite = false → (c.heap x).fetchAndWrite = false

/-- The head `x` of the directory stage sends `q`. -/
structure Sends (c c' : Cache cfg) (x : TransRef) (q : AccessReq) : Prop where
  peek : c.dirPostBuf.peek = some x
  asks : Asks cfg (c.heap x).req q
  id : q.id = c.nextID
  nextID : c'.nextID = c.nextID + 1
  nextRef : c'.nextRef = c.nextRef
  outgoing : c'.bottomPort.outgoing = c.bottomPort.outgoing ++ [q]
  buf : c'.bottomPort.buf = c.bottomPort.buf
  log : c'.initiated = c.initiated ++ [(x, q)]
  unsent : ∀ q', isRead q' = isRead q → ¬ (c.heap x).Sent q'
  self : ∀ q', (c'.heap x).Sent q' ↔ (c.heap x).Sent q' ∨ q' = q
  other : ∀ y, y ≠ x → ∀ q', (c'.heap y).Sent q' ↔ (c.heap y).Sent q'
  flag : ∀ y, (c'.heap y).fetchAndWrite = (c.heap y).fetchAndWrite

/-- The response has the kind of responses to such requests. -/
def IsData : AccessRsp Bytes → Bool
  | .dataReady _ => true
  | .writeDone _ => false

/-- A wave that waits for the answer. -/
structure Awaits (c : Cache cfg) (x : TransRef) (q : AccessReq) : Prop where
  post : x ∈ c.postCoalesceTransactions
  sent : (c.heap x).Sent q
  kind : isRead q = true ∨ (c.heap x).fetchAndWrite = false

inductive AtBottom (c c' : Cache cfg) : Prop
  | quiet (h : Silent c c') (hbuf : c'.bottomPort.buf = c.bottomPort.buf)
  | takes (rsp : AccessRsp Bytes) (h : Silent c c') (hpeek : c.bottomPort.peek = some rsp)
      (hbuf : c'.bottomPort.buf = c.bottomPort.buf.pop)
      (hfound : ∀ x q, Awaits c x q → q.id = rsp.respondTo → isRead q = IsData rsp →
        ∃ x' q', (c.heap x').Sent q' ∧ x' ∈ c.postCoalesceTransactions ∧ isRead q' = isRead q ∧ q'.id = rsp.respondTo ∧
          (x' ∈ c'.postCoalesceTransactions → ¬ Awaits c x' q'))
  | sends (x : TransRef) (q : AccessReq) (h : Sends c c' x q)

/-! ## Every step -/

theorem initiated_append (l es : List Event) (hes : ∀ e ∈ es, e.initiated = none) :
    (l ++ es).filterMap Event.initiated = l.filterMap Event.initiated := by
  have hnil : es.filterMap Event.initiated = [] := filterMap_eq_nil_iff.mpr hes
  rw [filterMap_append, hnil, append_nil]

theorem initiated_concat (l : List Event) {e : Event} (he : e.initiated = none) :
    (l ++ [e]).filterMap Event.initiated = l.filterMap Event.initiated :=
  initiated_append l [e] fun e' he' => by rw [mem_singleton.mp he']; exact he

section
variable {G : Cache cfg → Call → Prop} {c c' : Cache cfg} {k : Call} {x y : TransRef}

theorem Silent.of_heap (hout : c'.bottomPort.outgoing = c.bottomPort.outgoing) (hlog : c'.initiated = c.initiated)
    (hid : c.nextID ≤ c'.nextID) (hnext : c'.nextRef = c.nextRef)
    (hheap : ∀ x, (c'.heap x).readToBottom = (c.heap x).readToBottom ∧ (c'.heap x).writeToBottom = (c.heap x).writeToBottom ∧
      ((c'.heap x).fetchAndWrite = false → (c.heap x).fetchAndWrite = false)) : Silent c c' where
  outgoing := hout
  log := hlog
  nextID := hid
  heap x _ q := by
    cases q with
    | read =>
      unfold Transaction.Sent
      rw [(hheap x).1]
    | write =>
      unfold Transaction.Sent
      rw [(hheap x).2.1]
  fresh x hle hlt := by
    rw [hnext] at hlt
    exact absurd hlt (Nat.not_lt.mpr hle)
  flag x _ := (hheap x).2.2

theorem Silent.of_new {t : Transaction} (hread : t.readToBottom = none) (hwrite : t.writeToBottom = none)
    (hout : c'.bottomPort.outgoing = c.bottomPort.outgoing) (hlog : c'.initiated = c.initiated) (hid : c.nextID ≤ c'.nextID)
    (hnext : c'.nextRef = c.nextRef + 1) (hheap : c'.heap = update c.heap c.nextRef t) : Silent c c' where
  outgoing := hout
  log := hlog
  nextID := hid
  heap x hx q := by rw [hheap, update_of_ne (Nat.ne_of_lt hx)]
  fresh x hle hlt q := by
    rw [hnext] at hlt
    have hx : x = c.nextRef := Nat.le_antisymm (Nat.lt_succ_iff.mp hlt) hle
    rw [hheap, hx, update_self]
    cases q with
    | read =>
      intro hsent
      cases hread.symm.trans hsent
    | write =>
      intro hsent
      cases hwrite.symm.trans hsent
  flag x hx hflag := by rwa [hheap, update_of_ne (Nat.ne_of_lt hx)] at hflag

theorem Sends.of_sent {w : WriteReq Bytes Mask} {conn : List Bool} (hpeek : c.dirPostBuf.peek = some y)
    (hreq : (c.heap y).req = .write w)
    (hunsent : (c.heap y).writeToBottom = none) (hport : c'.bottomPort = (c.sent y w conn).bottomPort)
    (hid : c'.nextID = c.nextID + 1) (hnext : c'.nextRef = c.nextRef)
    (hlog : c'.initiated = (c.sent y w conn).initiated)
    (hheap : ∀ x, (c'.heap x).readToBottom = ((c.sent y w conn).heap x).readToBottom ∧
      (c'.heap x).writeToBottom = ((c.sent y w conn).heap x).writeToBottom ∧
      (c'.heap x).fetchAndWrite = ((c.sent y w conn).heap x).fetchAndWrite) :
    Sends c c' y (.write (writeToBottom c w)) := by
  have hself : (c.sent y w conn).heap y = { c.heap y with writeToBottom := some (writeToBottom c w) } :=
    update_self _ _ _
  have hother : ∀ x, x ≠ y → (c.sent y w conn).heap x = c.heap x := fun x hx => update_of_ne hx _ _
  refine ⟨hpeek, ⟨w, hreq, rfl, rfl, rfl, rfl⟩, rfl, hid,
    hnext, by rw [hport]; rfl, by rw [hport]; rfl, ?_, fun q' hkind hsent => ?_, fun q' => ?_, fun x hx q' => ?_, fun x => ?_⟩
  · rw [hlog]
    exact filterMap_concat Event.initiated c.log _
  · cases q' with
    | read => cases hkind
    | write => cases hunsent.symm.trans hsent
  · cases q' with
    | read rd =>
      show (c'.heap y).readToBottom = some rd ↔ (c.heap y).readToBottom = some rd ∨ _
      rw [(hheap y).1, hself]
      simp
    | write w' =>
      show (c'.heap y).writeToBottom = some w' ↔ (c.heap y).writeToBottom = some w' ∨ _
      rw [(hheap y).2.1, hself, hunsent]
      simp [eq_comm]
  · cases q' with
    | read rd =>
      show (c'.heap x).readToBottom = some rd ↔ (c.heap x).readToBottom = some rd
      rw [(hheap x).1, hother x hx]
    | write w' =>
      show (c'.heap x).writeToBottom = some w' ↔ (c.heap x).writeToBottom = some w'
      rw [(hheap x).2.1, hother x hx]
  · rw [(hheap x).2.2]
    by_cases hx : x = y
    · subst hx
      rw [hself]
    · rw [hother x hx]

theorem Sends.of_fetched {victim : BlockRef} {conn : List Bool} {e : EntryRef} {mshr : MSHR cfg.numMSHREntry TransRef}
    {what : TaskStep} (h : Placed c) (hpeek : c.dirPostBuf.peek = some y) :
    Sends c ((popBuf (c.fetched y victim conn e mshr)).record (.addTaskStep y what)) y (.read (fetchOf c y)) := by
  have hself : (c.fetched y victim conn e mshr).heap y =
      { c.heap y with readToBottom := some (fetchOf c y), block := some victim } := update_self _ _ _
  have hother : ∀ x, x ≠ y → (c.fetched y victim conn e mshr).heap x = c.heap x := fun x hx => update_of_ne hx _ _
  have hunsent := (h.queued y (mem_dirItems_of_peek hpeek)).2.1
  refine ⟨hpeek, ⟨rfl, rfl, rfl⟩, rfl, rfl, rfl, rfl, rfl, ?_, fun q' hkind hsent => ?_, fun q' => ?_,
    fun x hx q' => ?_, fun x => ?_⟩
  · refine (initiated_concat _ rfl).trans ?_
    exact filterMap_concat Event.initiated c.log _
  · cases q' with
    | read => cases hunsent.symm.trans hsent
    | write => cases hkind
  · show ((c.fetched y victim conn e mshr).heap y).Sent q' ↔ _
    rw [hself]
    cases q' with
    | read rd =>
      show some (fetchOf c y) = some rd ↔ (c.heap y).readToBottom = some rd ∨ _
      rw [hunsent]
      simp [eq_comm]
    | write w' =>
      show (c.heap y).writeToBottom = some w' ↔ (c.heap y).writeToBottom = some w' ∨ _
      simp
  · show ((c.fetched y victim conn e mshr).heap x).Sent q' ↔ _
    rw [hother x hx]
  · show ((c.fetched y victim conn e mshr).heap x).fetchAndWrite = _
    by_cases hx : x = y
    · subst hx
      rw [hself]
    · rw [hother x hx]

/-- **What a step does at the bottom port.** -/
theorem Step.atBottom (h : Placed c) (hs : Step G c k c') : AtBottom c c' := by
  have hrefl : ∀ x, (c.heap x).readToBottom = (c.heap x).readToBottom ∧ (c.heap x).writeToBottom = (c.heap x).writeToBottom ∧
      ((c.heap x).fetchAndWrite = false → (c.heap x).fetchAndWrite = false) := fun x => ⟨rfl, rfl, fun h => h⟩
  have hmarked : ∀ {heap}, Marked c { c with heap } → ∀ x, (heap x).readToBottom = (c.heap x).readToBottom ∧
      (heap x).writeToBottom = (c.heap x).writeToBottom ∧
      ((heap x).fetchAndWrite = false → (c.heap x).fetchAndWrite = false) := by
    intro heap hm x
    have hsame := hm.same x
    exact ⟨hsame.readToBottom, hsame.writeToBottom, fun hf => hsame.fetchAndWrite ▸ hf⟩
  -- an update of the head
  have hupdate : ∀ {y : TransRef} {t : Transaction}, t.readToBottom = (c.heap y).readToBottom →
      t.writeToBottom = (c.heap y).writeToBottom →
      (t.fetchAndWrite = false → (c.heap y).fetchAndWrite = false) → ∀ x,
      (update c.heap y t x).readToBottom = (c.heap x).readToBottom ∧
      (update c.heap y t x).writeToBottom = (c.heap x).writeToBottom ∧
      ((update c.heap y t x).fetchAndWrite = false → (c.heap x).fetchAndWrite = false) := by
    intro y t hread hwrite hflag x
    by_cases hx : x = y
    · subst hx
      rw [update_self]
      exact ⟨hread, hwrite, hflag⟩
    · rw [update_of_ne hx]
      exact hrefl x
  -- the head has not sent its write unless it waits for its line
  have hunsent : ∀ {y : TransRef}, c.dirPostBuf.peek = some y → ¬ Waiting c y → (c.heap y).writeToBottom = none := by
    intro y hpeek hnot
    cases hw : (c.heap y).writeToBottom with
    | none => rfl
    | some => exact absurd (h.waiting hpeek (by rw [hw]; rfl)) hnot
  cases hs with
  | ports _ _ _ _ hid => exact .quiet (.of_heap rfl rfl hid rfl hrefl) rfl
  | respond | joinRead | invalidated => exact .quiet (.of_heap rfl (initiated_concat _ rfl) (le_refl _) rfl hrefl) rfl
  | dropDone rsp hrsp hfind =>
    refine .takes _ (.of_heap rfl rfl (le_refl _) rfl hrefl) hrsp rfl fun x q ha hid hkind => ?_
    cases q with
    | read => cases hkind
    | write w =>
      cases hx : BottomParser.findTransactionByWriteToBottomID c rsp.respondTo with
      | none =>
        refine absurd (find?_eq_none.mp hx x ha.post) (not_not_intro ?_)
        rw [show (c.heap x).writeToBottom = some w from ha.sent]
        exact decide_eq_true hid
      | some x' =>
        obtain ⟨hpost, w', hw', hid'⟩ := findWrite_eq_some hx
        refine ⟨x', .write w', hw', hpost, rfl, hid', fun _ ha' => ?_⟩
        rcases ha'.kind with hkind' | hflag
        · cases hkind'
        · rw [hfind x' hx] at hflag
          cases hflag
  | dropData _ hrsp hfind =>
    refine .takes _ (.of_heap rfl rfl (le_refl _) rfl hrefl) hrsp rfl fun x q ha hid hkind => ?_
    cases q with
    | read rd =>
      refine absurd (find?_eq_none.mp hfind x ha.post) (not_not_intro ?_)
      rw [show (c.heap x).readToBottom = some rd from ha.sent]
      exact decide_eq_true hid
    | write => cases hkind
  | writeDone _ y hrsp hfind =>
    obtain ⟨hpost, w', hw', hid'⟩ := findWrite_eq_some hfind
    refine .takes _ (.of_heap rfl rfl (le_refl _) rfl (hmarked (.of_finishWrite y))) hrsp rfl fun x q ha hid hkind => ?_
    cases q with
    | read => cases hkind
    | write => exact ⟨y, .write w', hw', hpost, rfl, hid', fun hmem => absurd rfl (h.postNodup.mem_erase_iff.mp hmem).1⟩
  | joinedRead _ y _ _ _ _ _ data =>
    exact .quiet (.of_heap rfl rfl (le_refl _) rfl (hmarked (.of_finishRead data _ y))) rfl
  | joinedWrite _ y =>
    exact .quiet (.of_heap rfl rfl (le_refl _) rfl (hmarked (.of_finishWrite y))) rfl
  | fill y _ _ e _ _ _ _ _ ha =>
    obtain ⟨hpost, rd', hrd', hid'⟩ := findRead_eq_some ha.find
    refine .takes _ (.of_heap rfl rfl (le_refl _) rfl (hupdate rfl rfl fun h => h)) ha.peek rfl fun x q haw hid hkind => ?_
    cases q with
    | read =>
      refine ⟨y, .read rd', hrd', hpost, rfl, hid', fun hmem => ?_⟩
      have hnodup : (c.postCoalesceTransactions.diff (c.mshr.heap e).requests).Nodup := h.postNodup.diff
      exact absurd rfl (hnodup.mem_erase_iff.mp hmem).1
    | write => cases hkind
  | readHitDone _ y b _ data =>
    exact .quiet (.of_heap rfl rfl (le_refl _) rfl (hmarked (.of_finishRead data (c.directory.blocks b).tag y))) rfl
  | joinWrite y _ _ _ hpeek hreq he =>
    have hfree := hunsent hpeek fun hw => by
      have hnone := hw.query
      rw [hreq] at hnone
      cases hnone.symm.trans he
    exact .sends y _ (.of_sent hpeek hreq hfree rfl rfl rfl (initiated_concat _ rfl) fun x => ⟨rfl, rfl, rfl⟩)
  | readHit =>
    exact .quiet (.of_heap rfl (initiated_concat _ rfl) (le_refl _) rfl (hupdate rfl rfl fun h => h)) rfl
  | fetch y _ _ _ _ hpeek => exact .sends y _ (.of_fetched h hpeek)
  | flag =>
    exact .quiet (.of_heap rfl rfl (le_refl _) rfl (hupdate rfl rfl fun h => by cases h)) rfl
  | writeBottom y _ _ hpeek hreq _ hun =>
    exact .sends y _ (.of_sent hpeek hreq hun rfl rfl rfl rfl fun x => ⟨rfl, rfl, rfl⟩)
  | writeHit y w _ _ conn _ _ _ hpeek hreq _ _ _ _ _ _ hun =>
    refine .sends y _ (.of_sent hpeek hreq hun rfl rfl rfl (initiated_concat _ rfl) fun x => ?_)
    show (update (c.sent y w conn).heap y _ x).readToBottom = _ ∧ (update (c.sent y w conn).heap y _ x).writeToBottom = _ ∧
      (update (c.sent y w conn).heap y _ x).fetchAndWrite = _
    by_cases hx : x = y
    · subst hx
      rw [update_self]
      exact ⟨rfl, rfl, rfl⟩
    · rw [update_of_ne hx]
      exact ⟨rfl, rfl, rfl⟩
  | invalidate y _ _ _ _ _ hpeek hreq _ _ _ _ hun =>
    exact .sends y _ (.of_sent hpeek hreq hun rfl rfl rfl (initiated_concat _ rfl) fun x => ⟨rfl, rfl, rfl⟩)
  | writeHitAgain _ _ _ _ _ _ hpeek hreq hsent hb => exact absurd hb fun hb => (h.waiting hpeek hsent).not_hit hreq hb
  | bypass y _ _ hpolicy hpeek hreq =>
    have hfree := hunsent hpeek fun hw => hpolicy hw.policy
    exact .sends y _ (.of_sent hpeek hreq hfree rfl rfl rfl (initiated_concat _ rfl) fun x => ⟨rfl, rfl, rfl⟩)
  | park => exact .quiet (.of_new rfl rfl rfl (initiated_concat _ rfl) (le_refl _) rfl rfl) rfl
  | wave => exact .quiet (.of_new rfl rfl rfl (initiated_concat _ rfl) (Nat.le_succ _) rfl rfl) rfl
  | _ => exact .quiet (.of_heap rfl rfl (le_refl _) rfl hrefl) rfl

theorem Step.leaves (h : Placed c) (hs : Step G c k c') (hx : x ∈ c.dirItems) :
    x ∈ c'.dirItems ∨ isRead (c.heap x).req = true ∨ ∃ w, (c'.heap x).writeToBottom = some w := by
  -- the head goes, the others stay
  have hpop : ∀ {c₁ : Cache cfg} {y : TransRef}, c.dirPostBuf.peek = some y → c₁.dirItems = (popBuf c).dirItems →
      x ∈ c₁.dirItems ∨ x = y := by
    intro c₁ y hpeek heq
    rw [dirItems_popBuf hpeek] at hx
    rw [heq]
    exact (Multiset.mem_cons.mp hx).symm
  have hsent : ∀ {y : TransRef} {w : WriteReq Bytes Mask} {conn : List Bool},
      ((c.sent y w conn).heap y).writeToBottom = some (writeToBottom c w) :=
    fun {y w conn} => congrArg Transaction.writeToBottom (update_self y _ c.heap)
  cases hs with
  | moveDir _ _ _ dirBuf dirPipeline dirPostBuf _ hbuf hitems =>
    refine .inl ?_
    show x ∈ ↑dirBuf.elements + (dirPipeline.items + ↑dirPostBuf.elements)
    rw [hitems]
    rw [Cache.dirItems, hbuf, ← Multiset.coe_add] at hx
    simp only [Multiset.mem_add] at hx ⊢
    tauto
  | joinRead _ _ _ hpeek hreq =>
    rcases hpop hpeek rfl with hx | rfl
    · exact .inl hx
    · exact .inr (.inl (by rw [hreq]; rfl))
  | joinWrite | invalidate | bypass =>
    rcases hpop ‹_› rfl with hx | rfl
    · exact .inl hx
    · exact .inr (.inr ⟨_, hsent⟩)
  | readHit _ _ _ _ _ hpeek hreq =>
    rcases hpop hpeek rfl with hx | rfl
    · exact .inl hx
    · exact .inr (.inl (by rw [hreq]; rfl))
  | fetch _ _ _ _ _ hpeek hkind =>
    rcases hpop hpeek rfl with hx | rfl
    · exact .inl hx
    · rcases hkind with ⟨_, hreq⟩ | ⟨-, -, hsome⟩
      · exact .inr (.inl (by rw [hreq]; rfl))
      · obtain ⟨w, hw⟩ := Option.isSome_iff_exists.mp hsome
        refine .inr (.inr ⟨w, ?_⟩)
        show (update c.heap x _ x).writeToBottom = _
        rw [update_self]
        exact hw
  | writeHit _ w _ _ conn _ _ _ hpeek =>
    rcases hpop hpeek rfl with hx | rfl
    · exact .inl hx
    · refine .inr (.inr ⟨writeToBottom c w, ?_⟩)
      show (update (c.sent x w conn).heap x _ x).writeToBottom = _
      rw [update_self]
      exact hsent
  | writeHitAgain _ _ _ _ _ _ hpeek hreq hsome hb => exact absurd hb fun hb => (h.waiting hpeek hsome).not_hit hreq hb
  | wave _ _ _ dirBuf _ _ hpush =>
    refine .inl ?_
    unfold Buffer.push at hpush
    split at hpush
    · cases hpush
    · cases hpush
      show x ∈ ↑(c.dirBuf.elements ++ [c.nextRef]) + (c.dirPipeline.items + ↑c.dirPostBuf.elements)
      rw [coe_concat, Multiset.cons_add]
      exact Multiset.mem_cons_of_mem hx
  | _ => exact .inl hx

theorem Step.started (hs : Step G c k c') (hx : Started c' x) : Started c x ∨ (x = c.nextRef ∧ x ∈ c'.dirItems) := by
  obtain ⟨q, pre, hx⟩ := hx
  by_cases hk : k = .coalesce
  · cases hs with
    | park req =>
      have htold : (Coalescer.createTransaction c req).told = c.told ++ [Event.reqReceive c.nextRef req] := filter_append _ _
      rw [htold] at hx
      rcases mem_append.mp hx with hx | hx
      · exact .inl ⟨q, pre, hx⟩
      · cases mem_singleton.mp hx
    | wave _ _ req dirBuf _ _ hpush =>
      have hx : .startTask x q pre ∈ (c.log ++ [Event.startTask c.nextRef req c.toCoalesce]).filter
          fun e => e.allocated.isSome := hx
      rw [filter_append, mem_append] at hx
      rcases hx with hx | hx
      · exact .inl ⟨q, pre, hx⟩
      · cases mem_singleton.mp hx
        refine .inr ⟨rfl, ?_⟩
        unfold Buffer.push at hpush
        split at hpush
        · cases hpush
        · cases hpush
          show c.nextRef ∈ ↑(c.dirBuf.elements ++ [c.nextRef]) + (c.dirPipeline.items + ↑c.dirPostBuf.elements)
          rw [coe_concat, Multiset.cons_add]
          exact Multiset.mem_cons_self _ _
    | invalidated src =>
      have htold : (c.log ++ [Event.invalidated src]).filter (fun e => e.allocated.isSome) = c.told :=
        told_append c.log [_] fun e he => by rw [mem_singleton.mp he]; rfl
      have hx : .startTask x q pre ∈ (c.log ++ [Event.invalidated src]).filter fun e => e.allocated.isSome := hx
      rw [htold] at hx
      exact .inl ⟨q, pre, hx⟩
    | moveDir _ hcall => rcases hcall with h | h <;> cases h <;> cases hk
    | ports | reset => exact .inl ⟨q, pre, hx⟩
    | _ => cases hk
  · rw [hs.told hk] at hx
    exact .inl ⟨q, pre, hx⟩

theorem Step.started_mono (hs : Step G c k c') (hx : Started c x) : Started c' x := by
  obtain ⟨_, hlog, -⟩ := hs.log
  obtain ⟨q, pre, hx⟩ := hx
  refine ⟨q, pre, ?_⟩
  unfold Cache.told
  rw [hlog, filter_append]
  exact mem_append_left _ hx

theorem Told.lt_of_started' (h : Told c) (hx : Started c x) : x < c.nextRef := by
  obtain ⟨_, _, hx⟩ := hx
  exact h.lt_of_started hx

end

/-! ## What is under way -/

/-- The IDs of the requests that the lower level has not applied, and of the answers that have not been processed. -/
def System.inFlight (s : System cfg) : List MsgID :=
  s.cache.bottomPort.outgoing.map AccessReq.id ++ (s.answers ++ s.cache.bottomPort.buf.elements).map respondTo

/-- `applied` : what has been sent is still to be applied, or has been served; `left` : a wave of writes that is past the
directory stage has sent its write. -/
structure Ledger (s : System cfg) : Prop where
  ids : (s.cache.initiated.map fun p => p.2.id).Pairwise (· < ·)
  below : ∀ p ∈ s.cache.initiated, p.2.id < s.cache.nextID
  sent : ∀ x, x < s.cache.nextRef → ∀ q, (s.cache.heap x).Sent q ↔ (x, q) ∈ s.cache.initiated
  asks : ∀ x q, (x, q) ∈ s.cache.initiated → Started s.cache x ∧ Asks cfg (s.cache.heap x).req q
  outgoing : s.cache.bottomPort.outgoing.Sublist (s.cache.initiated.map Prod.snd)
  answers : ∀ rsp ∈ s.answers ++ s.cache.bottomPort.buf.elements, ∃ x q, (x, q) ∈ s.cache.initiated ∧
    rsp.map length = q.answer ∧
    .served q rsp ∈ s.cache.log
  applied : ∀ x q, (x, q) ∈ s.cache.initiated → q ∈ s.cache.bottomPort.outgoing ∨ ∃ rsp, .served q rsp ∈ s.cache.log
  once : s.inFlight.Nodup
  waiting : ∀ x q, Awaits s.cache x q → q.id ∈ s.inFlight
  left : ∀ x, Started s.cache x → x ∉ s.cache.dirItems → isRead (s.cache.heap x).req = false →
    ∃ w, (s.cache.heap x).writeToBottom = some w

theorem respondTo_of_answer {rsp : AccessRsp Bytes} {q : AccessReq} (h : rsp.map length = q.answer) :
    rsp.respondTo = q.id ∧ IsData rsp = isRead q := by
  cases rsp with
  | dataReady =>
    cases q with
    | read =>
      unfold map AccessReq.answer at h
      injection h with h
      injection h with hdst hid hdata
      exact ⟨hid, rfl⟩
    | write => cases h
  | writeDone =>
    cases q with
    | read => cases h
    | write =>
      unfold map AccessReq.answer at h
      injection h with h
      subst h
      exact ⟨rfl, rfl⟩

theorem serve_answer (m : Memory) (q : AccessReq) : (serve m q).1.map length = q.answer := by
  cases q with
  | read => simp [serve, map, AccessReq.answer, Memory.read]
  | write => rfl

section
variable {s : System cfg} {G : Cache cfg → Call → Prop} {c' : Cache cfg} {k : Call} {x x' : TransRef} {q q' : AccessReq}

/-- A request is sent once, and by one wave. -/
theorem Ledger.unique (h : Ledger s) (hx : (x, q) ∈ s.cache.initiated) (hx' : (x', q') ∈ s.cache.initiated)
    (hid : q.id = q'.id) : x = x' ∧ q = q' := by
  have hnodup : (s.cache.initiated.map fun p => p.2.id).Nodup := h.ids.imp Nat.ne_of_lt
  have heq := inj_on_of_nodup_map hnodup hx hx' hid
  exact Prod.mk.inj heq

theorem Ledger.mem_initiated (h : Ledger s) (hq : q ∈ s.cache.bottomPort.outgoing) : ∃ x, (x, q) ∈ s.cache.initiated := by
  obtain ⟨⟨x, _⟩, hmem, rfl⟩ := mem_map.mp (h.outgoing.subset hq)
  exact ⟨x, hmem⟩

theorem Ledger.lt_of_inFlight (h : Ledger s) {id : MsgID} (hid : id ∈ s.inFlight) : id < s.cache.nextID := by
  rcases mem_append.mp hid with hid | hid
  · obtain ⟨q, hq, rfl⟩ := mem_map.mp hid
    obtain ⟨x, hx⟩ := h.mem_initiated hq
    exact h.below _ hx
  · obtain ⟨rsp, hrsp, rfl⟩ := mem_map.mp hid
    obtain ⟨_, _, hx, hq, -⟩ := h.answers rsp hrsp
    rw [(respondTo_of_answer hq).1]
    exact h.below _ hx

theorem Ledger.silent (h : Ledger s) (ht : Told s.cache) (hp : Placed s.cache) (hs : Step G s.cache k c')
    (hq : Silent s.cache c') :
    (∀ x, x < c'.nextRef → ∀ q, (c'.heap x).Sent q ↔ (x, q) ∈ c'.initiated) ∧
    (∀ x q, (x, q) ∈ c'.initiated → Started c' x ∧ Asks cfg (c'.heap x).req q) ∧
    (∀ x, Started c' x → x ∉ c'.dirItems → isRead (c'.heap x).req = false → ∃ w, (c'.heap x).writeToBottom = some w) ∧
    ∀ x q, Awaits c' x q → Awaits s.cache x q := by
  refine ⟨fun x hx q => ?_, fun x q hx => ?_, fun x hx hdir hwrite => ?_, fun x q ha => ?_⟩
  · rw [hq.log]
    by_cases hold : x < s.cache.nextRef
    · rw [hq.heap x hold q]
      exact h.sent x hold q
    · refine ⟨fun hsent => absurd hsent (hq.fresh x (Nat.not_lt.mp hold) hx q), fun hmem => ?_⟩
      exact absurd (ht.lt_of_started' (h.asks x q hmem).1) hold
  · rw [hq.log] at hx
    obtain ⟨hstarted, hasks⟩ := h.asks x q hx
    rw [(hs.same_req (ht.lt_of_started' hstarted)).1]
    exact ⟨hs.started_mono hstarted, hasks⟩
  · rcases hs.started hx with hold | ⟨-, hnew⟩
    · have hlt := ht.lt_of_started' hold
      rw [(hs.same_req hlt).1] at hwrite
      by_cases hd : x ∈ s.cache.dirItems
      · rcases hs.leaves hp hd with hd' | hread | hw
        · exact absurd hd' hdir
        · rw [hwrite] at hread
          cases hread
        · exact hw
      · obtain ⟨w, hw⟩ := h.left x hold hd hwrite
        exact ⟨w, (hq.heap x hlt (.write w)).mpr hw⟩
    · exact absurd hnew hdir
  · have hlt : x < s.cache.nextRef := by
      by_contra hge
      have hlt' : x < c'.nextRef := by
        rcases hs.postCoalesce with hsub | ⟨heq, hnext⟩
        · obtain ⟨_, _, hx⟩ := hp.started x (hsub.subset ha.post)
          exact absurd (ht.lt_of_started hx) hge
        · have hmem := ha.post
          rw [heq, mem_append, mem_singleton] at hmem
          rcases hmem with hmem | rfl
          · exact absurd (ht.lt_of_started' (hp.started x hmem)) hge
          · rw [hnext]
            exact Nat.lt_succ_self _
      exact hq.fresh x (Nat.not_lt.mp hge) hlt' q ha.sent
    refine ⟨?_, (hq.heap x hlt q).mp ha.sent, ha.kind.imp_right (hq.flag x hlt)⟩
    rcases hs.postCoalesce with hsub | ⟨heq, -⟩
    · exact hsub.subset ha.post
    · have hmem := ha.post
      rw [heq, mem_append, mem_singleton] at hmem
      exact hmem.resolve_right fun hxn => absurd hlt (hxn ▸ lt_irrefl _)

theorem Ledger.step (h : Ledger s) (ht : Told s.cache) (hp : Placed s.cache) (hs : Step G s.cache k c') :
    Ledger { s with cache := c' } := by
  have hlog : ∀ e ∈ s.cache.log, e ∈ c'.log := by
    obtain ⟨_, heq, -⟩ := hs.log
    intro e he
    rw [heq]
    exact mem_append_left _ he
  have happlied : ∀ x q, (x, q) ∈ s.cache.initiated → q ∈ s.cache.bottomPort.outgoing ∨ ∃ rsp, .served q rsp ∈ c'.log := by
    intro x q hx
    exact (h.applied x q hx).imp_right fun ⟨rsp, hrsp⟩ => ⟨rsp, hlog _ hrsp⟩
  cases hs.atBottom hp with
  | quiet hq hbuf =>
    obtain ⟨hsent, hasks, hleft, hawaits⟩ := h.silent ht hp hs hq
    have hflight : System.inFlight { s with cache := c' } = s.inFlight := by
      unfold System.inFlight
      rw [hq.outgoing, hbuf]
    refine ⟨by rw [hq.log]; exact h.ids, fun p hmem => ?_, hsent, hasks, ?_, fun rsp hrsp => ?_, fun x q hmem => ?_,
      by rw [hflight]; exact h.once, fun x q ha => ?_, hleft⟩
    · rw [hq.log] at hmem
      exact lt_of_lt_of_le (h.below p hmem) hq.nextID
    · rw [hq.outgoing, hq.log]
      exact h.outgoing
    · rw [hbuf] at hrsp
      rw [hq.log]
      obtain ⟨x, q, hx, hans, hserved⟩ := h.answers rsp hrsp
      exact ⟨x, q, hx, hans, hlog _ hserved⟩
    · rw [hq.log] at hmem
      rw [hq.outgoing]
      exact happlied x q hmem
    · rw [hflight]
      exact h.waiting x q (hawaits x q ha)
  | takes rsp hq hpeek hbuf hfound =>
    obtain ⟨hsent, hasks, hleft, hawaits⟩ := h.silent ht hp hs hq
    have hpop : s.cache.bottomPort.buf.elements = rsp :: c'.bottomPort.buf.elements := by
      rw [hbuf]
      exact Buffer.peek_eq_some hpeek
    have hflight : s.inFlight.Perm (rsp.respondTo :: System.inFlight { s with cache := c' }) := by
      unfold System.inFlight
      rw [hpop, hq.outgoing, map_append, map_cons, map_append, ← append_assoc, ← append_assoc]
      exact perm_middle
    refine ⟨by rw [hq.log]; exact h.ids, fun p hmem => ?_, hsent, hasks, ?_, fun rsp' hrsp' => ?_,
      fun x q hmem => ?_, ?_, fun x q ha => ?_, hleft⟩
    · rw [hq.log] at hmem
      exact lt_of_lt_of_le (h.below p hmem) hq.nextID
    · rw [hq.outgoing, hq.log]
      exact h.outgoing
    · rw [hq.log]
      have hold : rsp' ∈ s.answers ++ s.cache.bottomPort.buf.elements := by
        rw [hpop]
        rcases mem_append.mp hrsp' with hmem | hmem
        · exact mem_append_left _ hmem
        · exact mem_append_right _ (mem_cons_of_mem _ hmem)
      obtain ⟨x, q, hx, hans, hserved⟩ := h.answers rsp' hold
      exact ⟨x, q, hx, hans, hlog _ hserved⟩
    · rw [hq.log] at hmem
      rw [hq.outgoing]
      exact happlied x q hmem
    · exact (nodup_cons.mp (hflight.nodup_iff.mp h.once)).2
    · have haw := hawaits x q ha
      have hmem := hflight.mem_iff.mp (h.waiting x q haw)
      refine (mem_cons.mp hmem).resolve_left fun hid => ?_
      -- the answer finds the wave, and finishes it
      obtain ⟨_, q₀, hx₀, hq₀, -⟩ := h.answers rsp (by rw [hpop]; exact mem_append_right _ mem_cons_self)
      have hlt := ht.lt_of_started' (hp.started x haw.post)
      have hxq := (h.sent x hlt q).mp haw.sent
      obtain ⟨rfl, rfl⟩ := h.unique hxq hx₀ (hid.trans (respondTo_of_answer hq₀).1)
      obtain ⟨x', q', hsent', hpost', _, hid', hgone⟩ := hfound x q haw hid (respondTo_of_answer hq₀).2.symm
      have hlt' := ht.lt_of_started' (hp.started x' hpost')
      obtain ⟨rfl, rfl⟩ := h.unique ((h.sent x' hlt' q').mp hsent') hxq (hid'.trans hid.symm)
      exact hgone ha.post haw
  | sends y q₀ hq =>
    have hydir := mem_dirItems_of_peek hq.peek
    have hystarted := hp.started y (hp.queued y hydir).1
    have hylt := ht.lt_of_started' hystarted
    have hflight : System.inFlight { s with cache := c' } = s.cache.bottomPort.outgoing.map AccessReq.id ++ [q₀.id] ++
        (s.answers ++ s.cache.bottomPort.buf.elements).map respondTo := by
      unfold System.inFlight
      rw [hq.outgoing, hq.buf, map_append]
      rfl
    have hperm : (System.inFlight { s with cache := c' }).Perm (q₀.id :: s.inFlight) := by
      rw [hflight, append_assoc]
      exact perm_middle
    have hpost : ∀ x ∈ c'.postCoalesceTransactions, x ∈ s.cache.postCoalesceTransactions := by
      intro x hx
      rcases hs.postCoalesce with hsub | ⟨-, hnext⟩
      · exact hsub.subset hx
      · exact absurd (hq.nextRef.symm.trans hnext) (Nat.ne_of_lt (Nat.lt_succ_self _))
    refine ⟨?_, fun p hmem => ?_, fun x hx q => ?_, fun x q hmem => ?_, ?_, ?_, fun x q hmem => ?_, ?_, fun x q ha => ?_,
      fun x hx hdir hwrite => ?_⟩
    · show (c'.initiated.map fun p => p.2.id).Pairwise _
      rw [hq.log, map_append, pairwise_append]
      refine ⟨h.ids, pairwise_singleton _ _, fun a ha b hb => ?_⟩
      obtain ⟨p, hmem, rfl⟩ := mem_map.mp ha
      rw [mem_singleton.mp hb]
      show p.2.id < q₀.id
      rw [hq.id]
      exact h.below p hmem
    · rw [hq.log] at hmem
      rw [hq.nextID]
      rcases mem_append.mp hmem with hmem | hmem
      · exact Nat.lt_succ_of_lt (h.below p hmem)
      · rw [mem_singleton.mp hmem]
        exact hq.id ▸ Nat.lt_succ_self _
    · rw [hq.nextRef] at hx
      rw [hq.log, mem_append, mem_singleton, ← h.sent x hx q]
      by_cases hxy : x = y
      · subst hxy
        rw [hq.self q, Prod.mk.injEq]
        simp
      · rw [hq.other x hxy q, Prod.mk.injEq]
        simp [hxy]
    · rw [hq.log, mem_append, mem_singleton] at hmem
      rcases hmem with hmem | heq
      · obtain ⟨hstarted, hasks⟩ := h.asks x q hmem
        rw [(hs.same_req (ht.lt_of_started' hstarted)).1]
        exact ⟨hs.started_mono hstarted, hasks⟩
      · cases heq
        rw [(hs.same_req hylt).1]
        exact ⟨hs.started_mono hystarted, hq.asks⟩
    · rw [hq.outgoing, hq.log, map_append]
      exact h.outgoing.append (List.Sublist.refl _)
    · rw [hq.buf, hq.log]
      intro rsp hrsp
      obtain ⟨x, q, hx, hans, hserved⟩ := h.answers rsp hrsp
      exact ⟨x, q, mem_append_left _ hx, hans, hlog _ hserved⟩
    · rw [hq.log, mem_append, mem_singleton] at hmem
      rw [hq.outgoing]
      rcases hmem with hmem | heq
      · exact (happlied x q hmem).imp_left (mem_append_left _)
      · cases heq
        exact .inl (mem_append_right _ (mem_singleton_self _))
    · refine hperm.nodup_iff.mpr (nodup_cons.mpr ⟨fun hmem => ?_, h.once⟩)
      have hlt := h.lt_of_inFlight hmem
      rw [hq.id] at hlt
      exact lt_irrefl _ hlt
    · refine hperm.mem_iff.mpr (mem_cons.mpr ?_)
      have hflag := ha.kind.imp_right fun hf => (hq.flag x).symm.trans hf
      by_cases hxy : x = y
      · subst hxy
        rcases (hq.self q).mp ha.sent with hsent | rfl
        · exact .inr (h.waiting x q ⟨hpost x ha.post, hsent, hflag⟩)
        · exact .inl rfl
      · exact .inr (h.waiting x q ⟨hpost x ha.post, (hq.other x hxy q).mp ha.sent, hflag⟩)
    · rcases hs.started hx with hold | ⟨-, hnew⟩
      · have hlt := ht.lt_of_started' hold
        rw [(hs.same_req hlt).1] at hwrite
        by_cases hd : x ∈ s.cache.dirItems
        · rcases hs.leaves hp hd with hd' | hread | hw
          · exact absurd hd' hdir
          · rw [hwrite] at hread
            cases hread
          · exact hw
        · obtain ⟨w, hw⟩ := h.left x hold hd hwrite
          by_cases hxy : x = y
          · subst hxy
            exact ⟨w, (hq.self (.write w)).mpr (.inl hw)⟩
          · exact ⟨w, (hq.other x hxy (.write w)).mpr hw⟩
      · exact absurd hnew hdir

theorem Ledger.ports (h : Ledger s) (hheap : c'.heap = s.cache.heap) (hlog : c'.log = s.cache.log)
    (hnext : c'.nextRef = s.cache.nextRef) (hid : c'.nextID = s.cache.nextID)
    (hport : c'.bottomPort.outgoing = s.cache.bottomPort.outgoing ∧ c'.bottomPort.buf = s.cache.bottomPort.buf)
    (hlists : c'.postCoalesceTransactions = s.cache.postCoalesceTransactions) (hdir : c'.dirItems = s.cache.dirItems) :
    Ledger { s with cache := c' } := by
  have hinit : c'.initiated = s.cache.initiated := by rw [Cache.initiated, hlog]; rfl
  have htold : c'.told = s.cache.told := by rw [Cache.told, hlog]; rfl
  have hstarted : ∀ x, Started c' x ↔ Started s.cache x := fun x => by rw [Started, htold]; rfl
  have hflight : System.inFlight { s with cache := c' } = s.inFlight := by
    unfold System.inFlight
    rw [hport.1, hport.2]
  refine ⟨by rw [hinit]; exact h.ids, by rw [hinit, hid]; exact h.below, by rw [hinit, hnext, hheap]; exact h.sent,
    fun x q hx => ?_, by rw [hinit, hport.1]; exact h.outgoing, by rw [hinit, hport.2, hlog]; exact h.answers,
    by rw [hinit, hport.1, hlog]; exact h.applied,
    by rw [hflight]; exact h.once, fun x q ha => ?_,
    fun x hx hd hw => ?_⟩
  · rw [hinit] at hx
    rw [hheap]
    exact (h.asks x q hx).imp_left (hstarted x).mpr
  · rw [hflight]
    exact h.waiting x q ⟨hlists ▸ ha.post, hheap ▸ ha.sent, hheap ▸ ha.kind⟩
  · rw [hheap] at hw ⊢
    exact h.left x ((hstarted x).mp hx) (hdir ▸ hd) hw

theorem Ledger.apply (h : Ledger s) {i : Nat} (hq : s.cache.bottomPort.outgoing[i]? = some q) :
    Ledger
      { cache := { s.cache with
          bottomPort := { s.cache.bottomPort with outgoing := s.cache.bottomPort.outgoing.eraseIdx i }
          log := s.cache.log ++ [Event.served q (serve s.memory q).1] }
        memory := (serve s.memory q).2
        answers := s.answers ++ [(serve s.memory q).1] } := by
  have hlog : (s.cache.log ++ [Event.served q (serve s.memory q).1]).filterMap Event.initiated = s.cache.initiated :=
    initiated_concat _ rfl
  have htold : (s.cache.log ++ [Event.served q (serve s.memory q).1]).filter (fun e => e.allocated.isSome) = s.cache.told :=
    told_append s.cache.log [_] fun e he => by rw [mem_singleton.mp he]; rfl
  have hans := serve_answer s.memory q
  have hperm : (System.inFlight
      { cache := { s.cache with
          bottomPort := { s.cache.bottomPort with outgoing := s.cache.bottomPort.outgoing.eraseIdx i }
          log := s.cache.log ++ [Event.served q (serve s.memory q).1] }
        memory := (serve s.memory q).2
        answers := s.answers ++ [(serve s.memory q).1] }).Perm s.inFlight := by
    obtain ⟨hi, hget⟩ := List.getElem?_eq_some_iff.mp hq
    have hout : s.cache.bottomPort.outgoing.Perm (q :: s.cache.bottomPort.outgoing.eraseIdx i) := by
      rw [← hget]
      exact (getElem_cons_eraseIdx_perm hi).symm
    unfold System.inFlight
    refine List.Perm.trans ?_ ((hout.map AccessReq.id).symm.append_right _)
    show ((s.cache.bottomPort.outgoing.eraseIdx i).map AccessReq.id ++
      ((s.answers ++ [(serve s.memory q).1]) ++ s.cache.bottomPort.buf.elements).map respondTo).Perm _
    rw [append_assoc, map_append, singleton_append, map_cons, (respondTo_of_answer hans).1, map_append,
      map_cons, cons_append, ← append_assoc, ← append_assoc]
    exact perm_middle
  refine ⟨by rw [Cache.initiated, hlog]; exact h.ids, fun p hp => h.below p (by rwa [Cache.initiated, hlog] at hp),
    fun x hx q' => ?_,
    fun x q' hx => ?_, ?_, fun rsp hrsp => ?_, fun x q' hx => ?_, hperm.nodup_iff.mpr h.once,
    fun x q' ha => hperm.mem_iff.mpr ?_, fun x hx => ?_⟩
  · rw [Cache.initiated, hlog]
    exact h.sent x hx q'
  · rw [Cache.initiated, hlog] at hx
    obtain ⟨⟨q₁, pre, hstarted⟩, hasks⟩ := h.asks x q' hx
    refine ⟨⟨q₁, pre, ?_⟩, hasks⟩
    show .startTask x q₁ pre ∈ (s.cache.log ++ [Event.served q (serve s.memory q).1]).filter _
    rw [htold]
    exact hstarted
  · rw [Cache.initiated, hlog]
    exact (eraseIdx_sublist ..).trans h.outgoing
  · rw [Cache.initiated, hlog]
    have hold : rsp ∈ s.answers ++ s.cache.bottomPort.buf.elements → ∃ x q', (x, q') ∈ s.cache.initiated ∧
        rsp.map length = q'.answer ∧ .served q' rsp ∈ s.cache.log ++ [Event.served q (serve s.memory q).1] := by
      intro hmem
      obtain ⟨x, q', hx, hans', hserved⟩ := h.answers rsp hmem
      exact ⟨x, q', hx, hans', mem_append_left _ hserved⟩
    rcases mem_append.mp hrsp with hrsp | hrsp
    · rcases mem_append.mp hrsp with hrsp | hrsp
      · exact hold (mem_append_left _ hrsp)
      · rw [mem_singleton.mp hrsp]
        obtain ⟨x, hx⟩ := h.mem_initiated (mem_of_getElem? hq)
        exact ⟨x, q, hx, hans, mem_append_right _ (mem_singleton_self _)⟩
    · exact hold (mem_append_right _ hrsp)
  · rw [Cache.initiated, hlog] at hx
    by_cases hqq : q' = q
    · subst hqq
      exact .inr ⟨_, mem_append_right _ (mem_singleton_self _)⟩
    · refine (h.applied x q' hx).imp (fun hmem => ?_) fun ⟨rsp, hrsp⟩ => ⟨rsp, mem_append_left _ hrsp⟩
      obtain ⟨i', hi'⟩ := mem_iff_getElem?.mp hmem
      refine mem_eraseIdx_iff_getElem?.mpr ⟨i', fun heq => ?_, hi'⟩
      subst heq
      exact hqq (Option.some.inj (hi'.symm.trans hq))
  · exact h.waiting x q' ⟨ha.post, ha.sent, ha.kind⟩
  · obtain ⟨q₁, pre, hx⟩ := hx
    exact h.left x ⟨q₁, pre, htold ▸ hx⟩

theorem Ledger.deliver (h : Ledger s) {i : Nat} {rsp : AccessRsp Bytes} (hrsp : s.answers[i]? = some rsp) :
    Ledger { s with
      cache := { s.cache with bottomPort := { s.cache.bottomPort with buf := ⟨s.cache.bottomPort.buf.elements ++ [rsp]⟩ } }
      answers := s.answers.eraseIdx i } := by
  have hperm : (s.answers.eraseIdx i ++ (s.cache.bottomPort.buf.elements ++ [rsp])).Perm
      (s.answers ++ s.cache.bottomPort.buf.elements) := by
    obtain ⟨hi, hget⟩ := List.getElem?_eq_some_iff.mp hrsp
    have hans : (rsp :: s.answers.eraseIdx i).Perm s.answers := by
      rw [← hget]
      exact getElem_cons_eraseIdx_perm hi
    rw [← append_assoc]
    exact (perm_append_singleton rsp _).trans (hans.append_right _)
  have hflight : (System.inFlight { s with
      cache := { s.cache with bottomPort := { s.cache.bottomPort with buf := ⟨s.cache.bottomPort.buf.elements ++ [rsp]⟩ } }
      answers := s.answers.eraseIdx i }).Perm s.inFlight := (hperm.map respondTo).append_left _
  exact ⟨h.ids, h.below, h.sent, h.asks, h.outgoing, fun rsp' hmem => h.answers rsp' (hperm.mem_iff.mp hmem), h.applied,
    hflight.nodup_iff.mpr h.once, fun x q ha => hflight.mem_iff.mpr (h.waiting x q ⟨ha.post, ha.sent, ha.kind⟩), h.left⟩

end

/-! ## Runs -/

/-- Nothing comes to the control port. -/
structure Undisturbed (c : Cache cfg) : Prop where
  control : c.controlPort.buf.elements = []
  flush : c.currFlushReq = none

section
variable {G : Cache cfg → Call → Prop} {c c' : Cache cfg} {k : Call}

theorem Undisturbed.step (h : Undisturbed c) (hs : Step G c k c') : Undisturbed c' := by
  cases hs with
  | writeHitAgain _ _ _ _ _ _ _ _ _ _ hfinish =>
    rcases finishWriteHit_eq hfinish with ⟨-, rfl⟩ | ⟨-, _, -, rfl⟩ <;> exact ⟨h.control, h.flush⟩
  | _ => exact ⟨h.control, h.flush⟩

theorem Undisturbed.ctrlStep (h : Undisturbed c) (hs : CtrlStep c k c') :
    ∃ conn, c' = { c with controlPort := { c.controlPort with conn } } := by
  cases hs with
  | idle _ conn => exact ⟨conn, rfl⟩
  | start _ hreq =>
    rw [Port.peek, Buffer.peek, h.control] at hreq
    cases hreq
  | restart _ _ _ hreq =>
    rw [Port.peek, Buffer.peek, h.control] at hreq
    cases hreq
  | flush _ _ hreq =>
    rw [h.flush] at hreq
    cases hreq

end

/-- The waves and what they have asked for, in a run without control requests. -/
structure Tracked (s : System cfg) : Prop where
  told : Told s.cache
  placed : Placed s.cache
  ledger : Ledger s
  undisturbed : Undisturbed s.cache

theorem items_build : (build cfg).dirItems = 0 ∧ ∀ i, ((build cfg).banks i).items = 0 := by
  refine ⟨?_, fun i => ?_⟩
  · unfold Cache.dirItems build
    rw [items_new]
    rfl
  · unfold Bank.items build
    rw [items_new]
    rfl

theorem placed_build : Placed (build cfg) := by
  have hdir : (build cfg).dirItems = 0 := items_build.1
  have hbank : ∀ i, ((build cfg).banks i).items = 0 := items_build.2
  refine ⟨⟨nodup_nil, forall_mem_nil _, forall_mem_nil _⟩, by rw [hdir]; exact Multiset.nodup_zero,
    nodup_nil, forall_mem_nil _, forall_mem_nil _, fun i x hx => ?_, forall_mem_nil _, fun x hx => ?_, fun x hx => ?_,
    forall_mem_nil _, forall_mem_nil _, forall_mem_nil _⟩
  · rw [hbank i] at hx
    exact absurd hx (Multiset.notMem_zero x)
  · rw [hdir] at hx
    exact absurd hx (Multiset.notMem_zero x)
  · rw [hdir] at hx
    exact absurd hx (Multiset.notMem_zero x)

theorem ledger_init (m : Memory) : Ledger (System.init cfg m) := by
  refine ⟨List.Pairwise.nil, forall_mem_nil _, fun x hx => absurd hx (Nat.not_lt_zero x), fun _ _ hx => absurd hx not_mem_nil,
    nil_sublist _, forall_mem_nil _, fun _ _ hx => absurd hx not_mem_nil, nodup_nil,
    fun x q ha => absurd ha.post not_mem_nil, fun x hx => ?_⟩
  obtain ⟨_, _, hx⟩ := hx
  exact absurd hx not_mem_nil

/-- What the ports do, and the lower level, does not move waves. -/
theorem Placed.ports {c c' : Cache cfg} (h : Placed c) (htold : c'.told = c.told) (hmshr : c'.mshr = c.mshr)
    (hdirectory : c'.directory = c.directory)
    (hbuf : c'.dirBuf = c.dirBuf ∧ c'.dirPipeline = c.dirPipeline ∧ c'.dirPostBuf = c.dirPostBuf)
    (hbanks : c'.banks = c.banks)
    (hlists : c'.postCoalesceTransactions = c.postCoalesceTransactions ∧ c'.transactions = c.transactions ∧
      c'.toCoalesce = c.toCoalesce)
    (hheap : c'.heap = c.heap) : Placed c' := by
  refine h.shrinks (.quiet h htold hmshr (fun pid addr hl => by rw [hdirectory]; exact hl) ?_
    (fun x hx => by rw [hbuf.2.2]; exact hx) hlists.1 (fun i => by rw [hbanks]) (by rw [hlists.2.1]) hlists.2.2 fun x => ?_)
  · unfold Cache.dirItems
    rw [hbuf.1, hbuf.2.1, hbuf.2.2]
  · rw [hheap]
    exact ⟨.refl _, fun h => h⟩

/-- What holds at first and is kept by every input and every step of the stages holds in every run without control
requests. -/
theorem Reaches.tracked {R : Rules cfg} (hctrl : ∀ req, ¬ R.control req) (hcall : ∀ c k, R.call c k → Homogeneous c k)
    {m : Memory} {I : System cfg → Prop} (init : I (.init cfg m))
    (request : ∀ s req, Tracked s → I s → R.request req →
      I { s with cache := { s.cache with topPort := { s.cache.topPort with buf := ⟨s.cache.topPort.buf.elements ++ [req]⟩ } }
                   })
    (connect : ∀ s top bottom control, Tracked s → I s → I (s.connect top bottom control))
    (apply : ∀ s k req, Tracked s → I s → R.apply s.cache.bottomPort.outgoing k → s.cache.bottomPort.outgoing[k]? = some req →
      I { cache := { s.cache with
            bottomPort := { s.cache.bottomPort with outgoing := s.cache.bottomPort.outgoing.eraseIdx k }
            log := s.cache.log ++ [Event.served req (serve s.memory req).1] }
          memory := (serve s.memory req).2
          answers := s.answers ++ [(serve s.memory req).1] })
    (deliver : ∀ s k rsp, Tracked s → I s → s.answers[k]? = some rsp →
      I { s with
        cache := { s.cache with bottomPort := { s.cache.bottomPort with buf := ⟨s.cache.bottomPort.buf.elements ++ [rsp]⟩ } }
        answers := s.answers.eraseIdx k })
    (step : ∀ s k c', Tracked s → Told c' → I s → Step R.call s.cache k c' → I { s with cache := c' })
    {s : System cfg} {ks : List Call} (h : Reaches R m s ks) : Tracked s ∧ I s := by
  have htold : ∀ {c c' : Cache cfg}, Told c → c'.told = c.told → c'.nextRef = c.nextRef → c'.toCoalesce = c.toCoalesce →
      c'.heap = c.heap → Told c' := by
    intro c c' h htold hnext hwave hheap
    exact h.of_same htold (hnext ▸ le_refl _) hwave fun x _ => by rw [hheap]; exact ⟨rfl, rfl⟩
  have hconnect : ∀ s top bottom control, Tracked s → Tracked (s.connect top bottom control) := fun s top bottom control ht =>
    ⟨htold ht.told rfl rfl rfl rfl, ht.placed.ports rfl rfl rfl ⟨rfl, rfl, rfl⟩ rfl ⟨rfl, rfl, rfl⟩ rfl,
      ht.ledger.ports rfl rfl rfl rfl ⟨rfl, rfl⟩ rfl rfl, ht.undisturbed.control, ht.undisturbed.flush⟩
  refine Reaches.invariant (I := fun s => Tracked s ∧ I s) ⟨⟨told_build, placed_build, ledger_init m, rfl, rfl⟩, init⟩
    (fun s req hs hreq => ?_)
    (fun s req hs hreq => ?_) (fun s top bottom control hs => ?_) (fun s k req hs hk hreq => ?_) (fun s k rsp hs hrsp => ?_)
    (fun s k c' hs hstep => ?_) (fun s k c' hs hk hctrl => ?_) h
  · obtain ⟨ht, hi⟩ := hs
    exact ⟨⟨htold ht.told rfl rfl rfl rfl, ht.placed.ports rfl rfl rfl ⟨rfl, rfl, rfl⟩ rfl ⟨rfl, rfl, rfl⟩ rfl,
      ht.ledger.ports rfl rfl rfl rfl ⟨rfl, rfl⟩ rfl rfl, ht.undisturbed.control, ht.undisturbed.flush⟩,
        request s req ht hi hreq⟩
  · exact absurd hreq (hctrl req)
  · exact ⟨hconnect s top bottom control hs.1, connect s top bottom control hs.1 hs.2⟩
  · obtain ⟨ht, hi⟩ := hs
    have heq : (s.cache.log ++ [Event.served req (serve s.memory req).1]).filter (fun e => e.allocated.isSome) =
        s.cache.told :=
      told_append s.cache.log [_] fun e he => by rw [mem_singleton.mp he]; rfl
    exact ⟨⟨htold ht.told heq rfl rfl rfl, ht.placed.ports heq rfl rfl ⟨rfl, rfl, rfl⟩ rfl ⟨rfl, rfl, rfl⟩ rfl,
      ht.ledger.apply hreq, ht.undisturbed.control, ht.undisturbed.flush⟩, apply s k req ht hi hk hreq⟩
  · obtain ⟨ht, hi⟩ := hs
    exact ⟨⟨htold ht.told rfl rfl rfl rfl, ht.placed.ports rfl rfl rfl ⟨rfl, rfl, rfl⟩ rfl ⟨rfl, rfl, rfl⟩ rfl,
      ht.ledger.deliver hrsp, ht.undisturbed.control, ht.undisturbed.flush⟩, deliver s k rsp ht hi hrsp⟩
  · obtain ⟨ht, hi⟩ := hs
    have htold' := ht.told.step hcall hstep
    exact ⟨⟨htold', ht.placed.step ht.told hstep, ht.ledger.step ht.told ht.placed hstep, ht.undisturbed.step hstep⟩,
      step s k c' ht htold' hi hstep⟩
  · -- the control stage only uses up what the connection answers
    obtain ⟨conn, rfl⟩ := hs.1.undisturbed.ctrlStep hctrl
    exact ⟨hconnect s s.cache.topPort.conn s.cache.bottomPort.conn conn hs.1,
      connect s s.cache.topPort.conn s.cache.bottomPort.conn conn hs.1 hs.2⟩

end Akita.L1
