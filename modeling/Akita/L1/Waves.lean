import Akita.Multisets
import Akita.L1.Held

/-!
# Requests and their waves

What the log of an L1 cache says about its transactions, when the requests of a wave are alike.

* `Homogeneous` : the coalescer gathers requests of one kind and one process only;
* `Told c` : the transactions recorded are those of the heap, every request is parked or in one wave, and a wave's request is
  its requests merged;
* `Told.step` : every step keeps it.
-/

namespace Akita.L1
open Sim Mem Mem.Cache List Function
open Coalescer (canReqCoalesce createTransaction mergeWrites waveReq)

variable {cfg : Config}

/-! ## Requests -/

def isRead : AccessReq → Bool
  | .read _ => true
  | .write _ => false

/-- Two requests that one wave may hold. -/
structure Alike (q q' : AccessReq) : Prop where
  kind : isRead q = isRead q'
  pid : q.pid = q'.pid

/-- A request that the coalescer takes is like those parked, if it joins them. -/
def Homogeneous (c : Cache cfg) : Call → Prop
  | .coalesce => ∀ req, c.topPort.peek = some (.access req) → c.transactions.length < cfg.maxNumConcurrentTrans →
      canReqCoalesce c req = true → ∀ r ∈ c.toCoalesce, Alike (c.heap r).req req
  | _ => True

/-- What a request does to a memory. -/
def effect (q : AccessReq) (m : Memory) : Memory :=
  match q with
  | .read _ => m
  | .write w => m.write w.pid w.address w.data w.dirtyMask

/-- The effect of the requests of transactions, one after the other. -/
def effects (heap : TransRef → Transaction) (rs : List TransRef) (m : Memory) : Memory :=
  rs.foldl (fun m r => effect (heap r).req m) m

/-- `q` is the request of a wave: it is for a whole line. -/
structure Whole (cfg : Config) (q : AccessReq) : Prop where
  line : cfg.cacheLineID q.address = q.address
  size : q.byteSize = cfg.blockSize
  mask : ∀ w, q = .write w → ∃ mask, w.dirtyMask = some mask ∧ mask.length = cfg.blockSize

/-- `q'` is one of the requests that the wave request `q` was made for. -/
structure Serves (cfg : Config) (q q' : AccessReq) : Prop where
  alike : Alike q q'
  line : cfg.cacheLineID q'.address = q.address

/-! ## The log -/

/-- The event makes a transaction. -/
def Event.allocated : Event → Option TransRef
  | .reqReceive r _ => some r
  | .startTask x _ _ => some x
  | _ => none

def Event.received : Event → Option TransRef
  | .reqReceive r _ => some r
  | _ => none

def Event.gathered : Event → List TransRef
  | .startTask _ _ pre => pre
  | _ => []

/-- The events that make transactions. -/
def Cache.told (c : Cache cfg) : List Event := c.log.filter fun e => e.allocated.isSome

theorem mem_told_of_received {c : Cache cfg} {r : TransRef} {q : AccessReq} :
    .reqReceive r q ∈ c.told ↔ .reqReceive r q ∈ c.log := by
  unfold Cache.told
  rw [mem_filter]
  exact ⟨And.left, fun h => ⟨h, rfl⟩⟩

theorem mem_told_of_started {c : Cache cfg} {x : TransRef} {q : AccessReq} {pre : List TransRef} :
    .startTask x q pre ∈ c.told ↔ .startTask x q pre ∈ c.log := by
  unfold Cache.told
  rw [mem_filter]
  exact ⟨And.left, fun h => ⟨h, rfl⟩⟩

/-- The transactions that events make are those of the heap. -/
structure Told (c : Cache cfg) : Prop where
  order : (c.told.filterMap Event.allocated).Pairwise (· < ·)
  below : ∀ r ∈ c.told.filterMap Event.allocated, r < c.nextRef
  received : ∀ r q, .reqReceive r q ∈ c.told → (c.heap r).req = q
  started : ∀ x q pre, .startTask x q pre ∈ c.told → (c.heap x).req = q ∧ (c.heap x).preCoalesceTransactions = pre
  gathered : c.told.flatMap Event.gathered ++ c.toCoalesce = c.told.filterMap Event.received
  parked : ∀ r ∈ c.toCoalesce, ∀ r' ∈ c.toCoalesce, Alike (c.heap r).req (c.heap r').req ∧
    cfg.cacheLineID (c.heap r).req.address = cfg.cacheLineID (c.heap r').req.address
  whole : ∀ x q pre, .startTask x q pre ∈ c.told → Whole cfg q
  serves : ∀ x q pre, .startTask x q pre ∈ c.told → ∀ r ∈ pre, Serves cfg q (c.heap r).req
  merged : ∀ x q pre, .startTask x q pre ∈ c.told → ∀ m, effect q m = effects c.heap pre m

theorem told_build : Told (build cfg) :=
  ⟨List.Pairwise.nil, forall_mem_nil _, fun _ _ hr => absurd hr not_mem_nil, fun _ _ _ hx => absurd hx not_mem_nil, rfl,
    forall_mem_nil _, fun _ _ _ hx => absurd hx not_mem_nil, fun _ _ _ hx => absurd hx not_mem_nil,
    fun _ _ _ hx => absurd hx not_mem_nil⟩

section
variable {c c' : Cache cfg} {r x : TransRef} {q : AccessReq} {pre : List TransRef}

theorem Told.lt_of_received (h : Told c) (hr : .reqReceive r q ∈ c.told) : r < c.nextRef :=
  h.below r (mem_filterMap.mpr ⟨_, hr, rfl⟩)

theorem Told.lt_of_started (h : Told c) (hx : .startTask x q pre ∈ c.told) : x < c.nextRef :=
  h.below x (mem_filterMap.mpr ⟨_, hx, rfl⟩)

theorem mem_received {es : List Event} (hr : r ∈ es.filterMap Event.received) : ∃ q, .reqReceive r q ∈ es := by
  obtain ⟨e, he, her⟩ := mem_filterMap.mp hr
  cases e with
  | reqReceive _ q =>
    cases her
    exact ⟨q, he⟩
  | _ => cases her

theorem Told.received_of_parked (h : Told c) (hr : r ∈ c.toCoalesce) : ∃ q, .reqReceive r q ∈ c.told := by
  refine mem_received ?_
  rw [← h.gathered]
  exact mem_append_right _ hr

theorem Told.received_of_pre (h : Told c) (hx : .startTask x q pre ∈ c.told) (hr : r ∈ pre) :
    ∃ q, .reqReceive r q ∈ c.told := by
  refine mem_received ?_
  rw [← h.gathered]
  exact mem_append_left _ (mem_flatMap.mpr ⟨_, hx, hr⟩)

/-- Two events that make the same transaction are one. -/
theorem Told.unique (h : Told c) {e e' : Event} (he : e ∈ c.told) (he' : e' ∈ c.told) (hr : e.allocated = some r)
    (hr' : e'.allocated = some r) : e = e' :=
  eq_of_filterMap_nodup (h.order.imp Nat.ne_of_lt) he he' hr hr'

theorem told_received (c : Cache cfg) : c.told.filterMap Event.received = c.log.filterMap Event.received := by
  unfold Cache.told
  rw [filterMap_filter]
  refine filterMap_congr fun e _ => ?_
  cases e <;> rfl

theorem told_gathered (c : Cache cfg) : c.told.flatMap Event.gathered = c.log.flatMap Event.gathered := by
  unfold Cache.told
  induction c.log with
  | nil => rfl
  | cons e _ ih =>
    cases e with
    | startTask _ _ pre => exact congrArg (pre ++ ·) ih
    | _ => exact ih

theorem Told.received_nodup (h : Told c) : (c.told.filterMap Event.received).Nodup := by
  have hsub : (c.told.filterMap Event.received).Sublist (c.told.filterMap Event.allocated) := by
    induction c.told with
    | nil => exact .slnil
    | cons e _ ih =>
      cases e with
      | reqReceive r => exact ih.cons_cons r
      | startTask x => exact ih.cons x
      | _ => exact ih
  exact (h.order.imp Nat.ne_of_lt).sublist hsub

/-- A transaction is not made twice. -/
theorem Told.apart (h : Told c) {q' : AccessReq} (hr : .reqReceive x q ∈ c.told) (hx : .startTask x q' pre ∈ c.told) :
    False := by
  cases h.unique hr hx rfl rfl

end

/-! ## Merged writes -/

/-- The requests of the wave are writes, and the merged data and mask do what they do. -/
theorem mergeWrites_effects {heap : TransRef → Transaction} {line : Nat} {pid : PID} {rs : List TransRef} {data data' : Bytes}
    {mask mask' : Mask} (h : mergeWrites heap line rs (data, mask) = .ok (data', mask')) (hlen : mask.length = data.length)
    (hline : ∀ r ∈ rs, (heap r).req.pid = pid ∧ line ≤ (heap r).req.address) :
    (data'.length = data.length ∧ mask'.length = mask.length) ∧
      ∀ m : Memory, m.write pid line data' (some mask') = effects heap rs (m.write pid line data (some mask)) := by
  induction rs generalizing data mask with
  | nil =>
    cases h
    exact ⟨⟨rfl, rfl⟩, fun m => rfl⟩
  | cons r _ ih =>
    rw [mergeWrites] at h
    have hr := hline r mem_cons_self
    cases hreq : (heap r).req with
    | read => rw [hreq] at h; cases h
    | write w =>
      simp only [hreq] at h hr
      obtain ⟨⟨d, k⟩, hover, h⟩ := eq_ok_of_bind h
      have hacc : d.length = data.length ∧ k.length = mask.length := overlay_length hover
      obtain ⟨⟨_, _⟩, heff⟩ := ih h (by omega) fun r' hr' => hline r' (mem_cons_of_mem _ hr')
      refine ⟨⟨by omega, by omega⟩, fun m => ?_⟩
      rw [heff, Memory.write_overlay hover hlen]
      have haddr : line + (w.address - line) = w.address := Nat.add_sub_cancel' hr.2
      have hpid : w.pid = pid := hr.1
      rw [haddr, effects, effects, foldl_cons, hreq, ← hpid]
      rfl

/-! ## What a step tells -/

theorem blockSize_pos (cfg : Config) : 0 < cfg.blockSize := Nat.two_pow_pos cfg.log2BlockSize

theorem cacheLineID_idem (cfg : Config) (a : Nat) : cfg.cacheLineID (cfg.cacheLineID a) = cfg.cacheLineID a := by
  unfold Config.cacheLineID
  rw [Nat.mul_div_cancel _ (blockSize_pos cfg)]

theorem cacheLineID_le (cfg : Config) (a : Nat) : cfg.cacheLineID a ≤ a := Nat.div_mul_le_self a _

/-- The request of the wave is for the line, and does what its requests do. -/
theorem Told.wave {c : Cache cfg} (h : Told c) {r : TransRef} {rs : List TransRef} {req : AccessReq}
    (hwave : c.toCoalesce = r :: rs) (hreq : waveReq c r = .ok req) :
    Whole cfg req ∧ (∀ r' ∈ c.toCoalesce, Serves cfg req (c.heap r').req) ∧
    ∀ m, effect req m = effects c.heap c.toCoalesce m := by
  have hr : r ∈ c.toCoalesce := by
    rw [hwave]
    exact mem_cons_self
  have hall := h.parked r hr
  unfold waveReq at hreq
  cases hfirst : (c.heap r).req with
  | read =>
    rw [hfirst] at hreq hall
    cases hreq
    refine ⟨⟨cacheLineID_idem cfg _, rfl, fun w hw => by cases hw⟩,
      fun r' hr' => ⟨⟨(hall r' hr').1.kind, (hall r' hr').1.pid⟩, ?_⟩, fun m => ?_⟩
    · exact (hall r' hr').2.symm
    · -- a wave of reads
      have hreads : ∀ l : List TransRef, (∀ r' ∈ l, r' ∈ c.toCoalesce) → effects c.heap l m = m := by
        intro l hl
        induction l with
        | nil => rfl
        | cons r' l ih =>
          have hkind := (hall r' (hl r' mem_cons_self)).1.kind
          have hsame : effect (c.heap r').req m = m := by
            cases hq : (c.heap r').req with
            | read => rfl
            | write =>
              rw [hq] at hkind
              cases hkind
          show effects c.heap l (effect (c.heap r').req m) = m
          rw [hsame]
          exact ih fun r'' hr'' => hl r'' (mem_cons_of_mem _ hr'')
      exact (hreads c.toCoalesce fun _ hr' => hr').symm
  | write first =>
    rw [hfirst] at hreq hall
    unfold Coalescer.coalesceWrite at hreq
    obtain ⟨⟨data, mask⟩, hmerge, hreq⟩ := eq_ok_of_bind hreq
    cases hreq
    have hline : ∀ r' ∈ c.toCoalesce, (c.heap r').req.pid = first.pid ∧ cfg.cacheLineID first.address ≤
        (c.heap r').req.address := by
      intro r' hr'
      refine ⟨(hall r' hr').1.pid.symm, ?_⟩
      have hsame : cfg.cacheLineID first.address = cfg.cacheLineID (c.heap r').req.address := (hall r' hr').2
      rw [hsame]
      exact cacheLineID_le cfg _
    obtain ⟨⟨hdata, hmask⟩, heff⟩ := mergeWrites_effects hmerge (by simp) hline
    rw [length_replicate] at hdata hmask
    refine ⟨⟨cacheLineID_idem cfg _, hdata, fun w hw => ?_⟩, fun r' hr' => ⟨⟨(hall r' hr').1.kind, (hall r' hr').1.pid⟩, ?_⟩,
      fun m => ?_⟩
    · cases hw
      exact ⟨mask, rfl, hmask⟩
    · exact (hall r' hr').2.symm
    · show m.write first.pid (cfg.cacheLineID first.address) data (some mask) = _
      rw [heff, Memory.write_unmasked]

section
variable {G : Cache cfg → Call → Prop} {c c' : Cache cfg} {k : Call} {x : TransRef}

/-- The requests of the transactions that exist stay as they are. -/
theorem Step.same_req (h : Step G c k c') (hx : x < c.nextRef) :
    (c'.heap x).req = (c.heap x).req ∧ (c'.heap x).preCoalesceTransactions = (c.heap x).preCoalesceTransactions := by
  -- an update that keeps them
  have hkeep : ∀ {y : TransRef} {t : Transaction}, t.req = (c.heap y).req →
      t.preCoalesceTransactions = (c.heap y).preCoalesceTransactions →
      (update c.heap y t x).req = (c.heap x).req ∧
        (update c.heap y t x).preCoalesceTransactions = (c.heap x).preCoalesceTransactions := by
    intro y t hreq hpre
    by_cases hxy : x = y
    · subst hxy
      rw [update_self]
      exact ⟨hreq, hpre⟩
    · rw [update_of_ne hxy]
      exact ⟨rfl, rfl⟩
  have hnew : ∀ {t : Transaction}, (update c.heap c.nextRef t x).req = (c.heap x).req ∧
      (update c.heap c.nextRef t x).preCoalesceTransactions = (c.heap x).preCoalesceTransactions := by
    intro t
    rw [update_of_ne (Nat.ne_of_lt hx)]
    exact ⟨rfl, rfl⟩
  have hmarked : ∀ {heap}, Marked c { c with heap } → (heap x).req = (c.heap x).req ∧
      (heap x).preCoalesceTransactions = (c.heap x).preCoalesceTransactions := fun h => ⟨h.req x, h.pre x⟩
  cases h with
  | writeDone _ y => exact hmarked (.of_finishWrite y)
  | joinedRead _ y _ _ _ _ _ data => exact hmarked (.of_finishRead data _ y)
  | joinedWrite _ y => exact hmarked (.of_finishWrite y)
  | fill | joinWrite | readHit | fetch | flag | writeBottom | invalidate | bypass => exact hkeep rfl rfl
  | readHitDone _ y b _ data =>
    exact hmarked (.of_finishRead data (c.directory.blocks b).tag y)
  | writeHit y w _ _ conn =>
    show (update (c.sent y w conn).heap y _ x).req = _ ∧ (update (c.sent y w conn).heap y _ x).preCoalesceTransactions = _
    by_cases hxy : x = y
    · subst hxy
      rw [update_self]
      show ((c.sent x w conn).heap x).req = _ ∧ ((c.sent x w conn).heap x).preCoalesceTransactions = _
      exact hkeep rfl rfl
    · rw [update_of_ne hxy]
      exact hkeep rfl rfl
  | writeHitAgain _ _ _ _ _ _ _ _ _ _ hfinish =>
    rcases finishWriteHit_eq hfinish with ⟨-, rfl⟩ | ⟨-, _, -, rfl⟩
    · exact ⟨rfl, rfl⟩
    · exact hkeep rfl rfl
  | park | wave => exact hnew
  | _ => exact ⟨rfl, rfl⟩

theorem told_append (l es : List Event) (hes : ∀ e ∈ es, e.allocated = none) :
    (l ++ es).filter (fun e => e.allocated.isSome) = l.filter fun e => e.allocated.isSome := by
  have hnil : es.filter (fun e => e.allocated.isSome) = [] := by
    refine filter_eq_nil_iff.mpr fun e he => ?_
    rw [hes e he]
    exact Bool.false_ne_true
  rw [filter_append, hnil, append_nil]

theorem Step.told (h : Step G c k c') (hk : k ≠ .coalesce) : c'.told = c.told := by
  have hnone : ∀ es : List Event, es.Forall (fun e => e.allocated = none) →
      Cache.told { c with log := c.log ++ es } = c.told := by
    intro es hes
    exact told_append c.log es (forall_iff_forall_mem.mp hes)
  cases h with
  | respond | joinRead => exact hnone [_] rfl
  | joinWrite | fetch | writeHit | invalidate | bypass =>
    exact (congrArg _ (append_assoc c.log [_] [_])).trans (hnone [_, _] ⟨rfl, rfl⟩)
  | readHit => exact hnone [_] rfl
  | writeBottom => exact hnone [_] rfl
  | writeHitAgain _ _ _ _ _ _ _ _ _ _ hfinish =>
    rcases finishWriteHit_eq hfinish with ⟨-, rfl⟩ | ⟨-, _, -, rfl⟩ <;> exact hnone [_] rfl
  | park | wave | reset | invalidated => exact absurd rfl hk
  | _ => rfl

theorem effects_congr {heap heap' : TransRef → Transaction} {l : List TransRef} (h : ∀ r ∈ l, (heap' r).req = (heap r).req)
    (m : Memory) : effects heap' l m = effects heap l m := by
  induction l generalizing m with
  | nil => rfl
  | cons r l ih =>
    show effects heap' l (effect (heap' r).req m) = effects heap l (effect (heap r).req m)
    rw [h r mem_cons_self, ih fun r' hr' => h r' (mem_cons_of_mem _ hr')]

theorem Told.extend (h : Told c) {es : List Event} (htold : c'.told = c.told ++ es)
    (horder : (es.filterMap Event.allocated).Pairwise (· < ·))
    (hnew : ∀ r ∈ es.filterMap Event.allocated, c.nextRef ≤ r ∧ r < c'.nextRef) (hnext : c.nextRef ≤ c'.nextRef)
    (hsame : ∀ x, x < c.nextRef → (c'.heap x).req = (c.heap x).req ∧ (c'.heap x).preCoalesceTransactions =
      (c.heap x).preCoalesceTransactions)
    (hreceived : ∀ r q, .reqReceive r q ∈ es → (c'.heap r).req = q)
    (hstarted : ∀ x q pre, .startTask x q pre ∈ es → ((c'.heap x).req = q ∧ (c'.heap x).preCoalesceTransactions = pre) ∧
      Whole cfg q ∧ (∀ r ∈ pre, Serves cfg q (c'.heap r).req) ∧ ∀ m, effect q m = effects c'.heap pre m)
    (hgathered : c'.told.flatMap Event.gathered ++ c'.toCoalesce = c'.told.filterMap Event.received)
    (hparked : ∀ r ∈ c'.toCoalesce, ∀ r' ∈ c'.toCoalesce, Alike (c'.heap r).req (c'.heap r').req ∧
      cfg.cacheLineID (c'.heap r).req.address = cfg.cacheLineID (c'.heap r').req.address) :
    Told c' := by
  have hreq : ∀ {x q pre}, .startTask x q pre ∈ c.told → ∀ r ∈ pre, (c'.heap r).req = (c.heap r).req := by
    intro x q pre hx r hr
    obtain ⟨_, hr'⟩ := h.received_of_pre hx hr
    exact (hsame r (h.lt_of_received hr')).1
  refine ⟨?_, fun r hr => ?_, fun r q hr => ?_, fun x q pre hx => ?_, hgathered, hparked, fun x q pre hx => ?_,
    fun x q pre hx r hr => ?_, fun x q pre hx m => ?_⟩
  · rw [htold, filterMap_append, pairwise_append]
    exact ⟨h.order, horder, fun r hr r' hr' => lt_of_lt_of_le (h.below r hr) (hnew r' hr').1⟩
  · rw [htold, filterMap_append, mem_append] at hr
    rcases hr with hr | hr
    · exact lt_of_lt_of_le (h.below r hr) hnext
    · exact (hnew r hr).2
  · rw [htold, mem_append] at hr
    rcases hr with hr | hr
    · rw [(hsame r (h.lt_of_received hr)).1]
      exact h.received r q hr
    · exact hreceived r q hr
  · rw [htold, mem_append] at hx
    rcases hx with hx | hx
    · rw [(hsame x (h.lt_of_started hx)).1, (hsame x (h.lt_of_started hx)).2]
      exact h.started x q pre hx
    · exact (hstarted x q pre hx).1
  · rw [htold, mem_append] at hx
    rcases hx with hx | hx
    · exact h.whole x q pre hx
    · exact (hstarted x q pre hx).2.1
  · rw [htold, mem_append] at hx
    rcases hx with hx | hx
    · rw [hreq hx r hr]
      exact h.serves x q pre hx r hr
    · exact (hstarted x q pre hx).2.2.1 r hr
  · rw [htold, mem_append] at hx
    rcases hx with hx | hx
    · rw [effects_congr (hreq hx)]
      exact h.merged x q pre hx m
    · exact (hstarted x q pre hx).2.2.2 m

theorem Told.of_same (h : Told c) (htold : c'.told = c.told) (hnext : c.nextRef ≤ c'.nextRef)
    (hwave : c'.toCoalesce = c.toCoalesce)
    (hsame : ∀ x, x < c.nextRef → (c'.heap x).req = (c.heap x).req ∧ (c'.heap x).preCoalesceTransactions =
      (c.heap x).preCoalesceTransactions) :
    Told c' := by
  have hreq : ∀ r ∈ c.toCoalesce, (c'.heap r).req = (c.heap r).req := by
    intro r hr
    obtain ⟨q, hq⟩ := h.received_of_parked hr
    exact (hsame r (h.lt_of_received hq)).1
  refine h.extend (htold.trans (append_nil _).symm) List.Pairwise.nil (forall_mem_nil _) hnext hsame
    (fun _ _ hr => absurd hr not_mem_nil) (fun _ _ _ hx => absurd hx not_mem_nil) ?_ fun r hr r' hr' => ?_
  · rw [htold, hwave]
    exact h.gathered
  · rw [hwave] at hr hr'
    rw [hreq r hr, hreq r' hr']
    exact h.parked r hr r' hr'

theorem Told.park (h : Told c) {req : AccessReq} (halike : ∀ r ∈ c.toCoalesce, Alike (c.heap r).req req)
    (hline : canReqCoalesce c req = true) : Told (createTransaction c req) := by
  have htold : (createTransaction c req).told = c.told ++ [Event.reqReceive c.nextRef req] := by
    show (c.log ++ [Event.reqReceive c.nextRef req]).filter _ = c.log.filter _ ++ [Event.reqReceive c.nextRef req]
    rw [filter_append]
    rfl
  have hheap : (createTransaction c req).heap = update c.heap c.nextRef { req } := rfl
  have hsame : ∀ x, x < c.nextRef → (createTransaction c req).heap x = c.heap x := by
    intro x hx
    rw [hheap, update_of_ne (Nat.ne_of_lt hx)]
  have hself : ((createTransaction c req).heap c.nextRef).req = req := by rw [hheap, update_self]
  refine h.extend htold (pairwise_singleton _ _) (fun r hr => ?_) (Nat.le_succ _)
    (fun x hx => by rw [hsame x hx]; exact ⟨rfl, rfl⟩) (fun r q hr => ?_) (fun x q pre hx => ?_) ?_ ?_
  · rw [mem_singleton.mp hr]
    exact ⟨le_refl _, Nat.lt_succ_self _⟩
  · cases mem_singleton.mp hr
    exact hself
  · cases mem_singleton.mp hx
  · rw [htold, flatMap_append, filterMap_append]
    show c.told.flatMap Event.gathered ++ [] ++ (c.toCoalesce ++ [c.nextRef]) = c.told.filterMap Event.received ++ [c.nextRef]
    rw [append_nil, ← append_assoc, h.gathered]
  · -- the request that comes is like those parked
    have hjoin : ∀ r ∈ c.toCoalesce, Alike (c.heap r).req req ∧ cfg.cacheLineID (c.heap r).req.address =
        cfg.cacheLineID req.address := by
      intro r hr
      refine ⟨halike r hr, ?_⟩
      unfold canReqCoalesce at hline
      cases hwave : c.toCoalesce with
      | nil =>
        rw [hwave] at hr
        exact absurd hr not_mem_nil
      | cons r₀ =>
        rw [hwave] at hline
        have hfirst := (h.parked r hr r₀ (by rw [hwave]; exact mem_cons_self)).2
        rw [hfirst]
        unfold Config.cacheLineID
        rw [eq_of_beq hline]
    have hold : ∀ r ∈ c.toCoalesce, (createTransaction c req).heap r = c.heap r := by
      intro r hr
      obtain ⟨_, hq⟩ := h.received_of_parked hr
      exact hsame r (h.lt_of_received hq)
    intro r hr r' hr'
    have hr : r ∈ c.toCoalesce ++ [c.nextRef] := hr
    have hr' : r' ∈ c.toCoalesce ++ [c.nextRef] := hr'
    rw [mem_append, mem_singleton] at hr hr'
    rcases hr with hr | rfl
    · rw [hold r hr]
      rcases hr' with hr' | rfl
      · rw [hold r' hr']
        exact h.parked r hr r' hr'
      · rw [hself]
        exact hjoin r hr
    · rw [hself]
      rcases hr' with hr' | rfl
      · rw [hold r' hr']
        have hj := hjoin r' hr'
        exact ⟨⟨hj.1.kind.symm, hj.1.pid.symm⟩, hj.2.symm⟩
      · rw [hself]
        exact ⟨⟨rfl, rfl⟩, rfl⟩

theorem Told.send (h : Told c) {r : TransRef} {rs : List TransRef} {req : AccessReq} (hwave : c.toCoalesce = r :: rs)
    (hreq : waveReq c r = .ok req) (hlog : c'.log = c.log ++ [Event.startTask c.nextRef req c.toCoalesce])
    (hnext : c'.nextRef = c.nextRef + 1) (hcoal : c'.toCoalesce = [])
    (hheap : c'.heap = update c.heap c.nextRef { req, preCoalesceTransactions := c.toCoalesce }) : Told c' := by
  obtain ⟨hwhole, hserves, hmerged⟩ := h.wave hwave hreq
  have htold : c'.told = c.told ++ [Event.startTask c.nextRef req c.toCoalesce] := by
    unfold Cache.told
    rw [hlog, filter_append]
    rfl
  have hsame : ∀ x, x < c.nextRef → c'.heap x = c.heap x := by
    intro x hx
    rw [hheap, update_of_ne (Nat.ne_of_lt hx)]
  have hold : ∀ r ∈ c.toCoalesce, (c'.heap r).req = (c.heap r).req := by
    intro r hr
    obtain ⟨q, hq⟩ := h.received_of_parked hr
    rw [hsame r (h.lt_of_received hq)]
  refine h.extend htold (pairwise_singleton _ _) (fun r hr => ?_) (hnext ▸ Nat.le_succ _)
    (fun x hx => by rw [hsame x hx]; exact ⟨rfl, rfl⟩) (fun r q hr => ?_) (fun x q pre hx => ?_) ?_ (fun r hr => ?_)
  · rw [mem_singleton.mp hr, hnext]
    exact ⟨le_refl _, Nat.lt_succ_self _⟩
  · cases mem_singleton.mp hr
  · cases mem_singleton.mp hx
    rw [hheap, update_self]
    refine ⟨⟨rfl, rfl⟩, hwhole, fun r hr => ?_, fun m => ?_⟩
    · rw [← hheap, hold r hr]
      exact hserves r hr
    · rw [← hheap, effects_congr hold]
      exact hmerged m
  · rw [htold, flatMap_append, filterMap_append, hcoal, append_nil]
    show c.told.flatMap Event.gathered ++ (c.toCoalesce ++ []) = c.told.filterMap Event.received ++ []
    rw [append_nil, append_nil, h.gathered]
  · rw [hcoal] at hr
    exact absurd hr not_mem_nil

/-- **Every step keeps what the log tells true.** -/
theorem Told.step (h : Told c) (hG : ∀ c k, G c k → Homogeneous c k) (hs : Step G c k c') : Told c' := by
  by_cases hk : k = .coalesce
  · cases hs with
    | ports | reset | moveDir => exact h.of_same rfl (le_refl _) rfl fun x _ => ⟨rfl, rfl⟩
    | park req hreq hline hcap hpark =>
      refine h.park (fun r hr => ?_) hline
      rcases hpark with hnil | hguard
      · rw [hnil] at hr
        exact absurd hr not_mem_nil
      · exact hG _ _ hguard req hreq hcap hline r hr
    | wave _ _ _ _ hwave hreq => exact h.send hwave hreq rfl rfl rfl rfl
    | invalidated =>
      exact h.of_same (told_append c.log [_] fun e he => by rw [mem_singleton.mp he]; rfl) (le_refl _)
        rfl fun x _ => ⟨rfl, rfl⟩
    | _ => cases hk
  · exact h.of_same (hs.told hk) hs.nextRef_le (hs.toCoalesce hk) fun x hx => hs.same_req hx

end

end Akita.L1
