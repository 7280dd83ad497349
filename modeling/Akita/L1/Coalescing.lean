import Akita.L1.Starvation
import Akita.L1.Waves

/-!
# What coalescing keeps

What the waves of a run say about the requests that came, when reads and writes come and nothing else.

* `WithinLine cfg q` : the request stays within its line;
* `writesAt a q`, `lastWritten a qs` : the byte that a request, or the last of some requests, writes at `a`;
* `Gathers c` : the invariant, `Gathers.step`;
* `tick_ok` : the coalescer does not panic;
* `coalescing_of_reaches` : in every run whose waves are homogeneous, coalescing preserves meaning.
-/

namespace Akita.L1
open Sim Mem Mem.Cache List
open Coalescer (canReqCoalesce coalesceAndSend coalesceWrite createTransaction mergeWrites waveReq)

variable {cfg : Config}

/-! ## Requests -/

structure WithinLine (cfg : Config) (q : AccessReq) : Prop where
  bytes : q.address + q.byteSize ≤ cfg.cacheLineID q.address + cfg.blockSize
  mask : ∀ w, q = .write w → maskFits w.data w.dirtyMask

/-- The byte that a request writes at `a`. -/
def writesAt (a : Nat) : AccessReq → Option UInt8
  | .read _ => none
  | .write w => if covers w.address w.data w.dirtyMask a then some (w.data.getD (a - w.address) 0) else none

/-- The byte that the last of the requests that write at `a` writes there. -/
def lastWritten (a : Nat) (qs : List AccessReq) : Option UInt8 := (qs.filterMap (writesAt a)).getLast?

theorem lastWritten_cons (a : Nat) (q : AccessReq) (qs : List AccessReq) :
    lastWritten a (q :: qs) = (lastWritten a qs).or (writesAt a q) := by
  unfold lastWritten
  cases hq : writesAt a q with
  | none => rw [filterMap_cons_none hq, Option.or_none]
  | some =>
    rw [filterMap_cons_some hq, getLast?_cons]
    cases (qs.filterMap (writesAt a)).getLast? <;> rfl

theorem lastWritten_reads {a : Nat} {qs : List AccessReq} (h : ∀ q ∈ qs, isRead q = true) : lastWritten a qs = none := by
  have hnil : qs.filterMap (writesAt a) = [] := by
    rw [filterMap_eq_nil_iff]
    intro q hq
    have hread := h q hq
    cases q with
    | read => rfl
    | write => cases hread
  rw [lastWritten, hnil]
  rfl

/-! ## The merged write -/

section
variable {heap : TransRef → Transaction} {line : Nat} {rs : List TransRef} {data data' : Bytes} {mask mask' : Mask}

theorem mergeWrites_getD (h : mergeWrites heap line rs (data, mask) = .ok (data', mask'))
    (hline : ∀ r ∈ rs, line ≤ (heap r).req.address) (i : Nat) :
    data'.getD i 0 = (lastWritten (line + i) (rs.map fun r => (heap r).req)).getD (data.getD i 0) ∧
      mask'.getD i false = ((lastWritten (line + i) (rs.map fun r => (heap r).req)).isSome || mask.getD i false) := by
  induction rs generalizing data mask with
  | nil =>
    cases h
    exact ⟨rfl, rfl⟩
  | cons r rs ih =>
    rw [mergeWrites] at h
    have hr := hline r mem_cons_self
    cases hreq : (heap r).req with
    | read => rw [hreq] at h; cases h
    | write w =>
      simp only [hreq] at h hr
      obtain ⟨⟨_, _⟩, hover, h⟩ := eq_ok_of_bind h
      obtain ⟨hbyte, hdirty⟩ := ih h fun r' hr' => hline r' (mem_cons_of_mem _ hr')
      obtain ⟨hd, hk⟩ := overlay_getD hover i
      have haddr : line + (w.address - line) = w.address := Nat.add_sub_cancel' hr
      have hcov : covers w.address w.data w.dirtyMask (line + i) = covers (w.address - line) w.data w.dirtyMask i := by
        rw [← covers_add line (w.address - line), haddr]
      have hsub : line + i - w.address = i - (w.address - line) := by
        have hr : line ≤ w.address := hr
        omega
      have hw : writesAt (line + i) (.write w) =
          if covers (w.address - line) w.data w.dirtyMask i then some (w.data.getD (i - (w.address - line)) 0) else none := by
        rw [writesAt, hcov, hsub]
      rw [map_cons, hreq, lastWritten_cons, hbyte, hdirty, hd, hk, hw]
      cases lastWritten (line + i) (rs.map fun r => (heap r).req) <;> cases covers (w.address - line) w.data w.dirtyMask i <;>
        simp

theorem mergeWrites_ok (hlen : data.length = cfg.blockSize ∧ mask.length = cfg.blockSize)
    (hall : ∀ r ∈ rs, isRead (heap r).req = false ∧ cfg.cacheLineID (heap r).req.address = line ∧
      WithinLine cfg (heap r).req) :
    ∃ acc, mergeWrites heap line rs (data, mask) = .ok acc := by
  induction rs generalizing data mask with
  | nil => exact ⟨_, rfl⟩
  | cons r _ ih =>
    obtain ⟨hkind, hline, hwithin⟩ := hall r mem_cons_self
    rw [mergeWrites]
    cases hreq : (heap r).req with
    | read => rw [hreq] at hkind; cases hkind
    | write w =>
      rw [hreq] at hline hwithin
      have hbytes : w.address + w.data.length ≤ cfg.cacheLineID w.address + cfg.blockSize := hwithin.bytes
      have hle : cfg.cacheLineID w.address ≤ w.address := cacheLineID_le cfg _
      have hline : cfg.cacheLineID w.address = line := hline
      rw [hline] at hbytes hle
      obtain ⟨⟨_, k⟩, hover⟩ := @overlay_ok w.dirtyMask w.data (w.address - line) data mask (by omega)
        (by omega) (hwithin.mask w rfl)
      have hsame := overlay_length hover
      simp only [hover, bind, Except.bind]
      exact ih ⟨hsame.1.trans hlen.1, hsame.2.trans hlen.2⟩ fun r' hr' => hall r' (mem_cons_of_mem _ hr')

end

/-! ## The invariant -/

/-- `fitting` : the requests received stay within their lines; `nonempty` : a wave has requests; `written` : the request of a
wave writes what its requests write, the last one at each byte. -/
structure Gathers (c : Cache cfg) : Prop extends Told c where
  fitting : ∀ r q, .reqReceive r q ∈ c.told → WithinLine cfg q
  nonempty : ∀ x q pre, .startTask x q pre ∈ c.told → pre ≠ []
  written : ∀ x q pre, .startTask x q pre ∈ c.told → ∀ i < cfg.blockSize,
    writesAt (q.address + i) q = lastWritten (q.address + i) (pre.map fun r => (c.heap r).req)

/-- Reads and writes wait at the top port, and nothing at the control port. -/
structure Calm (c : Cache cfg) : Prop where
  top : ∀ top ∈ c.topPort.buf.elements, ∃ req, top = .access req ∧ WithinLine cfg req
  control : c.controlPort.buf.elements = []
  flush : c.currFlushReq = none

section
variable {G : Cache cfg → Call → Prop} {c c' : Cache cfg} {k : Call} {r : TransRef} {rs : List TransRef} {q req : AccessReq}

theorem Gathers.withinLine (h : Gathers c) (hr : r ∈ c.toCoalesce) : WithinLine cfg (c.heap r).req := by
  obtain ⟨q, hq⟩ := h.received_of_parked hr
  rw [h.received r q hq]
  exact h.fitting r q hq

/-- The request of the wave writes what its requests write. -/
theorem Gathers.wave (h : Gathers c) (hwave : c.toCoalesce = r :: rs) (hreq : waveReq c r = .ok req) {i : Nat}
    (hi : i < cfg.blockSize) :
    writesAt (req.address + i) req = lastWritten (req.address + i) (c.toCoalesce.map fun r => (c.heap r).req) := by
  have hr : r ∈ c.toCoalesce := by
    rw [hwave]
    exact mem_cons_self
  have hall := h.parked r hr
  unfold waveReq at hreq
  cases hfirst : (c.heap r).req with
  | read =>
    rw [hfirst] at hreq hall
    cases hreq
    symm
    apply lastWritten_reads
    intro q hq
    obtain ⟨r', hr', rfl⟩ := mem_map.mp hq
    exact (hall r' hr').1.kind.symm
  | write first =>
    rw [hfirst] at hreq hall
    unfold coalesceWrite at hreq
    obtain ⟨⟨data, mask⟩, hmerge, hreq⟩ := eq_ok_of_bind hreq
    cases hreq
    have hline : ∀ r' ∈ c.toCoalesce, (c.heap r').req.pid = first.pid ∧ cfg.cacheLineID first.address ≤
        (c.heap r').req.address := by
      intro r' hr'
      refine ⟨(hall r' hr').1.pid.symm, ?_⟩
      rw [show cfg.cacheLineID first.address = cfg.cacheLineID (c.heap r').req.address from (hall r' hr').2]
      exact cacheLineID_le cfg _
    obtain ⟨hlen, -⟩ := mergeWrites_effects hmerge (by simp) hline
    obtain ⟨hbyte, hdirty⟩ := mergeWrites_getD hmerge (fun r' hr' => (hline r' hr').2) i
    have hzero : (replicate cfg.blockSize false).getD i false = false := by
      rw [getD_eq_getElem?_getD, getElem?_replicate, if_pos hi]
      rfl
    rw [hzero, Bool.or_false] at hdirty
    -- a byte is covered if one of the writes writes it
    have hcov : covers (cfg.cacheLineID first.address) data (some mask) (cfg.cacheLineID first.address + i) =
        mask.getD i false := by
      have hi' : i < data.length := by
        rw [hlen.1, length_replicate]
        exact hi
      simp [covers, hi']
    show writesAt (cfg.cacheLineID first.address + i) (.write _) = lastWritten (cfg.cacheLineID first.address + i) _
    rw [writesAt]
    simp only [hcov, hdirty, Nat.add_sub_cancel_left, hbyte]
    cases lastWritten (cfg.cacheLineID first.address + i) (c.toCoalesce.map fun r => (c.heap r).req) <;> rfl

theorem Gathers.extend (h : Gathers c) (ht : Told c') {es : List Event} (htold : c'.told = c.told ++ es)
    (hsame : ∀ x, x < c.nextRef → (c'.heap x).req = (c.heap x).req) (hfit : ∀ r q, .reqReceive r q ∈ es → WithinLine cfg q)
    (hnew : ∀ x q pre, .startTask x q pre ∈ es → pre ≠ [] ∧ ∀ i < cfg.blockSize,
      writesAt (q.address + i) q = lastWritten (q.address + i) (pre.map fun r => (c'.heap r).req)) : Gathers c' := by
  refine ⟨ht, fun r q hr => ?_, fun x q pre hx => ?_, fun x q pre hx i hi => ?_⟩
  · rw [htold, mem_append] at hr
    rcases hr with hr | hr
    · exact h.fitting r q hr
    · exact hfit r q hr
  · rw [htold, mem_append] at hx
    rcases hx with hx | hx
    · exact h.nonempty x q pre hx
    · exact (hnew x q pre hx).1
  · rw [htold, mem_append] at hx
    rcases hx with hx | hx
    · have hpre : pre.map (fun r => (c'.heap r).req) = pre.map fun r => (c.heap r).req := by
        apply map_congr_left
        intro r hr
        obtain ⟨_, hr'⟩ := h.received_of_pre hx hr
        exact hsame r (h.lt_of_received hr')
      rw [hpre]
      exact h.written x q pre hx i hi
    · exact (hnew x q pre hx).2 i hi

theorem Gathers.of_same (h : Gathers c) (ht : Told c') (htold : c'.told = c.told)
    (hsame : ∀ x, x < c.nextRef → (c'.heap x).req = (c.heap x).req) : Gathers c' :=
  h.extend ht (htold.trans (append_nil _).symm) hsame (fun _ _ hr => absurd hr not_mem_nil)
    (fun _ _ _ hx => absurd hx not_mem_nil)

/-- **Every step keeps the invariant.** -/
theorem Gathers.step (h : Gathers c) (hG : ∀ c k, G c k → Homogeneous c k) (hcalm : Calm c) (hs : Step G c k c') :
    Gathers c' := by
  have ht := h.toTold.step hG hs
  have hsame : ∀ x, x < c.nextRef → (c'.heap x).req = (c.heap x).req := fun x hx => (hs.same_req hx).1
  by_cases hk : k = .coalesce
  · cases hs with
    | ports | reset | moveDir => exact h.of_same ht rfl hsame
    | park req hreq =>
      have hmem : TopReq.access req ∈ c.topPort.buf.elements := mem_of_mem_head? hreq
      obtain ⟨_, heq, hwithin⟩ := hcalm.top _ hmem
      cases heq
      refine h.extend ht (filter_append _ _) hsame (fun r q hr => ?_) fun x q pre hx => ?_
      · cases mem_singleton.mp hr
        exact hwithin
      · cases mem_singleton.mp hx
    | wave r _ req _ hwave hreq =>
      refine h.extend ht (filter_append _ _) hsame (fun r q hr => ?_) fun x q pre hx => ?_
      · cases mem_singleton.mp hr
      · cases mem_singleton.mp hx
        refine ⟨by rw [hwave]; exact cons_ne_nil _ _, fun i hi => ?_⟩
        have hpre : c.toCoalesce.map (fun r =>
            (Function.update c.heap c.nextRef { req, preCoalesceTransactions := c.toCoalesce } r).req) =
            c.toCoalesce.map fun r => (c.heap r).req := by
          apply map_congr_left
          intro r hr
          obtain ⟨_, hr'⟩ := h.received_of_parked hr
          exact hsame r (h.lt_of_received hr')
        rw [hpre]
        exact h.wave hwave hreq hi
    | invalidated =>
      exact h.of_same ht (told_append c.log [_] fun e he => by rw [mem_singleton.mp he]; rfl) hsame
    | _ => cases hk
  · exact h.of_same ht (hs.told hk) hsame

/-- Requests leave the top port, and no step touches the control port. -/
theorem Calm.step (h : Calm c) (hs : Step G c k c') : Calm c' := by
  cases hs with
  | park | invalidated => exact ⟨fun top htop => h.top top (mem_of_mem_tail htop), h.control, h.flush⟩
  | writeHitAgain _ _ _ _ _ _ _ _ _ _ hfinish =>
    rcases finishWriteHit_eq hfinish with ⟨-, rfl⟩ | ⟨-, _, -, rfl⟩ <;> exact ⟨h.top, h.control, h.flush⟩
  | _ => exact ⟨h.top, h.control, h.flush⟩

theorem Calm.ctrlStep (h : Calm c) (hs : CtrlStep c k c') : Calm c' ∧ c'.told = c.told ∧ c'.nextRef = c.nextRef ∧
    c'.toCoalesce = c.toCoalesce ∧ c'.heap = c.heap := by
  cases hs with
  | idle => exact ⟨⟨h.top, h.control, h.flush⟩, rfl, rfl, rfl, rfl⟩
  | start _ hreq =>
    rw [Port.peek, Buffer.peek, h.control] at hreq
    cases hreq
  | restart _ _ _ hreq =>
    rw [Port.peek, Buffer.peek, h.control] at hreq
    cases hreq
  | flush _ _ hreq =>
    rw [h.flush] at hreq
    cases hreq

/-! ## The coalescer does not panic -/

theorem Gathers.waveReq_ok (h : Gathers c) (hwave : c.toCoalesce = r :: rs) : ∃ req, waveReq c r = .ok req := by
  have hr : r ∈ c.toCoalesce := by
    rw [hwave]
    exact mem_cons_self
  have hall := h.parked r hr
  unfold waveReq
  cases hfirst : (c.heap r).req with
  | read => exact ⟨_, rfl⟩
  | write first =>
    rw [hfirst] at hall
    obtain ⟨_, hmerge⟩ := @mergeWrites_ok cfg c.heap (cfg.cacheLineID first.address) c.toCoalesce (replicate cfg.blockSize 0)
      (replicate cfg.blockSize false) ⟨length_replicate .., length_replicate ..⟩
      fun r' hr' => ⟨(hall r' hr').1.kind.symm, (hall r' hr').2.symm, h.withinLine hr'⟩
    simp only [coalesceWrite, hmerge, bind, Except.bind]
    exact ⟨_, rfl⟩

theorem Gathers.coalesceAndSend_ok (h : Gathers c) (hne : c.toCoalesce ≠ []) (hroom : c.dirBuf.canPush = true) :
    ∃ c', coalesceAndSend c = .ok c' := by
  obtain ⟨_, _, hwave⟩ := exists_cons_of_ne_nil hne
  obtain ⟨_, hreq⟩ := h.waveReq_ok hwave
  unfold coalesceAndSend
  simp only [hwave, hreq, bind, Except.bind, Cache.alloc, Buffer.push_of_canPush hroom]
  exact ⟨_, rfl⟩

theorem Gathers.parkAndSend_ok (h : Gathers c) (hcalm : Calm c) (hpeek : c.topPort.peek = some (.access req))
    (hcap : c.transactions.length < cfg.maxNumConcurrentTrans) (hline : canReqCoalesce c req = true)
    (hG : c.toCoalesce = [] ∨ Homogeneous c .coalesce) (hroom : c.dirBuf.canPush = true) :
    ∃ c', coalesceAndSend (createTransaction c req) = .ok c' := by
  have hpark : Gathers (createTransaction c req) := h.step (fun _ _ h => h) hcalm (.park req hpeek hline hcap hG)
  refine hpark.coalesceAndSend_ok ?_ hroom
  exact append_ne_nil_of_right_ne_nil _ (cons_ne_nil _ _)

theorem Gathers.tick_ok (h : Gathers c) (hcalm : Calm c) (hG : Homogeneous c .coalesce) :
    ∃ p c', Coalescer.tick c = .ok (p, c') := by
  unfold Coalescer.tick
  cases hpeek : c.topPort.peek with
  | none => exact ⟨_, _, rfl⟩
  | some top =>
    obtain ⟨req, rfl, -⟩ := hcalm.top top (mem_of_mem_head? hpeek)
    simp only [Coalescer.processReq]
    by_cases hfull : c.transactions.length ≥ cfg.maxNumConcurrentTrans
    · rw [if_pos hfull]
      exact ⟨_, _, rfl⟩
    have hcap := Nat.lt_of_not_le hfull
    have hne : canReqCoalesce c req = false → c.toCoalesce ≠ [] := by
      intro hline hnil
      rw [canReqCoalesce_of_nil hnil] at hline
      cases hline
    rw [if_neg hfull]
    cases hlast : Coalescer.isReqLastInWave req with
    | false =>
      cases hline : canReqCoalesce c req with
      | true => exact ⟨_, _, rfl⟩
      | false =>
        simp only [Bool.false_eq_true, if_false, Coalescer.processReqNoncoalescable]
        cases hroom : c.dirBuf.canPush with
        | false => exact ⟨_, _, rfl⟩
        | true =>
          obtain ⟨c₁, hsend⟩ := h.coalesceAndSend_ok (hne hline) hroom
          simp only [hsend]
          exact ⟨_, _, rfl⟩
    | true =>
      cases hline : canReqCoalesce c req with
      | true =>
        simp only [if_true, Coalescer.processReqLastInWaveCoalescable]
        cases hroom : c.dirBuf.canPush with
        | false => exact ⟨_, _, rfl⟩
        | true =>
          obtain ⟨c₁, hsend⟩ := h.parkAndSend_ok hcalm hpeek hcap hline (.inr hG) hroom
          simp only [hsend]
          exact ⟨_, _, rfl⟩
      | false =>
        simp only [if_true, Bool.false_eq_true, if_false, Coalescer.processReqLastInWaveNoncoalescable]
        cases hroom : c.dirBuf.canPush with
        | false => exact ⟨_, _, rfl⟩
        | true =>
          obtain ⟨c₁, hsend⟩ := h.coalesceAndSend_ok (hne hline) hroom
          have hstep : Step Homogeneous c .coalesce c₁ := coalesceAndSend_step hsend
          have h₁ := h.step (fun _ _ h => h) hcalm hstep
          have hcalm₁ := hcalm.step hstep
          simp only [hsend, bind, Except.bind, if_bnot_true]
          cases hroom₁ : c₁.dirBuf.canPush with
          | false => exact ⟨_, _, rfl⟩
          | true =>
            obtain ⟨_, _, _, _, _, _, _, rfl⟩ := coalesceAndSend_eq hsend
            obtain ⟨_, hsend'⟩ := h₁.parkAndSend_ok hcalm₁ hpeek hcap (canReqCoalesce_of_nil rfl req) (.inl rfl) hroom₁
            simp only [hsend']
            exact ⟨_, _, rfl⟩

/-! ## Runs -/

def Event.request : Event → Option AccessReq
  | .reqReceive _ q => some q
  | _ => none

/-- The requests that the coalescer has taken. -/
def Cache.requests (c : Cache cfg) : List AccessReq := c.log.filterMap Event.request

theorem coalesceAndSend_kept (h : coalesceAndSend c = .ok c') : c'.topPort = c.topPort ∧ c'.requests = c.requests := by
  obtain ⟨_, _, _, _, _, _, _, rfl⟩ := coalesceAndSend_eq h
  refine ⟨rfl, (filterMap_append ..).trans ?_⟩
  exact append_nil _

theorem requests_createTransaction (c : Cache cfg) (req : AccessReq) :
    (createTransaction c req).requests = c.requests ++ [req] := filterMap_append ..

/-- The coalescer takes the requests in the order in which they wait. -/
theorem Coalesced.taken (h : Coalesced c c') (hcalm : Calm c) : ∃ taken : List AccessReq,
    c.topPort.buf.elements = taken.map .access ++ c'.topPort.buf.elements ∧ c'.requests = c.requests ++ taken := by
  have hnone : c.requests = c.requests ++ [] := (append_nil _).symm
  have hhead : ∀ {req}, c.topPort.peek = some (.access req) →
      c.topPort.buf.elements = [req].map .access ++ c.topPort.retrieve.buf.elements := by
    intro req hpeek
    obtain ⟨_, hrest⟩ := head?_eq_some_iff.mp hpeek
    show c.topPort.buf.elements = TopReq.access req :: c.topPort.buf.elements.tail
    rw [hrest]
    rfl
  have hno : ∀ {src pid}, c.topPort.peek ≠ some (.gl0Invalidate src pid) := by
    intro src pid hpeek
    obtain ⟨req, heq, -⟩ := hcalm.top _ (mem_of_mem_head? hpeek)
    cases heq
  cases h with
  | idle => exact ⟨[], rfl, hnone⟩
  | refused _ _ _ hpeek => exact absurd hpeek hno
  | invalidated _ _ _ hpeek => exact absurd hpeek hno
  | parked req hpeek => exact ⟨[req], hhead hpeek, requests_createTransaction c req⟩
  | parkedAlone req _ hpeek _ _ _ _ hsend =>
    obtain ⟨htop, hreqs⟩ := coalesceAndSend_kept hsend
    refine ⟨[req], ?_, ?_⟩
    · rw [hhead hpeek, ← htop]
      rfl
    · rw [requests_createTransaction, hreqs]
  | last req _ hpeek _ _ hsend =>
    obtain ⟨htop, hreqs⟩ := coalesceAndSend_kept hsend
    refine ⟨[req], ?_, ?_⟩
    · rw [hhead hpeek, htop]
      rfl
    · rw [hreqs, requests_createTransaction]
  | lastWaits _ hsend =>
    obtain ⟨htop, hreqs⟩ := coalesceAndSend_kept hsend
    exact ⟨[], by rw [htop]; rfl, hreqs.trans hnone⟩
  | lastAlone req _ _ hpeek _ hsend hsend' =>
    obtain ⟨htop, hreqs⟩ := coalesceAndSend_kept hsend
    obtain ⟨htop', hreqs'⟩ := coalesceAndSend_kept hsend'
    refine ⟨[req], ?_, ?_⟩
    · rw [hhead hpeek, htop', ← htop]
      rfl
    · rw [hreqs', requests_createTransaction, hreqs]

end

/-- Reads and writes within their lines come, and nothing else. A request joins a wave only if it is like those of the
wave. -/
def Rules.alike (cfg : Config) : Rules cfg where
  request top := ∃ req, top = .access req ∧ WithinLine cfg req
  control _ := False
  apply _ _ := True
  call := Homogeneous

theorem gathers_of_reaches {m : Memory} {s : System cfg} {ks : List Call} (h : Reaches (Rules.alike cfg) m s ks) :
    Gathers s.cache ∧ Calm s.cache := by
  -- the ports, the log of the lower level and the IDs do not matter to what has been gathered
  have hsame : ∀ {c c' : Cache cfg}, Gathers c → c'.told = c.told → c'.nextRef = c.nextRef → c'.toCoalesce = c.toCoalesce →
      c'.heap = c.heap → Gathers c' := by
    intro c c' h htold hnext hwave hheap
    have ht := h.toTold.of_same htold (hnext ▸ le_refl _) hwave fun x _ => by rw [hheap]; exact ⟨rfl, rfl⟩
    exact h.of_same ht htold fun x _ => by rw [hheap]
  refine Reaches.invariant (I := fun s => Gathers s.cache ∧ Calm s.cache) ⟨?_, ?_⟩ ?_ (fun s req hs hreq => False.elim hreq)
    ?_ ?_ ?_ ?_ ?_ h
  · exact ⟨told_build, fun _ _ hr => absurd hr not_mem_nil, fun _ _ _ hx => absurd hx not_mem_nil,
      fun _ _ _ hx => absurd hx not_mem_nil⟩
  · exact ⟨forall_mem_nil _, rfl, rfl⟩
  · intro s req hs hreq
    refine ⟨hsame hs.1 rfl rfl rfl rfl, fun top htop => ?_, hs.2.control, hs.2.flush⟩
    rcases mem_append.mp htop with htop | htop
    · exact hs.2.top top htop
    · rw [mem_singleton.mp htop]
      exact hreq
  · intro s top bottom control hs
    exact ⟨hsame hs.1 rfl rfl rfl rfl, hs.2.top, hs.2.control, hs.2.flush⟩
  · intro s k req hs _ _
    refine ⟨hsame hs.1 ?_ rfl rfl rfl, hs.2.top, hs.2.control, hs.2.flush⟩
    exact told_append s.cache.log [_] fun e he => by rw [mem_singleton.mp he]; rfl
  · intro s k rsp hs _
    exact ⟨hsame hs.1 rfl rfl rfl rfl, hs.2.top, hs.2.control, hs.2.flush⟩
  · intro s k c' hs hstep
    exact ⟨hs.1.step (fun _ _ h => h) hs.2 hstep, hs.2.step hstep⟩
  · intro s k c' hs _ hctrl
    obtain ⟨hcalm, htold, hnext, hwave, hheap⟩ := hs.2.ctrlStep hctrl
    exact ⟨hsame hs.1 htold hnext hwave hheap, hcalm⟩

/-- `once`, `order` : each request taken is parked or in one wave, and the waves hold the requests in the order in which they
came; `serves` : the request of a wave has the kind and the process of its requests and covers their bytes; `written` : it
writes what they write, the last one at each byte. -/
structure Coalesces (c : Cache cfg) : Prop where
  once : (c.log.filterMap Event.received).Nodup
  order : c.log.flatMap Event.gathered ++ c.toCoalesce = c.log.filterMap Event.received
  serves : ∀ x q pre, .startTask x q pre ∈ c.log → pre ≠ [] ∧ ∀ r ∈ pre, ∃ q', .reqReceive r q' ∈ c.log ∧
    isRead q = isRead q' ∧
    q.pid = q'.pid ∧ q.address ≤ q'.address ∧ q'.address + q'.byteSize ≤ q.address + q.byteSize
  written : ∀ x q pre, .startTask x q pre ∈ c.log → ∃ qs, List.Forall₂ (fun r q' => .reqReceive r q' ∈ c.log) pre qs ∧
    q.byteSize = cfg.blockSize ∧ ∀ i < cfg.blockSize, writesAt (q.address + i) q = lastWritten (q.address + i) qs

theorem Gathers.coalesces {c : Cache cfg} (h : Gathers c) : Coalesces c := by
  have hpre : ∀ {x q pre r}, .startTask x q pre ∈ c.log → r ∈ pre → .reqReceive r (c.heap r).req ∈ c.log := by
    intro x q pre r hx hr
    obtain ⟨q', hq'⟩ := h.received_of_pre (mem_told_of_started.mpr hx) hr
    rw [h.received r q' hq']
    exact mem_told_of_received.mp hq'
  refine ⟨?_, ?_, fun x q pre hx => ⟨h.nonempty x q pre (mem_told_of_started.mpr hx), fun r hr => ?_⟩, fun x q pre hx => ?_⟩
  · rw [← told_received]
    exact h.received_nodup
  · rw [← told_received, ← told_gathered]
    exact h.gathered
  · have hserves := h.serves x q pre (mem_told_of_started.mpr hx) r hr
    have hwhole := h.whole x q pre (mem_told_of_started.mpr hx)
    have hmem := hpre hx hr
    have hwithin := h.fitting r _ (mem_told_of_received.mpr hmem)
    refine ⟨_, hmem, hserves.alike.kind, hserves.alike.pid, ?_, ?_⟩
    · rw [← hserves.line]
      exact cacheLineID_le cfg _
    · rw [hwhole.size, ← hserves.line]
      exact hwithin.bytes
  · refine ⟨_, ?_, (h.whole x q pre (mem_told_of_started.mpr hx)).size, h.written x q pre (mem_told_of_started.mpr hx)⟩
    rw [forall₂_map_right_iff, forall₂_same]
    exact fun r hr => hpre hx hr

/-- **Coalescing preserves meaning** in every run in which a request joins a wave only if it has the kind and the process of
the requests of the wave; and there the next call of the coalescer, if this is so for it too, does not panic and takes
requests in the order of their arrival. -/
theorem coalescing_of_reaches {m : Memory} {s : System cfg} {ks : List Call} (h : Reaches (Rules.alike cfg) m s ks) :
    Coalesces s.cache ∧ (Homogeneous s.cache .coalesce → ∃ p c', Coalescer.tick s.cache = .ok (p, c') ∧
      ∃ taken : List AccessReq, s.cache.topPort.buf.elements = taken.map .access ++ c'.topPort.buf.elements ∧
      c'.requests = s.cache.requests ++ taken) := by
  obtain ⟨hgathers, hcalm⟩ := gathers_of_reaches h
  refine ⟨hgathers.coalesces, fun hG => ?_⟩
  obtain ⟨p, c', htick⟩ := hgathers.tick_ok hcalm hG
  exact ⟨p, c', htick, (coalesce_cases htick).taken hcalm⟩

/-- A write of one byte by process 1. -/
def writeAt (id : MsgID) (address : Nat) (canWaitForCoalesce : Bool) : AccessReq :=
  .write { id, src := 9, pid := 1, address, data := [5], dirtyMask := none, canWaitForCoalesce }

/-- What is parked is like the request that comes. -/
def LikeHead (c : Cache cfg) (_ : Call) : Prop :=
  (match c.topPort.peek with
    | some (.access req) => c.toCoalesce.all fun r => isRead (c.heap r).req == isRead req && (c.heap r).req.pid == req.pid
    | _ => true) = true

instance (c : Cache cfg) (k : Call) : Decidable (LikeHead c k) := inferInstanceAs (Decidable (_ = true))

theorem LikeHead.homogeneous {c : Cache cfg} {k : Call} (h : LikeHead c k) : Homogeneous c k := by
  cases k with
  | coalesce =>
    intro req hpeek _ _ r hr
    rw [LikeHead, hpeek] at h
    have hlike := all_eq_true.mp h r hr
    rw [Bool.and_eq_true, beq_iff_eq, beq_iff_eq] at hlike
    exact ⟨hlike.1, hlike.2⟩
  | _ => trivial

/-- A wave of two writes has been served; a read is parked, and another comes that can join it. -/
def nextWave : List Input := servedWave (writeAt 7 0 true) (writeAt 8 1 false) ++ parked (readAt 9 0 true) (readAt 10 1 false)

theorem coalescing_of_reaches_wave : let s := play LikeHead nextWave
    s.cache.topPort.outgoing = [.access (.writeDone { dst := 9, respondTo := 7 }),
      .access (.writeDone { dst := 9, respondTo := 8 })] ∧
    s.cache.toCoalesce = [3] ∧ Coalesces s.cache ∧ ∃ p c', Coalescer.tick s.cache = .ok (p, c') ∧ ∃ taken : List AccessReq,
      s.cache.topPort.buf.elements = taken.map .access ++ c'.topPort.buf.elements ∧
      c'.requests = s.cache.requests ++ taken := by
  have hallows : ∀ i ∈ nextWave, (Rules.alike _).Allows i := forall_mem_append.mpr
    ⟨allows_servedWave ⟨_, rfl, by decide, fun _ hw => by cases hw; nofun⟩ ⟨_, rfl, by decide, fun _ hw => by cases hw; nofun⟩
      fun _ _ => trivial, allows_parked ⟨_, rfl, by decide, nofun⟩ ⟨_, rfl, by decide, nofun⟩⟩
  have hc := coalescing_of_reaches (reaches_play (fun _ _ => LikeHead.homogeneous) hallows)
  exact ⟨by decide +kernel, by decide +kernel, hc.1, hc.2 (LikeHead.homogeneous (by decide +kernel))⟩

/-- Two requests come one after the other. -/
def twoRequests (q q' : AccessReq) : List Input :=
  [.connect [true] [true] [true], .request (.access q), .tick, .request (.access q'), .tick]

/-- A write that joins a read of its line becomes part of a read, and a read that joins a write is dereferenced as a write. -/
theorem mixes_kinds :
    (∃ s x rd, (System.init (tiny .writethrough) fun _ _ => 0).run (twoRequests (readAt 7 0 true) (writeAt 8 1 false)) =
      .ok s ∧
      .startTask x (.read rd) [0, 1] ∈ s.cache.log ∧ .reqReceive 1 (writeAt 8 1 false) ∈ s.cache.log) ∧
    (System.init (tiny .writethrough) fun _ _ => 0).run (twoRequests (writeAt 7 0 true) (readAt 8 1 false)) =
      .error nilPointer :=
  ⟨⟨_, 2, _, rfl, mem_cons_of_mem _ (mem_cons_of_mem _ mem_cons_self), mem_cons_of_mem _ mem_cons_self⟩, rfl⟩

end Akita.L1
