import Akita.Sim.DirectConnection.Forward

/-!
# What a direct connection delivers

* `Traffic` : a state with what each port has accepted and each component has retrieved. `Op` : a component sends, asks or
  retrieves, a connection is ticked, at any time; in between the engine does what it likes to the schedulers;
* `Traffic.Law` : what holds in every state of every run, and of the runs that begin there;
* `Traffic.simulates` : the runs of the engine are such runs.
-/

namespace Akita.Sim
open Function List

variable {C K P : Type} {sys : System C K P}

namespace State

/-- There is no space in the buffer of a port at its connection. -/
def full (s : State sys) (p : P) : Bool := sys.bufSize p ≤ (s.ends p).buf.length

/-- The port that the next tick looks at first. -/
def first (s : State sys) (k : K) : Option P := ((sys.ports k).rotate (s.nextPortID k)).head?

/-- There is room for the head message of a port. -/
def roomy (s : State sys) (p : P) : Bool := (s.ends p).buf.head?.all fun m => (s.ports m.dst).buf.canPush

end State

structure Traffic (sys : System C K P) where
  state : State sys := {}
  accepted : P → List (Msg P) := fun _ => []
  retrieved : P → List (Msg P) := fun _ => []
  /-- `CanSend` or `Send` refused the port, and it has had no space since -/
  refused : P → Bool := fun _ => false
  ticks : K → Nat := fun _ => 0
  /-- the ticks that looked at the port first, and that had room for its head message -/
  turns : P → Nat := fun _ => 0
  /-- and those that had none -/
  tight : P → Nat := fun _ => 0

inductive Op (sys : System C K P)
  | act (now : ℚ) (a : Action P)
  | tick (k : K) (now : ℚ)
  | engine (clock : Clock sys.tickers) (notified progressed : C → Bool)

variable [DecidableEq C] [DecidableEq K] [DecidableEq P]

/-- What `CanSend` and `Send` refuse. -/
def Action.refuses (s : State sys) (p : P) : Action P → Bool
  | .send _ _ src _ => decide (src = p) && s.full p
  | .canSend q => decide (q = p) && s.full p
  | .retrieve _ => false

namespace Traffic

def act (t : Traffic sys) (now : ℚ) (a : Action P) : Except String (Traffic sys) := do
  let s ← t.state.act now a
  return { t with
    state := s
    accepted := fun p => t.accepted p ++ (s.ends p).buf.drop (t.state.ends p).buf.length
    retrieved := fun p => t.retrieved p ++
      (t.state.ports p).buf.elements.take ((t.state.ports p).buf.elements.length - (s.ports p).buf.elements.length)
    refused := fun p => (t.refused p || a.refuses t.state p) && s.full p }

def tick (t : Traffic sys) (k : K) (now : ℚ) : Except String (Traffic sys) := do
  let (_, s) ← t.state.tick k now
  return { t with
    state := s
    refused := fun p => t.refused p && s.full p
    ticks := update t.ticks k (t.ticks k + 1)
    turns := fun p => t.turns p + if t.state.first k = some p ∧ t.state.roomy p = true then 1 else 0
    tight := fun p => t.tight p + if t.state.first k = some p ∧ t.state.roomy p = false then 1 else 0 }

def step (t : Traffic sys) : Op sys → Except String (Traffic sys)
  | .act now a => t.act now a
  | .tick k now => t.tick k now
  | .engine clock notified progressed => .ok { t with state := { t.state with clock, notified, progressed } }

def run (t : Traffic sys) (ops : List (Op sys)) : Except String (Traffic sys) := ops.foldlM step t

/-- The messages of a source that its connection has delivered. -/
def delivered (t : Traffic sys) (p : P) : Nat := (t.accepted p).length - (t.state.ends p).buf.length

structure Inv (t : Traffic sys) : Prop where
  carried : t.state.Carried t.accepted t.retrieved
  waits : ∀ p, t.refused p = true → (t.state.ends p).busy = true ∧ t.state.full p = true
  next : ∀ k, sys.ports k ≠ [] → t.state.nextPortID k < (sys.ports k).length

end Traffic

/-! ## The components -/

namespace State

variable {s s' : State sys} {now : ℚ} {a : Action P}

/-- What an action of a component does to the buffers. -/
structure Acted (a : Action P) (s s' : State sys) : Prop where
  ends : ∀ p, ∃ new, (s'.ends p).buf = (s.ends p).buf ++ new ∧ (new ≠ [] → s.full p = false ∧ new.length = 1) ∧
    ∀ m ∈ new, m.src = p ∧ sys.conn m.dst = sys.conn p ∧ m.dst ≠ p ∧ m.plain = m
  busy : ∀ p, (s.ends p).busy = true ∨ a.refuses s p = true → (s'.ends p).busy = true
  ports : ∀ d, ∃ old, (s.ports d).buf.elements = old ++ (s'.ports d).buf.elements
  nextPortID : s'.nextPortID = s.nextPortID

variable {p : P}

omit [DecidableEq C] [DecidableEq K] in
/-- A port that is refused is marked. -/
theorem Acted.mark (hp : ∀ q, a.refuses s q = true → q = p) :
    Acted a s { s with ends := update s.ends p { s.ends p with busy := true } } := by
  refine ⟨fun q => ⟨[], ?_, fun h => absurd rfl h, forall_mem_nil _⟩, fun q hq => ?_, fun d => ⟨[], rfl⟩, rfl⟩
  · rw [append_nil]
    exact buf_busy s.ends p q true
  · change (update s.ends p { s.ends p with busy := true } q).busy = true
    by_cases hqp : q = p
    · subst hqp
      rw [update_self]
    · rw [update_of_ne hqp]
      exact hq.resolve_right fun hr => hqp (hp q hr)

omit [DecidableEq C] [DecidableEq K] in
theorem Acted.idle (hr : ∀ p, a.refuses s p = false) : Acted a s s := by
  refine ⟨fun p => ⟨[], (append_nil _).symm, fun h => absurd rfl h, forall_mem_nil _⟩, fun p hp => ?_,
    fun d => ⟨[], rfl⟩, rfl⟩
  refine hp.resolve_right fun h => ?_
  rw [hr p] at h
  cases h

theorem Acted.send {id : Nat} {src dst : P} (h : s.send p { id, src, dst, sendTime := now } = .ok s') :
    Acted (.send p id src dst) s s' := by
  unfold State.send at h
  split at h
  · cases h
  next hconn =>
  obtain ⟨hsrc, hdst⟩ : sys.conn src = sys.conn p ∧ sys.conn dst = sys.conn p := by tauto
  split at h
  · cases h
  next hne =>
  have hmine : ∀ q, Action.refuses s q (.send p id src dst) = true → q = src ∧ s.full q = true := by
    intro q hq
    obtain ⟨hsrc, hfull⟩ := Bool.and_eq_true_iff.mp hq
    exact ⟨(of_decide_eq_true hsrc).symm, hfull⟩
  simp only at h
  split at h
  · cases h
    exact Acted.mark fun q hq => (hmine q hq).1
  · next hroom =>
    obtain ⟨_, rfl, -⟩ := notifyAvailable_eq h
    have hspace : s.full src = false := decide_eq_false hroom
    refine ⟨fun q => ?_, fun q hq => ?_, fun d => ⟨[], rfl⟩, rfl⟩
    · change ∃ new, (update s.ends src _ q).buf = _ ∧ _
      by_cases hq : q = src
      · subst hq
        rw [update_self]
        refine ⟨[_], rfl, fun _ => ⟨hspace, rfl⟩, fun m hm => ?_⟩
        rw [mem_singleton.mp hm]
        exact ⟨rfl, hdst.trans hsrc.symm, Ne.symm hne, rfl⟩
      · rw [update_of_ne hq]
        exact ⟨[], (append_nil _).symm, fun h => absurd rfl h, forall_mem_nil _⟩
    · have hbusy : (s.ends q).busy = true := by
        refine hq.resolve_right fun hr => ?_
        obtain ⟨rfl, hfull⟩ := hmine q hr
        rw [hspace] at hfull
        cases hfull
      change (update s.ends src _ q).busy = true
      by_cases hqs : q = src
      · subst hqs
        rw [update_self]
        exact hbusy
      · rw [update_of_ne hqs]
        exact hbusy

omit [DecidableEq C] [DecidableEq K] in
theorem Acted.canSend (p : P) : Acted (.canSend p) s (s.canSend p) := by
  unfold State.canSend
  simp only
  split
  · next hroom =>
    refine Acted.idle fun q => ?_
    by_cases hq : p = q
    · subst hq
      exact Bool.and_eq_false_iff.mpr (.inr (decide_eq_false (by omega)))
    · exact Bool.and_eq_false_iff.mpr (.inl (decide_eq_false hq))
  · exact Acted.mark fun q hq => (of_decide_eq_true (Bool.and_eq_true_iff.mp hq).1).symm

theorem Acted.retrieve (h : s.retrieve p now = .ok s') : Acted (.retrieve p) s s' := by
  unfold State.retrieve at h
  simp only at h
  split at h
  · cases h
    exact Acted.idle fun _ => rfl
  next msg hpeek =>
  have hpop : Acted (.retrieve p) s
      { s with ports := update s.ports p { buf := (s.ports p).buf.pop, portBusy := false } } := by
    refine ⟨fun q => ⟨[], (append_nil _).symm, fun h => absurd rfl h, forall_mem_nil _⟩, fun q hq => ?_, fun d => ?_, rfl⟩
    · exact hq.resolve_right Bool.false_ne_true
    · change ∃ old, (s.ports d).buf.elements = old ++ (update s.ports p _ d).buf.elements
      by_cases hd : d = p
      · subst hd
        rw [update_self, Buffer.peek_eq_some hpeek]
        exact ⟨[msg], rfl⟩
      · rw [update_of_ne hd]
        exact ⟨[], rfl⟩
  split at h
  · obtain ⟨_, rfl, -⟩ := notifyAvailable_eq h
    exact ⟨hpop.ends, hpop.busy, hpop.ports, rfl⟩
  · cases h
    exact hpop

theorem Acted.of_act (h : s.act now a = .ok s') : Acted a s s' := by
  cases a with
  | send => exact Acted.send h
  | canSend p =>
    cases h
    exact Acted.canSend p
  | retrieve => exact Acted.retrieve h

theorem Swept.tick {k : K} {progress : Bool} (h : s.tick k now = .ok (progress, s')) :
    ∃ t, Swept ((sys.ports k).rotate (s.nextPortID k)) s t ∧
      s' = { t with nextPortID := update s.nextPortID k ((s.nextPortID k + 1) % (sys.ports k).length) } := by
  obtain ⟨t, ht, rfl⟩ := tick_eq h
  have hswept := Swept.forwardAll ht
  exact ⟨t, hswept, by rw [hswept.nextPortID]⟩

omit [DecidableEq C] [DecidableEq K] [DecidableEq P] in
theorem mem_swept {k : K} (n : Nat) : p ∈ (sys.ports k).rotate n ↔ sys.conn p = k :=
  mem_rotate.trans (sys.mem_ports k p)

end State

namespace Traffic

variable {t t' : Traffic sys} {now : ℚ} {a : Action P} {k : K}

theorem act_eq (h : t.act now a = .ok t') : ∃ s, t.state.act now a = .ok s ∧ t' = { t with
    state := s
    accepted := fun p => t.accepted p ++ (s.ends p).buf.drop (t.state.ends p).buf.length
    retrieved := fun p => t.retrieved p ++
      (t.state.ports p).buf.elements.take ((t.state.ports p).buf.elements.length - (s.ports p).buf.elements.length)
    refused := fun p => (t.refused p || a.refuses t.state p) && s.full p } := by
  obtain ⟨s, hs, h⟩ := eq_ok_of_bind h
  cases h
  exact ⟨s, hs, rfl⟩

theorem tick_eq (h : t.tick k now = .ok t') : ∃ progress s, t.state.tick k now = .ok (progress, s) ∧ t' = { t with
    state := s
    refused := fun p => t.refused p && s.full p
    ticks := update t.ticks k (t.ticks k + 1)
    turns := fun p => t.turns p + if t.state.first k = some p ∧ t.state.roomy p = true then 1 else 0
    tight := fun p => t.tight p + if t.state.first k = some p ∧ t.state.roomy p = false then 1 else 0 } := by
  obtain ⟨⟨progress, s⟩, hs, h⟩ := eq_ok_of_bind h
  cases h
  exact ⟨progress, s, hs, rfl⟩

omit [DecidableEq C] [DecidableEq K] in
theorem Inv.new : Inv ({} : Traffic sys) := by
  refine ⟨⟨fun _ _ hm => absurd hm not_mem_nil, fun _ => ⟨[], rfl, fun _ => rfl⟩, fun _ => Nat.zero_le _,
    fun _ => Nat.zero_le _⟩, fun _ h => absurd h Bool.false_ne_true, fun k hk => length_pos_iff.mpr hk⟩

theorem Inv.act (hi : t.Inv) (h : t.act now a = .ok t') : t'.Inv := by
  obtain ⟨s, hs, rfl⟩ := act_eq h
  have hacted := State.Acted.of_act hs
  refine ⟨⟨fun p m hm => ?_, fun p => ?_, fun p => ?_, fun d => ?_⟩, fun p hp => ?_, fun k hk => ?_⟩
  · obtain ⟨new, hnew, -, hown⟩ := hacted.ends p
    rcases mem_append.mp hm with hm | hm
    · exact hi.carried.own p m hm
    · rw [hnew, drop_left] at hm
      exact ⟨(hown m hm).1, (hown m hm).2.1, (hown m hm).2.2.1⟩
  · obtain ⟨out, hout, hports⟩ := hi.carried.order p
    obtain ⟨new, hnew, -, hown⟩ := hacted.ends p
    refine ⟨out, ?_, fun d => ?_⟩
    · have hplain : new.map Msg.plain = new := (map_congr_left fun m hm => (hown m hm).2.2.2).trans (map_id _)
      change t.accepted p ++ _ = _
      rw [hnew, drop_left, map_append, hplain, hout, append_assoc]
    · obtain ⟨old, hold⟩ := hacted.ports d
      have hsame : t.retrieved d ++ (t.state.ports d).buf.elements.take
          ((t.state.ports d).buf.elements.length - (s.ports d).buf.elements.length) ++ (s.ports d).buf.elements =
          t.retrieved d ++ (t.state.ports d).buf.elements := by
        rw [hold, length_append, Nat.add_sub_cancel, take_left, append_assoc]
      rw [← hports d, ← hsame]
  · obtain ⟨new, hnew, hone, -⟩ := hacted.ends p
    change (s.ends p).buf.length ≤ _
    rw [hnew, length_append]
    by_cases hnil : new = []
    · rw [hnil]
      exact hi.carried.room p
    · obtain ⟨hspace, _⟩ := hone hnil
      have hlt := of_decide_eq_false hspace
      omega
  · obtain ⟨_, hold⟩ := hacted.ports d
    have hle := hi.carried.ports d
    rw [hold, length_append] at hle
    exact (Nat.le_add_left ..).trans hle
  · obtain ⟨href, hfull⟩ := Bool.and_eq_true_iff.mp hp
    exact ⟨hacted.busy p ((Bool.or_eq_true_iff.mp href).imp_left fun hr => (hi.waits p hr).1), hfull⟩
  · change s.nextPortID k < _
    rw [hacted.nextPortID]
    exact hi.next k hk

omit [DecidableEq C] [DecidableEq K] in
/-- A refused source that gets space is notified. -/
theorem Inv.notified (hi : t.Inv) {ports : List P} {s : State sys} {notified : C → Bool}
    (h : State.Swept ports { t.state with notified } s) {p : P} (hp : t.refused p = true) :
    ((s.ends p).busy = true ∧ s.full p = true) ∨
    ((s.ends p).buf.length < sys.bufSize p ∧ s.notified (sys.comp p) = true) := by
  obtain ⟨hbusy, hfull⟩ := hi.waits p hp
  have hroom := hi.carried.room p
  rcases h.source p hbusy with ⟨hlen, hbusy'⟩ | ⟨hlen, hnote⟩
  · refine .inl ⟨hbusy', decide_eq_true ?_⟩
    rw [hlen]
    exact of_decide_eq_true hfull
  · exact .inr ⟨Nat.lt_of_lt_of_le hlen hroom, hnote⟩

theorem Inv.tick (hi : t.Inv) (h : t.tick k now = .ok t') : t'.Inv := by
  obtain ⟨_, _, hs, rfl⟩ := tick_eq h
  obtain ⟨_, hswept, rfl⟩ := State.Swept.tick hs
  have hcarried := hswept.carried _ _ hi.carried
  refine ⟨⟨hcarried.own, hcarried.order, hcarried.room, hcarried.ports⟩, fun p hp => ?_, fun k' hk' => ?_⟩
  · obtain ⟨href, hfull⟩ := Bool.and_eq_true_iff.mp hp
    rcases hi.notified hswept href with ⟨hbusy, -⟩ | ⟨hlt, -⟩
    · exact ⟨hbusy, hfull⟩
    · have hge := of_decide_eq_true hfull
      exact absurd hlt (Nat.not_lt.mpr hge)
  · change update t.state.nextPortID k _ k' < _
    by_cases hkk : k' = k
    · subst hkk
      rw [update_self]
      exact Nat.mod_lt _ (length_pos_iff.mpr hk')
    · rw [update_of_ne hkk]
      exact hi.next k' hk'

variable {op : Op sys}

theorem Inv.step (hi : t.Inv) (h : t.step op = .ok t') : t'.Inv := by
  cases op with
  | act => exact hi.act h
  | tick => exact hi.tick h
  | engine =>
    cases h
    exact ⟨⟨hi.carried.own, hi.carried.order, hi.carried.room, hi.carried.ports⟩, hi.waits, hi.next⟩

variable {ops : List (Op sys)}

theorem Inv.run (hi : t.Inv) (h : t.run ops = .ok t') : t'.Inv :=
  of_foldlM h hi fun _ _ _ _ hs hstep => hs.step hstep

/-! ## Progress -/

omit [DecidableEq C] [DecidableEq K] in
theorem Inv.delivered_add (hi : t.Inv) (p : P) : t.delivered p + (t.state.ends p).buf.length = (t.accepted p).length := by
  obtain ⟨_, hout, -⟩ := hi.carried.order p
  have hlen := congrArg length hout
  rw [length_append, length_map] at hlen
  unfold delivered
  omega

theorem Inv.served_tick (hi : t.Inv) (h : t.tick k now = .ok t') (p : P) :
    min (t.accepted p).length (t.delivered p + (t'.turns p - t.turns p)) ≤ t'.delivered p := by
  have hadd := hi.delivered_add p
  have hadd' := (hi.tick h).delivered_add p
  obtain ⟨_, _, hs, rfl⟩ := tick_eq h
  obtain ⟨_, hu, rfl⟩ := State.tick_eq hs
  have hfewer := (State.Swept.forwardAll hu).fewer p
  simp only [Nat.add_sub_cancel_left] at hadd' hfewer ⊢
  split
  · next hturn =>
    obtain ⟨hfirst, hroomy⟩ := hturn
    obtain ⟨_, hports⟩ := head?_eq_some_iff.mp hfirst
    rw [hports] at hu
    cases hhead : (t.state.ends p).buf.head? with
    | none =>
      rw [head?_eq_none_iff.mp hhead, length_nil] at hfewer
      omega
    | some =>
      rw [State.roomy, hhead] at hroomy
      have hlt := State.Swept.first hu hhead hroomy
      omega
  · omega

theorem Inv.served_step (hi : t.Inv) (h : t.step op = .ok t') (p : P) :
    (t.accepted p).length ≤ (t'.accepted p).length ∧ t.turns p ≤ t'.turns p ∧
      min (t.accepted p).length (t.delivered p + (t'.turns p - t.turns p)) ≤ t'.delivered p := by
  cases op with
  | act =>
    obtain ⟨s, hs, rfl⟩ := act_eq h
    obtain ⟨_, hnew, -⟩ := (State.Acted.of_act hs).ends p
    have hacc : (t.accepted p).length ≤ (t.accepted p ++ (s.ends p).buf.drop (t.state.ends p).buf.length).length := by
      rw [length_append]
      exact Nat.le_add_right ..
    refine ⟨hacc, le_refl _, ?_⟩
    change _ ≤ (t.accepted p ++ (s.ends p).buf.drop (t.state.ends p).buf.length).length - (s.ends p).buf.length
    rw [hnew, drop_left, length_append, length_append, Nat.sub_self]
    unfold delivered
    omega
  | tick =>
    have hserved := hi.served_tick h p
    obtain ⟨_, _, _, rfl⟩ := tick_eq h
    exact ⟨le_refl _, Nat.le_add_right .., hserved⟩
  | engine =>
    cases h
    exact ⟨le_refl _, le_refl _, by simp [delivered]⟩

/-- As many messages of a source are delivered as it gets turns, until those it had are all delivered. -/
theorem Inv.served (hi : t.Inv) (h : t.run ops = .ok t') (p : P) :
    min (t.accepted p).length (t.delivered p + (t'.turns p - t.turns p)) ≤ t'.delivered p ∧ t.turns p ≤ t'.turns p := by
  induction ops generalizing t with
  | nil =>
    cases h
    exact ⟨by omega, le_refl _⟩
  | cons _ _ ih =>
    rw [Traffic.run, foldlM_cons] at h
    obtain ⟨_, hu, h⟩ := eq_ok_of_bind h
    obtain ⟨_, hturns, _⟩ := hi.served_step hu p
    obtain ⟨_, hturns'⟩ := ih (hi.step hu) h
    exact ⟨by omega, hturns.trans hturns'⟩

/-- The ticks before the one that looks at the port first. -/
def wait (t : Traffic sys) (p : P) : Nat :=
  let i := (sys.ports (sys.conn p)).idxOf p
  let next := t.state.nextPortID (sys.conn p)
  if next ≤ i then i - next else i + (sys.ports (sys.conn p)).length - next

/-- The rounds in which the port was looked at first, and how far the present one is. -/
def phase (t : Traffic sys) (p : P) : Nat :=
  (sys.ports (sys.conn p)).length * (t.turns p + t.tight p) + ((sys.ports (sys.conn p)).length - 1 - t.wait p)

theorem succ_mod {i n : Nat} (h : i < n) : (i + 1) % n = if i + 1 = n then 0 else i + 1 := by
  split
  · next heq => rw [heq, Nat.mod_self]
  · exact Nat.mod_eq_of_lt (by omega)

theorem Inv.phase_tick (hi : t.Inv) {p : P} (h : t.tick (sys.conn p) now = .ok t') : t.phase p + 1 ≤ t'.phase p := by
  obtain ⟨_, _, hs, rfl⟩ := tick_eq h
  obtain ⟨_, -, rfl⟩ := State.Swept.tick hs
  have hmem : p ∈ sys.ports (sys.conn p) := (sys.mem_ports _ p).mpr rfl
  have hidx := idxOf_lt_length_of_mem hmem
  have hnext := hi.next (sys.conn p) (ne_nil_of_mem hmem)
  unfold phase wait
  simp only [update_self, succ_mod hnext]
  by_cases hturn : t.state.nextPortID (sys.conn p) = (sys.ports (sys.conn p)).idxOf p
  · have hfirst : t.state.first (sys.conn p) = some p := by
      unfold State.first
      rw [head?_rotate hnext, hturn, getElem?_eq_getElem hidx, getElem_idxOf hidx]
    have hone : (t.turns p + if t.state.first (sys.conn p) = some p ∧ t.state.roomy p = true then 1 else 0) +
        (t.tight p + if t.state.first (sys.conn p) = some p ∧ t.state.roomy p = false then 1 else 0) =
          t.turns p + t.tight p + 1 := by
      cases hroomy : t.state.roomy p <;> simp [hfirst] <;> omega
    rw [hone, Nat.mul_succ, hturn]
    split_ifs <;> omega
  · have hmono := Nat.mul_le_mul_left (sys.ports (sys.conn p)).length (Nat.add_le_add (Nat.le_add_right (t.turns p)
      (if t.state.first (sys.conn p) = some p ∧ t.state.roomy p = true then 1 else 0)) (Nat.le_add_right (t.tight p)
      (if t.state.first (sys.conn p) = some p ∧ t.state.roomy p = false then 1 else 0)))
    split_ifs at hmono ⊢ <;> omega

theorem Inv.phase_step (hi : t.Inv) (h : t.step op = .ok t') (p : P) :
    t.phase p + t'.ticks (sys.conn p) ≤ t'.phase p + t.ticks (sys.conn p) := by
  cases op with
  | act =>
    obtain ⟨s, hs, rfl⟩ := act_eq h
    unfold phase wait
    rw [(State.Acted.of_act hs).nextPortID]
  | tick k =>
    by_cases hk : sys.conn p = k
    · subst hk
      have hphase := hi.phase_tick h
      obtain ⟨progress, s, -, rfl⟩ := tick_eq h
      simp only [update_self]
      omega
    · obtain ⟨_, _, hs, rfl⟩ := tick_eq h
      obtain ⟨_, -, rfl⟩ := State.Swept.tick hs
      have hfirst : t.state.first k ≠ some p := by
        intro heq
        exact hk ((State.mem_swept (t.state.nextPortID k)).mp (mem_of_mem_head? heq))
      unfold phase wait
      simp [hfirst, update_of_ne hk]
  | engine =>
    cases h
    exact le_refl _

theorem Inv.phase_run (hi : t.Inv) (h : t.run ops = .ok t') (p : P) :
    t.phase p + t'.ticks (sys.conn p) ≤ t'.phase p + t.ticks (sys.conn p) := by
  induction ops generalizing t with
  | nil =>
    cases h
    exact le_refl _
  | cons _ _ ih =>
    rw [Traffic.run, foldlM_cons] at h
    obtain ⟨_, hu, h⟩ := eq_ok_of_bind h
    have hone := hi.phase_step hu p
    have hrest := ih (hi.step hu) h
    omega

/-- In as many ticks as the connection has ports, each port is looked at first once. -/
theorem Inv.rounds (hi : t.Inv) (h : t.run ops = .ok t') (p : P) :
    (t'.ticks (sys.conn p) - t.ticks (sys.conn p)) / (sys.ports (sys.conn p)).length ≤
      (t'.turns p + t'.tight p) - (t.turns p + t.tight p) := by
  have hphase := hi.phase_run h p
  have hpos : 0 < (sys.ports (sys.conn p)).length := length_pos_of_mem ((sys.mem_ports _ p).mpr rfl)
  unfold phase at hphase
  rw [← Nat.lt_succ_iff, Nat.div_lt_iff_lt_mul hpos, Nat.succ_mul, Nat.mul_comm, Nat.mul_sub]
  omega

/-! ## The law -/

/-- What holds in every state of every run. -/
structure Law (t : Traffic sys) : Prop where
  /-- each accepted message is delivered once to its destination, in the order sent, or waits -/
  carried : t.state.Carried t.accepted t.retrieved
  /-- a tick leaves no head message before a port with room, and the port it waits for is busy -/
  retried : ∀ k now progress s, t.state.tick k now = .ok (progress, s) → ∀ p, sys.conn p = k →
    ∀ m, (s.ends p).buf.head? = some m → s.Blocked m
  /-- a busy port that a message is retrieved from asks its connection for a tick -/
  woken : ∀ d now s, (t.state.ports d).portBusy = true → (t.state.ports d).buf.elements ≠ [] →
    t.state.retrieve d now = .ok s →
    now ≤ s.clock.nextTickTime (.inr (sys.conn d))
  /-- a sender that was refused has had no space since, and the tick that makes some notifies it -/
  refused : ∀ p, t.refused p = true → t.state.full p = true
  notified : ∀ k now progress s, { t.state with notified := fun _ => false }.tick k now = .ok (progress, s) → ∀ p,
    t.refused p = true → s.full p = false → s.notified (sys.comp p) = true
  /-- a message is delivered once its source has had as many turns as there are messages before it -/
  served : ∀ ops t', t.run ops = .ok t' → ∀ p, min (t.accepted p).length (t.delivered p + (t'.turns p - t.turns p)) ≤
    t'.delivered p
  /-- and it has one in every round of ticks, unless its destination is full then -/
  rounds : ∀ ops t', t.run ops = .ok t' →
    ∀ p, (t'.ticks (sys.conn p) - t.ticks (sys.conn p)) / (sys.ports (sys.conn p)).length ≤
    (t'.turns p + t'.tight p) - (t.turns p + t.tight p)

theorem Inv.law (hi : t.Inv) : t.Law where
  carried := hi.carried
  retried := by
    intro k now progress s hs p hp m hm
    obtain ⟨u, hswept, rfl⟩ := State.Swept.tick hs
    exact hswept.head p ((State.mem_swept _).mpr hp) m hm
  woken := by
    intro d now s hbusy hne hs
    unfold State.retrieve at hs
    simp only at hs
    split at hs
    · next hpeek => exact absurd (Buffer.peek_eq_none hpeek) hne
    · rw [if_pos hbusy] at hs
      obtain ⟨_, rfl, hle⟩ := State.notifyAvailable_eq hs
      exact hle
  refused p hp := (hi.waits p hp).2
  notified := by
    intro k now progress s hs p hp hroom
    obtain ⟨_, hswept, rfl⟩ := State.Swept.tick hs
    rcases hi.notified hswept hp with ⟨-, hfull⟩ | ⟨-, hnote⟩
    · exact absurd (hfull.symm.trans hroom) Bool.true_eq_false.mp
    · exact hnote
  served _ _ h p := (hi.served h p).1
  rounds _ _ h p := hi.rounds h p

/-! ## The runs of the engine -/

/-- Whatever happened before, operations lead from one state to the other. -/
def Simulates (s s' : State sys) : Prop := ∀ t : Traffic sys, t.state = s → ∃ ops t', t.run ops = .ok t' ∧ t'.state = s'

theorem Simulates.refl (s : State sys) : Simulates s s := fun t ht => ⟨[], t, rfl, ht⟩

theorem Simulates.trans {s s' s'' : State sys} (h : Simulates s s') (h' : Simulates s' s'') : Simulates s s'' := by
  intro t ht
  obtain ⟨ops, u, hu, rfl⟩ := h t ht
  obtain ⟨ops', v, hv, hend⟩ := h' u rfl
  refine ⟨ops ++ ops', v, ?_, hend⟩
  rw [run, foldlM_append]
  rw [run] at hu
  rw [hu]
  exact hv

theorem Simulates.engine (s : State sys) (clock : Clock sys.tickers) (notified progressed : C → Bool) :
    Simulates s { s with clock, notified, progressed } := by
  rintro t rfl
  exact ⟨[.engine clock notified progressed], _, rfl, rfl⟩

theorem Simulates.act {s s' : State sys} (h : s.act now a = .ok s') : Simulates s s' := by
  rintro t rfl
  obtain ⟨t', hact, hend⟩ : ∃ t', t.act now a = .ok t' ∧ t'.state = s' := by
    unfold Traffic.act
    rw [h]
    exact ⟨_, rfl, rfl⟩
  refine ⟨[.act now a], t', ?_, hend⟩
  change (t.act now a >>= _) = _
  rw [hact]
  rfl

theorem Simulates.acts {s s' : State sys} {actions : List (Action P)}
    (h : actions.foldlM (fun s a => State.act s now a) s = .ok s') : Simulates s s' := by
  refine of_foldlM (P := fun u => Simulates s u) h (Simulates.refl s) fun u a _ v hu hv => hu.trans (Simulates.act hv)

theorem Simulates.tick {s s' : State sys} {progress : Bool} (h : s.tick k now = .ok (progress, s')) : Simulates s s' := by
  rintro t rfl
  obtain ⟨t', htick, hend⟩ : ∃ t', t.tick k now = .ok t' ∧ t'.state = s' := by
    unfold Traffic.tick
    rw [h]
    exact ⟨_, rfl, rfl⟩
  refine ⟨[.tick k now], t', ?_, hend⟩
  change (t.tick k now >>= _) = _
  rw [htick]
  rfl

theorem Simulates.step {s s' : State sys} {turn : Turn P} (h : s.step turn = .ok s') : Simulates s s' := by
  obtain ⟨⟨x, _, clock⟩, _, h⟩ := eq_ok_of_bind h
  refine (Simulates.engine s clock s.notified s.progressed).trans ?_
  cases x with
  | inl c =>
    refine (Simulates.engine _ clock (update s.notified c false) (update s.progressed c false)).trans ?_
    obtain ⟨u, hu, h⟩ := eq_ok_of_bind h
    refine (Simulates.acts hu).trans ?_
    split at h
    · obtain ⟨clock', -, h⟩ := eq_ok_of_bind h
      cases h
      exact Simulates.engine u _ _ _
    · cases h
      exact Simulates.refl _
  | inr =>
    obtain ⟨⟨_, u⟩, hu, h⟩ := eq_ok_of_bind h
    refine (Simulates.tick hu).trans ?_
    simp only at h
    split at h
    · obtain ⟨_, -, h⟩ := eq_ok_of_bind h
      cases h
      exact Simulates.engine u _ _ _
    · cases h
      exact Simulates.refl _

theorem Simulates.kick {s s' : State sys} {kick : Kick C} (h : State.kick s kick = .ok s') : Simulates s s' := by
  unfold State.kick at h
  split at h
  · obtain ⟨clock, -, h⟩ := eq_ok_of_bind h
    cases h
    exact Simulates.engine s _ _ _
  · obtain ⟨_, -, h⟩ := eq_ok_of_bind h
    cases h
    exact Simulates.engine s _ _ _

theorem simulates {s : State sys} (h : s.Reaches) : Simulates {} s := by
  induction h with
  | start h =>
    exact of_foldlM (P := fun u => Simulates {} u) h (Simulates.refl _) fun _ _ _ _ hu hv => hu.trans (Simulates.kick hv)
  | step _ h ih => exact ih.trans (Simulates.step h)

/-- A direct connection delivers faithfully in every run; the runs of the engine are among them, and there no wake-up is
lost. -/
theorem connection_faithful (sys : System C K P) :
    (∀ ops (t : Traffic sys), ({} : Traffic sys).run ops = .ok t → t.Law) ∧
    ∀ s : State sys, s.Reaches → (∃ ops t, ({} : Traffic sys).run ops = .ok t ∧ t.state = s) ∧ s.NoLostWakeUp := by
  refine ⟨fun ops t h => (Inv.new.run h).law, fun s hs => ⟨simulates hs {} rfl, ?_⟩⟩
  obtain ⟨hi, -⟩ := State.Kept.of_reaches hs
  refine ⟨fun p m hm hpush => (hi.awake p trivial m hm).resolve_right fun hb => ?_, hi.told, hi.clock.once_ran⟩
  rw [hb.1] at hpush
  cases hpush

/-- One component fills the port of the other and is refused, until a message is retrieved and the connection ticks. -/
theorem connection_faithful_pair : ∃ t : Traffic State.pair, (({} : Traffic State.pair).run
      [.act 1 (.send false 0 false true), .tick () 1, .act 2 (.send false 1 false true), .act 2 (.canSend false), .tick () 2,
        .act 3 (.retrieve true), .tick () 3]) = .ok t ∧
    ((t.retrieved true).map Msg.id = [0] ∧ (t.state.ports true).buf.elements.map Msg.id = [1] ∧
      t.state.notified false = true) ∧
      t.Law := by
  have hrun : Succeeds (fun t : Traffic State.pair => decide ((t.retrieved true).map Msg.id = [0] ∧
      (t.state.ports true).buf.elements.map Msg.id = [1] ∧ t.state.notified false = true) = true)
        (({} : Traffic State.pair).run
      [.act 1 (.send false 0 false true), .tick () 1, .act 2 (.send false 1 false true), .act 2 (.canSend false), .tick () 2,
        .act 3 (.retrieve true), .tick () 3]) := .of_any (by decide +kernel)
  obtain ⟨t, ht, hdone⟩ := hrun
  exact ⟨t, ht, of_decide_eq_true hdone, (connection_faithful State.pair).1 _ t ht⟩

end Traffic

end Akita.Sim
