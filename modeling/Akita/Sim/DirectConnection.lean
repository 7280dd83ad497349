import Akita.Sim.Buffer
import Akita.Sim.Ticker

/-!
# Ticking components and direct connections

A system of `sim.TickingComponent`s joined by `sim.DirectConnection`s. A component is whatever sends and retrieves in its
ticks.

* `System` : the ports, the component and the connection of each, and the frequencies;
* `State` : the schedulers, the buffers of the ports at their connections (`ends`) and at their components (`ports`), and what
  happened to each component since its last tick began (`notified`, `progressed`);
* `State.awake_of_reaches` : no wake-up is lost.
-/

namespace Akita.Sim
open List Function

structure Msg (P : Type) where
  id : Nat
  src : P
  dst : P
  sendTime : ℚ
  recvTime : ℚ := 0

/-- Components `C` and connections `K` with ports `P`. -/
structure System (C K P : Type) where
  comp : P → C
  conn : P → K
  /-- The ports of a connection, in the order they were plugged in. -/
  ports : K → List P
  mem_ports : ∀ k p, p ∈ ports k ↔ conn p = k
  capacity : P → Nat
  bufSize : P → Nat
  freq : C ⊕ K → Freq
  freq_pos : ∀ x, 0 < freq x

/-- `directConnectionEnd`. -/
structure End (P : Type) where
  buf : List (Msg P) := []
  busy : Bool := false

structure LimitNumMsgPort (n : Nat) (P : Type) where
  buf : Buffer n (Msg P) := {}
  portBusy : Bool := false

/-- What a component may do in a tick. -/
inductive Action (P : Type)
  | send (port : P) (id : Nat) (src dst : P)
  | canSend (port : P)
  | retrieve (port : P)

/-- What the component does if the next tick is one of a component. -/
structure Turn (P : Type) where
  actions : List (Action P) := []
  madeProgress : Bool := false

/-- A call of `TickNow` or `TickLater` before the run. -/
structure Kick (C : Type) where
  comp : C
  now : ℚ
  later : Bool

variable {C K P : Type}

/-- Components tick by primary events and connections by secondary ones. -/
def System.tickers (sys : System C K P) : Tickers (C ⊕ K) where
  freq := sys.freq
  secondary := Sum.isRight
  freq_pos := sys.freq_pos

structure State (sys : System C K P) where
  clock : Clock sys.tickers := {}
  ends : P → End P := fun _ => {}
  ports : (p : P) → LimitNumMsgPort (sys.capacity p) P := fun _ => {}
  nextPortID : K → Nat := fun _ => 0
  notified : C → Bool := fun _ => false
  progressed : C → Bool := fun _ => false

namespace State

variable {sys : System C K P}

section Functions

variable [DecidableEq C] [DecidableEq K] [DecidableEq P]

/-- `NotifyRecv` and `NotifyPortFree`. -/
def notify (s : State sys) (c : C) (now : ℚ) : Except String (State sys) := do
  let clock ← s.clock.tickLater (.inl c) now
  return { s with clock, notified := update s.notified c true }

def notifyAvailable (s : State sys) (k : K) (now : ℚ) : Except String (State sys) := do
  let clock ← s.clock.tickNow (.inr k) now
  return { s with clock }

/-- `LimitNumMsgPort.Recv`, true when there is no error. -/
def recv (s : State sys) (p : P) (msg : Msg P) : Except String (Bool × State sys) :=
  let port := s.ports p
  if port.buf.canPush then do
    let port := { port with buf := ⟨port.buf.elements ++ [msg]⟩ }
    let s ← { s with ports := update s.ports p port }.notify (sys.comp p) msg.recvTime
    return (true, s)
  else .ok (false, { s with ports := update s.ports p { port with portBusy := true } })

def retrieve (s : State sys) (p : P) (now : ℚ) : Except String (State sys) :=
  let port := s.ports p
  match port.buf.peek with
  | none => .ok s
  | some _ =>
    let s := { s with ports := update s.ports p { buf := port.buf.pop, portBusy := false } }
    if port.portBusy then s.notifyAvailable (sys.conn p) now else .ok s

def canSend (s : State sys) (p : P) : State sys :=
  let srcEnd := s.ends p
  if srcEnd.buf.length < sys.bufSize p then s
  else { s with ends := update s.ends p { srcEnd with busy := true } }

/-- `Send` of the connection of a port. -/
def send (s : State sys) (p : P) (msg : Msg P) : Except String (State sys) :=
  if sys.conn msg.src ≠ sys.conn p ∨ sys.conn msg.dst ≠ sys.conn p then .error "src or dst is not connected"
  else if msg.src = msg.dst then .error "sending back to src"
  else
    let srcEnd := s.ends msg.src
    if srcEnd.buf.length ≥ sys.bufSize msg.src then .ok { s with ends := update s.ends msg.src { srcEnd with busy := true } }
    else { s with ends := update s.ends msg.src { srcEnd with buf := srcEnd.buf ++ [msg] } }.notifyAvailable (sys.conn p)
      msg.sendTime

/-- The source port is notified if it waits. -/
def notifySource (s : State sys) (p : P) (now : ℚ) : Except String (State sys) :=
  if (s.ends p).busy then do
    let s ← s.notify (sys.comp p) now
    return { s with ends := update s.ends p { s.ends p with busy := false } }
  else .ok s

/-- `forwardMany` on the messages of the buffer of a port. -/
def forwardMany (p : P) (now : ℚ) : List (Msg P) → State sys → Except String (Bool × State sys)
  | [], s => .ok (false, s)
  | head :: rest, s => do
    let head := { head with recvTime := now }
    let (ok, s) ← s.recv head.dst head
    if ok then
      let s ← { s with ends := update s.ends p { s.ends p with buf := rest } }.notifySource p now
      let (_, s) ← forwardMany p now rest s
      return (true, s)
    else return (false, { s with ends := update s.ends p { s.ends p with buf := head :: rest } })

/-- The loop over the ports. -/
def forwardAll (now : ℚ) : List P → State sys → Except String (Bool × State sys)
  | [], s => .ok (false, s)
  | p :: ports, s => do
    let (progress, s) ← forwardMany p now (s.ends p).buf s
    let (madeProgress, s) ← forwardAll now ports s
    return (progress || madeProgress, s)

/-- `DirectConnection.Tick`. Port `i` of the rotated list is port `(i + nextPortID) % len(ports)`. -/
def tick (s : State sys) (k : K) (now : ℚ) : Except String (Bool × State sys) := do
  let (madeProgress, s) ← forwardAll now ((sys.ports k).rotate (s.nextPortID k)) s
  if (sys.ports k).length = 0 then .error "integer divide by zero"
  else return (madeProgress, { s with nextPortID := update s.nextPortID k ((s.nextPortID k + 1) % (sys.ports k).length) })

def act (s : State sys) (now : ℚ) : Action P → Except String (State sys)
  | .send p id src dst => s.send p { id, src, dst, sendTime := now }
  | .canSend p => .ok (s.canSend p)
  | .retrieve p => s.retrieve p now

/-- `TickingComponent.Handle` for a component. -/
def handleComp (s : State sys) (turn : Turn P) (c : C) (now : ℚ) : Except String (State sys) := do
  let s := { s with notified := update s.notified c false, progressed := update s.progressed c false }
  let s ← turn.actions.foldlM (fun s a => s.act now a) s
  if turn.madeProgress then
    let clock ← s.clock.tickLater (.inl c) now
    return { s with clock, progressed := update s.progressed c true }
  else return s

/-- `TickingComponent.Handle` for a connection. -/
def handleConn (s : State sys) (k : K) (now : ℚ) : Except String (State sys) := do
  let (madeProgress, s) ← s.tick k now
  if madeProgress then
    let clock ← s.clock.tickLater (.inr k) now
    return { s with clock }
  else return s

/-- The engine runs the next tick. -/
def step (turn : Turn P) (s : State sys) : Except String (State sys) := do
  let (x, now, clock) ← s.clock.advance
  match x with
  | .inl c => handleComp { s with clock } turn c now
  | .inr k => handleConn { s with clock } k now

def kick (s : State sys) (kick : Kick C) : Except String (State sys) := do
  let clock ← if kick.later then s.clock.tickLater (.inl kick.comp) kick.now else s.clock.tickNow (.inl kick.comp) kick.now
  return { s with clock }

/-- The states between two events of the runs. -/
inductive Reaches : State sys → Prop
  | start {kicks : List (Kick C)} {s : State sys} (h : kicks.foldlM kick ({} : State sys) = .ok s) : Reaches s
  | step {s s' : State sys} {turn : Turn P} (hs : Reaches s) (h : s.step turn = .ok s') : Reaches s'

end Functions

/-! ## What is kept -/

/-- The destination of a message is full, and it will notify its connection. -/
def Blocked (s : State sys) (m : Msg P) : Prop := (s.ports m.dst).buf.canPush = false ∧ (s.ports m.dst).portBusy = true

/-- A component that was notified or made progress has a tick pending. -/
def Told (s : State sys) : Prop := ∀ c, s.notified c = true ∨ s.progressed c = true → s.clock.Pending (.inl c)

/-- The messages of a buffer go to ports of its connection. -/
def Connected (s : State sys) : Prop := ∀ p, ∀ m ∈ (s.ends p).buf, sys.conn m.dst = sys.conn p

/-- The head of a buffer is blocked, or its connection has a tick pending. -/
def Awake (s : State sys) (p : P) : Prop :=
  ∀ m, (s.ends p).buf.head? = some m → s.clock.Pending (.inr (sys.conn p)) ∨ s.Blocked m

/-- What holds between two events, of the heads of the buffers `ok`. -/
structure Inv (ok : P → Prop) (s : State sys) : Prop where
  clock : s.clock.Valid
  told : s.Told
  connected : s.Connected
  awake : ∀ p, ok p → s.Awake p

/-- A change that wakes components and fills ports. -/
structure Fills (s s' : State sys) : Prop where
  clock : s.clock.Keeps s'.clock
  told : s.clock.Valid → s.Told → s'.Told
  blocked : ∀ m, s.Blocked m → s'.Blocked m

theorem Fills.refl (s : State sys) : Fills s s := ⟨Clock.Keeps.refl _, fun _ h => h, fun _ h => h⟩

theorem Fills.trans {s t u : State sys} (h : Fills s t) (h' : Fills t u) : Fills s u where
  clock := h.clock.trans h'.clock
  told hv ht := h'.told (h.clock.valid hv) (h.told hv ht)
  blocked m hm := h'.blocked m (h.blocked m hm)

/-- The ends and the ports have no part in the schedulers. -/
theorem Fills.ends (s : State sys) (ends : P → End P) : Fills s { s with ends } :=
  ⟨Clock.Keeps.refl _, fun _ h => h, fun _ h => h⟩

variable {s s' : State sys} {p : P} {now : ℚ}

theorem Inv.keeps {ok : P → Prop} {clock : Clock sys.tickers} (hi : s.Inv ok) (h : s.clock.Keeps clock) :
    Inv ok { s with clock } where
  clock := h.valid hi.clock
  told c hc := h.pending _ (hi.told c hc)
  connected := hi.connected
  awake p hp m hm := (hi.awake p hp m hm).imp_left (h.pending _)

theorem Inv.ends {ok : P → Prop} {ends : P → End P} (hi : s.Inv ok) (h : ∀ p, (ends p).buf = (s.ends p).buf) :
    Inv ok { s with ends } where
  clock := hi.clock
  told := hi.told
  connected p m hm := hi.connected p m (h p ▸ hm)
  awake p hp m hm := hi.awake p hp m (h p ▸ hm)

section Connections

variable [DecidableEq C] [DecidableEq K]

variable {c : C}

theorem Fills.notify (h : s.notify c s.clock.engine.time = .ok s') :
    Fills s s' ∧ s'.ends = s.ends ∧ s'.ports = s.ports := by
  obtain ⟨_, hclock, h⟩ := eq_ok_of_bind h
  cases h
  have hkeeps := Clock.Keeps.tickLater hclock
  refine ⟨⟨hkeeps, fun hv ht c' hc' => ?_, fun m hm => hm⟩, rfl, rfl⟩
  by_cases hcc : c' = c
  · subst hcc
    exact Clock.pending_tickLater hv hclock
  · refine hkeeps.pending _ (ht c' ?_)
    simpa [update_of_ne hcc] using hc'

variable [DecidableEq P]

variable {msg : Msg P}

theorem Fills.recv {taken : Bool} (hnow : msg.recvTime = s.clock.engine.time) (h : s.recv p msg = .ok (taken, s')) :
    Fills s s' ∧ s'.ends = s.ends ∧ (taken = false → (s'.ports p).buf.canPush = false ∧ (s'.ports p).portBusy = true) := by
  unfold State.recv at h
  simp only at h
  split at h
  · next hpush =>
    obtain ⟨_, ht, h⟩ := eq_ok_of_bind h
    cases h
    rw [hnow] at ht
    obtain ⟨hfills, hends, -⟩ := Fills.notify ht
    refine ⟨Fills.trans ?_ hfills, hends, fun h => by cases h⟩
    refine ⟨Clock.Keeps.refl _, fun _ h => h, fun m hm => ?_⟩
    -- a full port is not the one that takes the message
    have hne : m.dst ≠ p := by
      rintro rfl
      rw [hm.1] at hpush
      cases hpush
    simpa [Blocked, update_of_ne hne] using hm
  · next hpush =>
    cases h
    have hfull : (s.ports p).buf.canPush = false := by simpa using hpush
    refine ⟨⟨Clock.Keeps.refl _, fun _ h => h, fun m hm => ?_⟩, rfl, fun _ => by simp [hfull]⟩
    by_cases hmp : m.dst = p
    · subst hmp
      simp [Blocked, hfull]
    · simpa [Blocked, update_of_ne hmp] using hm

theorem Fills.notifySource (h : s.notifySource p s.clock.engine.time = .ok s') :
    Fills s s' ∧ ∀ q, (s'.ends q).buf = (s.ends q).buf := by
  unfold State.notifySource at h
  split at h
  · obtain ⟨t, ht, h⟩ := eq_ok_of_bind h
    cases h
    obtain ⟨hfills, hends, -⟩ := Fills.notify ht
    refine ⟨hfills.trans (Fills.ends t _), fun q => ?_⟩
    by_cases hq : q = p
    · subst hq
      simp [hends]
    · simp [hends, update_of_ne hq]
  · cases h
    exact ⟨Fills.refl s, fun _ => rfl⟩

variable {progress : Bool}

/-- `forwardMany` stops at a blocked message or at the end of the buffer. -/
theorem Fills.forwardMany {msgs : List (Msg P)} (hnow : s.clock.engine.time = now) (hbuf : (s.ends p).buf = msgs)
    (h : forwardMany p now msgs s = .ok (progress, s')) :
    Fills s s' ∧ (∀ q, q ≠ p → (s'.ends q).buf = (s.ends q).buf) ∧ (∀ m ∈ (s'.ends p).buf, ∃ m' ∈ msgs, m'.dst = m.dst) ∧
      ∀ m, (s'.ends p).buf.head? = some m → s'.Blocked m := by
  induction msgs generalizing s progress with
  | nil =>
    cases h
    refine ⟨Fills.refl s', fun _ _ => rfl, ?_, ?_⟩
    · simp [hbuf]
    · simp [hbuf]
  | cons head rest ih =>
    obtain ⟨⟨taken, t⟩, ht, h⟩ := eq_ok_of_bind h
    obtain ⟨hfills, hends, hblocked⟩ := Fills.recv (by simp [hnow]) ht
    cases taken with
    | false =>
      cases h
      refine ⟨hfills.trans (Fills.ends t _), fun q hq => ?_, fun m hm => ?_, fun m hm => ?_⟩
      · simp [update_of_ne hq, hends]
      · simp only [update_self, mem_cons] at hm
        rcases hm with rfl | hm
        · exact ⟨head, mem_cons_self .., rfl⟩
        · exact ⟨m, mem_cons_of_mem _ hm, rfl⟩
      · simp only [update_self, head?_cons, Option.some.injEq] at hm
        subst hm
        exact hblocked rfl
    | true =>
      obtain ⟨u, hu, h⟩ := eq_ok_of_bind h
      obtain ⟨⟨_, _⟩, hv, h⟩ := eq_ok_of_bind h
      cases h
      have htime : t.clock.engine.time = now := hfills.clock.time.trans hnow
      rw [← htime] at hu
      obtain ⟨hsource, hbufs⟩ := Fills.notifySource hu
      have hfills' : Fills s u := (hfills.trans (Fills.ends t _)).trans hsource
      have hrest : (u.ends p).buf = rest := by simp [hbufs]
      obtain ⟨hmany, hothers, hmsgs, hhead⟩ := ih (hfills'.clock.time.trans hnow) hrest hv
      refine ⟨hfills'.trans hmany, fun q hq => ?_, fun m hm => ?_, hhead⟩
      · simp [hothers q hq, hbufs, update_of_ne hq, hends]
      · obtain ⟨m', hm', hdst⟩ := hmsgs m hm
        exact ⟨m', mem_cons_of_mem _ hm', hdst⟩

variable {ok : P → Prop}

theorem Inv.forwardMany (hi : s.Inv ok) (hnow : s.clock.engine.time = now)
    (h : forwardMany p now (s.ends p).buf s = .ok (progress, s')) :
    s'.Inv (fun q => ok q ∨ q = p) ∧ s.clock.Keeps s'.clock := by
  obtain ⟨hfills, hothers, hmsgs, hhead⟩ := Fills.forwardMany hnow rfl h
  refine ⟨⟨hfills.clock.valid hi.clock, hfills.told hi.clock hi.told, fun q m hm => ?_, fun q hq m hm => ?_⟩, hfills.clock⟩
  · by_cases hqp : q = p
    · subst hqp
      obtain ⟨m', hm', hdst⟩ := hmsgs m hm
      rw [← hdst]
      exact hi.connected q m' hm'
    · rw [hothers q hqp] at hm
      exact hi.connected q m hm
  · by_cases hqp : q = p
    · subst hqp
      exact .inr (hhead m hm)
    · rw [hothers q hqp] at hm
      exact (hi.awake q (hq.resolve_right hqp) m hm).imp (hfills.clock.pending _) (hfills.blocked m)

theorem Inv.forwardAll {ports : List P} (hi : s.Inv ok) (hnow : s.clock.engine.time = now)
    (h : forwardAll now ports s = .ok (progress, s')) : s'.Inv (fun q => ok q ∨ q ∈ ports) ∧ s.clock.Keeps s'.clock := by
  induction ports generalizing s ok progress with
  | nil =>
    cases h
    exact ⟨⟨hi.clock, hi.told, hi.connected, fun q hq => hi.awake q (by simpa using hq)⟩, Clock.Keeps.refl _⟩
  | cons _ _ ih =>
    obtain ⟨⟨_, _⟩, ht, h⟩ := eq_ok_of_bind h
    obtain ⟨⟨_, _⟩, hu, h⟩ := eq_ok_of_bind h
    cases h
    obtain ⟨hit, hkeeps⟩ := hi.forwardMany hnow ht
    obtain ⟨hiu, hkeeps'⟩ := ih hit (hkeeps.time.trans hnow) hu
    refine ⟨⟨hiu.clock, hiu.told, hiu.connected, fun q hq => hiu.awake q ?_⟩, hkeeps.trans hkeeps'⟩
    rw [mem_cons] at hq
    tauto

variable {k : K}

/-- After its tick no connection sleeps before a free port. -/
theorem Inv.tick (hi : s.Inv fun p => sys.conn p ≠ k) (hnow : s.clock.engine.time = now)
    (h : s.tick k now = .ok (progress, s')) : s'.Inv (fun _ => True) ∧ s.clock.Keeps s'.clock := by
  obtain ⟨⟨_, _⟩, ht, h⟩ := eq_ok_of_bind h
  obtain ⟨hit, hkeeps⟩ := hi.forwardAll hnow ht
  simp only at h
  split at h
  · cases h
  · cases h
    refine ⟨⟨hit.clock, hit.told, hit.connected, fun p _ => hit.awake p ?_⟩, hkeeps⟩
    by_cases hp : sys.conn p = k
    · exact .inr (mem_rotate.2 ((sys.mem_ports k p).2 hp))
    · exact .inl hp

theorem Inv.handleConn (hi : s.Inv fun p => sys.conn p ≠ k) (hs : s.clock.Settled)
    (h : s.handleConn k s.clock.engine.time = .ok s') : s'.Inv (fun _ => True) ∧ s'.clock.Settled := by
  obtain ⟨⟨b, _⟩, ht, h⟩ := eq_ok_of_bind h
  obtain ⟨hit, hkeeps⟩ := hi.tick rfl ht
  cases b with
  | false =>
    cases h
    exact ⟨hit, hkeeps.settled hs⟩
  | true =>
    obtain ⟨_, hclock, h⟩ := eq_ok_of_bind h
    cases h
    rw [← hkeeps.time] at hclock
    have hlater := Clock.Keeps.tickLater hclock
    exact ⟨hit.keeps hlater, hlater.settled (hkeeps.settled hs)⟩

/-! ## Components -/

omit [DecidableEq P] in
/-- A connection that is notified ticks, while no connection has ticked at this time. -/
theorem Inv.notifyAvailable (hi : s.Inv ok) (hf : s.clock.Fresh) (h : s.notifyAvailable k s.clock.engine.time = .ok s') :
    s'.Inv (fun p => ok p ∨ sys.conn p = k) ∧ s.clock.Keeps s'.clock := by
  obtain ⟨clock, hclock, h⟩ := eq_ok_of_bind h
  cases h
  have hkeeps := Clock.Keeps.tickNow hclock rfl
  have hpending := Clock.pending_tickNow hf rfl hclock
  refine ⟨⟨hkeeps.valid hi.clock, (hi.keeps hkeeps).told, hi.connected, fun p hp m hm => ?_⟩, hkeeps⟩
  rcases hp with hp | rfl
  · exact (hi.keeps hkeeps).awake p hp m hm
  · exact .inl hpending

theorem buf_busy (ends : P → End P) (p q : P) (busy : Bool) :
    (update ends p { ends p with busy } q).buf = (ends q).buf := by
  by_cases hq : q = p
  · subst hq
    simp
  · rw [update_of_ne hq]

/-- What `Send` and `Retrieve` keep while no connection has ticked at this time. -/
def Acts (s s' : State sys) : Prop := s'.Inv (fun _ => True) ∧ s.clock.Keeps s'.clock

omit [DecidableEq C] [DecidableEq K] in
theorem Inv.canSend (hi : s.Inv fun _ => True) : s.Acts (s.canSend p) := by
  unfold State.canSend
  simp only
  split
  · exact ⟨hi, Clock.Keeps.refl _⟩
  · exact ⟨hi.ends fun q => buf_busy s.ends p q true, Clock.Keeps.refl _⟩

section
variable (hi : s.Inv fun _ => True) (hf : s.clock.Fresh)
include hi hf

theorem Inv.send (hnow : msg.sendTime = s.clock.engine.time) (h : s.send p msg = .ok s') : s.Acts s' := by
  unfold State.send at h
  split at h
  · cases h
  next hconn =>
  obtain ⟨hsrc, hdst⟩ : sys.conn msg.src = sys.conn p ∧ sys.conn msg.dst = sys.conn p := by tauto
  split at h
  · cases h
  simp only at h
  split at h
  · cases h
    exact ⟨hi.ends fun q => buf_busy s.ends msg.src q true, Clock.Keeps.refl _⟩
  · rw [hnow] at h
    have hadd : Inv (fun q => q ≠ msg.src)
        { s with ends := update s.ends msg.src { s.ends msg.src with buf := (s.ends msg.src).buf ++ [msg] } } := by
      refine ⟨hi.clock, hi.told, fun q m hm => ?_, fun q hq m hm => ?_⟩
      · by_cases hqs : q = msg.src
        · subst hqs
          simp only [update_self, mem_append, mem_singleton] at hm
          rcases hm with hm | rfl
          · exact hi.connected _ m hm
          · exact hdst.trans hsrc.symm
        · simp only [update_of_ne hqs] at hm
          exact hi.connected q m hm
      · simp only [update_of_ne hq] at hm
        exact hi.awake q trivial m hm
    obtain ⟨hi', hkeeps⟩ := hadd.notifyAvailable hf h
    refine ⟨⟨hi'.clock, hi'.told, hi'.connected, fun q _ => hi'.awake q ?_⟩, hkeeps⟩
    by_cases hqs : q = msg.src
    · exact .inr (hqs ▸ hsrc)
    · exact .inl hqs

/-- The port that a message is taken from notifies its connection if a message is blocked there. -/
theorem Inv.retrieve (h : s.retrieve p s.clock.engine.time = .ok s') : s.Acts s' := by
  unfold State.retrieve at h
  simp only at h
  split at h
  · cases h
    exact ⟨hi, Clock.Keeps.refl _⟩
  next hpeek =>
  have hpop : Inv (fun q => ∀ m, (s.ends q).buf.head? = some m → m.dst = p → ¬ s.Blocked m)
      { s with ports := update s.ports p { buf := (s.ports p).buf.pop, portBusy := false } } := by
    refine ⟨hi.clock, hi.told, hi.connected, fun q hq m hm => (hi.awake q trivial m hm).imp_right fun hb => ?_⟩
    by_cases hmp : m.dst = p
    · exact absurd hb (hq m hm hmp)
    · simpa [Blocked, update_of_ne hmp] using hb
  split at h
  · obtain ⟨hi', hkeeps⟩ := hpop.notifyAvailable hf h
    refine ⟨⟨hi'.clock, hi'.told, hi'.connected, fun q _ => hi'.awake q ?_⟩, hkeeps⟩
    by_cases hq : sys.conn q = sys.conn p
    · exact .inr hq
    · refine .inl fun m hm hmp _ => hq ?_
      rw [← hi.connected q m (mem_of_mem_head? hm), hmp]
  · next hbusy =>
    cases h
    refine ⟨⟨hpop.clock, hpop.told, hpop.connected, fun q _ => hpop.awake q fun m _ hmp hb => ?_⟩, Clock.Keeps.refl _⟩
    subst hmp
    exact hbusy hb.2

theorem Inv.act {a : Action P} (h : s.act s.clock.engine.time a = .ok s') : s.Acts s' := by
  cases a with
  | send => exact hi.send hf rfl h
  | canSend =>
    cases h
    exact hi.canSend
  | retrieve => exact hi.retrieve hf h

theorem Inv.acts {actions : List (Action P)} (hnow : s.clock.engine.time = now)
    (h : actions.foldlM (fun s a => State.act s now a) s = .ok s') : s.Acts s' := by
  induction actions generalizing s with
  | nil =>
    cases h
    exact ⟨hi, Clock.Keeps.refl _⟩
  | cons _ _ ih =>
    subst hnow
    rw [foldlM_cons] at h
    obtain ⟨_, ht, hrest⟩ := eq_ok_of_bind h
    obtain ⟨hit, hkeeps⟩ := hi.act hf ht
    obtain ⟨hi', hkeeps'⟩ := ih hit (hkeeps.fresh hf) hkeeps.time hrest
    exact ⟨hi', hkeeps.trans hkeeps'⟩

end

variable {turn : Turn P}

theorem Inv.handleComp (hi : Inv (fun _ => True)
      { s with notified := update s.notified c false, progressed := update s.progressed c false })
    (hf : s.clock.Fresh) (h : s.handleComp turn c s.clock.engine.time = .ok s') : s'.Inv (fun _ => True) ∧
    s'.clock.Fresh := by
  obtain ⟨t, ht, h⟩ := eq_ok_of_bind h
  obtain ⟨hit, hkeeps⟩ := hi.acts hf rfl ht
  have htime : t.clock.engine.time = s.clock.engine.time := hkeeps.time
  split at h
  · obtain ⟨clock, hclock, h⟩ := eq_ok_of_bind h
    cases h
    rw [← htime] at hclock
    have hlater := Clock.Keeps.tickLater hclock
    have hi' := hit.keeps hlater
    refine ⟨⟨hi'.clock, fun c' hc' => ?_, hi'.connected, hi'.awake⟩, hlater.fresh (hkeeps.fresh hf)⟩
    by_cases hcc : c' = c
    · subst hcc
      exact Clock.pending_tickLater hit.clock hclock
    · refine hi'.told c' ?_
      simpa [update_of_ne hcc] using hc'
  · cases h
    exact ⟨hit, hkeeps.fresh hf⟩

/-! ## Runs -/

/-- The invariant of the states between two events. -/
def Kept (s : State sys) : Prop := s.Inv (fun _ => True) ∧ (s.clock.Fresh ∨ s.clock.Settled)

theorem Kept.step (hk : s.Kept) (h : s.step turn = .ok s') : s'.Kept := by
  obtain ⟨⟨x, _, clock⟩, hadvance, h⟩ := eq_ok_of_bind h
  have htakes := Clock.Takes.advance hk.1.clock hadvance
  obtain rfl := htakes.time
  cases x with
  | inl c =>
    have hf : clock.Fresh := htakes.fresh rfl hk.2
    refine (Inv.handleComp (s := { s with clock }) ?_ hf h).imp_right .inl
    refine ⟨htakes.valid, fun c' hc' => ?_, hk.1.connected, fun p _ m hm => (hk.1.awake p trivial m hm).imp_left ?_⟩
    · by_cases hcc : c' = c
      · subst hcc
        simp at hc'
      · refine htakes.pending _ (fun heq => hcc (Sum.inl.inj heq)) (hk.1.told c' ?_)
        simpa [update_of_ne hcc] using hc'
    · exact htakes.pending _ fun heq => by cases heq
  | inr =>
    have hs : clock.Settled := htakes.settled rfl
    refine (Inv.handleConn (s := { s with clock }) ?_ hs h).imp_right .inr
    refine ⟨htakes.valid, fun c hc => ?_, hk.1.connected, fun p hp m hm => (hk.1.awake p trivial m hm).imp_left ?_⟩
    · exact htakes.pending _ (fun heq => by cases heq) (hk.1.told c hc)
    · exact htakes.pending _ fun heq => hp (Sum.inr.inj heq)

/-- Before the run nothing was sent and no connection has a tick. -/
structure Unstarted (s : State sys) : Prop where
  clock : s.clock.Valid
  time : s.clock.engine.time = 0
  next : ∀ k, s.clock.nextTickTime (.inr k) = -1
  ends : ∀ p, (s.ends p).buf = []
  notified : ∀ c, s.notified c = false
  progressed : ∀ c, s.progressed c = false

omit [DecidableEq P] in
theorem Unstarted.tickAt {clock : Clock sys.tickers} {time : ℚ} (hs : s.Unstarted)
    (h : s.clock.tickAt (.inl c) time = .ok clock) : Unstarted { s with clock } where
  clock := hs.clock.tickAt h
  time := (Clock.time_tickAt h).trans hs.time
  next k := (Clock.nextTickTime_tickAt h (by simp)).trans (hs.next k)
  ends := hs.ends
  notified := hs.notified
  progressed := hs.progressed

omit [DecidableEq P] in
theorem Unstarted.kicks {kicks : List (Kick C)} (hs : s.Unstarted) (h : kicks.foldlM kick s = .ok s') : s'.Unstarted := by
  refine of_foldlM h hs fun t kick _ u ht hu => ?_
  obtain ⟨clock, time, hclock, rfl⟩ : ∃ clock time, t.clock.tickAt (.inl kick.comp) time = .ok clock ∧
      u = { t with clock } := by
    unfold State.kick at hu
    split at hu
    · obtain ⟨clock, hclock, hu⟩ := eq_ok_of_bind hu
      exact ⟨clock, _, hclock, (Except.ok.inj hu).symm⟩
    · obtain ⟨clock, hclock, hu⟩ := eq_ok_of_bind hu
      exact ⟨clock, _, hclock, (Except.ok.inj hu).symm⟩
  exact ht.tickAt hclock

omit [DecidableEq P] in
theorem Kept.start {kicks : List (Kick C)} (h : kicks.foldlM kick ({} : State sys) = .ok s) : s.Kept := by
  have hnew : Unstarted ({} : State sys) :=
    ⟨Clock.Valid.start, rfl, fun _ => rfl, fun _ => rfl, fun _ => rfl, fun _ => rfl⟩
  have hs := hnew.kicks h
  refine ⟨⟨hs.clock, fun c hc => ?_, fun p m hm => ?_, fun p _ m hm => ?_⟩, .inl fun x hx hle => ?_⟩
  · simp [hs.notified, hs.progressed] at hc
  · simp [hs.ends] at hm
  · simp [hs.ends] at hm
  · cases x with
    | inl => cases hx
    | inr =>
      rw [hs.time, hs.next] at hle
      linarith

theorem Kept.of_reaches (h : Reaches s) : s.Kept := by
  induction h with
  | start h => exact Kept.start h
  | step _ h ih => exact ih.step h

/-! ## No lost wake-up -/

/-- In every state between two events: a connection whose head message has a destination with free space ticks
(`connections`), a component that was notified since its last tick began, or made progress in it, ticks (`components`), and
nothing ticked twice at one time (`once`). -/
structure NoLostWakeUp (s : State sys) : Prop where
  connections : ∀ p m, (s.ends p).buf.head? = some m → (s.ports m.dst).buf.canPush = true →
    s.clock.Pending (.inr (sys.conn p))
  components : ∀ c, s.notified c = true ∨ s.progressed c = true → s.clock.Pending (.inl c)
  once : s.clock.ran.Nodup

theorem awake_of_reaches (h : Reaches s) : s.NoLostWakeUp := by
  obtain ⟨hi, -⟩ := Kept.of_reaches h
  refine ⟨fun p m hm hpush => (hi.awake p trivial m hm).resolve_right fun hb => ?_, hi.told, hi.clock.once_ran⟩
  rw [hb.1] at hpush
  cases hpush

end Connections

/-! ## Two components -/

/-- Two components of different frequencies, with one port each, on one connection. -/
def pair : System Bool Unit Bool where
  comp := id
  conn _ := ()
  ports _ := [false, true]
  mem_ports := by simp
  capacity _ := 1
  bufSize _ := 1
  freq
    | .inl true => 3 / 2
    | _ => 1
  freq_pos
    | .inl true => by norm_num
    | .inl false => by norm_num
    | .inr _ => by norm_num

/-- The first component sends two messages, and only one arrives; the second one takes it. -/
def pairRun : Except String (State pair) := do
  let s ← [⟨false, 0, true⟩].foldlM kick {}
  let send : Action Bool := .send false 0 false true
  let s ← s.step { actions := [send], madeProgress := true }
  let s ← s.step {}
  let s ← s.step {}
  let s ← s.step { actions := [send] }
  s.step {}

/-- The message that does not fit waits at a busy port, and the connection has no tick. -/
theorem awake_of_reaches_pair : ∃ s : State pair, (s.clock.ran =
      [(.inl false, 1), (.inr (), 1), (.inl true, 4 / 3), (.inl false, 2), (.inr (), 2)] ∧ (s.ends false).buf.length = 1) ∧
    s.NoLostWakeUp := by
  have hrun : pairRun.toOption.any (fun s => s.clock.ran =
      [(.inl false, 1), (.inr (), 1), (.inl true, 4 / 3), (.inl false, 2), (.inr (), 2)] ∧ (s.ends false).buf.length = 1) =
        true := by
    decide +kernel
  obtain ⟨s, hs, hran⟩ := Succeeds.of_any hrun
  refine ⟨s, of_decide_eq_true hran, awake_of_reaches ?_⟩
  obtain ⟨_, h₀, hs⟩ := eq_ok_of_bind hs
  obtain ⟨_, h₁, hs⟩ := eq_ok_of_bind hs
  obtain ⟨_, h₂, hs⟩ := eq_ok_of_bind hs
  obtain ⟨_, h₃, hs⟩ := eq_ok_of_bind hs
  obtain ⟨_, h₄, h₅⟩ := eq_ok_of_bind hs
  exact (((((Reaches.start h₀).step h₁).step h₂).step h₃).step h₄).step h₅

end State

end Akita.Sim
