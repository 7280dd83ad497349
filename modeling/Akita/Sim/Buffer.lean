import Mathlib.Algebra.BigOperators.Group.Multiset.Basic

/-!
# Buffers, ports and buffered senders

* `Buffer n α` : `sim.bufferImpl`, a FIFO of capacity `n`; `push` panics on overflow;
* `Port n α β` : `sim.LimitNumMsgPort`, an incoming buffer of capacity `n`, the messages it has sent, and what
  the connection will answer to the coming `Send`s;
* `BufferedSender n β` : `sim.bufferedSenderImpl`.

A panic of the Go code is an `Except.error` that carries its text.
-/

namespace Akita.Sim

variable {n : Nat} {α β : Type}

/-- `sim.bufferImpl`. The capacity is fixed when the buffer is built. -/
structure Buffer (capacity : Nat) (α : Type) where
  elements : List α := []
deriving DecidableEq

namespace Buffer

def canPush (b : Buffer n α) : Bool := b.elements.length < n

def push (b : Buffer n α) (e : α) : Except String (Buffer n α) :=
  if b.elements.length ≥ n then .error "buffer overflow" else .ok ⟨b.elements ++ [e]⟩

def peek (b : Buffer n α) : Option α := b.elements.head?

/-- `Pop` without its result, which `peek` gives. -/
def pop (b : Buffer n α) : Buffer n α := ⟨b.elements.tail⟩

def size (b : Buffer n α) : Nat := b.elements.length

def clear (_ : Buffer n α) : Buffer n α := ⟨[]⟩

@[simp] theorem elements_pop (b : Buffer n α) : b.pop.elements = b.elements.tail := rfl

@[simp] theorem elements_clear (b : Buffer n α) : b.clear.elements = [] := rfl

variable {b : Buffer n α}

theorem push_of_canPush (h : b.canPush = true) (e : α) :
    b.push e = .ok ⟨b.elements ++ [e]⟩ := by
  simp only [canPush, decide_eq_true_eq] at h
  simp [push, h]

theorem peek_eq_some {e : α} (h : b.peek = some e) : b.elements = e :: b.pop.elements := by
  obtain ⟨l⟩ := b
  cases l with
  | nil => simp [peek] at h
  | cons => simpa [peek] using h

theorem peek_eq_none (h : b.peek = none) : b.elements = [] := by
  simpa [peek] using h

end Buffer

/-! ## Ports -/

/-- `sim.LimitNumMsgPort`. `outgoing` is what the port's send hook sees, `conn` the answers the connection gives to
the coming `Send`s, `true` for accepted. -/
structure Port (capacity : Nat) (α β : Type) where
  buf : Buffer capacity α := {}
  outgoing : List β := []
  conn : List Bool := []
deriving DecidableEq

namespace Port

def peek (p : Port n α β) : Option α := p.buf.peek

/-- `Retrieve` without its result, which `peek` gives. -/
def retrieve (p : Port n α β) : Port n α β := { p with buf := p.buf.pop }

/-- `Send`: the connection accepts the message or reports an error. -/
def send (p : Port n α β) (msg : β) : Bool × Port n α β :=
  match p.conn with
  | true :: conn => (true, { p with outgoing := p.outgoing ++ [msg], conn := conn })
  | false :: conn => (false, { p with conn := conn })
  | [] => (false, p)

/-- `Recv`: the connection delivers a message unless the buffer is full. -/
def recv (p : Port n α β) (msg : α) : Option (Port n α β) :=
  if p.buf.canPush then some { p with buf := ⟨p.buf.elements ++ [msg]⟩ } else none

/-- `clearPort`: every message waiting at the port is dropped. -/
def clear (p : Port n α β) : Port n α β := { p with buf := p.buf.clear }

@[simp] theorem buf_retrieve (p : Port n α β) : p.retrieve.buf = p.buf.pop := rfl

@[simp] theorem outgoing_retrieve (p : Port n α β) : p.retrieve.outgoing = p.outgoing := rfl

@[simp] theorem buf_clear (p : Port n α β) : p.clear.buf = p.buf.clear := rfl

@[simp] theorem outgoing_clear (p : Port n α β) : p.clear.outgoing = p.outgoing := rfl

theorem recv_eq {p p' : Port n α β} {msg : α} (h : p.recv msg = some p') :
    p' = { p with buf := ⟨p.buf.elements ++ [msg]⟩ } := by
  unfold recv at h
  split at h
  · cases h
    rfl
  · cases h

theorem send_cases (p : Port n α β) (msg : β) :
    ((p.send msg).1 = true ∧ (p.send msg).2.outgoing = p.outgoing ++ [msg] ∧ (p.send msg).2.buf = p.buf) ∨
    ((p.send msg).1 = false ∧ (p.send msg).2.outgoing = p.outgoing ∧ (p.send msg).2.buf = p.buf) := by
  unfold send
  split <;> simp

theorem send_eq (p : Port n α β) (msg : β) :
    ((p.send msg).1 = true ∧ ∃ conn, (p.send msg).2 = { p with outgoing := p.outgoing ++ [msg], conn }) ∨
    ((p.send msg).1 = false ∧ ∃ conn, (p.send msg).2 = { p with conn }) := by
  unfold send
  split
  · exact .inl ⟨rfl, _, rfl⟩
  · exact .inr ⟨rfl, _, rfl⟩
  · exact .inr ⟨rfl, p.conn, rfl⟩

theorem sent_eq (p : Port n α β) (msg : β) : (p.send msg).1 = p.conn.headD false := by
  obtain ⟨_, _, conn⟩ := p
  cases conn with
  | nil => rfl
  | cons b => cases b <;> rfl

theorem sent_retrieve (p : Port n α β) (msg : β) : (p.retrieve.send msg).1 = (p.send msg).1 := by
  obtain ⟨_, _, conn⟩ := p
  cases conn with
  | nil => rfl
  | cons b => cases b <;> rfl

end Port

/-! ## Buffered senders -/

/-- `sim.bufferedSenderImpl`, without the port it sends to. -/
structure BufferedSender (capacity : Nat) (β : Type) where
  buffer : Buffer capacity β := {}
deriving DecidableEq

namespace BufferedSender

def canSend (s : BufferedSender n β) (count : Nat) : Except String Bool :=
  if count > n then .error "trying to send number of messages exceeding capacity"
  else .ok (decide (count + s.buffer.size ≤ n))

def send (s : BufferedSender n β) (msg : β) : Except String (BufferedSender n β) := do
  let buffer ← s.buffer.push msg
  return { buffer }

def clear (s : BufferedSender n β) : BufferedSender n β := { buffer := s.buffer.clear }

@[simp] theorem elements_clear (s : BufferedSender n β) : s.clear.buffer.elements = [] := rfl

theorem send_of_canSend {s : BufferedSender n β} (h : s.canSend 1 = .ok true) (msg : β) :
    s.send msg = .ok { buffer := ⟨s.buffer.elements ++ [msg]⟩ } := by
  have hlt : s.buffer.elements.length < n := by
    by_cases hn : 1 > n
    · simp [canSend, hn] at h
    · simp only [canSend, if_neg hn, Except.ok.injEq] at h
      have hroom : 1 + s.buffer.elements.length ≤ n := of_decide_eq_true h
      omega
  simp [send, Buffer.push_of_canPush (b := s.buffer) (by simp [Buffer.canPush, hlt]), bind, Except.bind, pure,
    Except.pure]

theorem canSend_ok (s : BufferedSender n β) (hn : 0 < n) : ∃ b, s.canSend 1 = .ok b := by
  unfold canSend
  rw [if_neg (by omega)]
  exact ⟨_, rfl⟩

end BufferedSender

end Akita.Sim
