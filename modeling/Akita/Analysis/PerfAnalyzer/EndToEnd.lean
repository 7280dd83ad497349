import Akita.Analysis.PerfAnalyzer
import Akita.Sim.Buffer

/-!
# From the registration to the traffic

The ports of a component with the analyzers that are hooked to them.

* `call_counted` : an analyzer counts each call that succeeds, and at the end `exit_counted` : has logged it;
* `counts_once_iff` : what is right with which components and runs.
-/

namespace Akita.Analysis
open List Function
open Sim (Buffer)

/-- A component, with the buffers of ports and their capacities; `it` is how the analyzers go over their maps. -/
structure System (β π : Type) where
  comp : Component β π
  buf : π → β
  capacity : β → Nat
  name : π → String
  it : MapOrder PortAnalyzerEntry

inductive HookPos
  | portMsgSend
  | portMsgRecvd
  | portMsgRetrieve
  deriving DecidableEq

/-- A call of a port; `accepted` is the answer of its connection. -/
inductive Call (π : Type)
  | send (port : π) (msg : Msg π) (accepted : Bool)
  | recv (port : π) (msg : Msg π)
  | retrieve (port : π)

variable {β π : Type}

/-- `done` are the calls that have succeeded. -/
structure State (sys : System β π) where
  hooks : Hooks β π
  bufs : (x : β) → Buffer (sys.capacity x) (Msg π) := fun _ => {}
  done : List (HookPos × π) := []

namespace State

variable [DecidableEq β] [DecidableEq π] {sys : System β π}

def invokeHook (s : State sys) (now : ℚ) (pos : HookPos) (q : π) (msg : Msg π) : State sys :=
  { s with
    hooks := { s.hooks with ports := update s.hooks.ports q ((s.hooks.ports q).map fun h => h.func sys.name sys.it now msg) }
    done := s.done ++ [(pos, q)] }

/-- `Send`, `Recv` and `Retrieve` of a `LimitNumMsgPort`. -/
def call (s : State sys) (now : ℚ) : Call π → State sys
  | .send q msg accepted => if accepted then s.invokeHook now .portMsgSend q msg else s
  | .recv q msg =>
    if (s.bufs (sys.buf q)).canPush then
      let s := s.invokeHook now .portMsgRecvd q msg
      { s with bufs := update s.bufs (sys.buf q) ⟨(s.bufs (sys.buf q)).elements ++ [msg]⟩ }
    else s
  | .retrieve q =>
    match (s.bufs (sys.buf q)).peek with
    | none => s
    | some msg =>
      let s := { s with bufs := update s.bufs (sys.buf q) (s.bufs (sys.buf q)).pop }
      s.invokeHook now .portMsgRetrieve q msg

/-- The exit hooks of the analyzers. -/
def exit (s : State sys) (now : ℚ) : State sys :=
  { s with hooks := { s.hooks with ports := fun q => (s.hooks.ports q).map fun h => h.summarize sys.name sys.it now } }

/-- The component is registered with an analyzer that has the period, there are calls of ports, and the program exits. -/
def run (sys : System β π) (period : ℚ) (calls : List (ℚ × Call π)) (now : ℚ) : Except String (State sys) := do
  let hooks ← (PerfAnalyzer.new period).registerComponent sys.buf {} sys.comp
  return (calls.foldl (fun s c => s.call c.1 c.2) ({ hooks } : State sys)).exit now

def count (s : State sys) (pos : HookPos) (q : π) : Nat := s.done.count (pos, q)

/-! ## What is claimed -/

/-- All buffers of the component and of its ports have one analyzer, which works with the period. -/
def BuffersOnce (period : ℚ) (s : State sys) : Prop :=
  ∀ x, (.buffer (some x) ∈ sys.comp.fields ∨ ∃ q ∈ sys.comp.ports, sys.buf q = x) →
    ∃ a, s.hooks.buffers x = [a] ∧ a.usePeriod = true ∧ a.period = period

def PortsOnce (period : ℚ) (s : State sys) : Prop :=
  ∀ q ∈ sys.comp.ports, ∃ a, s.hooks.ports q = [a] ∧ a.usePeriod = true ∧ a.period = period

/-- The analyzers of a port have logged what was sent and what was received. -/
def TrafficOnce (s : State sys) (q : π) : Prop :=
  ((s.hooks.ports q).map fun h => msgs h.logged).sum = ↑(s.count .portMsgSend q + s.count .portMsgRecvd q)

structure CountsOnce (period : ℚ) (s : State sys) : Prop where
  buffers : BuffersOnce period s
  ports : PortsOnce period s
  traffic : ∀ q ∈ sys.comp.ports, TrafficOnce s q

/-! ## Traffic -/

/-- The calls of a port that have succeeded. -/
def total (s : State sys) (q : π) : Nat := s.count .portMsgSend q + s.count .portMsgRecvd q + s.count .portMsgRetrieve q

/-- The analyzers of the ports count all calls that have succeeded. -/
def Counted (period : ℚ) (s : State sys) : Prop := ∀ q, ∀ h ∈ s.hooks.ports q, h.Counts true period q (s.total q)

variable {period : ℚ} {s : State sys}

omit [DecidableEq β] in
theorem total_invokeHook (s : State sys) (now : ℚ) (pos : HookPos) (q : π) (msg : Msg π) (q' : π) :
    (s.invokeHook now pos q msg).total q' = s.total q' + if q' = q then 1 else 0 := by
  have hcount : ∀ pos', (s.invokeHook now pos q msg).count pos' q' = s.count pos' q' + if pos = pos' ∧
      q = q' then 1 else 0 := by
    intro pos'
    show (s.done ++ [(pos, q)]).count (pos', q') = _
    rw [count_append, count_singleton]
    simp only [beq_iff_eq, Prod.mk.injEq]
    rfl
  unfold total
  rw [hcount, hcount, hcount]
  by_cases hq : q' = q
  · subst hq
    cases pos <;> simp <;> omega
  · simp [hq, Ne.symm hq]

omit [DecidableEq β] in
theorem Counted.invokeHook (h : Counted period s) (now : ℚ) (pos : HookPos) (q : π) (msg : Msg π) :
    Counted period (s.invokeHook now pos q msg) := by
  intro q' a ha
  rw [total_invokeHook]
  replace ha : a ∈ update s.hooks.ports q _ q' := ha
  by_cases hq : q' = q
  · subst hq
    rw [update_self] at ha
    obtain ⟨a', ha', rfl⟩ := mem_map.1 ha
    rw [if_pos rfl]
    exact (h q' a' ha').func sys.name sys.it now msg
  · rw [update_of_ne hq] at ha
    rw [if_neg hq]
    exact h q' a ha

theorem call_counted (h : Counted period s) (now : ℚ) (c : Call π) : Counted period (s.call now c) := by
  cases c with
  | send q msg accepted =>
    cases accepted with
    | false => exact h
    | true => exact h.invokeHook now .portMsgSend q msg
  | recv q msg =>
    unfold call
    dsimp only
    split
    · exact h.invokeHook now .portMsgRecvd q msg
    · exact h
  | retrieve q =>
    unfold call
    dsimp only
    split
    · exact h
    · exact Counted.invokeHook h now .portMsgRetrieve q _

omit [DecidableEq β] in
/-- At the end all that was counted is logged. -/
theorem exit_counted (h : Counted period s) (now : ℚ) :
    Counted period (s.exit now) ∧ ∀ q, ∀ a ∈ (s.exit now).hooks.ports q, msgs a.logged = s.total q := by
  refine ⟨fun q a ha => ?_, fun q a ha => ?_⟩
  · obtain ⟨a', ha', rfl⟩ := mem_map.1 ha
    exact ((h q a' ha').summarize sys.name sys.it now).1
  · obtain ⟨a', ha', rfl⟩ := mem_map.1 ha
    exact ((h q a' ha').summarize sys.name sys.it now).2

/-- No analyzer of a buffer changes, and no port gets or loses one. -/
structure SameHooks (s s' : State sys) : Prop where
  buffers : s'.hooks.buffers = s.hooks.buffers
  ports : ∀ q, (s'.hooks.ports q).length = (s.hooks.ports q).length

omit [DecidableEq β] [DecidableEq π] in
theorem SameHooks.trans {s₁ s₂ s₃ : State sys} (h : SameHooks s₁ s₂) (h' : SameHooks s₂ s₃) : SameHooks s₁ s₃ :=
  ⟨h'.buffers.trans h.buffers, fun q => (h'.ports q).trans (h.ports q)⟩

omit [DecidableEq β] in
theorem sameHooks_invokeHook (s : State sys) (now : ℚ) (pos : HookPos) (q : π) (msg : Msg π) :
    SameHooks s (s.invokeHook now pos q msg) := by
  refine ⟨rfl, fun q' => ?_⟩
  show (update s.hooks.ports q _ q').length = _
  by_cases hq : q' = q
  · subst hq
    rw [update_self, length_map]
  · rw [update_of_ne hq]

theorem sameHooks_call (s : State sys) (now : ℚ) (c : Call π) : SameHooks s (s.call now c) := by
  have hsame : SameHooks s s := ⟨rfl, fun _ => rfl⟩
  cases c with
  | send q msg accepted =>
    cases accepted with
    | false => exact hsame
    | true => exact sameHooks_invokeHook s now .portMsgSend q msg
  | recv q msg =>
    unfold call
    dsimp only
    split
    · obtain ⟨hbuffers, hports⟩ := sameHooks_invokeHook s now .portMsgRecvd q msg
      exact ⟨hbuffers, hports⟩
    · exact hsame
  | retrieve q =>
    unfold call
    dsimp only
    split
    · exact hsame
    · obtain ⟨hbuffers, hports⟩ := sameHooks_invokeHook { s with bufs := _ } now .portMsgRetrieve q _
      exact ⟨hbuffers, hports⟩

theorem sameHooks_calls (s : State sys) (calls : List (ℚ × Call π)) :
    SameHooks s (calls.foldl (fun s c => s.call c.1 c.2) s) := by
  induction calls generalizing s with
  | nil => exact ⟨rfl, fun _ => rfl⟩
  | cons c _ ih => exact (sameHooks_call s c.1 c.2).trans (ih _)

theorem calls_counted (h : Counted period s) (calls : List (ℚ × Call π)) :
    Counted period (calls.foldl (fun s c => s.call c.1 c.2) s) := by
  induction calls generalizing s with
  | nil => exact h
  | cons c _ ih => exact ih (call_counted h c.1 c.2)

/-- A component without buffers, also without those of ports. -/
def NoBuffers (c : Component β π) : Prop := (∀ x, .buffer x ∉ c.fields) ∧ c.ports = []

variable {calls : List (ℚ × Call π)} {now : ℚ}

theorem noBuffers_of_run (hrun : run sys period calls now = .ok s) (h : BuffersOnce period s) : NoBuffers sys.comp := by
  obtain ⟨hooks, hregister, hcalls⟩ := eq_ok_of_bind hrun
  cases hcalls
  have hset := PerfAnalyzer.set_of_registerComponent hregister
  have hplain := PerfAnalyzer.registerComponent_unperiodic (fun _ _ ha => absurd ha not_mem_nil) hregister
  have hsame := sameHooks_calls ({ hooks } : State sys) calls
  have hno : ∀ x, ¬ (.buffer (some x) ∈ sys.comp.fields ∨ ∃ q ∈ sys.comp.ports, sys.buf q = x) := by
    intro x hx
    obtain ⟨a, ha, huse, -⟩ := h x hx
    replace ha : (calls.foldl (fun s c => s.call c.1 c.2) ({ hooks } : State sys)).hooks.buffers x = [a] := ha
    rw [hsame.buffers] at ha
    have hfalse := hplain x a (ha ▸ mem_singleton_self a)
    rw [huse] at hfalse
    cases hfalse
  refine ⟨fun x hx => ?_, eq_nil_iff_forall_not_mem.2 fun q hq => hno _ (.inr ⟨q, hq, rfl⟩)⟩
  cases x with
  | none => exact hset hx
  | some x => exact hno x (.inl hx)

/-- If all buffer fields are set, each port has one analyzer with the period, and it has logged all calls that have
succeeded. -/
theorem run_ok (hset : .buffer none ∉ sys.comp.fields) :
    Succeeds (fun s => PortsOnce period s ∧ ∀ q ∈ sys.comp.ports, TrafficOnce s q ↔ s.count .portMsgRetrieve q = 0)
      (run sys period calls now) := by
  refine (PerfAnalyzer.registerComponent_ok rfl sys.buf hset).bind fun hooks hhooks => ?_
  have hnew : Counted period ({ hooks } : State sys) := by
    intro q a ha
    replace ha : a ∈ hooks.ports q := ha
    rw [hhooks] at ha
    split at ha
    · rw [mem_singleton.1 ha]
      exact .new true period q
    · exact absurd ha not_mem_nil
  have hcounted := calls_counted hnew calls
  have hsame := sameHooks_calls ({ hooks } : State sys) calls
  generalize calls.foldl (fun s c => s.call c.1 c.2) ({ hooks } : State sys) = s at hcounted hsame
  obtain ⟨hexit, hlogged⟩ := exit_counted hcounted now
  -- each port has one analyzer
  have hone : ∀ q ∈ sys.comp.ports, ∃ a, (s.exit now).hooks.ports q = [a] := by
    intro q hq
    refine length_eq_one_iff.1 ?_
    show ((s.hooks.ports q).map _).length = 1
    rw [length_map, hsame.ports]
    show (hooks.ports q).length = 1
    rw [hhooks, if_pos hq]
    rfl
  refine .ok ⟨fun q hq => ?_, fun q hq => ?_⟩
  · obtain ⟨a, ha⟩ := hone q hq
    have hcounts := hexit q a (ha ▸ mem_singleton_self a)
    exact ⟨a, ha, hcounts.usePeriod, hcounts.period⟩
  · obtain ⟨a, ha⟩ := hone q hq
    have hmsgs := hlogged q a (ha ▸ mem_singleton_self a)
    unfold TrafficOnce
    rw [ha, map_singleton, sum_singleton, hmsgs, Nat.cast_inj]
    show s.total q = s.count .portMsgSend q + s.count .portMsgRecvd q ↔ s.count .portMsgRetrieve q = 0
    unfold total
    omega

/-- **Analysis end to end.** For every component that is registered with an analyzer with a period, and all calls of its
ports: events are counted once, by one analyzer with the period for each buffer and each port, if and only if there are no
buffers. If the `Buffer` fields are set, each port has one analyzer with the period, and what it has logged is right if and
only if nothing was retrieved from the port. -/
theorem counts_once_iff (sys : System β π) (period : ℚ) (calls : List (ℚ × Call π)) (now : ℚ) :
    (Succeeds (CountsOnce period) (run sys period calls now) ↔ NoBuffers sys.comp) ∧
      (.buffer none ∉ sys.comp.fields → Succeeds (fun s => PortsOnce period s ∧
        ∀ q ∈ sys.comp.ports, TrafficOnce s q ↔ s.count .portMsgRetrieve q = 0) (run sys period calls now)) := by
  refine ⟨⟨?_, fun h => ?_⟩, run_ok⟩
  · rintro ⟨s, hrun, honce⟩
    exact noBuffers_of_run hrun honce.buffers
  · refine (run_ok (h.1 none)).mono fun s hs => ⟨fun x hx => ?_, hs.1, fun q hq => ?_⟩
    · rcases hx with hfield | ⟨q, hq, -⟩
      · exact absurd hfield (h.1 _)
      · rw [h.2] at hq
        exact absurd hq not_mem_nil
    · rw [h.2] at hq
      exact absurd hq not_mem_nil

/-- A component with one port, which is port 0, and no buffer of its own. -/
def onePort : System Nat Nat where
  comp := { fields := [.other, .port (some 0)], ports := [0],
            nodup := by decide, mem_ports := fun q => by simp [Field.held, eq_comm] }
  buf := id
  capacity := fun _ => 1
  name := fun _ => "Port"
  it := ⟨id, List.Perm.refl⟩

/-- The buffer of a port has two analyzers without a period, and a message that is received and retrieved is counted twice. -/
theorem counted_twice : ∃ s : State onePort, run onePort 1 [(0, .recv 0 ⟨1, 0, 4⟩), (0, .retrieve 0)] 2 = .ok s ∧
    (s.hooks.buffers 0).map (fun a => (a.usePeriod, a.period)) = [(false, 0), (false, 0)] ∧
    (s.count .portMsgSend 0, s.count .portMsgRecvd 0) = (0, 1) ∧ ((s.hooks.ports 0).map fun a => msgs a.logged) = [2] := by
  refine ⟨_, rfl, rfl, rfl, ?_⟩
  decide +kernel

end State

end Akita.Analysis
