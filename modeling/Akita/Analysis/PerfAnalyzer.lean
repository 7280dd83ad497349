import Akita.Analysis.PortAnalyzer
import Akita.Returns

/-!
# The registration of components

`analysis.PerfAnalyzer`, which hooks analyzers to the buffers and the ports of a component.

* `Unperiodic` : the buffer analyzers have no period. `registerComponent_unperiodic` : so it is with all that are registered;
* `registerComponent_ok` : if the buffer fields are set, each port gets one analyzer with the period.
-/

namespace Akita.Analysis
open List Function

variable {β π : Type}

/-! ## Builders -/

structure BufferAnalyzer (β : Type) where
  buf : β
  usePeriod : Bool
  period : ℚ

/-- Of a logger and a time teller, only whether they are set. -/
structure BufferAnalyzerBuilder (β : Type) where
  perfLogger : Bool := false
  timeTeller : Bool := false
  usePeriod : Bool := false
  period : ℚ := 0
  buffer : Option β := none

namespace BufferAnalyzerBuilder

def withPerfLogger (b : BufferAnalyzerBuilder β) (perfLogger : Bool) : BufferAnalyzerBuilder β := { b with perfLogger }

def withTimeTeller (b : BufferAnalyzerBuilder β) (timeTeller : Bool) : BufferAnalyzerBuilder β := { b with timeTeller }

def withPeriod (b : BufferAnalyzerBuilder β) (period : ℚ) : BufferAnalyzerBuilder β := { b with usePeriod := true, period }

def withBuffer (b : BufferAnalyzerBuilder β) (buffer : β) : BufferAnalyzerBuilder β := { b with buffer := some buffer }

def build (b : BufferAnalyzerBuilder β) : Except String (BufferAnalyzer β) :=
  if !b.perfLogger then .error "perfLogger is not set"
  else if !b.timeTeller then .error "timeTeller is not set"
  else match b.buffer with
    | none => .error "buffer is not set"
    | some buf => .ok { buf, usePeriod := b.usePeriod, period := b.period }

end BufferAnalyzerBuilder

structure PortAnalyzerBuilder (π : Type) where
  perfLogger : Bool := false
  timeTeller : Bool := false
  usePeriod : Bool := false
  period : ℚ := 0
  port : Option π := none

namespace PortAnalyzerBuilder

def withPerfLogger (b : PortAnalyzerBuilder π) (perfLogger : Bool) : PortAnalyzerBuilder π := { b with perfLogger }

def withTimeTeller (b : PortAnalyzerBuilder π) (timeTeller : Bool) : PortAnalyzerBuilder π := { b with timeTeller }

def withPeriod (b : PortAnalyzerBuilder π) (period : ℚ) : PortAnalyzerBuilder π := { b with usePeriod := true, period }

def withPort (b : PortAnalyzerBuilder π) (port : π) : PortAnalyzerBuilder π := { b with port := some port }

def build (b : PortAnalyzerBuilder π) : Except String (PortAnalyzer π) :=
  if !b.perfLogger then .error "PortAnalyzer requires a PerfLogger"
  else if !b.timeTeller then .error "PortAnalyzer requires a TimeTeller"
  else match b.port with
    | none => .error "PortAnalyzer requires a Port"
    | some port => .ok { usePeriod := b.usePeriod, period := b.period, port }

end PortAnalyzerBuilder

/-! ## Components -/

/-- A field of a struct, as reflection shows it. -/
inductive Field (β π : Type)
  | buffer (b : Option β)
  | port (q : Option π)
  | other

/-- The port that a field holds. -/
def Field.held : Field β π → Option π
  | port q => q
  | _ => none

structure Component (β π : Type) where
  fields : List (Field β π)
  /-- `Ports()`. -/
  ports : List π
  nodup : (fields.filterMap Field.held).Nodup
  mem_ports : ∀ q, q ∈ ports ↔ q ∈ fields.filterMap Field.held

/-- The fields of a `LimitNumMsgPort` with the buffer `buf`. -/
def portFields (buf : β) : List (Field β π) := [.other, .other, .other, .other, .buffer (some buf), .other, .other, .other]

/-- The analyzers that are hooked to buffers and ports. -/
structure Hooks (β π : Type) where
  buffers : β → List (BufferAnalyzer β) := fun _ => []
  ports : π → List (PortAnalyzer π) := fun _ => []

/-! ## The registration -/

/-- `engine` is whether there is one. -/
structure PerfAnalyzer where
  usePeriod : Bool
  period : ℚ
  engine : Bool

/-- What is built with an engine and a period. -/
def PerfAnalyzer.new (period : ℚ) : PerfAnalyzer := { usePeriod := true, period, engine := true }

namespace PerfAnalyzer

variable [DecidableEq β] [DecidableEq π]

def registerBuffer (b : PerfAnalyzer) (s : Hooks β π) (buf : β) : Except String (Hooks β π) := do
  let bufferAnalyzerBuilder := (((({} : BufferAnalyzerBuilder β).withTimeTeller b.engine).withPerfLogger true).withBuffer buf)
  -- a builder is a value, and the one that has the period is dropped
  let _ := if b.usePeriod then bufferAnalyzerBuilder.withPeriod b.period else bufferAnalyzerBuilder
  let bufferAnalyzer ← bufferAnalyzerBuilder.build
  return { s with buffers := update s.buffers buf (s.buffers buf ++ [bufferAnalyzer]) }

def registerPort (b : PerfAnalyzer) (s : Hooks β π) (port : π) : Except String (Hooks β π) := do
  let portAnalyzerBuilder := (((({} : PortAnalyzerBuilder π).withTimeTeller b.engine).withPerfLogger true).withPeriod
    b.period).withPort port
  let _ := if b.usePeriod then portAnalyzerBuilder.withPeriod b.period else portAnalyzerBuilder
  let portAnalyzer ← portAnalyzerBuilder.build
  return { s with ports := update s.ports port (s.ports port ++ [portAnalyzer]) }

def registerBufferField (b : PerfAnalyzer) (s : Hooks β π) : Field β π → Except String (Hooks β π)
  | .buffer (some buf) => b.registerBuffer s buf
  | .buffer none => .error "interface conversion: interface is nil, not sim.Buffer"
  | _ => .ok s

def registerComponentOrPortBuffers (b : PerfAnalyzer) (s : Hooks β π) (fields : List (Field β π)) :
    Except String (Hooks β π) :=
  fields.foldlM (b.registerBufferField) s

def registerPortField (b : PerfAnalyzer) (s : Hooks β π) : Field β π → Except String (Hooks β π)
  | .port (some port) => b.registerPort s port
  | _ => .ok s

def registerComponentOrPorts (b : PerfAnalyzer) (s : Hooks β π) (fields : List (Field β π)) : Except String (Hooks β π) :=
  fields.foldlM (b.registerPortField) s

/-- The buffers of the ports; `buf` is the one of a port. -/
def registerPortBuffers (b : PerfAnalyzer) (buf : π → β) (s : Hooks β π) (ports : List π) : Except String (Hooks β π) :=
  ports.foldlM (fun s port => b.registerComponentOrPortBuffers s (portFields (buf port))) s

def registerComponentBuffers (b : PerfAnalyzer) (buf : π → β) (s : Hooks β π) (c : Component β π) :
    Except String (Hooks β π) := do
  let s ← b.registerComponentOrPortBuffers s c.fields
  b.registerPortBuffers buf s c.ports

def registerComponentPorts (b : PerfAnalyzer) (buf : π → β) (s : Hooks β π) (c : Component β π) : Except String (Hooks β π) :=
  do
  let s ← b.registerComponentOrPorts s c.fields
  b.registerPortBuffers buf s c.ports

def registerComponent (b : PerfAnalyzer) (buf : π → β) (s : Hooks β π) (c : Component β π) : Except String (Hooks β π) := do
  let s ← b.registerComponentBuffers buf s c
  b.registerComponentPorts buf s c

/-! ## What is registered -/

def bufferAnalyzer (buf : β) : BufferAnalyzer β := { buf, usePeriod := false, period := 0 }

def portAnalyzer (period : ℚ) (port : π) : PortAnalyzer π := { usePeriod := true, period, port }

variable {b : PerfAnalyzer} {s s' : Hooks β π} {buf : π → β} {c : Component β π}

omit [DecidableEq π] in
theorem registerBuffer_eq_ok {x : β} (h : b.registerBuffer s x = .ok s') :
    s' = { s with buffers := update s.buffers x (s.buffers x ++ [bufferAnalyzer x]) } := by
  obtain ⟨_, _, engine⟩ := b
  cases engine <;> cases h
  rfl

omit [DecidableEq π] in
theorem registerBuffer_ok (h : b.engine = true) (x : β) :
    b.registerBuffer s x = .ok { s with buffers := update s.buffers x (s.buffers x ++ [bufferAnalyzer x]) } := by
  obtain ⟨_, _, engine⟩ := b
  obtain rfl : engine = true := h
  rfl

omit [DecidableEq β] in
theorem registerPort_ok (h : b.engine = true) (q : π) :
    b.registerPort s q = .ok { s with ports := update s.ports q (s.ports q ++ [portAnalyzer b.period q]) } := by
  obtain ⟨_, period, engine⟩ := b
  obtain rfl : engine = true := h
  rfl

/-- The buffer analyzers have no period. -/
def Unperiodic (s : Hooks β π) : Prop := ∀ x, ∀ a ∈ s.buffers x, a.usePeriod = false

omit [DecidableEq π] in
theorem Unperiodic.registerBufferField {f : Field β π} (hs : Unperiodic s) (h : b.registerBufferField s f = .ok s') :
    Unperiodic s' := by
  match f, h with
  | .buffer (some x), h =>
    rw [registerBuffer_eq_ok h]
    intro y a ha
    replace ha : a ∈ update s.buffers x (s.buffers x ++ [bufferAnalyzer x]) y := ha
    by_cases hy : y = x
    · subst hy
      rw [update_self, mem_append, mem_singleton] at ha
      rcases ha with ha | rfl
      · exact hs y a ha
      · rfl
    · rw [update_of_ne hy] at ha
      exact hs y a ha
  | .port _, h =>
    cases h
    exact hs
  | .other, h =>
    cases h
    exact hs

omit [DecidableEq π] in
theorem Unperiodic.registerPortBuffers {ports : List π} (hs : Unperiodic s) (h : b.registerPortBuffers buf s ports = .ok s') :
    Unperiodic s' :=
  of_foldlM h hs fun _ _ _ _ hs hq => of_foldlM hq hs fun _ _ _ _ hs hf => hs.registerBufferField hf

omit [DecidableEq β] in
theorem buffers_registerPortField {f : Field β π} (h : b.registerPortField s f = .ok s') : s'.buffers = s.buffers := by
  match f, h with
  | .port (some q), h =>
    obtain ⟨_, -, hs'⟩ := eq_ok_of_bind (show b.registerPort s q = .ok s' from h)
    cases hs'
    rfl
  | .port none, h =>
    cases h
    rfl
  | .buffer _, h =>
    cases h
    rfl
  | .other, h =>
    cases h
    rfl

theorem registerComponent_unperiodic (hs : Unperiodic s) (h : b.registerComponent buf s c = .ok s') : Unperiodic s' := by
  obtain ⟨s₁, hbuffers, hports⟩ := eq_ok_of_bind h
  obtain ⟨s₂, hfields, hrest⟩ := eq_ok_of_bind hbuffers
  obtain ⟨s₃, hheld, hagain⟩ := eq_ok_of_bind hports
  have h₂ : Unperiodic s₂ := of_foldlM hfields hs fun _ _ _ _ hs hf => hs.registerBufferField hf
  have h₁ : Unperiodic s₁ := h₂.registerPortBuffers hrest
  have h₃ : Unperiodic s₃ := of_foldlM hheld h₁ fun t f _ t' ht hf => by
    unfold Unperiodic
    rw [buffers_registerPortField hf]
    exact ht
  exact h₃.registerPortBuffers hagain

/-- A `Buffer` field that is nil ends the registration. -/
theorem set_of_registerComponent (h : b.registerComponent buf s c = .ok s') : .buffer none ∉ c.fields := by
  obtain ⟨_, hbuffers, -⟩ := eq_ok_of_bind h
  obtain ⟨s₂, hfields, -⟩ := eq_ok_of_bind hbuffers
  intro hmem
  obtain ⟨_, _, heq⟩ := append_of_mem hmem
  have hfields : c.fields.foldlM b.registerBufferField s = .ok s₂ := hfields
  rw [heq, foldlM_append] at hfields
  obtain ⟨_, -, hrest⟩ := eq_ok_of_bind hfields
  cases hrest

omit [DecidableEq π] in
theorem registerComponentOrPortBuffers_ok (h : b.engine = true) (s : Hooks β π) {fields : List (Field β π)}
    (hset : .buffer none ∉ fields) : Succeeds (fun s' => s'.ports = s.ports) (b.registerComponentOrPortBuffers s fields) := by
  refine Succeeds.foldlM (P := fun _ (s' : Hooks β π) => s'.ports = s.ports) rfl fun pre f post t hsplit ht => ?_
  match f, hsplit with
  | .buffer (some x), _ =>
    show Succeeds _ (b.registerBuffer t x)
    rw [registerBuffer_ok h]
    exact .ok ht
  | .buffer none, hsplit => exact absurd (hsplit ▸ mem_append_right _ mem_cons_self) hset
  | .port _, _ => exact .ok ht
  | .other, _ => exact .ok ht

omit [DecidableEq π] in
theorem registerPortBuffers_ok (h : b.engine = true) (buf : π → β) (s : Hooks β π) (ports : List π) :
    Succeeds (fun s' => s'.ports = s.ports) (b.registerPortBuffers buf s ports) := by
  refine Succeeds.foldlM (P := fun _ (s' : Hooks β π) => s'.ports = s.ports) rfl fun pre q post t _ ht => ?_
  have hset : (.buffer none : Field β π) ∉ portFields (buf q) := by simp [portFields]
  exact (registerComponentOrPortBuffers_ok h t hset).mono fun t' ht' => ht'.trans ht

omit [DecidableEq β] in
theorem registerComponentOrPorts_ok (h : b.engine = true) {s : Hooks β π} (hs : ∀ q, s.ports q = [])
    {fields : List (Field β π)} (hnodup : (fields.filterMap Field.held).Nodup) :
    Succeeds (fun s' => ∀ q, s'.ports q = if q ∈ fields.filterMap Field.held then [portAnalyzer b.period q] else [])
      (b.registerComponentOrPorts s fields) := by
  refine Succeeds.foldlM (P := fun pre (s' : Hooks β π) => ∀ q, s'.ports q = if q ∈ pre.filterMap Field.held
    then [portAnalyzer b.period q] else []) ?_ ?_
  · exact hs
  · intro pre f post t hsplit ht
    match f, hsplit with
    | .port (some x), hsplit =>
      have hnew : x ∉ pre.filterMap Field.held := by
        rw [hsplit, filterMap_append] at hnodup
        intro hmem
        exact (nodup_append.1 hnodup).2.2 x hmem x mem_cons_self rfl
      show Succeeds _ (b.registerPort t x)
      rw [registerPort_ok h]
      refine .ok fun q => ?_
      show update t.ports x _ q = _
      rw [filterMap_concat]
      by_cases hq : q = x
      · subst hq
        have hin : q ∈ pre.filterMap Field.held ++ (Field.held (.port (some q) : Field β π)).toList :=
          mem_append_right _ mem_cons_self
        rw [update_self, ht, if_neg hnew, if_pos hin]
        rfl
      · have hsame : q ∈ pre.filterMap Field.held ++ (Field.held (.port (some x) : Field β π)).toList ↔
            q ∈ pre.filterMap Field.held := by
          simp [Field.held, hq]
        rw [update_of_ne hq, ht, if_congr hsame rfl rfl]
    | .port none, _ => exact .ok (by rw [filterMap_concat]; simpa [Field.held] using ht)
    | .buffer _, _ => exact .ok (by rw [filterMap_concat]; simpa [Field.held] using ht)
    | .other, _ => exact .ok (by rw [filterMap_concat]; simpa [Field.held] using ht)

/-- If all buffer fields are set, each port of the component has one analyzer, which has the period. -/
theorem registerComponent_ok (h : b.engine = true) (buf : π → β) (hset : .buffer none ∉ c.fields) :
    Succeeds (fun s => ∀ q, s.ports q = if q ∈ c.ports then [portAnalyzer b.period q] else [])
      (b.registerComponent buf {} c) := by
  refine Succeeds.bind (P := fun s => ∀ q, s.ports q = []) ?_ fun s₁ hs₁ => ?_
  · refine (registerComponentOrPortBuffers_ok h _ hset).bind fun s₂ hs₂ => ?_
    refine (registerPortBuffers_ok h buf s₂ c.ports).mono fun s₁ hs₁ q => ?_
    rw [hs₁, hs₂]
  · refine (registerComponentOrPorts_ok h hs₁ c.nodup).bind fun s₃ hs₃ => ?_
    refine (registerPortBuffers_ok h buf s₃ c.ports).mono fun s hs q => ?_
    rw [hs, hs₃, if_congr (c.mem_ports q).symm rfl rfl]

end PerfAnalyzer

end Akita.Analysis
