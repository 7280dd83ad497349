import Akita.Noc.Switch.Conservation

/-!
# What a switch does when nothing holds it

* `PortComplex.weight`, `Switch.load` : a bound on the moves that are left. Every stage that reports progress lowers it, and
  one that reports none changes nothing (`Advances`);
* `Switch.tick_idle` : in a network that accepts every flit, and with an arbiter that is eager, only an empty switch reports
  no progress;
* `Switch.run_ok` : a run fails only on a flit without an output.
-/

namespace Akita.Noc.Switching
open Sim Pipelining List

variable {π : Type}

theorem canPush_of_nil {n : Nat} {α : Type} {buf : Buffer n α} (hn : 1 ≤ n) (h : buf.elements = []) : buf.canPush = true := by
  rw [Buffer.canPush, decide_eq_true_eq, h]
  exact hn

namespace PortComplex

variable {c : PortConfig π}

/-- Every move of a flit makes it lighter, and so does every tick that brings it closer to the end of the pipeline. -/
def weight (pc : PortComplex c) : Nat :=
  (c.latency + 4) * pc.localPort.elements.length + (3 * pc.pipeline.pending.length + pc.pipeline.work) +
    3 * pc.routeBuffer.elements.length + 2 * pc.forwardBuffer.elements.length + pc.sendOutBuffer.elements.length

/-- What a stage does to a complex, and what it reports. -/
structure Advances (progress : Bool) (pc pc' : PortComplex c) : Prop where
  weight : pc'.weight + progress.toNat ≤ pc.weight
  same : progress = false → pc' = pc

variable {pc pc' pc'' : PortComplex c} {progress : Bool}

theorem Advances.refl (pc : PortComplex c) : Advances false pc pc := ⟨le_refl _, fun _ => rfl⟩

theorem Advances.lt (h : Advances true pc pc') : pc'.weight < pc.weight := h.weight

theorem Advances.of_lt (h : pc'.weight < pc.weight) : Advances true pc pc' := ⟨h, fun h => by cases h⟩

theorem Advances.idle (h : Advances progress pc pc) : progress = false := by
  cases progress with
  | false => rfl
  | true => exact absurd h.lt (Nat.lt_irrefl _)

theorem Advances.after (h : Advances progress pc' pc'') (hlt : pc'.weight < pc.weight) : Advances true pc pc'' :=
  of_lt (Nat.lt_of_le_of_lt ((Nat.le_add_right ..).trans h.weight) hlt)

theorem advances_sendOut (port : π) (net : Nat → Bool) (pc : PortComplex c) :
    Advances (pc.sendOut port net).1 pc (pc.sendOut port net).2 := by
  have happend := sendLoop_append net c.numOutputChannel 0 pc.sendOutBuffer.elements
  unfold sendOut
  dsimp only
  generalize sendLoop net c.numOutputChannel 0 pc.sendOutBuffer.elements = r at happend
  obtain ⟨out, _⟩ := r
  dsimp only at happend ⊢
  cases out with
  | nil =>
    refine ⟨?_, fun _ => ?_⟩
    · rw [nil_append] at happend
      rw [happend]
      exact le_refl _
    · rw [nil_append] at happend
      rw [happend, map_nil, append_nil]
  | cons =>
    refine Advances.of_lt ?_
    have hlen := congrArg length happend
    rw [length_append, length_cons] at hlen
    unfold weight
    dsimp only
    omega

theorem advances_routeLoop {assign : Flit π → Except String π} {k : Nat} (h : routeLoop assign k pc = .ok (progress, pc')) :
    Advances progress pc pc' := by
  induction k generalizing pc progress with
  | zero =>
    cases h
    exact Advances.refl _
  | succ _ ih =>
    unfold routeLoop at h
    split at h
    · cases h
      exact Advances.refl _
    · next flit hpeek =>
      split at h
      · obtain ⟨_, _, h⟩ := eq_ok_of_bind h
        obtain ⟨⟨_, _⟩, hloop, h⟩ := eq_ok_of_bind h
        cases h
        refine (ih hloop).after ?_
        have hlen := congrArg length (Buffer.peek_eq_some hpeek)
        rw [length_cons] at hlen
        unfold weight
        dsimp only
        rw [length_append, length_singleton]
        omega
      · cases h
        exact Advances.refl _

theorem advances_movePipeline (pc : PortComplex c) : Advances pc.movePipeline.1 pc pc.movePipeline.2 := by
  refine ⟨?_, fun h => ?_⟩
  · have hwork := pc.pipeline.work_tick pc.routeBuffer
    have hlen := (pc.pipeline.items_tick pc.routeBuffer).length_eq
    rw [length_append, length_append, length_map, length_map] at hlen
    change (c.latency + 4) * pc.localPort.elements.length +
      (3 * (pc.pipeline.tick pc.routeBuffer).2.1.pending.length + (pc.pipeline.tick pc.routeBuffer).2.1.work) +
      3 * (pc.pipeline.tick pc.routeBuffer).2.2.elements.length + 2 * pc.forwardBuffer.elements.length +
      pc.sendOutBuffer.elements.length + (pc.pipeline.tick pc.routeBuffer).1.toNat ≤ pc.weight
    unfold weight
    omega
  · have hsame : pc.pipeline.tick pc.routeBuffer = (false, pc.pipeline, pc.routeBuffer) :=
      Prod.ext h (PipelineImpl.tick_of_false h)
    unfold movePipeline
    rw [hsame]

theorem weight_accept {flit : Flit π} {pipeline : PipelineImpl c.numInputChannel c.latency 1 (Flit π)}
    {routeBuffer : Buffer c.numInputChannel (Flit π)} (hpeek : pc.localPort.peek = some flit)
    (h : pc.pipeline.accept pc.routeBuffer flit = .ok (pipeline, routeBuffer)) :
    ({ pc with localPort := pc.localPort.pop, pipeline, routeBuffer } : PortComplex c).weight < pc.weight := by
  have hport := congrArg length (Buffer.peek_eq_some hpeek)
  rw [length_cons] at hport
  have hmul : (c.latency + 4) * pc.localPort.elements.length = (c.latency + 4) * pc.localPort.pop.elements.length +
      (c.latency + 4) := by
    rw [hport, Nat.mul_succ]
  rcases PipelineImpl.accept_cases h with ⟨-, rfl, -, rfl⟩ | ⟨-, ⟨_, hl, rfl⟩, rfl⟩
  · unfold weight
    dsimp only
    rw [length_append, length_singleton]
    omega
  · have hpending := (PipelineImpl.pending_put hl flit).length_eq
    have hwork := PipelineImpl.work_put hl flit
    rw [length_append, length_singleton] at hpending
    rw [Nat.max_self, Nat.mul_one] at hwork
    unfold weight
    dsimp only
    omega

theorem advances_startLoop {k : Nat} (h : startLoop k pc = .ok (progress, pc')) : Advances progress pc pc' := by
  induction k generalizing pc progress with
  | zero =>
    cases h
    exact Advances.refl _
  | succ _ ih =>
    unfold startLoop at h
    split at h
    · cases h
      exact Advances.refl _
    · next flit hpeek =>
      split at h
      · obtain ⟨⟨_, _⟩, haccept, h⟩ := eq_ok_of_bind h
        obtain ⟨⟨_, _⟩, hloop, h⟩ := eq_ok_of_bind h
        cases h
        exact (ih hloop).after (weight_accept hpeek haccept)
      · cases h
        exact Advances.refl _

/-! ## A complex that nothing moves in -/

theorem sendOut_idle {port : π} {net : Nat → Bool} (hnet : ∀ i, net i = true) (hchannel : 1 ≤ c.numOutputChannel)
    (h : (pc.sendOut port net).1 = false) : pc.sendOutBuffer.elements = [] := by
  unfold sendOut at h
  dsimp only at h
  rw [sendLoop_of_accepting (fun i _ _ => hnet i)] at h
  cases hbuf : pc.sendOutBuffer.elements with
  | nil => rfl
  | cons =>
    obtain ⟨k, hk⟩ : ∃ k, c.numOutputChannel = k + 1 := ⟨c.numOutputChannel - 1, by omega⟩
    rw [hbuf, hk, take_succ_cons] at h
    cases h

theorem route_idle {assign : Flit π → Except String π} (hchannel : 1 ≤ c.numInputChannel)
    (hforward : pc.forwardBuffer.elements = []) (h : pc.route assign = .ok (false, pc)) : pc.routeBuffer.elements = [] := by
  obtain ⟨k, hk⟩ : ∃ k, c.numInputChannel = k + 1 := ⟨c.numInputChannel - 1, by omega⟩
  unfold route at h
  rw [hk] at h
  unfold routeLoop at h
  split at h
  · next hpeek => exact head?_eq_none_iff.mp hpeek
  · rw [if_pos (canPush_of_nil hchannel hforward)] at h
    obtain ⟨_, _, h⟩ := eq_ok_of_bind h
    obtain ⟨_, _, h⟩ := eq_ok_of_bind h
    cases h

theorem movePipeline_idle (hchannel : 1 ≤ c.numInputChannel) (hroute : pc.routeBuffer.elements = [])
    (h : pc.movePipeline.1 = false) : pc.pipeline.pending = [] := by
  by_contra hp
  have hmove := PipelineImpl.tick_of_room (canPush_of_nil hchannel hroute) hp
  unfold movePipeline at h
  rw [hmove] at h
  cases h

theorem startProcessing_idle (hchannel : 1 ≤ c.numInputChannel) (hroute : pc.routeBuffer.elements = [])
    (hpipeline : pc.pipeline.pending = []) (h : pc.startProcessing = .ok (false, pc)) : pc.localPort.elements = [] := by
  obtain ⟨k, hk⟩ : ∃ k, c.numInputChannel = k + 1 := ⟨c.numInputChannel - 1, by omega⟩
  unfold startProcessing at h
  rw [hk] at h
  unfold startLoop at h
  split at h
  · next hpeek => exact head?_eq_none_iff.mp hpeek
  · rw [if_pos (PipelineImpl.canAccept_of_empty (.inl hchannel) hpipeline (canPush_of_nil hchannel hroute))] at h
    obtain ⟨_, _, h⟩ := eq_ok_of_bind h
    obtain ⟨_, _, h⟩ := eq_ok_of_bind h
    cases h

end PortComplex

namespace Switch

variable {cfg : SwitchConfig π} {s s' s'' : Switch cfg} {progress progress' : Bool}

/-- What is left to do at the ports. -/
def load (s : Switch cfg) : Nat := (cfg.ports.map fun p => (s.complex p).weight).sum

/-- What a stage does to the switch, and what it reports. -/
structure Advances (progress : Bool) (s s' : Switch cfg) : Prop where
  load : s'.load + progress.toNat ≤ s.load
  same : progress = false → s' = s

theorem Advances.refl (s : Switch cfg) : Advances false s s := ⟨le_refl _, fun _ => rfl⟩

theorem Advances.of_lt (h : s'.load < s.load) : Advances true s s' := ⟨h, fun h => by cases h⟩

theorem Advances.trans (h : Advances progress s s') (h' : Advances progress' s' s'') :
    Advances (progress || progress') s s'' := by
  have hload := h.load
  have hload' := h'.load
  cases progress with
  | false =>
    obtain rfl := h.same rfl
    exact h'
  | true =>
    rw [Bool.toNat_true] at hload
    exact Advances.of_lt (by omega)

variable [DecidableEq π]

variable {port : π}

theorem load_setComplex (hport : port ∈ cfg.ports) (s : Switch cfg) (pc : PortComplex (cfg.complex port)) :
    (s.setComplex port pc).load + (s.complex port).weight = s.load + pc.weight := by
  have hsplit : ∀ t : Switch cfg, t.load = (t.complex port).weight +
      ((cfg.ports.erase port).map fun p => (t.complex p).weight).sum :=
    fun t => (sum_map_erase (fun p => (t.complex p).weight) hport).symm
  have hothers : (cfg.ports.erase port).map (fun p => ((s.setComplex port pc).complex p).weight) =
      (cfg.ports.erase port).map fun p => (s.complex p).weight := by
    refine map_congr_left fun p hp => ?_
    rw [complex_setComplex_of_ne s pc (cfg.nodup.mem_erase_iff.mp hp).1]
  rw [hsplit, hsplit s, hothers, complex_setComplex_self]
  omega

theorem Advances.setComplex (hport : port ∈ cfg.ports) {pc : PortComplex (cfg.complex port)}
    (h : PortComplex.Advances progress (s.complex port) pc) : Advances progress s (s.setComplex port pc) := by
  refine ⟨?_, fun hidle => ?_⟩
  · have hload := load_setComplex hport s pc
    have hweight := h.weight
    omega
  · rw [h.same hidle]
    unfold Switch.setComplex
    rw [Function.update_eq_self]

theorem advances_forPorts {f : ∀ port, PortComplex (cfg.complex port) → Except String (Bool × PortComplex (cfg.complex port))}
    (hf : ∀ p pc b pc', f p pc = .ok (b, pc') → PortComplex.Advances b pc pc') {ports : List π} (hports : ports ⊆ cfg.ports)
    (h : forPorts f ports s = .ok (progress, s')) : Advances progress s s' := by
  induction ports generalizing s progress with
  | nil =>
    cases h
    exact Advances.refl _
  | cons port _ ih =>
    obtain ⟨⟨b, pc⟩, hbody, h⟩ := eq_ok_of_bind h
    obtain ⟨⟨_, _⟩, hloop, h⟩ := eq_ok_of_bind h
    cases h
    have hone : Advances b s (s.setComplex port pc) := Advances.setComplex (hports mem_cons_self) (hf port _ b pc hbody)
    exact hone.trans (ih (fun p hp => hports (mem_cons_of_mem _ hp)) hloop)

theorem advances_sendOut {net : π → Nat → Bool} (h : s.sendOut net = .ok (progress, s')) : Advances progress s s' := by
  refine advances_forPorts (fun p pc b pc' hbody => ?_) (List.Subset.refl _) h
  cases hbody
  exact PortComplex.advances_sendOut ..

theorem advances_route (h : s.route = .ok (progress, s')) : Advances progress s s' :=
  advances_forPorts (fun _ _ _ _ hbody => PortComplex.advances_routeLoop hbody) (List.Subset.refl _) h

theorem advances_movePipeline (h : s.movePipeline = .ok (progress, s')) : Advances progress s s' := by
  refine advances_forPorts (fun p pc b pc' hbody => ?_) (List.Subset.refl _) h
  cases hbody
  exact PortComplex.advances_movePipeline pc

theorem advances_startProcessing (h : s.startProcessing = .ok (progress, s')) : Advances progress s s' :=
  advances_forPorts (fun _ _ _ _ hbody => PortComplex.advances_startLoop hbody) (List.Subset.refl _) h

/-! ### `forward` -/

theorem load_forwardFlit {flit : Flit π} {out : π} {rest : List (Flit π × π)} (hport : port ∈ cfg.ports)
    (hout : out ∈ cfg.ports) (hbuf : (s.complex port).forwardBuffer.elements = (flit, out) :: rest) :
    (s.forwardFlit port flit out).load < s.load := by
  unfold forwardFlit
  dsimp only
  generalize hpushed : ({ s.complex out with sendOutBuffer := ⟨(s.complex out).sendOutBuffer.elements ++ [flit]⟩ } :
    PortComplex (cfg.complex out)) = pushed
  have hpush : pushed.weight = (s.complex out).weight + 1 := by
    rw [← hpushed]
    unfold PortComplex.weight
    dsimp only
    rw [length_append, length_singleton]
    omega
  have hsame : ((s.setComplex out pushed).complex port).forwardBuffer = (s.complex port).forwardBuffer := by
    by_cases hp : out = port
    · subst hp
      rw [complex_setComplex_self, ← hpushed]
    · rw [complex_setComplex_of_ne s _ (Ne.symm hp)]
  have hpop : ({ (s.setComplex out pushed).complex port with
      forwardBuffer := ((s.setComplex out pushed).complex port).forwardBuffer.pop } : PortComplex (cfg.complex port)).weight +
        2 =
      ((s.setComplex out pushed).complex port).weight := by
    unfold PortComplex.weight
    dsimp only
    rw [hsame, Buffer.elements_pop, hbuf, tail_cons, length_cons]
    omega
  have hfirst := load_setComplex hout s pushed
  have hlast : ∀ popped : PortComplex (cfg.complex port), popped.weight + 2 =
      ((s.setComplex out pushed).complex port).weight →
      ((s.setComplex out pushed).setComplex port popped).load < s.load := by
    intro popped hpopped
    have hsecond := load_setComplex hport (s.setComplex out pushed) popped
    omega
  exact hlast _ hpop

/-- Every flit in a forward buffer goes to the output of a port. -/
def Waiting (s : Switch cfg) : Prop := ∀ p, ∀ x ∈ (s.complex p).forwardBuffer.elements, x.2 ∈ cfg.ports

theorem Waiting.forwarded (hw : s.Waiting) {new : List (Move π)} (h : Forwarded new s s') : s'.Waiting := by
  intro p x hx
  refine hw p x ?_
  rw [h.src p]
  exact mem_append_right _ hx

theorem Inv.waits (hi : s.Inv) : s.Waiting := fun p x hx => (assignFlitOutputBuf_eq_ok (hi.waiting p x hx)).2

theorem advances_forwardLoop (hport : port ∈ cfg.ports) {flits : List (Flit π × π)} (hw : s.Waiting)
    (hbuf : (s.complex port).forwardBuffer.elements = flits) :
    Advances (forwardLoop port flits s).1 s (forwardLoop port flits s).2 := by
  induction flits generalizing s with
  | nil => exact Advances.refl s
  | cons x rest ih =>
    obtain ⟨flit, out⟩ := x
    unfold Switch.forwardLoop
    split
    · next hpush =>
      have hone := Forwarded.forwardFlit hbuf hpush
      have hout : out ∈ cfg.ports := hw port (flit, out) (hbuf ▸ mem_cons_self)
      have hlt := load_forwardFlit hport hout hbuf
      have hrest : ((s.forwardFlit port flit out).complex port).forwardBuffer.elements = rest := by
        rw [complex_forwardFlit, if_pos rfl, Buffer.elements_pop, hbuf]
        rfl
      have hload := (ih (hw.forwarded hone) hrest).load
      exact Advances.of_lt (by dsimp only; omega)
    · exact Advances.refl s

theorem advances_forward {selected : List π} (hsel : selected ⊆ cfg.ports) (hw : s.Waiting) :
    Advances (forward selected s).1 s (forward selected s).2 := by
  induction selected generalizing s with
  | nil => exact Advances.refl s
  | cons port _ ih =>
    obtain ⟨new, hnew⟩ : ∃ new, Forwarded new s (Switch.forwardLoop port (s.complex port).forwardBuffer.elements s).2 :=
      Forwarded.forwardLoop rfl
    have hone : Advances _ s (Switch.forwardLoop port (s.complex port).forwardBuffer.elements s).2 :=
      advances_forwardLoop (hsel mem_cons_self) hw rfl
    exact hone.trans (ih (fun p hp => hsel (mem_cons_of_mem _ hp)) (hw.forwarded hnew))

theorem forward_idle {selected : List π} (hroom : ∀ p ∈ cfg.ports, (s.complex p).sendOutBuffer.canPush = true)
    (hw : s.Waiting) (h : (forward selected s).1 = false) {p : π} (hp : p ∈ selected) :
    (s.complex p).forwardBuffer.elements = [] := by
  have hone : ∀ port, (forwardLoop port (s.complex port).forwardBuffer.elements s).1 = false →
      (s.complex port).forwardBuffer.elements = [] := by
    intro port hidle
    cases hbuf : (s.complex port).forwardBuffer.elements with
    | nil => rfl
    | cons x =>
      obtain ⟨flit, out⟩ := x
      have hout : out ∈ cfg.ports := hw port (flit, out) (hbuf ▸ mem_cons_self)
      rw [hbuf] at hidle
      unfold Switch.forwardLoop at hidle
      rw [if_pos (hroom out hout)] at hidle
      cases hidle
  induction selected with
  | nil => cases hp
  | cons port _ ih =>
    unfold forward at h
    obtain ⟨hfirst, hrest⟩ := Bool.or_eq_false_iff.mp h
    have hnil := hone port hfirst
    rcases mem_cons.mp hp with rfl | hp
    · exact hnil
    · rw [hnil] at hrest
      exact ih hrest hp

/-! ### Ticks -/

/-- The arbiter selects ports, and one with a flit when there is one. -/
structure Eager (s : Switch cfg) (selected : List π) : Prop where
  ports : selected ⊆ cfg.ports
  flits : ∀ p ∈ cfg.ports, (s.complex p).forwardBuffer.elements ≠ [] → ∃ q ∈ selected, (s.complex q).forwardBuffer.elements ≠
    []

/-- The crossbar arbiter of the ports is eager, and selects no two flits for one output. -/
theorem eager_arbitrate {a a' : XBarArbiter π} (hports : a.buffers = cfg.ports) {selected : List π}
    (h : a.arbitrate s.outputBuf = .ok (selected, a')) : s.Eager selected ∧ (selected.map s.outputBuf).Nodup := by
  unfold XBarArbiter.arbitrate at h
  split at h
  · cases h
  · cases h
    obtain ⟨hsub, _, hnodup, hall⟩ := XBarArbiter.select_eq s.outputBuf [] (a.buffers.rotate a.nextPortID)
    refine ⟨⟨fun p hp => ?_, fun p hp hne => ?_⟩, hnodup⟩
    · rw [← hports, ← mem_rotate (n := a.nextPortID)]
      exact hsub.subset hp
    · obtain ⟨x, _, hbuf⟩ := exists_cons_of_ne_nil hne
      have hout : s.outputBuf p = some x.2 := by
        unfold outputBuf Buffer.peek
        rw [hbuf]
        rfl
      rw [← hports, ← mem_rotate (n := a.nextPortID)] at hp
      rcases hall p hp x.2 hout with hocc | ⟨q, hq, hq'⟩
      · cases hocc
      · refine ⟨q, hq, fun hnil => ?_⟩
        unfold outputBuf Buffer.peek at hq'
        rw [hnil] at hq'
        cases hq'

variable {net : π → Nat → Bool} {selected : List π}

/-- A tick that reports progress lowers the load, and one that reports none changes nothing. -/
theorem Inv.tick_advances (hi : s.Inv) (hsel : selected ⊆ cfg.ports) (h : s.tick net selected = .ok (progress, s')) :
    Advances progress s s' := by
  obtain ⟨_, _, _, _, _, _, _, _, _, h₁, h₂, h₃, h₄, h₅, rfl⟩ := tick_eq h
  have hforward := advances_forward hsel (hi.sent (Sent.of_sendOut h₁)).waits
  rw [h₂] at hforward
  exact ((((advances_sendOut h₁).trans hforward).trans (advances_route h₃)).trans (advances_movePipeline h₄)).trans
    (advances_startProcessing h₅)

/-- No port has a flit. -/
def Empty (s : Switch cfg) : Prop := ∀ p ∈ cfg.ports, (s.complex p).inside = [] ∧ (s.complex p).sendOutBuffer.elements = []

theorem forPorts_idle {f : ∀ port, PortComplex (cfg.complex port) → Except String (Bool × PortComplex (cfg.complex port))}
    (hf : ∀ p pc b pc', f p pc = .ok (b, pc') → PortComplex.Advances b pc pc')
    (h : forPorts f cfg.ports s = .ok (progress, s)) {p : π} (hp : p ∈ cfg.ports) :
    f p (s.complex p) = .ok (false, s.complex p) := by
  obtain ⟨-, heach, -⟩ := forPorts_eq cfg.nodup h
  obtain ⟨b, hbody⟩ := heach p hp
  rwa [(hf p _ b _ hbody).idle] at hbody

/-- In a network that accepts every flit, only an empty switch reports no progress. -/
theorem Inv.tick_idle (hi : s.Inv) (hnet : ∀ p i, net p i = true) (hsel : s.Eager selected)
    (hchannel : ∀ p ∈ cfg.ports, 1 ≤ (cfg.complex p).numInputChannel ∧ 1 ≤ (cfg.complex p).numOutputChannel)
    (h : s.tick net selected = .ok (false, s')) : s.Empty := by
  obtain ⟨s₁, s₂, s₃, s₄, _, _, _, _, _, h₁, h₂, h₃, h₄, h₅, hidle⟩ := tick_eq h
  have hforward := advances_forward hsel.ports (hi.sent (Sent.of_sendOut h₁)).waits
  rw [h₂] at hforward
  simp only [Bool.false_eq, Bool.or_eq_false_iff] at hidle
  obtain ⟨⟨⟨⟨rfl, rfl⟩, rfl⟩, rfl⟩, rfl⟩ := hidle
  -- no stage reports progress, so all of them find the same state
  obtain rfl : s₁ = s := (advances_sendOut h₁).same rfl
  obtain rfl : s₂ = s₁ := hforward.same rfl
  obtain rfl : s₃ = s₂ := (advances_route h₃).same rfl
  obtain rfl : s₄ = s₃ := (advances_movePipeline h₄).same rfl
  obtain rfl : s' = s₄ := (advances_startProcessing h₅).same rfl
  have hsendOut : ∀ p ∈ cfg.ports, (s'.complex p).sendOutBuffer.elements = [] := by
    intro p hp
    have hbody := forPorts_idle (fun p pc b pc' hbody => by cases hbody; exact PortComplex.advances_sendOut ..) h₁ hp
    exact PortComplex.sendOut_idle (hnet p) (hchannel p hp).2 (congrArg Prod.fst (Except.ok.inj hbody))
  have hforward : ∀ p ∈ cfg.ports, (s'.complex p).forwardBuffer.elements = [] := by
    intro p hp
    by_contra hne
    obtain ⟨_, hq, hne'⟩ := hsel.flits p hp hne
    have hroom : ∀ p ∈ cfg.ports, (s'.complex p).sendOutBuffer.canPush = true :=
      fun p hp => canPush_of_nil (hchannel p hp).2 (hsendOut p hp)
    exact hne' (forward_idle hroom hi.waits (congrArg Prod.fst h₂) hq)
  have hroute : ∀ p ∈ cfg.ports, (s'.complex p).routeBuffer.elements = [] := by
    intro p hp
    exact PortComplex.route_idle (hchannel p hp).1 (hforward p hp)
      (forPorts_idle (fun _ _ _ _ hbody => PortComplex.advances_routeLoop hbody) h₃ hp)
  have hpipeline : ∀ p ∈ cfg.ports, (s'.complex p).pipeline.pending = [] := by
    intro p hp
    have hbody := forPorts_idle (fun p pc b pc' hbody => by cases hbody; exact PortComplex.advances_movePipeline pc) h₄ hp
    exact PortComplex.movePipeline_idle (hchannel p hp).1 (hroute p hp) (congrArg Prod.fst (Except.ok.inj hbody))
  intro p hp
  have hport : (s'.complex p).localPort.elements = [] := PortComplex.startProcessing_idle (hchannel p hp).1 (hroute p hp)
    (hpipeline p hp) (forPorts_idle (fun _ _ _ _ hbody => PortComplex.advances_startLoop hbody) h₅ hp)
  refine ⟨?_, hsendOut p hp⟩
  rw [PortComplex.inside, hforward p hp, hroute p hp, hpipeline p hp, hport]
  rfl

end Switch

end Akita.Noc.Switching
