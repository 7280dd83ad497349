import Akita.Noc.Switch.Stages

/-!
# What a switch does with its flits

* `Switch.Forwarded` : what `forward` does, whatever the arbiter selects;
* `Switch.Inv` : every flit that arrived at a port is inside or was forwarded to its output, and an output has sent or keeps
  what was forwarded to it, in this order;
* `Switch.Op` : flits arrive and the stages of ticks run, in any order; `Switch.tick_run` : a tick is such a run;
* `Switch.Paced` : what bounds the flits that a tick moves.
-/

namespace Akita.Noc.Switching
open Sim Pipelining List
open PortComplex (inside sendOut_eq stamp)

variable {π : Type} [DecidableEq π] {cfg : SwitchConfig π}

namespace Switch

/-- The flits forwarded from a port, and those forwarded to one. -/
def fromPort (moves : List (Move π)) (port : π) : List (Move π) := moves.filter fun m => decide (m.src = port)

def toPort (moves : List (Move π)) (port : π) : List (Move π) := moves.filter fun m => decide (m.out = port)

/-- The moves `new` are made. -/
structure Forwarded (new : List (Move π)) (s s' : Switch cfg) : Prop where
  moves : s'.moves = s.moves ++ new
  src : ∀ p, (s.complex p).forwardBuffer.elements = (fromPort new p).map (fun m => (m.flit, m.out)) ++
    (s'.complex p).forwardBuffer.elements
  out : ∀ p, (s'.complex p).sendOutBuffer.elements = (s.complex p).sendOutBuffer.elements ++ (toPort new p).map Move.flit
  room : ∀ p, (s.complex p).sendOutBuffer.elements.length ≤ (cfg.complex p).numOutputChannel →
    (s'.complex p).sendOutBuffer.elements.length ≤ (cfg.complex p).numOutputChannel
  same : ∀ p, s'.complex p = { s.complex p with
    forwardBuffer := (s'.complex p).forwardBuffer, sendOutBuffer := (s'.complex p).sendOutBuffer }

variable {s s' s'' : Switch cfg} {progress : Bool}

theorem Forwarded.refl (s : Switch cfg) : Forwarded [] s s :=
  ⟨(append_nil _).symm, fun _ => rfl, fun _ => (append_nil _).symm, fun _ h => h, fun _ => rfl⟩

theorem Forwarded.trans {new new' : List (Move π)} (h : Forwarded new s s') (h' : Forwarded new' s' s'') :
    Forwarded (new ++ new') s s'' := by
  refine ⟨?_, fun p => ?_, fun p => ?_, fun p hp => h'.room p (h.room p hp), fun p => ?_⟩
  · rw [h'.moves, h.moves, append_assoc]
  · rw [h.src p, h'.src p, fromPort, fromPort, fromPort, filter_append, map_append, append_assoc]
  · rw [h'.out p, h.out p, toPort, toPort, toPort, filter_append, map_append, append_assoc]
  · rw [h'.same p, h.same p]

theorem complex_forwardFlit (s : Switch cfg) (port : π) (flit : Flit π) (out p : π) :
    (s.forwardFlit port flit out).complex p = { s.complex p with
      forwardBuffer := if port = p then (s.complex p).forwardBuffer.pop else (s.complex p).forwardBuffer
      sendOutBuffer := if out = p then ⟨(s.complex p).sendOutBuffer.elements ++ [flit]⟩
        else (s.complex p).sendOutBuffer } := by
  unfold forwardFlit
  change (((s.setComplex out _).setComplex port _).complex p) = _
  by_cases hport : port = p
  · subst hport
    rw [complex_setComplex_self, if_pos rfl]
    by_cases hout : out = port
    · subst hout
      rw [complex_setComplex_self, if_pos rfl]
    · rw [complex_setComplex_of_ne s _ (Ne.symm hout), if_neg hout]
  · rw [complex_setComplex_of_ne _ _ (Ne.symm hport), if_neg hport]
    by_cases hout : out = p
    · subst hout
      rw [complex_setComplex_self, if_pos rfl]
    · rw [complex_setComplex_of_ne s _ (Ne.symm hout), if_neg hout]

theorem Forwarded.forwardFlit {port : π} {flit : Flit π} {out : π} {rest : List (Flit π × π)}
    (hbuf : (s.complex port).forwardBuffer.elements = (flit, out) :: rest)
    (hpush : (s.complex out).sendOutBuffer.canPush = true) :
    Forwarded [{ src := port, flit, out }] s (s.forwardFlit port flit out) := by
  rw [Buffer.canPush, decide_eq_true_eq] at hpush
  refine ⟨rfl, fun p => ?_, fun p => ?_, fun p hp => ?_, fun p => ?_⟩
  · rw [complex_forwardFlit]
    by_cases hport : port = p
    · subst hport
      rw [fromPort, filter_cons_of_pos (by simp), if_pos rfl, hbuf]
      exact congrArg ((flit, out) :: ·) (by rw [Buffer.elements_pop, hbuf]; rfl)
    · rw [fromPort, filter_cons_of_neg (by simpa using hport), if_neg hport]
      rfl
  · rw [complex_forwardFlit]
    by_cases hout : out = p
    · subst hout
      rw [toPort, filter_cons_of_pos (by simp), if_pos rfl]
      rfl
    · rw [toPort, filter_cons_of_neg (by simpa using hout), if_neg hout]
      exact (append_nil _).symm
  · rw [complex_forwardFlit]
    by_cases hout : out = p
    · subst hout
      rw [if_pos rfl, length_append]
      exact hpush
    · rw [if_neg hout]
      exact hp
  · rw [complex_forwardFlit]

theorem Forwarded.forwardLoop {port : π} {flits : List (Flit π × π)}
    (hbuf : (s.complex port).forwardBuffer.elements = flits) :
    ∃ new, Forwarded new s (forwardLoop port flits s).2 := by
  induction flits generalizing s with
  | nil => exact ⟨[], Forwarded.refl s⟩
  | cons x rest ih =>
    obtain ⟨flit, out⟩ := x
    unfold Switch.forwardLoop
    split
    · next hpush =>
      have hone := Forwarded.forwardFlit hbuf hpush
      have hrest : ((s.forwardFlit port flit out).complex port).forwardBuffer.elements = rest := by
        rw [complex_forwardFlit, if_pos rfl, Buffer.elements_pop, hbuf]
        rfl
      obtain ⟨_, hnew⟩ := ih hrest
      exact ⟨_, hone.trans hnew⟩
    · exact ⟨[], Forwarded.refl s⟩

theorem Forwarded.forward (selected : List π) (s : Switch cfg) : ∃ new, Forwarded new s (forward selected s).2 := by
  induction selected generalizing s with
  | nil => exact ⟨[], Forwarded.refl s⟩
  | cons port _ ih =>
    obtain ⟨new, hnew⟩ : ∃ new, Forwarded new s (Switch.forwardLoop port (s.complex port).forwardBuffer.elements s).2 :=
      Forwarded.forwardLoop rfl
    obtain ⟨new', hnew'⟩ := ih (Switch.forwardLoop port (s.complex port).forwardBuffer.elements s).2
    exact ⟨new ++ new', hnew.trans hnew'⟩

/-! ## The invariant -/

structure Inv (s : Switch cfg) : Prop where
  conserved : ∀ p, ((fromPort s.moves p).map Move.flit ++ (s.complex p).inside).Perm (s.complex p).arrived
  ordered : ∀ p, PortComplex.Single (cfg.complex p) →
    (fromPort s.moves p).map Move.flit ++ (s.complex p).inside = (s.complex p).arrived
  out : ∀ p, (s.complex p).sent ++ (s.complex p).sendOutBuffer.elements.map (stamp (cfg.complex p) p) =
    (toPort s.moves p).map fun m => stamp (cfg.complex p) p m.flit
  waiting : ∀ p, ∀ x ∈ (s.complex p).forwardBuffer.elements, assignFlitOutputBuf cfg x.1 = .ok x.2
  routed : ∀ m ∈ s.moves, assignFlitOutputBuf cfg m.flit = .ok m.out
  fits : ∀ p, (s.complex p).Fits

theorem Inv.new : Inv ({} : Switch cfg) := by
  have hinside : ∀ p, (({} : Switch cfg).complex p).inside = [] := by
    intro p
    change [] ++ ([] ++ (({} : PipelineImpl _ _ 1 (Flit π)).pending.map Prod.fst ++ [])) = []
    rw [PipelineImpl.pending_new]
    rfl
  refine ⟨fun p => ?_, fun p _ => ?_, fun _ => rfl, fun _ _ hx => absurd hx not_mem_nil, forall_mem_nil _,
    fun _ => ⟨Nat.zero_le _, Nat.zero_le _, Nat.zero_le _, Nat.zero_le _⟩⟩
  · rw [hinside p]
    exact List.Perm.refl _
  · rw [hinside p]
    rfl

theorem Inv.forwarded (hi : s.Inv) {new : List (Move π)} (h : Forwarded new s s') : s'.Inv := by
  have hinside : ∀ p, (fromPort s'.moves p).map Move.flit ++ (s'.complex p).inside =
      (fromPort s.moves p).map Move.flit ++ (s.complex p).inside := by
    intro p
    have hsame := h.same p
    rw [h.moves, fromPort, filter_append, map_append, append_assoc, inside, inside, h.src p, map_append, map_map, hsame]
    simp only [fromPort, append_assoc]
    rfl
  have hmoved : ∀ m ∈ new, (m.flit, m.out) ∈ (s.complex m.src).forwardBuffer.elements := by
    intro m hm
    rw [h.src m.src]
    exact mem_append_left _ (mem_map.mpr ⟨m, mem_filter.mpr ⟨hm, decide_eq_true rfl⟩, rfl⟩)
  refine ⟨fun p => ?_, fun p hp => ?_, fun p => ?_, fun p x hx => ?_, fun m hm => ?_, fun p => ?_⟩
  · rw [hinside p, h.same p]
    exact hi.conserved p
  · rw [hinside p, h.same p]
    exact hi.ordered p hp
  · rw [h.moves, toPort, filter_append, map_append, h.out p, map_append, map_map, ← append_assoc, h.same p]
    exact congrArg (· ++ _) (hi.out p)
  · refine hi.waiting p x ?_
    rw [h.src p]
    exact mem_append_right _ hx
  · rw [h.moves] at hm
    rcases mem_append.mp hm with hm | hm
    · exact hi.routed m hm
    · exact hi.waiting m.src _ (hmoved m hm)
  · have hfits := hi.fits p
    have hle := hfits.forwardBuffer
    rw [h.src p, length_append] at hle
    have hroom := h.room p hfits.sendOutBuffer
    rw [h.same p]
    exact ⟨hfits.localPort, hfits.routeBuffer, (Nat.le_add_left ..).trans hle, hroom⟩

theorem Inv.passed (hi : s.Inv) {taken : π → Nat} (hmoves : s'.moves = s.moves)
    (h : ∀ p, PortComplex.Passed (assignFlitOutputBuf cfg) (taken p) (s.complex p) (s'.complex p)) : s'.Inv := by
  refine ⟨fun p => ?_, fun p hp => ?_, fun p => ?_, fun p x hx => ?_, fun m hm => ?_, fun p => (h p).fits (hi.fits p)⟩
  · rw [hmoves, (h p).arrived]
    exact ((h p).inside.append_left _).trans (hi.conserved p)
  · rw [hmoves, (h p).arrived, (h p).ordered hp]
    exact hi.ordered p hp
  · rw [hmoves, (h p).sent, (h p).sendOutBuffer]
    exact hi.out p
  · obtain ⟨_, hnew, hassign⟩ := (h p).assigned
    rw [hnew] at hx
    exact (mem_append.mp hx).elim (hi.waiting p x) (hassign x)
  · rw [hmoves] at hm
    exact hi.routed m hm

theorem Inv.arrive (hi : s.Inv) (port : π) (flit : Flit π) : (s.arrive port flit).Inv := by
  unfold Switch.arrive
  dsimp only
  split
  · next hpush =>
    rw [Buffer.canPush, decide_eq_true_eq] at hpush
    have hothers : ∀ p, port ≠ p → ((s.setComplex port { s.complex port with
        localPort := ⟨(s.complex port).localPort.elements ++ [flit]⟩, arrived := (s.complex port).arrived ++ [flit] }).complex
          p) =
        s.complex p := fun p hp => complex_setComplex_of_ne s _ (Ne.symm hp)
    have hinside : (fromPort s.moves port).map Move.flit ++ ((s.complex port).forwardBuffer.elements.map Prod.fst ++
        ((s.complex port).routeBuffer.elements ++ ((s.complex port).pipeline.pending.map Prod.fst ++
          ((s.complex port).localPort.elements ++ [flit])))) =
        (fromPort s.moves port).map Move.flit ++ (s.complex port).inside ++ [flit] := by
      rw [inside]
      simp only [append_assoc]
    refine ⟨fun p => ?_, fun p hp => ?_, fun p => ?_, fun p x hx => ?_, hi.routed, fun p => ?_⟩
    all_goals by_cases hp' : port = p
    · subst hp'
      rw [complex_setComplex_self]
      change List.Perm (_ ++ (_ ++ (_ ++ (_ ++ (_ ++ [flit]))))) _
      rw [moves_setComplex, hinside]
      exact (hi.conserved port).append_right _
    · rw [hothers p hp']
      exact hi.conserved p
    · subst hp'
      rw [complex_setComplex_self]
      change _ ++ (_ ++ (_ ++ (_ ++ (_ ++ [flit])))) = _
      rw [moves_setComplex, hinside, hi.ordered port hp]
    · rw [hothers p hp']
      exact hi.ordered p hp
    · subst hp'
      rw [complex_setComplex_self]
      exact hi.out port
    · rw [hothers p hp']
      exact hi.out p
    · subst hp'
      rw [complex_setComplex_self] at hx
      exact hi.waiting port x hx
    · rw [hothers p hp'] at hx
      exact hi.waiting p x hx
    · subst hp'
      have hfits := hi.fits port
      rw [complex_setComplex_self]
      refine ⟨?_, hfits.routeBuffer, hfits.forwardBuffer, hfits.sendOutBuffer⟩
      rw [length_append]
      exact hpush
    · rw [hothers p hp']
      exact hi.fits p
  · exact hi

/-! ## The stages -/

/-- Each port sends some of the flits of its send-out buffer. -/
structure Sent (s s' : Switch cfg) : Prop where
  moves : s'.moves = s.moves
  sends : ∀ p, ∃ out rest, (s.complex p).sendOutBuffer.elements = out ++ rest ∧
    out.length ≤ (cfg.complex p).numOutputChannel ∧
    s'.complex p = { s.complex p with
      sendOutBuffer := ⟨rest⟩, sent := (s.complex p).sent ++ out.map (stamp (cfg.complex p) p) }

variable {net : π → Nat → Bool}

theorem Sent.of_sendOut (h : s.sendOut net = .ok (progress, s')) : Sent s s' := by
  obtain ⟨hmoves, heach, hothers⟩ := forPorts_eq cfg.nodup h
  refine ⟨hmoves, fun p => ?_⟩
  by_cases hp : p ∈ cfg.ports
  · obtain ⟨_, hbody⟩ := heach p hp
    obtain ⟨out, rest, hbuf, hlen, hsent⟩ := sendOut_eq p (net p) (s.complex p)
    refine ⟨out, rest, hbuf, hlen, ?_⟩
    rw [← hsent]
    exact (congrArg Prod.snd (Except.ok.inj hbody)).symm
  · refine ⟨[], (s.complex p).sendOutBuffer.elements, rfl, Nat.zero_le _, ?_⟩
    rw [hothers p hp, map_nil, append_nil]

theorem Inv.sent (hi : s.Inv) (h : Sent s s') : s'.Inv := by
  refine ⟨fun p => ?_, fun p hp => ?_, fun p => ?_, fun p x hx => ?_, fun m hm => ?_, fun p => ?_⟩
  · obtain ⟨out, rest, -, -, hsame⟩ := h.sends p
    rw [h.moves, hsame]
    exact hi.conserved p
  · obtain ⟨out, rest, -, -, hsame⟩ := h.sends p
    rw [h.moves, hsame]
    exact hi.ordered p hp
  · obtain ⟨out, rest, hbuf, -, hsame⟩ := h.sends p
    rw [h.moves, hsame, ← hi.out p, hbuf, map_append, append_assoc]
  · obtain ⟨out, rest, -, -, hsame⟩ := h.sends p
    rw [hsame] at hx
    exact hi.waiting p x hx
  · rw [h.moves] at hm
    exact hi.routed m hm
  · obtain ⟨_, _, hbuf, -, hsame⟩ := h.sends p
    have hfits := hi.fits p
    have hle := hfits.sendOutBuffer
    rw [hbuf, length_append] at hle
    rw [hsame]
    exact ⟨hfits.localPort, hfits.routeBuffer, hfits.forwardBuffer, (Nat.le_add_left ..).trans hle⟩

theorem passed_forPorts {f : ∀ port, PortComplex (cfg.complex port) → Except String (Bool × PortComplex (cfg.complex port))}
    {taken : π → Nat}
    (hf : ∀ p pc b pc', f p pc = .ok (b, pc') → PortComplex.Passed (assignFlitOutputBuf cfg) (taken p) pc pc')
    (h : forPorts f cfg.ports s = .ok (progress, s')) :
    s'.moves = s.moves ∧ ∀ p, PortComplex.Passed (assignFlitOutputBuf cfg) (taken p) (s.complex p) (s'.complex p) := by
  obtain ⟨hmoves, heach, hothers⟩ := forPorts_eq cfg.nodup h
  refine ⟨hmoves, fun p => ?_⟩
  by_cases hp : p ∈ cfg.ports
  · obtain ⟨b, hbody⟩ := heach p hp
    exact hf p _ b _ hbody
  · rw [hothers p hp]
    exact PortComplex.Passed.refl ..

theorem passed_route (h : s.route = .ok (progress, s')) :
    s'.moves = s.moves ∧ ∀ p, PortComplex.Passed (assignFlitOutputBuf cfg) 0 (s.complex p) (s'.complex p) :=
  passed_forPorts (fun _ _ _ _ hbody => PortComplex.passed_routeLoop hbody) h

theorem passed_movePipeline (h : s.movePipeline = .ok (progress, s')) :
    s'.moves = s.moves ∧ ∀ p, PortComplex.Passed (assignFlitOutputBuf cfg) 0 (s.complex p) (s'.complex p) := by
  refine passed_forPorts (fun p pc b pc' hbody => ?_) h
  have heq : pc.movePipeline.2 = pc' := congrArg Prod.snd (Except.ok.inj hbody)
  rw [← heq]
  exact PortComplex.passed_movePipeline ..

theorem passed_startProcessing (h : s.startProcessing = .ok (progress, s')) : s'.moves = s.moves ∧
    ∀ p, PortComplex.Passed (assignFlitOutputBuf cfg) (cfg.complex p).numInputChannel (s.complex p) (s'.complex p) :=
  passed_forPorts (fun _ _ _ _ hbody => PortComplex.passed_startLoop hbody) h

/-! ## Runs -/

/-- A flit arrives, or the switch does one of the stages of its tick. -/
inductive Op (π : Type)
  | arrive (port : π) (flit : Flit π)
  | sendOut (net : π → Nat → Bool)
  | forward (selected : List π)
  | route
  | movePipeline
  | startProcessing

def step (s : Switch cfg) : Op π → Except String (Switch cfg)
  | .arrive port flit => .ok (s.arrive port flit)
  | .sendOut net => do return (← s.sendOut net).2
  | .forward selected => .ok (Switch.forward selected s).2
  | .route => do return (← s.route).2
  | .movePipeline => do return (← s.movePipeline).2
  | .startProcessing => do return (← s.startProcessing).2

def run (s : Switch cfg) (ops : List (Op π)) : Except String (Switch cfg) := ops.foldlM step s

/-- The stages of a tick. -/
def stages (net : π → Nat → Bool) (selected : List π) : List (Op π) :=
  [.sendOut net, .forward selected, .route, .movePipeline, .startProcessing]

theorem Inv.step {op : Op π} (hi : s.Inv) (h : s.step op = .ok s') : s'.Inv := by
  cases op with
  | arrive port flit =>
    cases h
    exact hi.arrive port flit
  | sendOut =>
    obtain ⟨⟨b, t⟩, ht, h⟩ := eq_ok_of_bind h
    cases h
    exact hi.sent (Sent.of_sendOut ht)
  | forward selected =>
    cases h
    obtain ⟨_, hnew⟩ := Forwarded.forward selected s
    exact hi.forwarded hnew
  | route =>
    obtain ⟨⟨b, t⟩, ht, h⟩ := eq_ok_of_bind h
    cases h
    exact hi.passed (passed_route ht).1 (passed_route ht).2
  | movePipeline =>
    obtain ⟨⟨b, t⟩, ht, h⟩ := eq_ok_of_bind h
    cases h
    exact hi.passed (passed_movePipeline ht).1 (passed_movePipeline ht).2
  | startProcessing =>
    obtain ⟨⟨_, _⟩, ht, h⟩ := eq_ok_of_bind h
    cases h
    exact hi.passed (passed_startProcessing ht).1 (passed_startProcessing ht).2

theorem Inv.run {ops : List (Op π)} (hi : s.Inv) (h : s.run ops = .ok s') : s'.Inv :=
  of_foldlM h hi fun _ _ _ _ hs hstep => hs.step hstep

variable {selected : List π}

theorem tick_eq (h : s.tick net selected = .ok (progress, s')) :
    ∃ s₁ s₂ s₃ s₄ b₁ b₂ b₃ b₄ b₅, s.sendOut net = .ok (b₁, s₁) ∧ Switch.forward selected s₁ = (b₂, s₂) ∧
    s₂.route = .ok (b₃, s₃) ∧
      s₃.movePipeline = .ok (b₄, s₄) ∧ s₄.startProcessing = .ok (b₅, s') ∧ progress = (b₁ || b₂ || b₃ || b₄ || b₅) := by
  obtain ⟨⟨b₁, s₁⟩, h₁, h⟩ := eq_ok_of_bind h
  obtain ⟨⟨b₃, s₃⟩, h₃, h⟩ := eq_ok_of_bind h
  obtain ⟨⟨b₄, s₄⟩, h₄, h⟩ := eq_ok_of_bind h
  obtain ⟨⟨b₅, _⟩, h₅, h⟩ := eq_ok_of_bind h
  cases h
  exact ⟨s₁, _, s₃, s₄, b₁, _, b₃, b₄, b₅, h₁, rfl, h₃, h₄, h₅, rfl⟩

theorem tick_run (h : s.tick net selected = .ok (progress, s')) :
    s.run (stages net selected) = .ok s' := by
  obtain ⟨_, _, _, _, _, _, _, _, _, h₁, h₂, h₃, h₄, h₅, -⟩ := tick_eq h
  simp only [Switch.run, stages, foldlM_cons, foldlM_nil, Switch.step, h₁, h₂, h₃, h₄, h₅, bind,
    Except.bind, pure, Except.pure]

/-- No port takes more flits in a tick than it has input channels, nor sends more than it has output channels, and no more are
forwarded from or to it. -/
structure Paced (s s' : Switch cfg) : Prop where
  localPort : ∀ p, ∃ k, k ≤ (cfg.complex p).numInputChannel ∧
    (s'.complex p).localPort.elements = (s.complex p).localPort.elements.drop k
  sent : ∀ p, ∃ new, new.length ≤ (cfg.complex p).numOutputChannel ∧ (s'.complex p).sent = (s.complex p).sent ++ new
  moves : ∃ new, s'.moves = s.moves ++ new ∧
    ∀ p, (fromPort new p).length ≤ (cfg.complex p).numInputChannel ∧ (toPort new p).length ≤ (cfg.complex p).numOutputChannel

theorem Inv.paced (hi : s.Inv) (h : s.tick net selected = .ok (progress, s')) : Paced s s' := by
  obtain ⟨s₁, _, _, _, _, _, _, _, _, h₁, h₂, h₃, h₄, h₅, -⟩ := tick_eq h
  have hsent := Sent.of_sendOut h₁
  obtain ⟨new, hforward⟩ := Forwarded.forward selected s₁
  rw [h₂] at hforward
  obtain ⟨hmoves₃, hpass₃⟩ := passed_route h₃
  obtain ⟨hmoves₄, hpass₄⟩ := passed_movePipeline h₄
  obtain ⟨hmoves₅, hpass₅⟩ := passed_startProcessing h₅
  have hpassed := fun p => ((hpass₃ p).trans (hpass₄ p)).trans (hpass₅ p)
  have hi₁ := hi.sent hsent
  have hi₂ := hi₁.forwarded hforward
  refine ⟨fun p => ?_, fun p => ?_, new, ?_, fun p => ⟨?_, ?_⟩⟩
  · obtain ⟨out, rest, -, -, hsame⟩ := hsent.sends p
    obtain ⟨k, _, hport⟩ := (hpassed p).localPort
    refine ⟨k, by omega, ?_⟩
    rw [hport, hforward.same p, hsame]
  · obtain ⟨out, _, -, _, hsame⟩ := hsent.sends p
    refine ⟨out.map (stamp (cfg.complex p) p), by rwa [length_map], ?_⟩
    rw [(hpassed p).sent, hforward.same p, hsame]
  · rw [hmoves₅, hmoves₄, hmoves₃, hforward.moves, hsent.moves]
  · have hle := (hi₁.fits p).forwardBuffer
    rw [hforward.src p, length_append, length_map] at hle
    omega
  · have hle := (hi₂.fits p).sendOutBuffer
    rw [hforward.out p, length_append, length_map] at hle
    omega

theorem assignFlitOutputBuf_eq_ok {flit : Flit π} {out : π} (h : assignFlitOutputBuf cfg flit = .ok out) :
    cfg.findPort flit.msg.dst = some out ∧ out ∈ cfg.ports := by
  unfold assignFlitOutputBuf at h
  split at h
  · cases h
  · next outPort hfind =>
    split at h
    · next hmem =>
      cases h
      exact ⟨hfind, hmem⟩
    · cases h

end Switch

end Akita.Noc.Switching
