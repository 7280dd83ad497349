import Akita.Mem.IdealMemController

/-!
# The ideal memory controller, one request at a time

When each request is delivered after the response to the one before, the controller is a service that answers in order
(`ordered_of_oneAtATime`).
-/

namespace Akita.Mem.Ideal
open Sim List

namespace Turn

/-- The requests that a turn delivers. -/
def deliveries (actions : List Action) : Nat := actions.countP fun a => match a with
  | .deliver _ => true
  | _ => false

end Turn

namespace Comp

variable {cfg : Config} {s s' : Comp cfg} {storage : Storage} {now : ℚ}

/-- The requests that came to the port. -/
def issued (s : Comp cfg) : Nat := s.accepted.length + s.topPort.elements.length

/-- A request is delivered only after the response to the one before. -/
def OneAtATime (s : Comp cfg) (turn : Turn) : Prop :=
  Turn.deliveries turn.actions = 0 ∨ Turn.deliveries turn.actions = 1 ∧ s.issued = s.responses.length

instance (s : Comp cfg) (turn : Turn) : Decidable (s.OneAtATime turn) := inferInstanceAs (Decidable (_ ∨ _))

/-- No request comes and none is answered. -/
def Steady (s s' : Comp cfg) : Prop := s'.issued = s.issued ∧ s'.responses = s.responses

theorem Steady.trans {t : Comp cfg} (h : s.Steady t) (h' : t.Steady s') : s.Steady s' := ⟨h'.1.trans h.1, h'.2.trans h.2⟩

theorem steady_schedule {time : ℚ} {task : Task} (h : s.schedule time task = .ok s') : s.Steady s' := by
  obtain ⟨_, -, h⟩ := eq_ok_of_bind h
  cases h
  exact ⟨rfl, rfl⟩

theorem steady_scheduleOthers {evts : List (Event ℚ Nat)} (h : s.scheduleOthers evts = .ok s') : s.Steady s' := by
  obtain ⟨_, -, h⟩ := eq_ok_of_bind h
  cases h
  exact ⟨rfl, rfl⟩

theorem steady_tickLater (h : s.tickLater now = .ok s') : s.Steady s' := by
  unfold tickLater at h
  simp only at h
  split at h
  · cases h
    exact ⟨rfl, rfl⟩
  · exact @steady_schedule cfg { s with nextTickTime := cfg.freq.nextTick now } s' _ _ h

theorem steady_updateMemCtrl {onRetrieve : List (Event ℚ Nat)} {progress : Bool}
    (h : s.updateMemCtrl now onRetrieve = .ok (progress, s')) : s.Steady s' := by
  unfold updateMemCtrl at h
  cases hpeek : s.topPort.peek with
  | none =>
    rw [hpeek] at h
    cases h
    exact ⟨rfl, rfl⟩
  | some =>
    rw [hpeek] at h
    obtain ⟨_, ht, h⟩ := eq_ok_of_bind h
    obtain ⟨_, hu, h⟩ := eq_ok_of_bind h
    cases h
    obtain ⟨hissued, hresponses⟩ := steady_scheduleOthers ht
    obtain ⟨hissued', hresponses'⟩ := steady_schedule hu
    refine ⟨?_, hresponses'.trans hresponses⟩
    rw [hissued']
    simp only [issued, length_append, length_singleton] at hissued ⊢
    have hlen := congrArg length (Buffer.peek_eq_some hpeek)
    simp only [length_cons] at hlen
    omega

theorem steady_tickLoop {width : Nat} {onRetrieve : List (List (Event ℚ Nat))} {progress : Bool}
    (h : tickLoop now width onRetrieve s = .ok (progress, s')) : s.Steady s' := by
  induction width generalizing onRetrieve progress s with
  | zero =>
    cases h
    exact ⟨rfl, rfl⟩
  | succ _ ih =>
    obtain ⟨⟨_, _⟩, ht, h⟩ := eq_ok_of_bind h
    obtain ⟨⟨_, _⟩, hu, h⟩ := eq_ok_of_bind h
    cases h
    exact (steady_updateMemCtrl ht).trans (ih hu)

theorem steady_tick {onRetrieve : List (List (Event ℚ Nat))} (h : s.tick now onRetrieve = .ok s') : s.Steady s' := by
  obtain ⟨⟨progress, _⟩, ht, h⟩ := eq_ok_of_bind h
  have hsteady := steady_tickLoop ht
  cases progress with
  | true => exact hsteady.trans (steady_tickLater h)
  | false =>
    cases h
    exact hsteady

/-- A respond event answers its request or nothing. -/
def Responds (k : Nat) (s s' : Comp cfg) : Prop :=
  s.Steady s' ∨ s'.issued = s.issued ∧ ∃ rsp, s'.responses = s.responses ++ [(k, rsp)]

variable {turn : Turn} {k : Nat}

theorem responds_readRespond {req : ReadReq} (h : s.readRespond now turn k req = .ok s') : s.Responds k s' := by
  obtain ⟨_, -, h⟩ := eq_ok_of_bind h
  obtain ⟨_, -, h⟩ := eq_ok_of_bind h
  obtain ⟨_, hu, h⟩ := eq_ok_of_bind h
  obtain ⟨hissued, hresponses⟩ := steady_scheduleOthers hu
  split at h
  · obtain ⟨hissued', hresponses'⟩ := steady_tickLater h
    exact .inr ⟨hissued'.trans hissued, _, hresponses'.trans (by rw [hresponses])⟩
  · exact .inl ((steady_scheduleOthers hu).trans (steady_schedule h))

theorem responds_writeRespond {req : WriteReq Bytes Mask} (h : s.writeRespond now turn k req = .ok s') :
    s.Responds k s' := by
  obtain ⟨_, hu, h⟩ := eq_ok_of_bind h
  obtain ⟨hissued, hresponses⟩ := steady_scheduleOthers hu
  split at h
  · obtain ⟨_, -, h⟩ := eq_ok_of_bind h
    obtain ⟨_, -, h⟩ := eq_ok_of_bind h
    obtain ⟨hissued', hresponses'⟩ := steady_tickLater h
    exact .inr ⟨hissued'.trans hissued, _, hresponses'.trans (by rw [hresponses])⟩
  · exact .inl ((steady_scheduleOthers hu).trans (steady_schedule h))

theorem issued_actions {actions : List Action} (h : actions.foldlM (fun s a => Comp.act s now a) s = .ok s') :
    s'.issued ≤ s.issued + Turn.deliveries actions ∧ s'.responses = s.responses := by
  induction actions generalizing s with
  | nil =>
    cases h
    exact ⟨Nat.le_add_right .., rfl⟩
  | cons a actions ih =>
    rw [foldlM_cons] at h
    obtain ⟨t, ht, hrest⟩ := eq_ok_of_bind h
    obtain ⟨_, hresponses⟩ := ih hrest
    cases a with
    | deliver req =>
      have hcount : Turn.deliveries (.deliver req :: actions) = Turn.deliveries actions + 1 := by simp [Turn.deliveries]
      have hstep : t.issued ≤ s.issued + 1 ∧ t.responses = s.responses := by
        unfold act at ht
        simp only at ht
        split at ht
        · obtain ⟨hissued', hresponses'⟩ := steady_tickLater ht
          refine ⟨?_, hresponses'⟩
          rw [hissued']
          simp only [issued, length_append, length_singleton]
          omega
        · cases ht
          exact ⟨Nat.le_succ _, rfl⟩
      exact ⟨by omega, hresponses.trans hstep.2⟩
    | notifyPortFree =>
      have hcount : Turn.deliveries (.notifyPortFree :: actions) = Turn.deliveries actions := by simp [Turn.deliveries]
      obtain ⟨hissued', hresponses'⟩ := steady_tickLater ht
      exact ⟨by omega, hresponses.trans hresponses'⟩
    | schedule evt =>
      have hcount : Turn.deliveries (.schedule evt :: actions) = Turn.deliveries actions := by simp [Turn.deliveries]
      obtain ⟨_, hresponses'⟩ := steady_scheduleOthers ht
      exact ⟨by omega, hresponses.trans hresponses'⟩

/-- At most one request is to be answered, and the responses are in the order of the requests. -/
structure Sequential (storage : Storage) (s : Comp cfg) : Prop where
  kept : Kept storage s
  issued : s.issued ≤ s.responses.length + 1
  responses : s.responses.map Prod.fst = range s.responses.length

theorem Sequential.length_outstanding (h : Sequential storage s) : s.outstanding.length ≤ 1 := by
  have hlen := h.kept.once.length_eq
  have hissued := h.issued
  simp only [length_append, length_map, length_range, Comp.issued] at hlen hissued
  omega

theorem Sequential.waits (h : Sequential storage s) (turn : Turn) : s.Waits turn := by
  rintro evt engine k req hadvance htask - ⟨p, hp, hlt, -⟩
  obtain ⟨_, htakes, -⟩ := SerialEngine.advance_eq_ok h.kept.valid hadvance
  have hmem : (k, req) ∈ s.outstanding := mem_filterMap.2 ⟨evt, htakes.mem, by simp [respondOf, htask]⟩
  have hsame : p = (k, req) := by
    have hlen := h.length_outstanding
    cases hl : s.outstanding with
    | nil =>
      rw [hl] at hp
      cases hp
    | cons _ l =>
      rw [hl, length_cons] at hlen
      have hnil : l = [] := length_eq_zero_iff.1 (by omega)
      rw [hl, hnil] at hp hmem
      rw [mem_singleton.1 hp, mem_singleton.1 hmem]
  subst hsame
  exact absurd hlt (lt_irrefl k)

theorem Sequential.answer {rsp : AccessRsp Bytes} (h : Sequential storage s) (hk : Kept storage s')
    (hissued : s'.issued = s.issued) (hresponses : s'.responses = s.responses ++ [(k, rsp)]) : Sequential storage s' := by
  have hlen := hk.once.length_eq
  have hle := h.issued
  have hnodup := hk.once.nodup_iff.2 nodup_range
  have hmem : k ∈ range s'.accepted.length := by
    refine hk.once.mem_iff.1 (mem_append_left _ ?_)
    rw [hresponses]
    simp
  rw [hresponses, map_append, h.responses] at hnodup
  rw [hresponses] at hlen
  simp only [length_append, length_map, length_range, length_singleton, Comp.issued, mem_range] at hlen hle hmem hissued
  have hge : s.responses.length ≤ k := by
    by_contra hlt
    have hdisjoint := disjoint_of_nodup_append (nodup_append.1 hnodup).1
    exact hdisjoint (mem_range.2 (Nat.lt_of_not_le hlt)) (by simp)
  obtain rfl : k = s.responses.length := by omega
  refine ⟨hk, ?_, ?_⟩
  · rw [hresponses]
    simp only [Comp.issued, length_append, length_singleton]
    omega
  · rw [hresponses, map_append, h.responses, length_append, length_singleton, range_succ]
    rfl

theorem Sequential.steady (h : Sequential storage s) (hk : Kept storage s') (hs : s.Steady s') : Sequential storage s' :=
  ⟨hk, by rw [hs.1, hs.2]; exact h.issued, by rw [hs.2]; exact h.responses⟩

theorem Sequential.step (h : Sequential storage s) (hone : s.OneAtATime turn) (hstep : s.step turn = .ok s') :
    Sequential storage s' := by
  have hk := h.kept.step (h.waits turn) hstep
  obtain ⟨⟨evt, engine⟩, -, hstep⟩ := eq_ok_of_bind hstep
  have hresponds : ∀ {k}, Responds k { s with engine } s' → Sequential storage s' := by
    rintro k (hsteady | ⟨hissued, rsp, hresponses⟩)
    · exact h.steady hk hsteady
    · exact h.answer hk hissued hresponses
  cases htask : evt.handler with
  | tick =>
    simp only [htask] at hstep
    exact h.steady hk (steady_tick hstep : Steady { s with engine } s')
  | respond _ req =>
    cases req with
    | read =>
      simp only [htask] at hstep
      exact hresponds (responds_readRespond hstep)
    | write =>
      simp only [htask] at hstep
      exact hresponds (responds_writeRespond hstep)
  | other =>
    simp only [htask] at hstep
    obtain ⟨hissued, hresponses⟩ := issued_actions hstep
    have hissued : s'.issued ≤ s.issued + Turn.deliveries turn.actions := hissued
    have hresponses : s'.responses = s.responses := hresponses
    have hle := h.issued
    refine ⟨hk, ?_, by rw [hresponses]; exact h.responses⟩
    rw [hresponses]
    rcases hone with _ | ⟨_, _⟩
    · omega
    · omega

/-- With one request at a time the controller is a service that answers in order. -/
theorem sequential_of_reaches (h : Reaches OneAtATime storage s) : Sequential storage s := by
  induction h with
  | start h =>
    have hsteady := steady_scheduleOthers h
    refine ⟨Kept.start h, ?_, ?_⟩
    · rw [hsteady.1, hsteady.2]
      exact Nat.zero_le _
    · rw [hsteady.2]
      rfl
  | step _ hone h ih => exact ih.step hone h

theorem ordered_of_oneAtATime (h : Reaches OneAtATime storage s) :
    Relation.ReflTransGen (Service.Step Service.Ordered) (Service.new storage.data) (s.service storage.data) := by
  have hs := sequential_of_reaches h
  refine Service.ordered_of_range hs.kept.reaches (n := s.responses.length) ?_
  rw [← hs.responses]
  simp [service]

end Comp

end Akita.Mem.Ideal
