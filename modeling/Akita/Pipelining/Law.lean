import Akita.Pipelining.Impl
import Akita.Returns
import Mathlib.Data.List.GetD

/-!
# The law of a pipeline

A run of a pipeline and its post-pipeline buffer over `Accept`, `Tick` and `Pop`, with the items numbered in the order they
are accepted. `Law s` : what holds after any run; `pipeline_law` proves it for every shape of the pipeline and every order of
operations.
-/

namespace Akita.Pipelining
open Sim List
open PipelineImpl (accept_cases lane_new lane_put mem_pending pending_new pending_put pos_of_mem_lane slot_put work_eq_zero)
open Prod (ext fst)

inductive Op
  | accept
  | tick
  | pop
deriving DecidableEq

/-- A pipeline, its buffer, and what has happened to them. -/
structure Run (width numStage cyclePerStage capacity : Nat) where
  pipe : PipelineImpl width numStage cyclePerStage Nat := {}
  buf : Buffer capacity Nat := {}
  /-- the ticks so far -/
  now : Nat := 0
  /-- for each item, the tick and the lane of its acceptance -/
  accepted : List (Nat × Nat) := []
  /-- the items that came to the buffer, each with the tick -/
  departures : List (Nat × Nat) := []
  popped : List Nat := []
  /-- the items that a tick left in their stage with the cycles they had, each with that tick -/
  blocked : List (Nat × Nat) := []
  /-- the ticks that ended with the buffer full -/
  full : List Nat := []
  /-- how many ticks began with room in the buffer -/
  roomy : Nat := 0
deriving DecidableEq

namespace Run

variable {width numStage cyclePerStage capacity : Nat}

/-- What was pushed to the buffer, with the tick. -/
def entered (buf buf' : Buffer capacity Nat) (t : Nat) : List (Nat × Nat) :=
  (buf'.elements.drop buf.elements.length).map (·, t)

/-- A tick of the pipeline. -/
def ticked (s : Run width numStage cyclePerStage capacity) : Run width numStage cyclePerStage capacity :=
  let pipe := (s.pipe.tick s.buf).2.1
  let buf := (s.pipe.tick s.buf).2.2
  { s with
    pipe, buf
    now := s.now + 1
    departures := s.departures ++ entered s.buf buf (s.now + 1)
    blocked := s.blocked ++ (s.pipe.pending.filter (· ∈ pipe.pending)).map fun a => (a.1, s.now + 1)
    full := s.full ++ if buf.canPush then [] else [s.now + 1]
    roomy := s.roomy + s.buf.canPush.toNat }

def step (s : Run width numStage cyclePerStage capacity) : Op → Except String (Run width numStage cyclePerStage capacity)
  | .accept => do
    let (pipe, buf) ← s.pipe.accept s.buf s.accepted.length
    return { s with
      pipe, buf
      accepted := s.accepted ++ [(s.now, s.pipe.freeLane.getD 0)]
      departures := s.departures ++ entered s.buf buf s.now }
  | .tick => .ok s.ticked
  | .pop => .ok { s with buf := s.buf.pop, popped := s.popped ++ s.buf.peek.toList }

def run (s : Run width numStage cyclePerStage capacity) (ops : List Op) :
    Except String (Run width numStage cyclePerStage capacity) :=
  ops.foldlM step s

variable (s : Run width numStage cyclePerStage capacity)

def acceptedAt (k : Nat) : Nat := (s.accepted.getD k (0, 0)).1

def laneIn (accepted : List (Nat × Nat)) (k : Nat) : Nat := (accepted.getD k (0, 0)).2

def laneOf (k : Nat) : Nat := laneIn s.accepted k

def items : List Nat := s.pipe.pending.map fst

def departed : List Nat := s.departures.map fst

def NeverBlocked (k : Nat) : Prop := ∀ t, (k, t) ∉ s.blocked

/-- The law of a pipeline. -/
structure Law (s : Run width numStage cyclePerStage capacity) : Prop where
  /-- every accepted item is in the pipeline or has left it, once -/
  once : (s.items ++ s.departed).Perm (range s.accepted.length)
  /-- an item leaves after `numStage * cyclePerStage` ticks, and no later when nothing blocks it -/
  latency : ∀ k t, (k, t) ∈ s.departures →
    s.acceptedAt k + numStage * cyclePerStage ≤ t ∧ (s.NeverBlocked k → t = s.acceptedAt k + numStage * cyclePerStage)
  waiting : ∀ k ∈ s.items, s.NeverBlocked k → s.now < s.acceptedAt k + numStage * cyclePerStage
  /-- only a full buffer blocks -/
  blocked : ∀ k t, (k, t) ∈ s.blocked → t ∈ s.full
  /-- the items of a lane leave in the order of their acceptance -/
  order : ∀ l, s.departed.filter (s.laneOf · = l) <+: (range s.accepted.length).filter (s.laneOf · = l)
  /-- the items that left are popped or in the buffer, which is never overfull -/
  stored : s.departed = s.popped ++ s.buf.elements
  room : s.buf.elements.length ≤ capacity
  /-- `Accept` after `CanAccept` does not panic and overwrites nothing -/
  accept : s.pipe.canAccept s.buf = true → ∃ s', s.step .accept = .ok s' ∧
    (∀ l i x, s.pipe.slot l i = some x → s'.pipe.slot l i = some x) ∧ s.buf.elements <+: s'.buf.elements
  /-- `Tick` reports progress when something changed -/
  progress : (s.pipe.tick s.buf).1 = true ↔ (s.pipe.tick s.buf).2 ≠ (s.pipe, s.buf)
  /-- with enough ticks that find room in the buffer, every item leaves -/
  drains : ∀ ops s', .accept ∉ ops → s.run ops = .ok s' → s.roomy + s.pipe.work ≤ s'.roomy →
    s'.departed.Perm (range s.accepted.length)

/-! ## The invariant of a run -/

theorem exists_mem_of_forall₂ {α β : Type} {R : α → β → Prop} {as : List α} {bs : List β} (h : List.Forall₂ R as bs) {b : β}
    (hb : b ∈ bs) : ∃ a ∈ as, R a b := by
  induction h with
  | nil => cases hb
  | cons hab _ ih =>
    rcases mem_cons.mp hb with rfl | hb
    · exact ⟨_, mem_cons_self, hab⟩
    · obtain ⟨a, ha, hR⟩ := ih hb
      exact ⟨a, mem_cons_of_mem _ ha, hR⟩

theorem entered_eq (buf : Buffer capacity Nat) {buf' : Buffer capacity Nat} {out : List Nat} (t : Nat)
    (h : buf'.elements = buf.elements ++ out) : entered buf buf' t = out.map (·, t) := by
  unfold entered
  rw [h, drop_left]

theorem filter_flatten {f : Nat → Nat} {outs : List (List Nat)} {c : Nat} (h : ∀ i, ∀ k ∈ outs.getD i [], f k = c + i)
    (l : Nat) : outs.flatten.filter (f · = c + l) = outs.getD l [] := by
  induction outs generalizing c l with
  | nil => rfl
  | cons out outs ih =>
    have hout : ∀ k ∈ out, f k = c := fun k hk => h 0 k hk
    have houts : ∀ i, ∀ k ∈ outs.getD i [], f k = c + 1 + i := by
      intro i k hk
      rw [h (i + 1) k hk]
      omega
    rw [flatten_cons, filter_append]
    cases l with
    | zero =>
      have hself : out.filter (f · = c + 0) = out := by
        rw [filter_eq_self]
        intro k hk
        exact decide_eq_true (hout k hk)
      have hrest : outs.flatten.filter (f · = c + 0) = [] := by
        rw [filter_eq_nil_iff]
        intro k hk hk'
        obtain ⟨l, hl, _⟩ := mem_flatten.mp hk
        obtain ⟨i, hi⟩ := mem_iff_getElem?.mp hl
        have hf := houts i k (by rwa [getD_eq_getElem?_getD, hi])
        have hf' := of_decide_eq_true hk'
        omega
      rw [hself, hrest, append_nil]
      rfl
    | succ l =>
      have hout' : out.filter (f · = c + (l + 1)) = [] := by
        rw [filter_eq_nil_iff]
        intro k hk hk'
        have hf := hout k hk
        have hf' := of_decide_eq_true hk'
        omega
      have hrest := ih houts l
      rw [hout', nil_append, ← Nat.add_assoc, Nat.add_right_comm, hrest]
      rfl

structure Inv (s : Run width numStage cyclePerStage capacity) : Prop where
  once : (s.items ++ s.departed).Perm (range s.accepted.length)
  order : ∀ l, s.departed.filter (s.laneOf · = l) ++ (s.pipe.lane l).map fst =
    (range s.accepted.length).filter (s.laneOf · = l)
  stored : s.departed = s.popped ++ s.buf.elements
  room : s.buf.elements.length ≤ capacity
  age : ∀ a ∈ s.pipe.pending, s.acceptedAt a.1 + numStage * max cyclePerStage 1 ≤ s.now + a.2 ∧
    (s.NeverBlocked a.1 → s.acceptedAt a.1 + numStage * max cyclePerStage 1 = s.now + a.2)
  left : ∀ d ∈ s.departures, s.acceptedAt d.1 + numStage * max cyclePerStage 1 ≤ d.2 ∧
    (s.NeverBlocked d.1 → s.acceptedAt d.1 + numStage * max cyclePerStage 1 = d.2)
  held : ∀ b ∈ s.blocked, b.2 ∈ s.full

section Numbers

variable {accepted : List (Nat × Nat)}

theorem getD_of_lt {k : Nat} (hk : k < accepted.length) (x : Nat × Nat) :
    (accepted ++ [x]).getD k (0, 0) = accepted.getD k (0, 0) :=
  getD_append _ _ _ k hk

theorem getD_last (x : Nat × Nat) : (accepted ++ [x]).getD accepted.length (0, 0) = x := by
  rw [getD_append_right _ _ _ _ (le_refl _), Nat.sub_self]
  rfl

/-- The lane of an item does not change when another one is accepted. -/
theorem filter_of_lt {ks : List Nat} (hks : ∀ k ∈ ks, k < accepted.length) (x : Nat × Nat) (l : Nat) :
    ks.filter (laneIn (accepted ++ [x]) · = l) = ks.filter (laneIn accepted · = l) := by
  refine filter_congr fun k hk => ?_
  rw [laneIn, getD_of_lt (hks k hk), laneIn]

theorem filter_last (x : Nat × Nat) (l : Nat) :
    [accepted.length].filter (laneIn (accepted ++ [x]) · = l) = if l = x.2 then [accepted.length] else [] := by
  rw [filter_singleton, laneIn, getD_last]
  by_cases hl : l = x.2
  · simp [hl]
  · simp [hl, Ne.symm hl]

theorem filter_range (x : Nat × Nat) (l : Nat) :
    (range (accepted ++ [x]).length).filter (laneIn (accepted ++ [x]) · = l) =
      (range accepted.length).filter (laneIn accepted · = l) ++ if l = x.2 then [accepted.length] else [] := by
  rw [length_append, length_singleton, range_succ, filter_append, filter_last, filter_of_lt fun k hk => mem_range.mp hk]

end Numbers

namespace Inv

variable {s}

theorem new : Inv ({} : Run width numStage cyclePerStage capacity) where
  once := by simp [items, departed, pending_new]
  order := fun l => by simp [departed, lane_new]
  stored := rfl
  room := Nat.zero_le _
  age := by simp [pending_new]
  left := by simp
  held := by simp

theorem lt (h : s.Inv) {k : Nat} (hk : k ∈ s.items ∨ k ∈ s.departed) : k < s.accepted.length := by
  have hmem : k ∈ s.items ++ s.departed := mem_append.mpr hk
  exact mem_range.mp (h.once.mem_iff.mp hmem)

theorem nodup (h : s.Inv) : (s.items ++ s.departed).Nodup := h.once.nodup_iff.mpr nodup_range

theorem laneOf_eq (h : s.Inv) {l : Nat} {a : Nat × Nat} (ha : a ∈ s.pipe.lane l) : s.laneOf a.1 = l := by
  have hmem : a.1 ∈ (range s.accepted.length).filter (s.laneOf · = l) := by
    rw [← h.order l]
    exact mem_append_right _ (mem_map_of_mem ha)
  simpa using (mem_filter.mp hmem).2

theorem pop (h : s.Inv) : Inv { s with buf := s.buf.pop, popped := s.popped ++ s.buf.peek.toList } where
  once := h.once
  order := h.order
  stored := by
    have hstored := h.stored
    change s.departed = s.popped ++ s.buf.peek.toList ++ s.buf.elements.tail
    rw [hstored, append_assoc]
    congr 1
    obtain ⟨elements⟩ := s.buf
    cases elements <;> rfl
  room := by
    have hroom := h.room
    rw [Buffer.elements_pop, length_tail]
    omega
  age := h.age
  left := h.left
  held := h.held

theorem full_of_blocked (h : s.Inv) {a : Nat × Nat} (ha : a ∈ s.pipe.pending) (ha' : a ∈ (s.pipe.tick s.buf).2.1.pending) :
    (s.pipe.tick s.buf).2.2.canPush = false := by
  obtain ⟨_, -, haged⟩ := s.pipe.aged_tick s.buf
  obtain ⟨l, hl⟩ := mem_pending.mp ha'
  obtain ⟨b, hb, hab⟩ := exists_mem_of_forall₂ (haged l) (mem_append_right _ hl)
  have hsame : b = a := by
    have hnodup : (s.pipe.pending.map fst).Nodup := (nodup_append.mp h.nodup).1
    exact inj_on_of_nodup_map hnodup (mem_pending.mpr ⟨l, hb⟩) ha hab.1.symm
  rcases hab.2 with hdec | ⟨hfull, -⟩
  · rw [hsame] at hdec
    omega
  · exact hfull

theorem tick (h : s.Inv) : s.ticked.Inv := by
  obtain ⟨outs, hout, haged⟩ := s.pipe.aged_tick s.buf
  have hent := entered_eq s.buf (s.now + 1) hout
  have hlanes : ∀ l, ∀ k ∈ outs.getD l [], s.laneOf k = l := by
    intro l k hk
    obtain ⟨a, ha, hab⟩ := exists_mem_of_forall₂ (haged l) (mem_append_left _ (mem_map_of_mem hk))
    rw [← h.laneOf_eq ha, ← hab.1]
  have hnever : ∀ k, s.ticked.NeverBlocked k →
      s.NeverBlocked k ∧ ∀ a ∈ s.pipe.pending, a ∈ (s.pipe.tick s.buf).2.1.pending → a.1 ≠ k := by
    intro k hk
    refine ⟨fun t ht => hk t (mem_append_left _ ht), fun a ha ha' hak => hk (s.now + 1) (mem_append_right _ ?_)⟩
    rw [← hak]
    exact mem_map_of_mem (mem_filter.mpr ⟨ha, decide_eq_true ha'⟩)
  have hdeparted : (s.departures ++ entered s.buf (s.pipe.tick s.buf).2.2 (s.now + 1)).map fst =
      s.departed ++ outs.flatten := by
    rw [hent, map_append, map_map]
    congr 1
    exact map_id outs.flatten
  constructor
  case once =>
    have hperm := s.pipe.items_tick s.buf
    have honce := h.once
    change ((s.pipe.tick s.buf).2.1.pending.map fst ++
      (s.departures ++ entered s.buf (s.pipe.tick s.buf).2.2 (s.now + 1)).map fst).Perm (range s.accepted.length)
    rw [hdeparted, h.stored]
    rw [hout, ← Multiset.coe_eq_coe] at hperm
    rw [h.stored, ← Multiset.coe_eq_coe] at honce
    rw [← Multiset.coe_eq_coe]
    simp only [← Multiset.coe_add] at hperm honce ⊢
    rw [add_assoc, add_left_comm, hperm, ← honce, items]
    ac_rfl
  case order =>
    intro l
    have hlane := fst_of_aged (haged l)
    have hflat := filter_flatten (f := s.laneOf) (c := 0) (fun i k hk => by rw [hlanes i k hk, Nat.zero_add]) l
    have horder := h.order l
    change ((s.departures ++ entered s.buf (s.pipe.tick s.buf).2.2 (s.now + 1)).map fst).filter (s.laneOf · = l) ++
      ((s.pipe.tick s.buf).2.1.lane l).map fst = _
    rw [Nat.zero_add] at hflat
    rw [hdeparted, filter_append, hflat, append_assoc, ← hlane]
    exact horder
  case stored =>
    change (s.departures ++ entered s.buf (s.pipe.tick s.buf).2.2 (s.now + 1)).map fst = s.popped ++
      (s.pipe.tick s.buf).2.2.elements
    rw [hdeparted, hout, h.stored, append_assoc]
  case room => exact s.pipe.room_tick h.room
  case age =>
    intro b hb
    obtain ⟨l, hl⟩ := mem_pending.mp hb
    obtain ⟨a, ha, hab⟩ := exists_mem_of_forall₂ (haged l) (mem_append_right _ hl)
    have hmem := mem_pending.mpr ⟨l, ha⟩
    have hage := h.age a hmem
    change s.acceptedAt b.1 + _ ≤ s.now + 1 + b.2 ∧ (_ → s.acceptedAt b.1 + _ = s.now + 1 + b.2)
    rw [hab.1]
    rcases hab.2 with hdec | ⟨-, hheld⟩
    · exact ⟨by omega, fun hk => by have := hage.2 (hnever _ hk).1; omega⟩
    · have hsame : b = a := ext hab.1 hheld
      exact ⟨by omega, fun hk => absurd rfl ((hnever _ hk).2 a hmem (hsame ▸ hb))⟩
  case left =>
    intro d hd
    change d ∈ s.departures ++ entered s.buf (s.pipe.tick s.buf).2.2 (s.now + 1) at hd
    rw [hent] at hd
    rcases mem_append.mp hd with hold | hnew
    · exact ⟨(h.left d hold).1, fun hk => (h.left d hold).2 (hnever _ hk).1⟩
    · obtain ⟨k, hk, rfl⟩ := mem_map.mp hnew
      obtain ⟨_, hmem, _⟩ := mem_flatten.mp hk
      obtain ⟨l, hl⟩ := mem_iff_getElem?.mp hmem
      have hget : k ∈ outs.getD l [] := by rwa [getD_eq_getElem?_getD, hl]
      obtain ⟨a, ha, hab⟩ := exists_mem_of_forall₂ (haged l) (mem_append_left _ (mem_map_of_mem hget))
      have hpos := pos_of_mem_lane ha
      have hage := h.age a (mem_pending.mpr ⟨l, ha⟩)
      have hone : a.2 = 1 := by
        rcases hab.2 with hdec | ⟨-, hheld⟩
        · exact hdec.symm
        · exact absurd hheld (by omega)
      rw [hone, ← hab.1] at hage
      exact ⟨hage.1, fun hn => hage.2 (hnever _ hn).1⟩
  case held =>
    intro b hb
    change b.2 ∈ s.full ++ if (s.pipe.tick s.buf).2.2.canPush then [] else [s.now + 1]
    rcases mem_append.mp hb with hold | hnew
    · exact mem_append_left _ (h.held b hold)
    · obtain ⟨_, ha, rfl⟩ := mem_map.mp hnew
      obtain ⟨ha, ha'⟩ := mem_filter.mp ha
      have hfull := h.full_of_blocked ha (of_decide_eq_true ha')
      rw [if_neg (by rw [hfull]; decide)]
      exact mem_append_right _ (mem_singleton.mpr rfl)

variable {s' : Run width numStage cyclePerStage capacity}

theorem accept (h : s.Inv) (hs : s.step .accept = .ok s') : s'.Inv := by
  obtain ⟨⟨pipe, buf⟩, hacc, hret⟩ := eq_ok_of_bind hs
  cases hret
  have hdeparted : ∀ k ∈ s.departed, k < s.accepted.length := fun k hk => h.lt (.inr hk)
  have honce := h.once.append_right [s.accepted.length]
  rcases accept_cases hacc with ⟨hstage, rfl, hroom, rfl⟩ | ⟨hstage, ⟨l, hl, rfl⟩, rfl⟩
  · -- no stages: the item goes straight to the buffer
    have hent := entered_eq s.buf s.now (rfl : (⟨s.buf.elements ++ [s.accepted.length]⟩ : Buffer capacity Nat).elements = _)
    rw [map_singleton] at hent
    rw [s.pipe.not_free_of_no_stage hstage, Option.getD_none, hent]
    constructor
    case once =>
      change (s.items ++ (s.departures ++ [(s.accepted.length, s.now)]).map fst).Perm
        (range (s.accepted ++ [(s.now, 0)]).length)
      rw [map_append, ← append_assoc, length_append, length_singleton, range_succ]
      exact honce
    case order =>
      intro k
      have horder := h.order k
      have hnone := s.pipe.lane_of_no_stage hstage k
      change ((s.departures ++ [(s.accepted.length, s.now)]).map fst).filter (laneIn (s.accepted ++ [(s.now, 0)]) · = k) ++
        (s.pipe.lane k).map fst = (range (s.accepted ++ [(s.now, 0)]).length).filter
        (laneIn (s.accepted ++ [(s.now, 0)]) · = k)
      rw [hnone, map_nil, append_nil] at horder ⊢
      rw [filter_range, map_append, filter_append, map_singleton, filter_last, ← departed, filter_of_lt hdeparted]
      exact congrArg (· ++ _) horder
    case stored =>
      change (s.departures ++ [(s.accepted.length, s.now)]).map fst = s.popped ++ (s.buf.elements ++ [s.accepted.length])
      rw [map_append, ← append_assoc, ← h.stored]
      rfl
    case room =>
      change (s.buf.elements ++ [s.accepted.length]).length ≤ capacity
      rw [length_append]
      exact of_decide_eq_true hroom
    case age =>
      intro a ha
      obtain ⟨l, hl⟩ := mem_pending.mp ha
      change a ∈ s.pipe.lane l at hl
      rw [s.pipe.lane_of_no_stage hstage] at hl
      cases hl
    case left =>
      intro d hd
      change ((s.accepted ++ [(s.now, 0)]).getD d.1 (0, 0)).1 + _ ≤ _ ∧
        (_ → ((s.accepted ++ [(s.now, 0)]).getD d.1 (0, 0)).1 + _ = _)
      rcases mem_append.mp hd with hd | hd
      · rw [getD_of_lt (hdeparted _ (mem_map_of_mem hd))]
        exact h.left d hd
      · have hzero : numStage * max cyclePerStage 1 = 0 := by rw [hstage, Nat.zero_mul]
        rw [mem_singleton.mp hd, getD_last, hzero]
        exact ⟨le_refl _, fun _ => rfl⟩
    case held => exact h.held
  · -- the item enters the first free lane
    have hent := entered_eq s.buf s.now (append_nil _).symm
    rw [map_nil] at hent
    rw [hl, Option.getD_some, hent, append_nil]
    constructor
    case once =>
      have hput := (pending_put hl s.accepted.length).map fst
      change ((s.pipe.put l s.accepted.length).pending.map fst ++ s.departed).Perm (range (s.accepted ++ [(s.now, l)]).length)
      rw [length_append, length_singleton, range_succ]
      refine (hput.append_right _).trans (.trans ?_ honce)
      rw [map_append, append_assoc, append_assoc]
      exact List.Perm.append_left _ perm_append_comm
    case order =>
      intro k
      have horder := h.order k
      change s.departed.filter (laneIn (s.accepted ++ [(s.now, l)]) · = k) ++
        ((s.pipe.put l s.accepted.length).lane k).map fst =
        (range (s.accepted ++ [(s.now, l)]).length).filter (laneIn (s.accepted ++ [(s.now, l)]) · = k)
      rw [filter_range, filter_of_lt hdeparted, lane_put hl, map_append, ← append_assoc]
      refine congrArg₂ (· ++ ·) horder ?_
      by_cases hk : k = l
      · rw [if_pos hk, if_pos hk]
        rfl
      · rw [if_neg hk, if_neg hk]
        rfl
    case stored => exact h.stored
    case room => exact h.room
    case age =>
      intro a ha
      change ((s.accepted ++ [(s.now, l)]).getD a.1 (0, 0)).1 + _ ≤ _ ∧
        (_ → ((s.accepted ++ [(s.now, l)]).getD a.1 (0, 0)).1 + _ = _)
      rcases mem_append.mp ((pending_put hl s.accepted.length).mem_iff.mp ha) with hmem | hlast
      · rw [getD_of_lt (h.lt (.inl (mem_map_of_mem hmem)))]
        exact h.age a hmem
      · rw [mem_singleton.mp hlast, getD_last]
        exact ⟨le_refl _, fun _ => rfl⟩
    case left =>
      intro d hd
      change ((s.accepted ++ [(s.now, l)]).getD d.1 (0, 0)).1 + _ ≤ _ ∧
        (_ → ((s.accepted ++ [(s.now, l)]).getD d.1 (0, 0)).1 + _ = _)
      rw [getD_of_lt (hdeparted _ (mem_map_of_mem hd))]
      exact h.left d hd
    case held => exact h.held

theorem step (h : s.Inv) {op : Op} (hs : s.step op = .ok s') : s'.Inv := by
  cases op with
  | accept => exact h.accept hs
  | tick =>
    cases hs
    exact h.tick
  | pop =>
    cases hs
    exact h.pop

theorem run (h : s.Inv) {ops : List Op} (hs : s.run ops = .ok s') : s'.Inv :=
  of_foldlM hs h fun _ _ _ _ hb hstep => hb.step hstep

end Inv

/-! ## The law -/

variable {s}

theorem work_run {ops : List Op} {s' : Run width numStage cyclePerStage capacity} (hops : .accept ∉ ops)
    (hs : s.run ops = .ok s') :
    s'.accepted = s.accepted ∧ (s'.pipe.work = 0 ∨ s'.pipe.work + s'.roomy ≤ s.pipe.work + s.roomy) := by
  refine of_foldlM (P := fun s₁ => s₁.accepted = s.accepted ∧
    (s₁.pipe.work = 0 ∨ s₁.pipe.work + s₁.roomy ≤ s.pipe.work + s.roomy)) hs ⟨rfl, .inr (le_refl _)⟩
      fun s₁ op hop s₂ h₁ hstep => ?_
  cases op with
  | accept => exact absurd hop hops
  | pop =>
    cases hstep
    exact h₁
  | tick =>
    cases hstep
    refine ⟨h₁.1, ?_⟩
    have hwork := s₁.pipe.work_tick s₁.buf
    change (s₁.pipe.tick s₁.buf).2.1.work = 0 ∨ (s₁.pipe.tick s₁.buf).2.1.work + (s₁.roomy + s₁.buf.canPush.toNat) ≤ _
    by_cases hzero : s₁.pipe.work = 0
    · exact .inl (by omega)
    · refine .inr ?_
      have hmono : s₁.buf.canPush.toNat ≤ (s₁.pipe.tick s₁.buf).1.toNat := by
        cases hroom : s₁.buf.canPush with
        | false => exact Nat.zero_le _
        | true => rw [PipelineImpl.tick_of_room hroom fun hnil => hzero (work_eq_zero.mpr hnil)]
      have h₂ := h₁.2.resolve_left hzero
      omega

theorem Inv.law (h : s.Inv) (hc : 1 ≤ cyclePerStage) : s.Law where
  once := h.once
  latency := by
    intro k t hd
    have hleft := h.left _ hd
    rw [max_eq_left hc] at hleft
    exact ⟨hleft.1, fun hk => (hleft.2 hk).symm⟩
  waiting := by
    intro k hk hn
    obtain ⟨a, ha, rfl⟩ := mem_map.mp hk
    obtain ⟨l, hl⟩ := mem_pending.mp ha
    have hage := (h.age a ha).2 hn
    have hpos := pos_of_mem_lane hl
    rw [max_eq_left hc] at hage
    omega
  blocked := fun k t hb => h.held _ hb
  order := fun l => ⟨_, h.order l⟩
  stored := h.stored
  room := h.room
  accept := by
    intro hcan
    obtain ⟨⟨pipe, buf⟩, hacc⟩ := PipelineImpl.accept_ok hcan s.accepted.length
    refine ⟨_, by rw [Run.step, hacc]; rfl, ?_⟩
    rcases accept_cases hacc with ⟨-, rfl, -, rfl⟩ | ⟨-, ⟨l, hl, rfl⟩, rfl⟩
    · exact ⟨fun l i x hx => hx, prefix_append ..⟩
    · exact ⟨fun k i x hx => slot_put hl _ hx, prefix_rfl⟩
  progress := PipelineImpl.tick_progress s.pipe s.buf
  drains := by
    intro ops s' hops hs hroomy
    obtain ⟨hacc, _⟩ := work_run hops hs
    have hnil : s'.pipe.pending = [] := work_eq_zero.mp (by omega)
    have honce := (h.run hs).once
    rw [items, hnil, hacc] at honce
    exact honce

/-- The law of every pipeline, after every run of operations. -/
theorem pipeline_law (hc : 1 ≤ cyclePerStage) (ops : List Op) (s : Run width numStage cyclePerStage capacity)
    (hs : ({} : Run width numStage cyclePerStage capacity).run ops = .ok s) : s.Law :=
  (Inv.new.run hs).law hc

/-- Two lanes of two stages with two cycles each, and a buffer for one item. -/
theorem pipeline_law_small : ∃ s : Run 2 2 2 1,
    ({} : Run 2 2 2 1).run [.accept, .accept, .tick, .tick, .tick, .tick, .pop, .tick] = .ok s ∧
      s.departures = [(0, 4), (1, 5)] ∧ s.blocked = [(1, 4)] ∧ s.Law := by
  have hrun : Succeeds (fun s => decide (s.departures = [(0, 4), (1, 5)] ∧ s.blocked = [(1, 4)]) = true)
      (({} : Run 2 2 2 1).run [.accept, .accept, .tick, .tick, .tick, .tick, .pop, .tick]) := .of_any (by decide +kernel)
  obtain ⟨s, hs, hdone⟩ := hrun
  have h := of_decide_eq_true hdone
  exact ⟨s, hs, h.1, h.2, pipeline_law (by decide) _ s hs⟩

end Run

end Akita.Pipelining
