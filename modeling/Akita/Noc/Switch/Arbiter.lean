import Akita.Noc.Switch

/-!
# Runs of the crossbar arbiter

`arbitration.xbarArbiter` called again and again, with any flits in the buffers at each call.

* `call` : the calls of a run; `Matching` : what a call should select; `Fair` : what holds of a run;
* `call_eq` : the scan of a call begins one buffer further than that of the call before;
* `fair_iff` : an arbiter is fair when it has a buffer.
-/

namespace Akita.Noc.Switching.XBarArbiter
open List hiding getElem?_eq_some_iff

variable {π : Type} [DecidableEq π]

/-- The buffers that call number `k` selects, with the output of the first flit of each buffer at each call. -/
def call (a : XBarArbiter π) (outputBuf : Nat → π → Option π) : Nat → Except String (List π × XBarArbiter π)
  | 0 => a.arbitrate (outputBuf 0)
  | k + 1 => do
    let (_, a) ← a.call outputBuf k
    a.arbitrate (outputBuf (k + 1))

/-- Buffers with a flit, no two of them for the same output. An output that a first flit waits for is taken. -/
structure Matching (buffers : List π) (outputBuf : π → Option π) (selectedPort : List π) : Prop where
  nonempty : ∀ p ∈ selectedPort, p ∈ buffers ∧ (outputBuf p).isSome
  exclusive : (selectedPort.map outputBuf).Nodup
  maximal : ∀ p ∈ buffers, p ∉ selectedPort → ∀ out, outputBuf p = some out → ∃ q ∈ selectedPort, outputBuf q = some out

/-- `served` : a buffer that has a flit at each of as many calls as there are buffers is selected at one of them. -/
structure Fair (a : XBarArbiter π) (outputBuf : Nat → π → Option π) : Prop where
  matching : ∀ k, ∃ selectedPort a', a.call outputBuf k = .ok (selectedPort, a') ∧
    Matching a.buffers (outputBuf k) selectedPort
  served : ∀ j p, p ∈ a.buffers → (∀ i < a.buffers.length, (outputBuf (j + i) p).isSome) →
    ∃ i < a.buffers.length, ∃ selectedPort a', a.call outputBuf (j + i) = .ok (selectedPort, a') ∧ p ∈ selectedPort

variable {a : XBarArbiter π} {outputBuf : Nat → π → Option π}

/-- The calls go round the buffers. -/
theorem call_eq (ha : a.buffers ≠ []) (outputBuf : Nat → π → Option π) (k : Nat) :
    a.call outputBuf k = .ok (select (outputBuf k) [] (a.buffers.rotate (a.nextPortID + k)),
      { a with nextPortID := (a.nextPortID + k + 1) % a.buffers.length }) := by
  have hlen : a.buffers.length ≠ 0 := fun hzero => ha (length_eq_zero_iff.1 hzero)
  induction k with
  | zero =>
    rw [call, arbitrate, if_neg hlen]
    rfl
  | succ k ih =>
    rw [call, ih]
    show arbitrate { a with nextPortID := (a.nextPortID + k + 1) % a.buffers.length } (outputBuf (k + 1)) = _
    rw [arbitrate, if_neg hlen]
    dsimp only
    rw [rotate_mod, Nat.mod_add_mod]
    rfl

theorem matching_select (buffers : List π) (outputBuf : π → Option π) (m : Nat) :
    Matching buffers outputBuf (select outputBuf [] (buffers.rotate m)) := by
  obtain ⟨hsub, hsome, hnodup, hall⟩ := select_eq outputBuf [] (buffers.rotate m)
  refine ⟨fun p hp => ⟨mem_rotate.1 (hsub.subset hp), ?_⟩, hnodup, fun p hp _ out hout => ?_⟩
  · obtain ⟨out, hout, -⟩ := hsome p hp
    rw [hout]
    rfl
  · exact (hall p (mem_rotate.2 hp) out hout).resolve_left not_mem_nil

theorem mem_select_head {buffers : List π} {outputBuf : π → Option π} {m : Nat} {p : π} (hp : buffers[m]? = some p)
    (hsome : (outputBuf p).isSome) : p ∈ select outputBuf [] (buffers.rotate m) := by
  obtain ⟨hm, rfl⟩ := List.getElem?_eq_some_iff.1 hp
  obtain ⟨_, hout⟩ := Option.isSome_iff_exists.1 hsome
  rw [List.rotate_eq_drop_append_take hm.le, List.drop_eq_getElem_cons hm, List.cons_append, select, hout]
  dsimp only
  rw [if_neg not_mem_nil]
  exact mem_cons_self

theorem exists_turn {n m : Nat} (hm : m < n) (start : Nat) : ∃ i < n, (start + i) % n = m := by
  have hstart := Nat.mod_lt start (Nat.zero_lt_of_lt hm)
  rcases Nat.lt_or_ge m (start % n) with _ | _
  · refine ⟨m + n - start % n, by omega, ?_⟩
    rw [← Nat.mod_add_mod, show start % n + (m + n - start % n) = m + n by omega, Nat.add_mod_right, Nat.mod_eq_of_lt hm]
  · refine ⟨m - start % n, by omega, ?_⟩
    rw [← Nat.mod_add_mod, show start % n + (m - start % n) = m by omega, Nat.mod_eq_of_lt hm]

theorem fair_of_ne_nil (ha : a.buffers ≠ []) (outputBuf : Nat → π → Option π) : a.Fair outputBuf := by
  refine ⟨fun k => ⟨_, _, call_eq ha outputBuf k, matching_select ..⟩, fun j p hp hwait => ?_⟩
  obtain ⟨_, hm, rfl⟩ := getElem_of_mem hp
  obtain ⟨i, hi, hturn⟩ := exists_turn hm (a.nextPortID + j)
  refine ⟨i, hi, _, _, call_eq ha outputBuf (j + i), ?_⟩
  rw [← Nat.add_assoc, ← rotate_mod, hturn]
  exact mem_select_head (getElem?_eq_getElem hm) (hwait i hi)

/-- Every run of an arbiter is fair, unless it has no buffers. -/
theorem fair_iff (a : XBarArbiter π) (outputBuf : Nat → π → Option π) : a.Fair outputBuf ↔ a.buffers ≠ [] := by
  refine ⟨fun h hnil => ?_, fun ha => fair_of_ne_nil ha outputBuf⟩
  obtain ⟨_, _, hcall, -⟩ := h.matching 0
  rw [call, arbitrate, if_pos (by rw [hnil]; rfl)] at hcall
  cases hcall

/-- An arbiter without buffers divides by their number. -/
theorem not_fair : ¬ ({} : XBarArbiter Nat).Fair (fun _ _ => none) ∧
    ({} : XBarArbiter Nat).call (fun _ _ => none) 0 = .error "integer divide by zero" := by
  refine ⟨fun h => ?_, rfl⟩
  obtain ⟨_, _, hcall, -⟩ := h.matching 0
  cases hcall

end Akita.Noc.Switching.XBarArbiter
