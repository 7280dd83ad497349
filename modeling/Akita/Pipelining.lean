import Akita.Pipelining.Impl

/-!
# The pipelines of the caches

* `Pipeline width numStage α` : a pipeline with one cycle per stage;
* `PipelineImpl.items` : the elements in a pipeline. `items_tick`, `items_accept` : a tick loses and repeats none of the
  elements in the pipeline and the buffer, and `accept` adds exactly the one accepted.
-/

namespace Akita.Pipelining
open Sim Multiset

variable {width numStage cyclePerStage n : Nat} {α : Type}

/-- `cyclePerStage` is 1 in every builder of the caches. -/
abbrev Pipeline (width numStage : Nat) (α : Type) := PipelineImpl width numStage 1 α

namespace PipelineImpl

def clear (_ : PipelineImpl width numStage cyclePerStage α) : PipelineImpl width numStage cyclePerStage α := {}

def items (p : PipelineImpl width numStage cyclePerStage α) : Multiset α := ↑(p.pending.map Prod.fst)

end PipelineImpl

/-- A tick neither loses nor repeats an element of the pipeline and its buffer. -/
theorem items_tick (p : PipelineImpl width numStage cyclePerStage α) (buf : Buffer n α) :
    (p.tick buf).2.1.items + ↑(p.tick buf).2.2.elements = p.items + ↑buf.elements := by
  rw [PipelineImpl.items, PipelineImpl.items, coe_add, coe_add]
  exact coe_eq_coe.mpr (p.items_tick buf)

theorem items_accept {p : PipelineImpl width numStage cyclePerStage α} {buf : Buffer n α} {elem : α}
    {r : PipelineImpl width numStage cyclePerStage α × Buffer n α} (h : p.accept buf elem = .ok r) :
    r.1.items + ↑r.2.elements = elem ::ₘ (p.items + ↑buf.elements) := by
  have hput : ∀ l : List α, (↑(l ++ [elem]) : Multiset α) = elem ::ₘ ↑l :=
    fun l => coe_eq_coe.mpr (List.perm_append_singleton elem l)
  obtain ⟨p', buf'⟩ := r
  rcases PipelineImpl.accept_cases h with ⟨-, rfl, -, rfl⟩ | ⟨-, ⟨l, hl, rfl⟩, rfl⟩
  · rw [hput, add_cons]
  · have hperm := (PipelineImpl.pending_put hl elem).map Prod.fst
    rw [List.map_append] at hperm
    rw [PipelineImpl.items, coe_eq_coe.mpr hperm, List.map_singleton, hput, cons_add, PipelineImpl.items]

@[simp] theorem items_new : ({} : PipelineImpl width numStage cyclePerStage α).items = 0 := by
  rw [PipelineImpl.items, PipelineImpl.pending_new]
  rfl

@[simp] theorem items_clear (p : PipelineImpl width numStage cyclePerStage α) : p.clear.items = 0 := items_new

theorem prefix_tick (p : PipelineImpl width numStage cyclePerStage α) (buf : Buffer n α) :
    buf.elements <+: (p.tick buf).2.2.elements := by
  obtain ⟨outs, hout, -⟩ := p.aged_tick buf
  exact ⟨outs.flatten, hout.symm⟩

theorem prefix_accept {p : PipelineImpl width numStage cyclePerStage α} {buf : Buffer n α} {elem : α}
    {r : PipelineImpl width numStage cyclePerStage α × Buffer n α} (h : p.accept buf elem = .ok r) :
    buf.elements <+: r.2.elements := by
  obtain ⟨p', buf'⟩ := r
  rcases PipelineImpl.accept_cases h with ⟨-, -, -, rfl⟩ | ⟨-, -, rfl⟩
  · exact List.prefix_append ..
  · exact List.prefix_rfl

end Akita.Pipelining
