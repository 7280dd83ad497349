import Akita.WriteBack.Blocks
import Mathlib.Algebra.Order.Sub.Basic
import Mathlib.Data.Multiset.OrderedMonoid

/-!
# The history of blocks and victims

An observer of the flow notes what becomes of each block: which of its bytes are written after it has got a line, and what
it holds when it is chosen as a victim. Everything is read off the flow before and after a step.

* `Flow.Puts`, `Flow.Fills`, `Flow.Allocates`, `Flow.Chooses` : what a step does to a block;
* `History.next` : the notes after a step;
* `Noted C a H a' H'` : steps that meet `C` lead from one flow and its notes to another;
* `Watched R C m s ks τ H` : the run to `s`, whose steps meet `C`, with the notes `H`.

`Reaches.watched` : every run can be watched.
-/

namespace Akita.WriteBack
open Sim Pipelining Mem Mem.Cache

variable {cfg : Config}

/-- The write covers byte `i` of its line. -/
def touches (cfg : Config) (w : TopWrite) (i : Nat) : Bool := covers (offsetOf cfg w.address) w.data w.dirtyMask i

/-- The choice of a dirty block as the victim of a transaction: the line it holds, the bytes written to it since it was
last filled or allocated, and its data. -/
structure Choice where
  id : Nat
  pid : PID
  tag : Nat
  written : Set Nat
  data : Nat → UInt8

/-- `written b` : the bytes written to block `b` since it was last filled or allocated; `chosen` : the choices of victims so
far; `sent` : the evictions whose requests have been sent. -/
structure History where
  written : BlockRef → Set Nat := fun _ => ∅
  chosen : Set Choice := ∅
  sent : Set Transaction := ∅

namespace Flow

/-! ## What a step does -/

section
variable (a a' : Flow cfg)

/-- The transaction comes to the bank. -/
def Enters (t : Transaction) : Prop := t ∈ a'.bank - a.bank

/-- The transaction goes from the bank. -/
def Leaves (t : Transaction) : Prop := t ∈ a.bank - a'.bank

/-- The directory chooses the dirty block `b` as the victim of `t`. -/
structure Chooses (t : Transaction) (b : BlockRef) : Prop where
  enters : a.Enters a' t
  evicts : t.action = .bankEvictAndWrite ∨ t.action = .bankEvictAndFetch
  block : t.block = some b

/-- The bank writes `w` to block `b`. -/
def Puts (w : TopWrite) (b : BlockRef) : Prop :=
  ∃ t, a.Leaves a' t ∧ t.action = .bankWriteHit ∧ t.write = some w ∧ t.block = some b

/-- The line of entry `e` has come, with the writes of the entry merged into it; it is for block `b`. -/
structure Fills (e : EntryRef) (b : BlockRef) : Prop where
  waits : e ∈ a.mshr.entries
  done : e ∉ a'.mshr.entries
  block : (a.mshr.heap e).block = some b

/-- Block `b` is given a line. -/
def Allocates (b : BlockRef) : Prop :=
  Holds a'.blocks b (a'.blocks b).pid (a'.blocks b).tag ∧ ¬ Holds a.blocks b (a'.blocks b).pid (a'.blocks b).tag

end

/-- What block `b` is when it is chosen as the victim of `t`. -/
def choice (a : Flow cfg) (H : History) (t : Transaction) (b : BlockRef) : Choice where
  id := t.id
  pid := (a.blocks b).pid
  tag := (a.blocks b).tag
  written := H.written b
  data i := a.storage.data (b.cacheAddress cfg.geometry + i)

variable {a a' : Flow cfg} {l : Label} {t : Transaction} {k : Multiset Transaction} {x : Transaction}

theorem leaves_cons (hbank : a.bank = t ::ₘ k) (hbank' : a'.bank = k) : a.Leaves a' x ↔ x = t := by
  rw [Leaves, hbank, hbank', ← Multiset.singleton_add, add_tsub_cancel_right, Multiset.mem_singleton]

theorem not_leaves (h : a.bank ≤ a'.bank) : ¬ a.Leaves a' x := by
  rw [Leaves, tsub_eq_zero_of_le h]
  exact Multiset.notMem_zero x

theorem enters_cons (hbank : a'.bank = t ::ₘ a.bank) : a.Enters a' x ↔ x = t := by
  rw [Enters, hbank, ← Multiset.singleton_add, add_tsub_cancel_right, Multiset.mem_singleton]

theorem not_enters (h : a'.bank ≤ a.bank) : ¬ a.Enters a' x := by
  rw [Enters, tsub_eq_zero_of_le h]
  exact Multiset.notMem_zero x

theorem not_puts {w : TopWrite} {b : BlockRef} (h : ∀ t, a.Leaves a' t → t.action ≠ .bankWriteHit) : ¬ a.Puts a' w b :=
  fun ⟨t, hleaves, haction, _⟩ => h t hleaves haction

theorem not_fills {e : EntryRef} {b : BlockRef} (h : ∀ e ∈ a.mshr.entries, e ∈ a'.mshr.entries) : ¬ a.Fills a' e b :=
  fun hfills => hfills.done (h e hfills.waits)

theorem not_allocates {b : BlockRef} (hvalid : (a'.blocks b).isValid = true → (a.blocks b).isValid = true)
    (hpid : (a'.blocks b).pid = (a.blocks b).pid) (htag : (a'.blocks b).tag = (a.blocks b).tag) : ¬ a.Allocates a' b :=
  fun ⟨hholds, hnot⟩ => hnot ⟨hvalid hholds.1, htag.symm, hpid.symm⟩

end Flow

/-! ## Notes -/

namespace History

/-- The notes after a step from `a` to `a'`. -/
def next (H : History) (a a' : Flow cfg) : History where
  written b := {i | (∃ e w, a.Fills a' e b ∧ w ∈ Flow.writesOf (a.mshr.heap e).requests ∧ touches cfg w i = true) ∨
    (∃ w, a.Puts a' w b ∧ touches cfg w i = true) ∨
    i ∈ H.written b ∧ (¬ ∃ e, a.Fills a' e b) ∧ ¬ a.Allocates a' b}
  chosen := H.chosen ∪ {c | ∃ t b, a.Chooses a' t b ∧ c = a.choice H t b}
  sent := H.sent ∪ {t | t ∈ a'.inflight}

variable {H : History} {a a' : Flow cfg} {b : BlockRef} {i : Nat}

theorem chosen_next {c : Choice} (h : c ∈ H.chosen) : c ∈ (H.next a a').chosen := .inl h

theorem sent_next {t : Transaction} (h : t ∈ H.sent) : t ∈ (H.next a a').sent := .inl h

theorem written_eq (hfills : ∀ e, ¬ a.Fills a' e b) (hputs : ∀ w, ¬ a.Puts a' w b) (hline : ¬ a.Allocates a' b) :
    (H.next a a').written b = H.written b := by
  ext i
  refine ⟨?_, fun hi => .inr (.inr ⟨hi, fun ⟨e, he⟩ => hfills e he, hline⟩)⟩
  rintro (⟨e, w, he, -⟩ | ⟨w, hw, -⟩ | ⟨hi, -⟩)
  · exact absurd he (hfills e)
  · exact absurd hw (hputs w)
  · exact hi

theorem mem_written_of_puts {w : TopWrite} (hfills : ∀ e, ¬ a.Fills a' e b) (hputs : ∀ w', a.Puts a' w' b ↔ w' = w)
    (hline : ¬ a.Allocates a' b) : i ∈ (H.next a a').written b ↔ touches cfg w i = true ∨ i ∈ H.written b := by
  constructor
  · rintro (⟨e, w, he, -⟩ | ⟨w', hw, hi⟩ | ⟨hi, -⟩)
    · exact absurd he (hfills e)
    · exact .inl ((hputs w').mp hw ▸ hi)
    · exact .inr hi
  · rintro (hi | hi)
    · exact .inr (.inl ⟨w, (hputs w).mpr rfl, hi⟩)
    · exact .inr (.inr ⟨hi, fun ⟨e, he⟩ => hfills e he, hline⟩)

theorem mem_written_of_fills {e : EntryRef} (hfills : ∀ e', a.Fills a' e' b ↔ e' = e) (hputs : ∀ w, ¬ a.Puts a' w b) :
    i ∈ (H.next a a').written b ↔ ∃ w ∈ Flow.writesOf (a.mshr.heap e).requests, touches cfg w i = true := by
  constructor
  · rintro (⟨e', w, he, hw, hi⟩ | ⟨w, hw, -⟩ | ⟨-, hnot, -⟩)
    · exact ⟨w, (hfills e').mp he ▸ hw, hi⟩
    · exact absurd hw (hputs w)
    · exact absurd ⟨e, (hfills e).mpr rfl⟩ hnot
  · rintro ⟨w, hw, hi⟩
    exact .inl ⟨e, w, (hfills e).mpr rfl, hw, hi⟩

end History

/-- Steps that meet `C` lead from `a`, with the notes `H`, to another flow and its notes. -/
inductive Noted (C : Flow cfg → Flow.Label → Flow cfg → Prop) (a : Flow cfg) (H : History) : Flow cfg → History → Prop
  | refl : Noted C a H a H
  | step {a₁ a₂ : Flow cfg} {l : Flow.Label} {H₁ : History} (h : Noted C a H a₁ H₁) (hC : C a₁ l a₂)
      (hs : Flow.Step a₁ l a₂) :
      Noted C a H a₂ (H₁.next a₁ a₂)

/-- A run under the rules `R`, with its moments and the notes taken from its flow. What it does to the flow is done in steps
that meet `C`. -/
inductive Watched (R : Rules cfg) (C : Flow cfg → Flow.Label → Flow cfg → Prop) (m : Memory) :
    System cfg → List Call → List Moment → History → Prop
  | init : Watched R C m (System.init cfg m) [] [] {}
  | request {s : System cfg} {τ : List Moment} {H H' : History} (req : AccessReq) (h : Watched R C m s [] τ H)
      (hreq : R.request s req) (hn : Noted C (s.flow τ) H ((s.request req).flow τ) H') : Watched R C m (s.request req) [] τ H'
  | control {s : System cfg} {τ : List Moment} {H H' : History} (req : ControlReq) (h : Watched R C m s [] τ H)
      (hreq : R.control s req) (hn : Noted C (s.flow τ) H ((s.control req).flow τ) H') : Watched R C m (s.control req) [] τ H'
  | connect {s : System cfg} {τ : List Moment} {H : History} (top bottom control : List Bool) (h : Watched R C m s [] τ H) :
      Watched R C m (s.connect top bottom control) [] τ H
  | apply {s : System cfg} {τ : List Moment} {H H' : History} (k : Nat) (h : Watched R C m s [] τ H) (hk : R.apply s k)
      (hn : Noted C (s.flow τ) H ((s.apply k).flow τ) H') : Watched R C m (s.apply k) [] τ H'
  | answer {s : System cfg} {τ : List Moment} {H : History} (k : Nat) (h : Watched R C m s [] τ H) :
      Watched R C m (s.answer k) [] τ H
  | tick {s : System cfg} {τ : List Moment} {H : History} (h : Watched R C m s [] τ H) :
      Watched R C m s (schedule s.cache) τ H
  | call {s : System cfg} {k : Call} {ks : List Call} {p : Bool} {c : Cache cfg} {τ τ' : List Moment} {H H' : History}
      (h : Watched R C m s (k :: ks) τ H) (hk : R.call s.cache k) (hexec : k.exec s.cache = .ok (p, c))
      (hlog : logOf τ' = c.log) (hn : Noted C (s.flow τ) H ((s.become c).flow τ') H') : Watched R C m (s.become c) ks τ' H'

/-! ## Runs without flushes -/

/-- Requests are legal, and no flush is asked for. -/
def Flow.Unflushed (_ : Flow cfg) : Flow.Label → Prop
  | .request req => Legal cfg req
  | .command req => ∀ f, req ≠ .flush f
  | .discard => False
  | _ => True

/-- Runs without flushes: any legal requests, restarts and delays. -/
def Rules.unflushed (cfg : Config) : Rules cfg where
  request _ req := Legal cfg req
  control _ req := ∀ f, req ≠ .flush f
  apply _ _ := True
  call _ _ := True

theorem discards_of_unflushed {req : ControlReq} (h : ∀ f, req ≠ .flush f) : req.discards = false := by
  cases req with
  | flush f => exact absurd rfl (h f)
  | restart => rfl

theorem Flow.Unflushed.gentle {a : Flow cfg} {l : Flow.Label} (h : a.Unflushed l) : a.Gentle l := by
  cases l with
  | request => exact h
  | command => exact discards_of_unflushed h
  | discard => exact h.elim
  | _ => trivial

theorem Flow.Reachable.mono {G G' : Flow cfg → Flow.Label → Prop} {m : Memory} {a : Flow cfg} (hG : ∀ a l, G a l → G' a l)
    (h : Reachable G m a) : Reachable G' m a := by
  induction h with
  | init => exact .init
  | step _ hstep hs ih => exact .step ih (hG _ _ hstep) hs

theorem Call.label_cases (k : Call) (c : Cache cfg) :
    k.label c = .silent ∨ k.label c = .localFetch ∨ k.label c = .discard := by
  cases k with
  | flusher =>
    by_cases hdiscard : Flusher.acceptsDiscard c = true
    · exact .inr (.inr (if_pos hdiscard))
    · exact .inl (if_neg hdiscard)
  | writeBufferNew => exact .inr (.inl rfl)
  | _ => exact .inl rfl

theorem ensures_unflushed {m : Memory} : Ensures (Rules.unflushed cfg) m Flow.Unflushed where
  allowed _ _ h := h.gentle.allowed
  silent _ := trivial
  request _ _ _ h _ _ := h
  control _ _ _ h _ _ := h
  apply _ _ _ _ _ _ := trivial
  call := by
    intro s τ k hk hlog hreach
    have hG : Ensures (Rules.unflushed cfg) m Flow.Gentle :=
      ensures_gentle (fun _ _ hreq => hreq) fun _ _ hreq => discards_of_unflushed hreq
    have hgentle := hG.call s τ k hk hlog (hreach.mono fun _ _ => Flow.Unflushed.gentle)
    rcases k.label_cases s.cache with hl | hl | hl <;> rw [hl] at hgentle ⊢
    · trivial
    · trivial
    · exact hgentle

section
variable {R : Rules cfg} {C : Flow cfg → Flow.Label → Flow cfg → Prop} {G : Flow cfg → Flow.Label → Prop} {m : Memory}
  {a a' : Flow cfg} {l : Flow.Label} {s : System cfg} {ks : List Call} {τ : List Moment} {H H' : History}

theorem Noted.trans {a₁ a₂ : Flow cfg} {H₁ H₂ : History} (h : Noted C a H a₁ H₁) (h' : Noted C a₁ H₁ a₂ H₂) :
    Noted C a H a₂ H₂ := by
  induction h' with
  | refl => exact h
  | step _ hC hs ih => exact .step ih hC hs

/-- What the steps keep makes them meet `C'` too. -/
theorem Noted.mono {C' : Flow cfg → Flow.Label → Flow cfg → Prop} {I : Flow cfg → Prop}
    (hC : ∀ {a l a'}, I a → C a l a' → Flow.Step a l a' → C' a l a' ∧ I a') (h : Noted C a H a' H') (ha : I a) :
    Noted C' a H a' H' ∧ I a' := by
  induction h with
  | refl => exact ⟨.refl, ha⟩
  | step _ hc hs ih => exact ⟨.step ih.1 (hC ih.2 hc hs).1 hs, (hC ih.2 hc hs).2⟩

theorem Watched.mono {R' : Rules cfg} {C' : Flow cfg → Flow.Label → Flow cfg → Prop} {I : Flow cfg → Prop}
    (h : Watched R C m s ks τ H) (hreq : ∀ s req, R.request s req → R'.request s req)
    (hcontrol : ∀ s req, R.control s req → R'.control s req) (happly : ∀ s k, R.apply s k → R'.apply s k)
    (hcall : ∀ c k, R.call c k → R'.call c k) (hC : ∀ {a l a'}, I a → C a l a' → Flow.Step a l a' → C' a l a' ∧ I a')
    (hinit : I ((System.init cfg m).flow [])) : Watched R' C' m s ks τ H ∧ I (s.flow τ) := by
  induction h with
  | init => exact ⟨.init, hinit⟩
  | request req _ hr hn ih => exact (hn.mono hC ih.2).imp_left (.request req ih.1 (hreq _ _ hr))
  | control req _ hr hn ih => exact (hn.mono hC ih.2).imp_left (.control req ih.1 (hcontrol _ _ hr))
  | connect top bottom control _ ih => exact ⟨.connect top bottom control ih.1, ih.2⟩
  | apply k _ hk hn ih => exact (hn.mono hC ih.2).imp_left (.apply k ih.1 (happly _ _ hk))
  | @answer s τ _ k _ ih => exact ⟨.answer k ih.1, s.flow_answer τ k ▸ ih.2⟩
  | tick _ ih => exact ⟨.tick ih.1, ih.2⟩
  | call _ hk hexec hlog hn ih => exact (hn.mono hC ih.2).imp_left (.call ih.1 (hcall _ _ hk) hexec hlog)

/-- What a stage does to the flow can be noted. -/
theorem Flow.Moves.noted (hsilent : ∀ a, G a .silent) (hG : G a l) (hm : Flow.Moves l a a') (H : History) :
    ∃ H', Noted (fun a l _ => G a l) a H a' H' := by
  cases hm with
  | silent hs =>
    induction hs with
    | refl => exact ⟨H, .refl⟩
    | tail _ hstep ih =>
      obtain ⟨_, hn⟩ := ih
      exact ⟨_, .step hn (hsilent _) hstep⟩
  | step hs => exact ⟨_, .step .refl hG hs⟩

/-- So can what happens outside the cache. -/
theorem noted_of_step (hG : G a l) (hs : a' = a ∨ Flow.Step a l a') (H : History) :
    ∃ H', Noted (fun a l _ => G a l) a H a' H' := by
  rcases hs with rfl | hs
  · exact ⟨H, .refl⟩
  · exact ⟨_, .step .refl hG hs⟩

/-- **Every run can be watched.** -/
theorem Reaches.watched (h : Reaches R m s ks) (hG : Ensures R m G) :
    ∃ τ H, Tracked G m s τ ∧ Watched R (fun a l _ => G a l) m s ks τ H := by
  induction h with
  | init => exact ⟨[], {}, tracked_init, .init⟩
  | @request s req h hreq ih =>
    obtain ⟨τ, H, hτ, hw⟩ := ih
    obtain ⟨H', hn⟩ := noted_of_step (hG.request s τ req hreq hτ.2.1 hτ.2.2) (s.flow_request τ req) H
    exact ⟨τ, H', hτ.request hG hreq, .request req hw hreq hn⟩
  | @control s req h hreq ih =>
    obtain ⟨τ, H, hτ, hw⟩ := ih
    obtain ⟨H', hn⟩ := noted_of_step (hG.control s τ req hreq hτ.2.1 hτ.2.2) (s.flow_control τ req) H
    exact ⟨τ, H', hτ.control hG hreq, .control req hw hreq hn⟩
  | connect top bottom control _ ih =>
    obtain ⟨τ, H, hτ, hw⟩ := ih
    exact ⟨τ, H, hτ.connect top bottom control, .connect top bottom control hw⟩
  | @apply s k h hk ih =>
    obtain ⟨τ, H, hτ, hw⟩ := ih
    obtain ⟨H', hn⟩ := noted_of_step (hG.apply s τ k hk hτ.2.1 hτ.2.2) (s.flow_apply τ k) H
    exact ⟨τ, H', hτ.apply hG hk, .apply k hw hk hn⟩
  | answer k _ ih =>
    obtain ⟨τ, H, hτ, hw⟩ := ih
    exact ⟨τ, H, hτ.answer k, .answer k hw⟩
  | tick _ ih =>
    obtain ⟨τ, H, hτ, hw⟩ := ih
    exact ⟨τ, H, hτ, .tick hw⟩
  | @call s k ks p c h hk hexec ih =>
    obtain ⟨τ, H, hτ, hw⟩ := ih
    obtain ⟨_, _, τ', hok, ⟨hwired, hlog⟩, hm⟩ := hτ.moves hG h
    cases hexec.symm.trans hok
    obtain ⟨H', hn⟩ := hm.noted hG.silent (hG.call s τ k hk hτ.2.1 hτ.2.2) H
    exact ⟨τ', H', hτ.become hG hk hwired hlog hm, .call hw hk hexec hlog hn⟩

/-- The moments of a run are those of its log. -/
theorem Watched.log (h : Watched R C m s ks τ H) : logOf τ = s.cache.log := by
  induction h with
  | init => rfl
  | @request s _ _ _ req _ _ _ ih => exact ih.trans (s.outside_request req).log.symm
  | @control s _ _ _ req _ _ _ ih => exact ih.trans (s.outside_control req).log.symm
  | connect _ _ _ _ ih => exact ih
  | @apply s _ _ _ k _ _ _ ih => exact ih.trans (s.outside_apply k).log.symm
  | @answer s _ _ k _ ih => exact ih.trans (s.outside_answer k).log.symm
  | tick _ ih => exact ih
  | call _ _ _ hlog => exact hlog

theorem Watched.noted (h : Watched R C m s ks τ H) : Noted C ((System.init cfg m).flow []) {} (s.flow τ) H := by
  induction h with
  | init => exact .refl
  | request _ _ _ hn ih => exact ih.trans hn
  | control _ _ _ hn ih => exact ih.trans hn
  | connect _ _ _ _ ih => exact ih
  | apply _ _ _ hn ih => exact ih.trans hn
  | @answer s τ _ k _ ih => exact s.flow_answer τ k ▸ ih
  | tick _ ih => exact ih
  | call _ _ _ _ hn ih => exact ih.trans hn

end

end Akita.WriteBack
