import Akita.L1.Held

/-!
# Requests parked for coalescing

A request that can wait is parked until a later request ends its wave. Parked requests count against
`maxNumConcurrentTrans`, and a cache that has reached it takes no later request.

* `Starved c` : requests wait at the top port and every transaction in flight is parked;
* `not_starved_of_reaches` : no run in which each request that parks leaves a slot free reaches such a state.
-/

namespace Akita.L1
open Sim Mem Mem.Cache List

variable {cfg : Config}

/-- Requests wait, and each of the slots is held by a request that is parked. -/
structure Starved (c : Cache cfg) : Prop where
  waiting : c.topPort.buf.elements ≠ []
  full : cfg.maxNumConcurrentTrans ≤ c.transactions.length
  parked : ∀ r ∈ c.transactions, r ∈ c.toCoalesce

/-- A request that can wait leaves a slot free when it is parked. -/
def LeavesRoom (c : Cache cfg) : Call → Prop
  | .coalesce => ∀ req, c.topPort.peek = some (.access req) → c.transactions.length < cfg.maxNumConcurrentTrans →
      Coalescer.isReqLastInWave req = false → (Coalescer.canReqCoalesce c req = true ∨ c.dirBuf.canPush = true) →
      (if Coalescer.canReqCoalesce c req then c.toCoalesce.length else 0) + 1 < cfg.maxNumConcurrentTrans
  | _ => True

/-- Any messages and any order of the answers. -/
def Rules.roomy (cfg : Config) : Rules cfg where
  request _ := True
  control _ := True
  apply _ _ := True
  call := LeavesRoom

/-- The transactions of requests have pointers of their own. -/
structure Distinct (c : Cache cfg) : Prop where
  nodup : c.transactions.Nodup
  fresh : ∀ r ∈ c.transactions, r < c.nextRef

section
variable {G : Cache cfg → Call → Prop} {c c' : Cache cfg} {k : Call}

theorem Distinct.step (h : Distinct c) (hs : Step G c k c') : Distinct c' := by
  rcases hs.transactions with ⟨hsub, hle⟩ | ⟨heq, hnext⟩
  · exact ⟨h.nodup.sublist hsub, fun r hr => lt_of_lt_of_le (h.fresh r (hsub.subset hr)) hle⟩
  · refine ⟨?_, fun r hr => ?_⟩
    · rw [heq]
      refine List.Nodup.append h.nodup (nodup_singleton _) (disjoint_singleton.mpr fun hmem => ?_)
      exact lt_irrefl _ (h.fresh _ hmem)
    · rw [heq] at hr
      rw [hnext]
      rcases mem_append.mp hr with hr | hr
      · exact Nat.lt_succ_of_lt (h.fresh r hr)
      · rw [mem_singleton.mp hr]
        exact Nat.lt_succ_self _

theorem Distinct.ctrlStep (h : Distinct c) (hs : CtrlStep c k c') : Distinct c' := by
  cases hs with
  | flush => exact ⟨nodup_nil, forall_mem_nil _⟩
  | _ => exact ⟨h.nodup, h.fresh⟩

theorem distinct_of_reaches {R : Rules cfg} {m : Memory} {s : System cfg} {ks : List Call} (h : Reaches R m s ks) :
    Distinct s.cache := by
  refine Reaches.invariant (I := fun s => Distinct s.cache) ⟨nodup_nil, forall_mem_nil _⟩
    (fun s req hs _ => ⟨hs.nodup, hs.fresh⟩) (fun s req hs _ => ⟨hs.nodup, hs.fresh⟩)
    (fun s top bottom control hs => ⟨hs.nodup, hs.fresh⟩) (fun s k req hs _ _ => ⟨hs.nodup, hs.fresh⟩)
    (fun s k rsp hs _ => ⟨hs.nodup, hs.fresh⟩) (fun s k c' hs hstep => hs.step hstep)
    (fun s k c' hs _ hctrl => hs.ctrlStep hctrl) h

/-! ## A slot stays free -/

theorem coalesce_room (hc : c.toCoalesce.length < cfg.maxNumConcurrentTrans) (hroom : LeavesRoom c .coalesce)
    (h : Coalesced c c') : c'.toCoalesce.length < cfg.maxNumConcurrentTrans := by
  have hpos := Nat.lt_of_le_of_lt (Nat.zero_le _) hc
  -- once the wave has been sent nothing is parked
  have hsent : ∀ {c₁ c₂ : Cache cfg}, Coalescer.coalesceAndSend c₁ = .ok c₂ → c₂.toCoalesce = [] := by
    intro c₁ c₂ hsend
    obtain ⟨_, _, req, _, -, -, -, rfl⟩ := coalesceAndSend_eq hsend
    rfl
  cases h with
  | idle | refused | invalidated => exact hc
  | parked req hpeek hcap hlast hline =>
    have hlt := hroom req hpeek hcap hlast (.inl hline)
    rw [if_pos hline] at hlt
    show (c.toCoalesce ++ [c.nextRef]).length < _
    rw [length_append]
    exact hlt
  | parkedAlone req c₁ hpeek hcap hlast hline hpush hsend =>
    have hlt := hroom req hpeek hcap hlast (.inr hpush)
    rw [hline, if_neg Bool.false_ne_true] at hlt
    show (c₁.toCoalesce ++ [c₁.nextRef]).length < _
    rw [hsent hsend]
    exact hlt
  | last | lastWaits =>
    rw [hsent ‹_›]
    exact hpos
  | lastAlone _ _ _ _ _ _ hsend' =>
    rw [hsent hsend']
    exact hpos

end

/-- **No starvation.** In every run in which each request that parks leaves a slot free, no state is reached in which requests
wait while parked requests hold all slots. -/
theorem not_starved_of_reaches (hcfg : 1 ≤ cfg.maxNumConcurrentTrans) {m : Memory} {s : System cfg} {ks : List Call}
    (h : Reaches (Rules.roomy cfg) m s ks) : ¬ Starved s.cache := by
  have hroom : s.cache.toCoalesce.length < cfg.maxNumConcurrentTrans := by
    induction h with
    | init => exact hcfg
    | request _ _ _ ih =>
      unfold System.request
      split <;> exact ih
    | control _ _ _ ih =>
      unfold System.control
      split <;> exact ih
    | connect _ _ _ _ ih => exact ih
    | apply _ _ _ ih =>
      unfold System.apply
      split <;> exact ih
    | deliver _ _ ih =>
      unfold System.deliver
      split
      · split <;> exact ih
      · exact ih
    | tick _ ih => exact ih
    | @call s k ks p c h hk hexec ih =>
      by_cases hcoal : k = .coalesce
      · subst hcoal
        exact coalesce_room ih hk (coalesce_cases hexec)
      · rcases Call.steps hk hexec with hs | hs
        · have hsame : c.toCoalesce = s.cache.toCoalesce := by
            clear hexec
            induction hs with
            | refl => rfl
            | tail _ hlast ih' => exact (hlast.toCoalesce hcoal).trans ih'
          show c.toCoalesce.length < _
          rw [hsame]
          exact ih
        · cases hs with
          | flush => exact hcfg
          | _ => exact ih
  intro hstarved
  -- distinct transactions, all of them parked, cannot be more than the parked ones
  have hsub := (distinct_of_reaches h).nodup.length_le_of_subset hstarved.parked
  have hfull := hstarved.full
  omega

/-- A cache of two sets of one way, with lines of two bytes, in which two requests may be in flight. -/
def tiny (policy : Policy) : Config where
  policy := policy
  log2BlockSize := 1
  totalByteSize := 4
  wayAssociativity := 1
  numMSHREntry := 2
  numBank := 1
  dirLatency := 1
  bankLatency := 1
  maxNumConcurrentTrans := 2
  numReqPerCycle := 1
  lowModuleFinder := fun _ => 0

/-- A read of one byte by process 1. -/
def readAt (id : MsgID) (address : Nat) (canWaitForCoalesce : Bool) : AccessReq :=
  .read { id, src := 9, pid := 1, address, accessByteSize := 1, canWaitForCoalesce }

/-- The inputs `is` to a small cache, with `G` before each call. -/
def play (G : Cache (tiny .writethrough) → Call → Prop) [∀ c k, Decidable (G c k)] (is : List Input) :
    System (tiny .writethrough) :=
  is.foldl (System.replay G) (.init _ fun _ _ => 0)

theorem reaches_play {R : Rules (tiny .writethrough)} {G : Cache (tiny .writethrough) → Call → Prop}
    [∀ c k, Decidable (G c k)] (hG : ∀ c k, G c k → R.call c k) {is : List Input} (his : ∀ i ∈ is, R.Allows i) :
    Reaches R (fun _ _ => 0) (play G is) [] :=
  .replay hG his .init

/-- A request is taken, and another comes. -/
def parked (q q' : AccessReq) : List Input :=
  [.connect [true, true] [true] [true], .request (.access q), .tick, .request (.access q')]

/-- Their wave goes down and is answered. -/
def servedWave (q q' : AccessReq) : List Input := parked q q' ++ [.tick, .tick, .apply 0, .deliver 0] ++ replicate 3 .tick

section
variable {R : Rules (tiny .writethrough)} {q q' : AccessReq} (hq : R.request (.access q)) (hq' : R.request (.access q'))
include hq hq'

theorem allows_parked : ∀ i ∈ parked q q', R.Allows i := by
  simp [parked, Rules.Allows, hq, hq']

theorem allows_servedWave (happly : ∀ reqs k, R.apply reqs k) : ∀ i ∈ servedWave q q', R.Allows i := by
  simpa [servedWave, Rules.Allows, or_imp, forall_and, happly] using allows_parked hq hq'

end

/-- A slot is free beside what is parked. -/
def Roomy (c : Cache cfg) (k : Call) : Prop := k = .coalesce → c.toCoalesce.length + 1 < cfg.maxNumConcurrentTrans

instance (c : Cache cfg) (k : Call) : Decidable (Roomy c k) := inferInstanceAs (Decidable (_ → _ < _))

theorem Roomy.leavesRoom {c : Cache cfg} {k : Call} (h : Roomy c k) : LeavesRoom c k := by
  cases k with
  | coalesce =>
    intro _ _ _ _ _
    split
    · exact h rfl
    · exact Nat.lt_of_le_of_lt (Nat.le_add_left 1 _) (h rfl)
  | _ => trivial

/-- The first request is parked, and the second will end its wave. -/
theorem not_starved_of_reaches_parked : let s := play Roomy (parked (readAt 7 0 true) (readAt 8 1 false))
    s.cache.toCoalesce = [0] ∧ s.cache.topPort.buf.elements = [.access (readAt 8 1 false)] ∧ ¬ Starved s.cache :=
  ⟨by decide +kernel, by decide +kernel, not_starved_of_reaches (by decide)
    (reaches_play (R := Rules.roomy _) (fun _ _ => Roomy.leavesRoom) (allows_parked trivial trivial))⟩

/-- Two reads of a line can wait, and a third read comes. -/
def starving : List Input :=
  [.connect [true] [true] [true], .request (.access (readAt 7 0 true)), .tick, .request (.access (readAt 8 1 true)), .tick,
    .request (.access (readAt 9 0 false)), .tick, .tick, .tick]

/-- The run ends with a starved cache that has nothing else to do. -/
def Starves (policy : Policy) : Prop :=
  ∃ s, (System.init (tiny policy) fun _ _ => 0).run starving = .ok s ∧ Starved s.cache ∧
    s.cache.bottomPort = { conn := [true] } ∧ s.answers = [] ∧ s.cache.mshr.entries = [] ∧ s.cache.dirBuf.elements = [] ∧
    s.cache.postCoalesceTransactions = []

theorem starved_by_waiting : Starves .writethrough ∧ Starves .writearound ∧ Starves .writeevict := by
  refine ⟨?_, ?_, ?_⟩ <;>
    exact ⟨_, rfl, ⟨by decide +kernel, by decide +kernel, by decide +kernel⟩, by decide +kernel, rfl, by decide +kernel,
      by decide +kernel, by decide +kernel⟩

end Akita.L1
