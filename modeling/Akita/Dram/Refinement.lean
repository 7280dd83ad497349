import Akita.Dram.Order
import Akita.Mem.IdealSequence

/-!
# The DRAM controller against the ideal one

With one request at a time both controllers are services that answer in order, so they return the same bytes and hold the same
bytes (`refines_ideal`), as long as the writes keep the bytes that their masks leave out: `finalizeWriteTrans` does not look
at the mask (`masked_write_differs`).
-/

namespace Akita.Dram.MemController
open Mem Sim List
open Ideal.Comp (access rspData)
open Storage (new)

variable {cfg : Config} {s s' : MemController cfg} {t : Transaction} {p : Bool} {storage : Storage}

/-- The requests that came to the port. -/
def issued (s : MemController cfg) : Nat := s.accepted.length + s.topPort.elements.length

/-- A request is delivered only after the response to the one before. -/
def OneAtATime (s : MemController cfg) : Turn → Prop
  | .deliver _ => s.issued = s.responses.length
  | .tick _ _ => True

/-- The completed writes agree with the stored bytes where their masks keep them. -/
def MasksKeep (s : MemController cfg) : Turn → Prop
  | .deliver _ => True
  | .tick _ _ => ∀ x ∈ s.inflightTransactions, x.isCompleted s.completed = true → x.KeepsMasked s.storage.data

theorem keepsMasked_effect {m : Nat → UInt8} (h : t.KeepsMasked m) : t.KeepsMasked (t.access.effect m) := by
  intro w hw i hi hmasked
  rw [h w hw i hi hmasked, Access.effect, hmasked]
  rfl

theorem respond_single {answers : List Bool} (hts : s.inflightTransactions = [t]) (hr : s.respond answers = .ok (p, s')) :
    s'.inflightTransactions = [] ∨ s'.inflightTransactions = [t] ∧ s'.completed = s.completed ∧
      (s'.storage = s.storage ∨ ∃ w, t.req = .write w ∧ s.storage.write t.internalAddress w.data = .ok s'.storage) := by
  obtain ⟨⟨_, _, _⟩, hu, hr⟩ := eq_ok_of_bind hr
  cases hr
  rw [hts] at hu
  unfold respondLoop at hu
  split at hu
  · obtain ⟨_, hx, hu⟩ := eq_ok_of_bind hu
    split at hu
    · cases hu
      exact .inl rfl
    · obtain ⟨⟨done', left', v⟩, hv, hu⟩ := eq_ok_of_bind hu
      cases hu
      cases hv
      cases hreq : t.req with
      | write w =>
        obtain ⟨_, hstorage, rfl⟩ := finalizeWrite_eq_ok hreq hx
        exact .inr ⟨rfl, rfl, .inr ⟨w, rfl, hstorage⟩⟩
      | read =>
        obtain ⟨_, -, rfl⟩ := finalizeRead_eq_ok hreq hx
        exact .inr ⟨rfl, rfl, .inl rfl⟩
  · obtain ⟨⟨_, _, _⟩, hv, hu⟩ := eq_ok_of_bind hu
    cases hu
    cases hv
    exact .inr ⟨rfl, rfl, .inl rfl⟩

theorem loopWaits_single {answers : List Bool} (hkeeps : t.isCompleted s.completed = true → t.KeepsMasked s.storage.data) :
    LoopWaits [] [t] answers s := by
  unfold LoopWaits
  split
  · next hcompleted =>
    exact ⟨⟨fun _ => ⟨hkeeps hcompleted, fun x hx => absurd hx not_mem_nil⟩, fun _ _ x hx => absurd hx not_mem_nil⟩,
      fun _ _ _ => trivial⟩
  · trivial

theorem waits_of_alone {turn : Turn} (hc : s.Conserved) (hissued : s.issued ≤ s.responses.length + 1)
    (hkeep : s.MasksKeep turn) : s.Waits turn := by
  cases turn with
  | deliver => trivial
  | tick =>
    have hlen := hc.requests.length_eq
    simp only [length_append, length_map, length_range, issued] at hlen hissued
    cases hts : s.inflightTransactions with
    | nil =>
      refine ⟨by rw [hts]; trivial, fun p u hu => ?_⟩
      rcases respond_eq_ok hu with ⟨storage, rfl⟩ | ⟨_, _, _, _, storage, hx, -, -, rfl⟩
      · simp only [hts]
        trivial
      · rw [hts] at hx
        simp at hx
    | cons t ts =>
      rw [hts, length_cons] at hlen
      obtain rfl : ts = [] := length_eq_zero_iff.1 (by omega)
      have hkeeps : t.isCompleted s.completed = true → t.KeepsMasked s.storage.data := hkeep t (by simp [hts])
      refine ⟨by rw [hts]; exact loopWaits_single hkeeps, fun p u hu => ?_⟩
      rcases respond_single hts hu with hnil | ⟨hsame, hcompleted, hstorage⟩
      · rw [hnil]
        trivial
      · rw [hsame]
        refine loopWaits_single fun ht => ?_
        rw [hcompleted] at ht
        rcases hstorage with hstorage | ⟨_, hw, hstorage⟩
        · rw [hstorage]
          exact hkeeps ht
        · rw [Transaction.data_write hw (hkeeps ht) hstorage]
          exact keepsMasked_effect (hkeeps ht)

theorem responses_step {turn : Turn} (h : s.step turn = .ok s') : s.responses.length ≤ s'.responses.length := by
  cases turn with
  | deliver =>
    cases h
    split
    · exact le_refl _
    · exact le_refl _
  | tick =>
    obtain ⟨⟨_, _⟩, hu, h⟩ := eq_ok_of_bind h
    cases h
    obtain ⟨_, b, c, d, ⟨_, ha⟩, ⟨_, hb⟩, ⟨_, hc⟩, ⟨_, hd⟩, _, ht⟩ := tick_eq_ok hu
    have hrespond : ∀ {s t : MemController cfg} {p answers}, s.respond answers = .ok (p, t) →
        s.responses.length ≤ t.responses.length := by
      intro s t p answers h
      rcases respond_eq_ok h with ⟨storage, rfl⟩ | ⟨before, _, after, _, storage, -, -, -, rfl⟩
      · exact le_refl _
      · simp
    have hcb : c.responses = b.responses := by
      rcases issue_eq_ok hc with ⟨next, rfl⟩ | hissues
      · rfl
      · obtain ⟨_, before, _, after, _, -, -, -, -, -, -, _, _, rfl⟩ := hissues.effects
        rfl
    have hdc : d.responses = c.responses := by
      rcases subTransQueueTick_eq_ok hd with rfl | ⟨_, _, _, _, -, -, -, rfl⟩
      · rfl
      · rfl
    have htd : s'.responses = d.responses := by
      rcases parseTop_eq_ok ht with rfl | ⟨_, _, _, -, -, -, -, rfl⟩
      · rfl
      · rfl
    rw [htd, hdc, hcb]
    exact (hrespond ha).trans (hrespond hb)

theorem waits_of_oneAtATime (h : Reaches (fun s turn => s.OneAtATime turn ∧ s.MasksKeep turn) storage s) :
    Reaches Waits storage s ∧ s.issued ≤ s.responses.length + 1 := by
  induction h with
  | start => exact ⟨.start, Nat.zero_le _⟩
  | @step s s' turn hs hok h ih =>
    obtain ⟨hreaches, hissued⟩ := ih
    refine ⟨hreaches.step (waits_of_alone (Conserved.of_reaches hs) hissued hok.2) h, ?_⟩
    have hport := congrArg length (port_step h)
    have hresponses := responses_step h
    simp only [length_append, issued] at hport hissued ⊢
    cases turn with
    | deliver req =>
      have harrives : (s.arrives (.deliver req)).length ≤ 1 := by
        rw [arrives]
        split
        · exact le_refl _
        · exact Nat.zero_le _
      have hidle := hok.1
      simp only [OneAtATime, issued] at hidle
      omega
    | tick =>
      simp only [arrives, length_nil] at hport
      omega

theorem mem_responses (hc : s.Conserved) (hall : s.responses.length = s.accepted.length) {k : Nat}
    (hk : k < s.accepted.length) : k ∈ s.responses.map Prod.fst := by
  have hlen := hc.requests.length_eq
  simp only [length_append, length_map, length_range] at hlen
  have hnil : s.inflightTransactions = [] := length_eq_zero_iff.1 (by omega)
  have hmem := hc.requests.mem_iff.2 (mem_range.2 hk)
  rwa [hnil, map_nil, nil_append] at hmem

/-- One request at a time: the responses carry the same bytes as those of the ideal controller, and when all requests are
answered the storages hold the same bytes. -/
theorem refines_ideal {icfg : Ideal.Config} (hconverter : icfg.addressConverter = cfg.addrConverter) {u : Ideal.Comp icfg}
    (hs : Reaches (fun s turn => s.OneAtATime turn ∧ s.MasksKeep turn) storage s)
    (hu : Ideal.Comp.Reaches Ideal.Comp.OneAtATime storage u) (haccepted : s.accepted = u.accepted) :
    (∀ k rsp rsp', (k, rsp) ∈ s.responses → (k, rsp') ∈ u.responses → rspData rsp = rspData rsp') ∧
    (s.responses.length = s.accepted.length → u.responses.length = u.accepted.length → s.storage.data = u.storage.data) := by
  obtain ⟨v, hv⟩ := serves_of_reaches (waits_of_oneAtATime hs).1
  have hrun := Ideal.Comp.ordered_of_oneAtATime hu
  have hconvert : cfg.convert = icfg.convert := by
    funext a
    unfold Config.convert Ideal.Config.convert
    rewrite [hconverter]
    cases cfg.addrConverter with
    | some | none => rfl
  have haccess : cfg.access = access icfg := by
    funext req
    cases req with
    | read | write => rw [Config.access, access, hconvert]
  have hsame : v.accepted = (u.service storage.data).accepted := by rw [hv.accepted, haccepted, haccess]; rfl
  refine ⟨fun k rsp rsp' hrsp hrsp' => ?_, fun hall hall' => ?_⟩
  · exact Service.data_eq_of_ordered hv.run hrun hsame (hv.responses _ hrsp) (mem_map.2 ⟨_, hrsp', rfl⟩)
  · have hanswered : ∀ k < v.accepted.length, v.Answered k := by
      intro k hk
      rw [hv.accepted, length_map] at hk
      have hmem := mem_responses (Conserved.of_reaches hs) hall hk
      obtain ⟨r, hr, rfl⟩ := mem_map.1 hmem
      exact mem_map_of_mem (hv.responses r hr)
    have hanswered' : ∀ k < (u.service storage.data).accepted.length, (u.service storage.data).Answered k := by
      intro k hk
      have hlen : (u.service storage.data).accepted.length = u.accepted.length := by simp [Ideal.Comp.service]
      have hmem : k ∈ u.responses.map Prod.fst := by
        rw [(Ideal.Comp.sequential_of_reaches hu).responses, mem_range]
        omega
      simpa [Service.Answered, Ideal.Comp.service] using hmem
    have hmemory := (Service.ordered_of_reaches hv.run).1.final.memory_eq (Service.ordered_of_reaches hrun).1.final
      (Service.initial_of_reaches hv.run) hsame hanswered hanswered'
    rw [← hv.memory, hmemory]
    rfl

/-! ## A masked write and a read -/

instance (t : Transaction) (m : Nat → UInt8) : Decidable (t.KeepsMasked m) :=
  match h : t.req with
  | .read r => .isTrue fun w hw => by rw [h] at hw; cases hw
  | .write w => decidable_of_iff (∀ i < w.data.length, t.access.writes (t.internalAddress + i) = false →
      w.data.getD i 0 = m (t.internalAddress + i)) ⟨fun hw w' hw' => by rw [h] at hw'; cases hw'; exact hw, fun hw => hw w h⟩

instance (s : MemController cfg) (turn : Turn) : Decidable (s.OneAtATime turn) :=
  match turn with
  | .deliver _ => inferInstanceAs (Decidable (s.issued = s.responses.length))
  | .tick _ _ => .isTrue trivial

instance (s : MemController cfg) (turn : Turn) : Decidable (s.MasksKeep turn) :=
  match turn with
  | .deliver _ => .isTrue trivial
  | .tick _ _ =>
    inferInstanceAs (Decidable (∀ x ∈ s.inflightTransactions, x.isCompleted s.completed = true →
      x.KeepsMasked s.storage.data))

/-- A write of two bytes under a mask that keeps the second, and then a read of both. -/
def maskedThenRead (data : Bytes) : List AccessReq :=
  [.write { id := 1, src := 0, pid := 0, address := 0, data, dirtyMask := some [true, false] },
    .read { id := 2, src := 0, pid := 0, address := 0, accessByteSize := 2 }]

/-- The requests one after the other, each with the ticks it takes. -/
def oneByOne (reqs : List AccessReq) : List Turn := reqs.flatMap fun req => requestTurns [req] 60

def idealConfig : Ideal.Config := { freq := 1, latency := 5, width := 1, topBufSize := 16 }

/-- The same for the ideal controller: it ticks twice, responds, and ticks once more. -/
def idealRun (reqs : List AccessReq) : Except String (Ideal.Comp idealConfig) := do
  let s ← Ideal.Comp.start idealConfig (new 4096) ((range reqs.length).map fun i => { time := 100 * i, handler := 0 })
  Ideal.Comp.runChecked (fun s turn => decide (s.OneAtATime turn))
    (reqs.flatMap fun req => { actions := [.deliver req] } :: replicate 4 {}) s

theorem reaches_of_idealRun {reqs : List AccessReq} {u : Ideal.Comp idealConfig} (h : idealRun reqs = .ok u) :
    Ideal.Comp.Reaches Ideal.Comp.OneAtATime (new 4096) u := by
  obtain ⟨t, ht, hrun⟩ := eq_ok_of_bind h
  exact (Ideal.Comp.Reaches.start ht).run (fun t turn hc => of_decide_eq_true hc) hrun

/-- The second byte written is the one stored, and both controllers return the two bytes. -/
theorem refines_ideal_kept : ∃ (s : MemController ({} : Builder).build) (u : Ideal.Comp idealConfig),
    ((s.accepted = maskedThenRead [7, 0] ∧ s.responses.map (fun r => rspData r.2) = [[], [7, 0]]) ∧ u.accepted = s.accepted) ∧
    (∀ k rsp rsp', (k, rsp) ∈ s.responses → (k, rsp') ∈ u.responses → rspData rsp = rspData rsp') ∧
    (s.responses.length = s.accepted.length → u.responses.length = u.accepted.length → s.storage.data = u.storage.data) := by
  have hrun : (runChecked (fun s turn => decide (s.OneAtATime turn ∧ s.MasksKeep turn)) (oneByOne (maskedThenRead [7, 0]))
      ({ storage := new 4096 } : MemController ({} : Builder).build)).toOption.any
        (fun s => s.accepted = maskedThenRead [7, 0] ∧
        s.responses.map (fun r => rspData r.2) = [[], [7, 0]]) = true := by decide +kernel
  have hideal : (idealRun (maskedThenRead [7, 0])).toOption.any (fun u => u.accepted = maskedThenRead [7, 0]) = true := by
    decide +kernel
  obtain ⟨s, hs, hrun⟩ := Succeeds.of_any hrun
  obtain ⟨u, hu, hideal⟩ := Succeeds.of_any hideal
  obtain ⟨haccepted, hresponses⟩ := of_decide_eq_true hrun
  have haccepted' := of_decide_eq_true hideal
  have hreaches := Reaches.start.run (fun t turn hc => of_decide_eq_true hc) hs
  exact ⟨s, u, ⟨⟨haccepted, hresponses⟩, haccepted'.trans haccepted.symm⟩,
    refines_ideal rfl hreaches (reaches_of_idealRun hu) (haccepted.trans haccepted'.symm)⟩

/-- The DRAM controller writes the byte that the mask keeps, and the read returns it. -/
theorem masked_write_differs : ∃ (s : MemController ({} : Builder).build) (u : Ideal.Comp idealConfig),
    Reaches OneAtATime (new 4096) s ∧ Ideal.Comp.Reaches Ideal.Comp.OneAtATime (new 4096) u ∧
      s.accepted = u.accepted ∧ s.responses.map (fun r => rspData r.2) = [[], [7, 9]] ∧
      u.responses.map (fun r => rspData r.2) = [[], [7, 0]] ∧ s.storage.data ≠ u.storage.data := by
  have hrun : (runChecked (fun s turn => decide (s.OneAtATime turn)) (oneByOne (maskedThenRead [7, 9]))
      ({ storage := new 4096 } : MemController ({} : Builder).build)).toOption.any
        (fun s => s.accepted = maskedThenRead [7, 9] ∧
        s.responses.map (fun r => rspData r.2) = [[], [7, 9]] ∧ s.storage.data 1 = 9) = true := by decide +kernel
  have hideal : (idealRun (maskedThenRead [7, 9])).toOption.any (fun u => u.accepted = maskedThenRead [7, 9] ∧
      u.responses.map (fun r => rspData r.2) = [[], [7, 0]] ∧ u.storage.data 1 = 0) = true := by decide +kernel
  obtain ⟨s, hs, hrun⟩ := Succeeds.of_any hrun
  obtain ⟨u, hu, hideal⟩ := Succeeds.of_any hideal
  obtain ⟨haccepted, hresponses, hbyte⟩ := of_decide_eq_true hrun
  obtain ⟨haccepted', hresponses', hbyte'⟩ := of_decide_eq_true hideal
  refine ⟨s, u, Reaches.start.run (fun t turn hc => of_decide_eq_true hc) hs, reaches_of_idealRun hu,
    haccepted.trans haccepted'.symm, hresponses, hresponses', fun hsame => ?_⟩
  rw [hsame, hbyte'] at hbyte
  exact absurd hbyte (by decide)

end Akita.Dram.MemController
