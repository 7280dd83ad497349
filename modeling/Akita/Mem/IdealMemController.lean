import Akita.Mem.Service
import Akita.Mem.Storage
import Akita.Sim.Freq
import Akita.Sim.SerialEngine

/-!
# The ideal memory controller

`idealmemcontroller.Comp` under the serial engine. The other components and the connection are whatever schedules events,
delivers requests to the top port, and accepts or rejects what the controller sends (`Turn`).

The state has a history beside the fields of the code: the requests accepted and the responses sent, each with the place of
its request.
-/

namespace Akita.Mem.Ideal
open Sim
open Succeeds (bind of_any)
open List hiding getElem?_eq_some_iff
open Prod (fst)
open Storage (new read_eq_ok read_of_beyond write write_eq_ok write_of_beyond)

/-- The loop `if req.DirtyMask[i] { data[i] = req.Data[i] }`. -/
def maskInto : Bytes → Bytes → Mask → Except String Bytes
  | old, [], _ => .ok old
  | o :: old, d :: data, m :: mask => do
    let rest ← maskInto old data mask
    return (if m then d else o) :: rest
  | _, _, _ => .error "index out of range"

structure Config where
  freq : Freq
  latency : Nat
  width : Nat
  topBufSize : Nat
  addressConverter : Option (Nat → Except String Nat) := none

/-- The internal address of a request. -/
def Config.convert (cfg : Config) (address : Nat) : Except String Nat :=
  match cfg.addressConverter with
  | some converter => converter address
  | none => .ok address

/-- The events of the controller, and those of other components. A respond event carries the place of its request among the
accepted ones. -/
inductive Task
  | tick
  | respond (k : Nat) (req : AccessReq)
  | other (n : Nat)
deriving DecidableEq

structure Comp (cfg : Config) where
  engine : SerialEngine ℚ Task
  nextTickTime : ℚ := -1
  topPort : Buffer cfg.topBufSize AccessReq := {}
  storage : Storage
  accepted : List AccessReq := []
  responses : List (Nat × AccessRsp Bytes) := []

/-- What another component does while it handles an event. -/
inductive Action
  | deliver (req : AccessReq)
  | notifyPortFree
  | schedule (evt : Event ℚ Nat)

/-- What others do while an event is handled: whether the connection takes the response, the events it schedules at each
`Retrieve` and at the `Send`, and the actions of another component. -/
structure Turn where
  sent : Bool := true
  onRetrieve : List (List (Event ℚ Nat)) := []
  onSend : List (Event ℚ Nat) := []
  actions : List Action := []

namespace Comp

variable {cfg : Config}

def schedule (s : Comp cfg) (time : ℚ) (task : Task) : Except String (Comp cfg) := do
  let engine ← s.engine.schedule { time, handler := task }
  return { s with engine }

/-- Other components schedule events. -/
def scheduleOthers (s : Comp cfg) (evts : List (Event ℚ Nat)) : Except String (Comp cfg) := do
  let engine ← s.engine.scheduleAll
    (evts.map fun e => { time := e.time, handler := .other e.handler, secondary := e.secondary })
  return { s with engine }

def tickLater (s : Comp cfg) (now : ℚ) : Except String (Comp cfg) :=
  let time := cfg.freq.nextTick now
  if s.nextTickTime ≥ time then .ok s else { s with nextTickTime := time }.schedule time .tick

/-- `updateMemCtrl`, with `handleReadReq` and `handleWriteReq`. -/
def updateMemCtrl (s : Comp cfg) (now : ℚ) (onRetrieve : List (Event ℚ Nat)) : Except String (Bool × Comp cfg) :=
  match s.topPort.peek with
  | none => .ok (false, s)
  | some msg => do
    let s ← { s with topPort := s.topPort.pop }.scheduleOthers onRetrieve
    let timeToSchedule := cfg.freq.nCyclesLater cfg.latency now
    let s ← { s with accepted := s.accepted ++ [msg] }.schedule timeToSchedule (.respond s.accepted.length msg)
    return (true, s)

/-- The loop of `Tick`. -/
def tickLoop (now : ℚ) : Nat → List (List (Event ℚ Nat)) → Comp cfg → Except String (Bool × Comp cfg)
  | 0, _, s => .ok (false, s)
  | width + 1, onRetrieve, s => do
    let (progress, s) ← s.updateMemCtrl now (onRetrieve.headD [])
    let (madeProgress, s) ← tickLoop now width onRetrieve.tail s
    return (progress || madeProgress, s)

/-- `TickingComponent.Handle`. -/
def tick (s : Comp cfg) (now : ℚ) (onRetrieve : List (List (Event ℚ Nat))) : Except String (Comp cfg) := do
  let (madeProgress, s) ← tickLoop now cfg.width onRetrieve s
  if madeProgress then s.tickLater now else return s

def writeStorage (storage : Storage) (addr : Nat) (w : WriteReq Bytes Mask) : Except String Storage :=
  match w.dirtyMask with
  | none => storage.write addr w.data
  | some mask => do
    let data ← storage.read addr w.data.length
    let data ← maskInto data w.data mask
    storage.write addr data

/-- `handleReadRespondEvent`. -/
def readRespond (s : Comp cfg) (now : ℚ) (turn : Turn) (k : Nat) (req : ReadReq) : Except String (Comp cfg) := do
  let addr ← cfg.convert req.address
  let data ← s.storage.read addr req.accessByteSize
  let s ← s.scheduleOthers turn.onSend
  if turn.sent then
    let rsp := .dataReady { dst := req.src, respondTo := req.id, data }
    { s with responses := s.responses ++ [(k, rsp)] }.tickLater now
  else s.schedule (cfg.freq.nextTick now) (.respond k (.read req))

/-- `handleWriteRespondEvent`. -/
def writeRespond (s : Comp cfg) (now : ℚ) (turn : Turn) (k : Nat) (req : WriteReq Bytes Mask) : Except String (Comp cfg) := do
  let s ← s.scheduleOthers turn.onSend
  if turn.sent then
    let addr ← cfg.convert req.address
    let storage ← writeStorage s.storage addr req
    let rsp := .writeDone { dst := req.src, respondTo := req.id }
    { s with storage, responses := s.responses ++ [(k, rsp)] }.tickLater now
  else s.schedule (cfg.freq.nextTick now) (.respond k (.write req))

/-- `Recv` of the top port with `NotifyRecv`, `NotifyPortFree`, or an event of another component. -/
def act (s : Comp cfg) (now : ℚ) : Action → Except String (Comp cfg)
  | .deliver req => if s.topPort.canPush then { s with topPort := ⟨s.topPort.elements ++ [req]⟩ }.tickLater now else .ok s
  | .notifyPortFree => s.tickLater now
  | .schedule evt => s.scheduleOthers [evt]

/-- The engine runs the next event. -/
def step (turn : Turn) (s : Comp cfg) : Except String (Comp cfg) := do
  let (evt, engine) ← s.engine.advance
  let s := { s with engine }
  match evt.handler with
  | .tick => s.tick evt.time turn.onRetrieve
  | .respond k (.read req) => s.readRespond evt.time turn k req
  | .respond k (.write req) => s.writeRespond evt.time turn k req
  | .other _ => turn.actions.foldlM (fun s a => s.act evt.time a) s

/-- The controller with events of other components scheduled before the run. -/
def start (cfg : Config) (storage : Storage) (others : List (Event ℚ Nat)) : Except String (Comp cfg) :=
  { engine := { time := 0 }, storage : Comp cfg }.scheduleOthers others

/-! ## The service -/

/-- The access to the storage that a request makes. -/
def access (cfg : Config) : AccessReq → Access
  | .read r => .read ((cfg.convert r.address).toOption.getD 0) r.accessByteSize
  | .write w => .write ((cfg.convert w.address).toOption.getD 0) w.data w.dirtyMask

/-- The bytes of a response. -/
def rspData : AccessRsp Bytes → Bytes
  | .dataReady r => r.data
  | .writeDone _ => []

def service (initial : Nat → UInt8) (s : Comp cfg) : Service where
  initial
  memory := s.storage.data
  accepted := s.accepted.map (access cfg)
  answered := s.responses.map fun p => (p.1, rspData p.2)

/-- The request of a respond event, with its place. -/
def respondOf (e : Event ℚ Task) : Option (Nat × AccessReq) :=
  match e.handler with
  | .respond k req => some (k, req)
  | _ => none

/-- The requests whose respond events are pending. -/
def outstanding (s : Comp cfg) : List (Nat × AccessReq) := s.engine.pending.filterMap respondOf

/-- A respond event of an earlier accepted write to a byte of request `k` is pending. -/
def Overtakes (s : Comp cfg) (k : Nat) (req : AccessReq) : Prop :=
  ∃ p ∈ s.outstanding, p.1 < k ∧ ∃ a, (access cfg p.2).writes a = true ∧ (access cfg req).touches a = true

/-- If the next event is a respond event and the connection takes the response, it overtakes no earlier write. -/
def Waits (s : Comp cfg) (turn : Turn) : Prop :=
  ∀ evt engine k req, s.engine.advance = .ok (evt, engine) → evt.handler = .respond k req →
    turn.sent = true → ¬ s.Overtakes k req

/-- The states of the runs from a storage, with a condition on the turns. -/
inductive Reaches (ok : Comp cfg → Turn → Prop) (storage : Storage) : Comp cfg → Prop
  | start {others : List (Event ℚ Nat)} {s : Comp cfg} (h : start cfg storage others = .ok s) : Reaches ok storage s
  | step {s s' : Comp cfg} {turn : Turn} (hs : Reaches ok storage s) (hok : ok s turn) (h : s.step turn = .ok s') :
      Reaches ok storage s'

/-! ## What the functions do -/

/-- The pending ticks are at the starts of cycles. -/
def OnCycle (s : Comp cfg) : Prop := ∀ e ∈ s.engine.pending, e.handler = .tick → cfg.freq.OnCycle e.time

/-- `old` requests are taken and `new` ones scheduled; nothing else changes that concerns a request. -/
structure Moves (old new : List (Nat × AccessReq)) (s s' : Comp cfg) : Prop where
  valid : s.engine.Valid → s'.engine.Valid
  accepted : s'.accepted = s.accepted
  responses : s'.responses = s.responses
  storage : s'.storage = s.storage
  outstanding : s.engine.Valid → (s'.outstanding ++ old).Perm (s.outstanding ++ new)
  onCycle : s.engine.Valid → s.OnCycle → s'.OnCycle

variable {s s' : Comp cfg}

theorem Moves.trans {t u : Comp cfg} {old new old' new' : List (Nat × AccessReq)} (h : Moves old new s t)
    (h' : Moves old' new' t u) : Moves (old ++ old') (new ++ new') s u where
  valid hv := h'.valid (h.valid hv)
  accepted := h'.accepted.trans h.accepted
  responses := h'.responses.trans h.responses
  storage := h'.storage.trans h.storage
  outstanding hv := by
    calc (u.outstanding ++ (old ++ old')).Perm (u.outstanding ++ old' ++ old) := by
          rw [append_assoc]
          exact perm_append_comm.append_left _
      List.Perm _ (t.outstanding ++ new' ++ old) := (h'.outstanding (h.valid hv)).append_right old
      List.Perm _ (t.outstanding ++ old ++ new') := by
          rw [append_assoc, append_assoc]
          exact perm_append_comm.append_left _
      List.Perm _ (s.outstanding ++ new ++ new') := (h.outstanding hv).append_right new'
      _ = s.outstanding ++ (new ++ new') := append_assoc ..
  onCycle hv hc := h'.onCycle (h.valid hv) (h.onCycle hv hc)

theorem Moves.refl (s : Comp cfg) : Moves [] [] s s := ⟨id, rfl, rfl, rfl, fun _ => List.Perm.refl _, fun _ hc => hc⟩

/-- The time of the next tick concerns no request. -/
theorem Moves.nextTickTime (s : Comp cfg) (time : ℚ) : Moves [] [] s { s with nextTickTime := time } :=
  ⟨id, rfl, rfl, rfl, fun _ => List.Perm.refl _, fun _ hc => hc⟩

theorem Moves.topPort (s : Comp cfg) (topPort : Buffer cfg.topBufSize AccessReq) : Moves [] [] s { s with topPort } :=
  ⟨id, rfl, rfl, rfl, fun _ => List.Perm.refl _, fun _ hc => hc⟩

theorem Moves.cancel {old : List (Nat × AccessReq)} (h : Moves old old s s') : Moves [] [] s s' :=
  { h with outstanding := fun hv => by simpa using (perm_append_right_iff old).1 (h.outstanding hv) }

theorem Moves.scheduleAll {engine : SerialEngine ℚ Task} {evts : List (Event ℚ Task)}
    (h : s.engine.scheduleAll evts = .ok engine) (hticks : ∀ e ∈ evts, e.handler = .tick → cfg.freq.OnCycle e.time) :
    Moves [] (evts.filterMap respondOf) s { s with engine } where
  valid hv := (hv.scheduleAll h).1
  accepted := rfl
  responses := rfl
  storage := rfl
  outstanding hv := by
    have hperm := (hv.scheduleAll h).2.2.filterMap respondOf
    rwa [filterMap_append, ← append_nil (engine.pending.filterMap respondOf)] at hperm
  onCycle hv hc e he htick := by
    rcases mem_append.1 ((hv.scheduleAll h).2.2.mem_iff.1 he) with he | he
    · exact hc e he htick
    · exact hticks e he htick

theorem Moves.schedule {time : ℚ} {task : Task} (h : s.schedule time task = .ok s')
    (htick : task = .tick → cfg.freq.OnCycle time) : Moves [] ([{ time, handler := task }].filterMap respondOf) s s' := by
  obtain ⟨engine, he, hs⟩ := eq_ok_of_bind h
  cases hs
  have hall : s.engine.scheduleAll [{ time, handler := task }] = .ok engine := by simp [SerialEngine.scheduleAll, he]
  refine Moves.scheduleAll hall fun e he => ?_
  rw [mem_singleton.1 he]
  exact htick

theorem Moves.scheduleOthers {evts : List (Event ℚ Nat)} (h : s.scheduleOthers evts = .ok s') : Moves [] [] s s' := by
  obtain ⟨engine, he, hs⟩ := eq_ok_of_bind h
  cases hs
  have hnone : (evts.map fun e => { time := e.time, handler := .other e.handler, secondary := e.secondary }).filterMap
      respondOf = [] := by
    rw [filterMap_map, filterMap_eq_nil_iff]
    intro e _
    rfl
  suffices hmoves : Moves [] _ s { s with engine } from hnone ▸ hmoves
  refine Moves.scheduleAll he fun e he htick => ?_
  obtain ⟨_, -, rfl⟩ := mem_map.1 he
  cases htick

theorem Moves.tickLater {now : ℚ} (h : s.tickLater now = .ok s') : Moves [] [] s s' := by
  unfold Comp.tickLater at h
  simp only at h
  split at h
  · cases h
    exact Moves.refl s
  · exact (Moves.nextTickTime s _).trans (Moves.schedule h fun _ => cfg.freq.onCycle_nextTick now)

theorem Moves.act {now : ℚ} {a : Action} (h : s.act now a = .ok s') : Moves [] [] s s' := by
  cases a with
  | deliver =>
    by_cases hpush : s.topPort.canPush = true
    · simp only [Comp.act, hpush, if_true] at h
      exact (Moves.topPort s _).trans (Moves.tickLater h)
    · simp only [Comp.act, hpush] at h
      cases h
      exact Moves.refl s
  | notifyPortFree => exact Moves.tickLater h
  | schedule => exact Moves.scheduleOthers h

theorem Moves.actions {now : ℚ} {actions : List Action} (h : actions.foldlM (fun s a => Comp.act s now a) s = .ok s') :
    Moves [] [] s s' := by
  induction actions generalizing s with
  | nil =>
    cases h
    exact Moves.refl s'
  | cons _ _ ih =>
    rw [foldlM_cons] at h
    obtain ⟨_, ha, hrest⟩ := eq_ok_of_bind h
    exact (Moves.act ha).trans (ih hrest)

theorem Moves.advance {evt : Event ℚ Task} {engine : SerialEngine ℚ Task} (hv : s.engine.Valid)
    (h : s.engine.advance = .ok (evt, engine)) : Moves ([evt].filterMap respondOf) [] s { s with engine } := by
  obtain ⟨e, htakes, rfl⟩ := SerialEngine.advance_eq_ok hv h
  have hperm : (s.engine.pending).Perm (e.pending ++ [evt]) := htakes.perm.trans (@perm_append_comm _ [evt] _)
  refine ⟨fun hv => hv.takes htakes, rfl, rfl, rfl, fun _ => ?_, fun _ hc x hx => ?_⟩
  case refine_2 => exact hc x (hperm.mem_iff.2 (mem_append_left _ hx))
  have hfilter := hperm.symm.filterMap respondOf
  rwa [filterMap_append, ← append_nil (s.engine.pending.filterMap respondOf)] at hfilter

end Comp

theorem length_maskInto {old data : Bytes} {mask : Mask} {d : Bytes} (h : maskInto old data mask = .ok d) :
    d.length = old.length := by
  induction old, data, mask using maskInto.induct generalizing d with
  | case1 =>
    rw [maskInto] at h
    cases h
    rfl
  | case2 _ _ _ _ _ _ ih =>
    obtain ⟨_, hrest, heq⟩ := eq_ok_of_bind h
    cases heq
    simp [ih hrest]
  | case3 => simp [maskInto] at h

theorem getD_maskInto {old data : Bytes} {mask : Mask} {d : Bytes} (h : maskInto old data mask = .ok d) {i : Nat}
    (hi : i < data.length) : d.getD i 0 = if mask.getD i false then data.getD i 0 else old.getD i 0 := by
  induction old, data, mask using maskInto.induct generalizing d i with
  | case1 => simp at hi
  | case2 _ _ _ _ _ _ ih =>
    obtain ⟨_, hrest, heq⟩ := eq_ok_of_bind h
    cases heq
    cases i with
    | zero => simp
    | succ => simpa using ih hrest (by simpa using hi)
  | case3 => simp [maskInto] at h

theorem data_writeStorage {storage storage' : Storage} {addr : Nat} {w : WriteReq Bytes Mask}
    (h : Comp.writeStorage storage addr w = .ok storage') :
    storage'.data = (Access.write addr w.data w.dirtyMask).effect storage.data := by
  unfold Comp.writeStorage at h
  cases hmask : w.dirtyMask with
  | none =>
    rw [hmask] at h
    rw [write_eq_ok h]
    funext a
    simp [Access.effect, Access.writes, Access.value, covers]
  | some =>
    rw [hmask] at h
    obtain ⟨_, hold, h⟩ := eq_ok_of_bind h
    obtain ⟨d, hd, h⟩ := eq_ok_of_bind h
    have hlen : d.length = w.data.length := (length_maskInto hd).trans (Storage.length_of_read hold)
    rw [write_eq_ok h, hlen]
    funext a
    simp only [Access.effect, Access.writes, Access.value, covers]
    by_cases ha : addr ≤ a ∧ a < addr + w.data.length
    · have hi : a - addr < w.data.length := by omega
      have hsub : addr + (a - addr) = a := by omega
      rw [getD_maskInto hd hi, read_eq_ok hold]
      simp [ha, hi, hsub]
    · have hnot : (decide (addr ≤ a) && decide (a < addr + w.data.length)) = false := by
        simpa [Bool.and_eq_false_iff, Classical.not_and_iff_not_or_not] using ha
      simp [ha, hnot]

/-- The events that others schedule are not in the past. -/
structure Turn.Future (turn : Turn) (now : ℚ) : Prop where
  onRetrieve : ∀ evts ∈ turn.onRetrieve, ∀ e ∈ evts, now ≤ e.time
  onSend : ∀ e ∈ turn.onSend, now ≤ e.time
  actions : ∀ evt, .schedule evt ∈ turn.actions → now ≤ evt.time

/-- The address of the request is converted, its bytes are in the storage, and its mask covers its data. -/
def Servable (cfg : Config) (storage : Storage) (req : AccessReq) : Prop :=
  ∃ addr, cfg.convert req.address = .ok addr ∧ storage.beyond addr req.byteSize = false ∧
    ∀ w mask, req = .write w → w.dirtyMask = some mask → w.data.length ≤ mask.length

namespace Comp

variable {s s' : Comp cfg}

/-! ## Runs -/

/-- What holds in every state of a run from a storage: each accepted request is either answered or to be answered, once, the
responses are those of the requests, and the controller was a memory that answers what is settled. -/
structure Kept (storage : Storage) (s : Comp cfg) : Prop where
  valid : s.engine.Valid
  accepted : ∀ p ∈ s.outstanding, s.accepted[p.1]? = some p.2
  once : (s.responses.map fst ++ s.outstanding.map fst).Perm (range s.accepted.length)
  responses : ∀ p ∈ s.responses, ∃ req, s.accepted[p.1]? = some req ∧ p.2.respondTo = req.id ∧ p.2.dst = req.src
  reaches : Relation.ReflTransGen (Service.Step Service.Settles) (Service.new storage.data) (s.service storage.data)
  onCycle : s.OnCycle

variable {storage : Storage}

theorem service_congr (haccepted : s'.accepted = s.accepted) (hresponses : s'.responses = s.responses)
    (hstorage : s'.storage = s.storage) (initial : Nat → UInt8) : s'.service initial = s.service initial := by
  simp only [service, haccepted, hresponses, hstorage]

section
variable (hk : Kept storage s)
include hk

theorem Kept.moves (h : Moves [] [] s s') : Kept storage s' where
  valid := h.valid hk.valid
  accepted p hp := by
    have hperm := h.outstanding hk.valid
    rw [append_nil, append_nil] at hperm
    rw [h.accepted]
    exact hk.accepted p (hperm.mem_iff.1 hp)
  once := by
    have hperm := h.outstanding hk.valid
    rw [append_nil, append_nil] at hperm
    rw [h.responses, h.accepted]
    exact ((hperm.map fst).append_left _).trans hk.once
  responses := by
    rw [h.responses, h.accepted]
    exact hk.responses
  reaches := by
    rw [service_congr h.accepted h.responses h.storage]
    exact hk.reaches
  onCycle := h.onCycle hk.valid hk.onCycle

theorem Kept.accept {req : AccessReq}
    (h : Moves [] [(s.accepted.length, req)] { s with accepted := s.accepted ++ [req] } s') : Kept storage s' := by
  have hperm : s'.outstanding.Perm (s.outstanding ++ [(s.accepted.length, req)]) := by
    have := h.outstanding hk.valid
    rwa [append_nil] at this
  refine ⟨h.valid hk.valid, fun p hp => ?_, ?_, fun p hp => ?_, ?_, h.onCycle hk.valid hk.onCycle⟩
  · rw [h.accepted]
    rcases mem_append.1 (hperm.mem_iff.1 hp) with hp | hp
    · have hlt := (List.getElem?_eq_some_iff.1 (hk.accepted p hp)).1
      rw [getElem?_append_left hlt]
      exact hk.accepted p hp
    · rw [mem_singleton.1 hp]
      simp
  · rw [h.responses, h.accepted, length_append, length_singleton, range_succ]
    calc (s.responses.map fst ++ s'.outstanding.map fst).Perm
          (s.responses.map fst ++ (s.outstanding ++ [(s.accepted.length, req)]).map fst) :=
          (hperm.map fst).append_left _
      _ = s.responses.map fst ++ s.outstanding.map fst ++ [s.accepted.length] := by simp
      List.Perm _ (range s.accepted.length ++ [s.accepted.length]) := hk.once.append_right _
  · rw [h.responses] at hp
    obtain ⟨q, hq, hrsp⟩ := hk.responses p hp
    refine ⟨q, ?_, hrsp⟩
    rw [h.accepted, getElem?_append_left (List.getElem?_eq_some_iff.1 hq).1]
    exact hq
  · rw [service_congr h.accepted h.responses h.storage]
    have heq : service storage.data { s with accepted := s.accepted ++ [req] } =
        (s.service storage.data).accept (access cfg req) := by
      simp [service, Service.accept]
    rw [heq]
    exact hk.reaches.tail (.accept ..)

theorem Kept.settles {k : Nat} {req : AccessReq} (haccepted : s.accepted[k]? = some req)
    (hwaits : ¬ s.Overtakes k req) : (s.service storage.data).Settles k := by
  intro j r q a hj hr hq hw ht
  obtain ⟨p, hp, rfl⟩ : ∃ p, s.accepted[j]? = some p ∧ access cfg p = r := by simpa [service] using hr
  obtain ⟨x, hx, rfl⟩ : ∃ x, s.accepted[k]? = some x ∧ access cfg x = q := by simpa [service] using hq
  rw [haccepted, Option.some.injEq] at hx
  subst hx
  have hlt := (List.getElem?_eq_some_iff.1 hp).1
  rcases mem_append.1 (hk.once.mem_iff.2 (mem_range.2 hlt)) with hanswered | hpending
  · obtain ⟨y, hy, hyj⟩ := mem_map.1 hanswered
    refine mem_map.2 ⟨(y.1, rspData y.2), mem_map.2 ⟨y, hy, rfl⟩, hyj⟩
  · obtain ⟨y, hy, rfl⟩ := mem_map.1 hpending
    have hyp := hk.accepted y hy
    rw [hp, Option.some.injEq] at hyp
    exact absurd ⟨y, hy, hj, a, hyp ▸ hw, ht⟩ hwaits

theorem Kept.answer {k : Nat} {req : AccessReq} (rsp : AccessRsp Bytes) (storage' : Storage)
    (hwaits : ¬ s.Overtakes k req) (h : Moves [(k, req)] [] s s') (hid : rsp.respondTo = req.id) (hdst : rsp.dst = req.src)
    (hdata : rspData rsp = (access cfg req).data s'.storage.data)
    (hstorage : storage'.data = (access cfg req).effect s'.storage.data) :
    Kept storage { s' with storage := storage', responses := s'.responses ++ [(k, rsp)] } := by
  have hperm : (s'.outstanding ++ [(k, req)]).Perm s.outstanding := by
    have := h.outstanding hk.valid
    rwa [append_nil] at this
  have hmem : (k, req) ∈ s.outstanding := hperm.mem_iff.1 (mem_append_right _ (mem_singleton_self _))
  have haccepted := hk.accepted (k, req) hmem
  have hnew : ¬ (s.service storage.data).Answered k := by
    have hnodup := hk.once.nodup_iff.2 nodup_range
    intro hanswered
    obtain ⟨_, hy, hyk⟩ := mem_map.1 hanswered
    obtain ⟨x, hx, rfl⟩ := mem_map.1 hy
    exact disjoint_of_nodup_append hnodup (mem_map.2 ⟨x, hx, hyk⟩) (mem_map.2 ⟨_, hmem, rfl⟩)
  refine ⟨h.valid hk.valid, fun p hp => ?_, ?_, fun p hp => ?_, ?_, h.onCycle hk.valid hk.onCycle⟩
  · rw [h.accepted]
    exact hk.accepted p (hperm.mem_iff.1 (mem_append_left _ hp))
  · have hpending : ([k] ++ s'.outstanding.map fst).Perm (s.outstanding.map fst) := by
      simpa using ((@perm_append_comm _ [(k, req)] _).trans hperm).map fst
    rw [h.accepted, h.responses, map_append, append_assoc]
    exact (hpending.append_left _).trans hk.once
  · rw [h.responses] at hp
    rcases mem_append.1 hp with hp | hp
    · rw [h.accepted]
      exact hk.responses p hp
    · rw [mem_singleton.1 hp, h.accepted]
      exact ⟨req, haccepted, hid, hdst⟩
  · have heq : service storage.data { s' with storage := storage', responses := s'.responses ++ [(k, rsp)] } =
        (s.service storage.data).answer k (access cfg req) := by
      rw [← service_congr h.accepted h.responses h.storage]
      simp [service, Service.answer, hdata, hstorage]
    rw [heq]
    exact hk.reaches.tail (.answer _ _ _ (by simp [service, haccepted]) hnew (hk.settles haccepted hwaits))

theorem Kept.updateMemCtrl {now : ℚ} {onRetrieve : List (Event ℚ Nat)} {progress : Bool}
    (h : s.updateMemCtrl now onRetrieve = .ok (progress, s')) : Kept storage s' := by
  unfold Comp.updateMemCtrl at h
  cases hpeek : s.topPort.peek with
  | none =>
    rw [hpeek] at h
    cases h
    exact hk
  | some =>
    rw [hpeek] at h
    obtain ⟨_, ht, h⟩ := eq_ok_of_bind h
    obtain ⟨_, hu, h⟩ := eq_ok_of_bind h
    cases h
    have hkt := (hk.moves (Moves.topPort s s.topPort.pop)).moves (Moves.scheduleOthers ht)
    exact hkt.accept (Moves.schedule hu fun htick => by cases htick)

theorem Kept.tickLoop {now : ℚ} {width : Nat} {onRetrieve : List (List (Event ℚ Nat))} {progress : Bool}
    (h : tickLoop now width onRetrieve s = .ok (progress, s')) : Kept storage s' := by
  induction width generalizing onRetrieve progress s with
  | zero =>
    cases h
    exact hk
  | succ _ ih =>
    obtain ⟨⟨_, _⟩, ht, h⟩ := eq_ok_of_bind h
    obtain ⟨⟨_, _⟩, hu, h⟩ := eq_ok_of_bind h
    cases h
    exact ih (hk.updateMemCtrl ht) hu

theorem Kept.tick {now : ℚ} {onRetrieve : List (List (Event ℚ Nat))}
    (h : s.tick now onRetrieve = .ok s') : Kept storage s' := by
  obtain ⟨⟨progress, _⟩, ht, h⟩ := eq_ok_of_bind h
  have hkt := hk.tickLoop ht
  cases progress with
  | true => exact hkt.moves (Moves.tickLater h)
  | false =>
    cases h
    exact hkt

theorem Kept.readRespond {t : Comp cfg} {now : ℚ} {turn : Turn} {k : Nat} {req : ReadReq}
    (ht : Moves [(k, .read req)] [] s t) (hwaits : turn.sent = true → ¬ s.Overtakes k (.read req))
    (h : t.readRespond now turn k req = .ok s') : Kept storage s' := by
  obtain ⟨_, haddr, h⟩ := eq_ok_of_bind h
  obtain ⟨data, hdata, h⟩ := eq_ok_of_bind h
  obtain ⟨u, hu, h⟩ := eq_ok_of_bind h
  have hmoves : Moves [(k, .read req)] [] s u := ht.trans (Moves.scheduleOthers hu)
  by_cases hsent : turn.sent = true
  · simp only [hsent, if_true] at h
    have hread : data = (access cfg (.read req)).data u.storage.data := by
      rw [(Moves.scheduleOthers hu).storage, read_eq_ok hdata, access, haddr]
      rfl
    have hkept := hk.answer (.dataReady { dst := req.src, respondTo := req.id, data }) u.storage (hwaits hsent)
      hmoves rfl rfl hread rfl
    exact hkept.moves (Moves.tickLater h)
  · simp only [hsent] at h
    exact hk.moves (hmoves.trans (Moves.schedule h fun htick => by cases htick)).cancel

theorem Kept.writeRespond {t : Comp cfg} {now : ℚ} {turn : Turn} {k : Nat} {req : WriteReq Bytes Mask}
    (ht : Moves [(k, .write req)] [] s t) (hwaits : turn.sent = true → ¬ s.Overtakes k (.write req))
    (h : t.writeRespond now turn k req = .ok s') : Kept storage s' := by
  obtain ⟨u, hu, h⟩ := eq_ok_of_bind h
  have hmoves : Moves [(k, .write req)] [] s u := ht.trans (Moves.scheduleOthers hu)
  by_cases hsent : turn.sent = true
  · simp only [hsent, if_true] at h
    obtain ⟨_, haddr, h⟩ := eq_ok_of_bind h
    obtain ⟨storage', hstorage, h⟩ := eq_ok_of_bind h
    have hwrite : storage'.data = (access cfg (.write req)).effect u.storage.data := by
      rw [data_writeStorage hstorage, access, haddr]
      rfl
    have hkept := hk.answer (.writeDone { dst := req.src, respondTo := req.id }) storage' (hwaits hsent)
      hmoves rfl rfl rfl hwrite
    exact hkept.moves (Moves.tickLater h)
  · simp only [hsent] at h
    exact hk.moves (hmoves.trans (Moves.schedule h fun htick => by cases htick)).cancel

theorem Kept.step {turn : Turn} (hwaits : s.Waits turn) (h : s.step turn = .ok s') : Kept storage s' := by
  obtain ⟨⟨evt, engine⟩, hadvance, h⟩ := eq_ok_of_bind h
  have hmoves := Moves.advance hk.valid hadvance
  unfold filterMap respondOf at hmoves
  cases htask : evt.handler with
  | tick =>
    simp only [htask] at h hmoves
    exact (hk.moves hmoves).tick h
  | respond k req =>
    have hwait := hwaits evt engine k req hadvance htask
    cases req with
    | read =>
      simp only [htask] at h hmoves
      exact hk.readRespond hmoves hwait h
    | write =>
      simp only [htask] at h hmoves
      exact hk.writeRespond hmoves hwait h
  | other =>
    simp only [htask] at h hmoves
    exact (hk.moves hmoves).moves (Moves.actions h)

end

theorem Kept.start {others : List (Event ℚ Nat)} (h : start cfg storage others = .ok s) : Kept storage s := by
  have hnew : Kept storage ({ engine := { time := 0 }, storage } : Comp cfg) := by
    refine ⟨SerialEngine.Valid.new 0, fun p hp => ?_, List.Perm.refl _, fun p hp => ?_, .refl, fun p hp => ?_⟩
    · cases hp
    · cases hp
    · cases hp
  exact hnew.moves (Moves.scheduleOthers h)

theorem Kept.of_reaches (h : Reaches Waits storage s) : Kept storage s := by
  induction h with
  | start h => exact Kept.start h
  | step _ hwaits h ih => exact ih.step hwaits h

/-! ## Progress -/

theorem maskInto_succeeds {old data : Bytes} {mask : Mask} (hdata : old.length = data.length)
    (hmask : data.length ≤ mask.length) : Succeeds (fun d => d.length = old.length) (maskInto old data mask) := by
  induction data generalizing old mask with
  | nil =>
    rw [maskInto]
    exact Succeeds.ok rfl
  | cons _ _ ih =>
    -- no byte is without its old value or its bit of the mask
    obtain ⟨_, _, rfl⟩ := exists_cons_of_length_eq_add_one hdata
    obtain ⟨_, _, rfl⟩ := exists_cons_of_length_pos (Nat.lt_of_lt_of_le (Nat.succ_pos _) hmask)
    refine bind (ih (by simpa using hdata) (by simpa using hmask)) fun rest hrest => Succeeds.ok ?_
    simp [hrest]

theorem writeStorage_succeeds {storage : Storage} {addr : Nat} {w : WriteReq Bytes Mask}
    (hin : storage.beyond addr w.data.length = false)
    (hmask : ∀ mask, w.dirtyMask = some mask → w.data.length ≤ mask.length) :
    Succeeds (fun _ => True) (writeStorage storage addr w) := by
  unfold writeStorage
  cases hm : w.dirtyMask with
  | none => exact ⟨_, write_of_beyond hin, trivial⟩
  | some mask =>
    refine bind ⟨_, read_of_beyond hin, rfl⟩ fun old hold => ?_
    have hlen : old.length = w.data.length := by rw [← hold, length_map, length_range]
    refine bind (maskInto_succeeds hlen (hmask mask hm)) fun d hd => ?_
    exact ⟨_, write_of_beyond (by rw [hd, hlen, hin]), trivial⟩

/-- The controller goes on at the same time with the same storage. -/
def Same (s t : Comp cfg) : Prop := t.engine.time = s.engine.time ∧ t.storage = s.storage

theorem scheduleAll_succeeds {evts : List (Event ℚ Task)} (hv : s.engine.Valid) (h : ∀ e ∈ evts, s.engine.time ≤ e.time) :
    Succeeds (fun engine => engine.Valid ∧ engine.time = s.engine.time) (s.engine.scheduleAll evts) := by
  obtain ⟨engine, he⟩ := SerialEngine.scheduleAll_ok h
  obtain ⟨hv', htime, -⟩ := hv.scheduleAll he
  exact ⟨engine, he, hv', htime⟩

theorem schedule_succeeds {time : ℚ} {task : Task} (hv : s.engine.Valid) (h : s.engine.time ≤ time) :
    Succeeds (fun t => t.engine.Valid ∧ s.Same t) (s.schedule time task) := by
  obtain ⟨engine, he⟩ := @SerialEngine.schedule_ok ℚ Task _ s.engine { time, handler := task } h
  refine bind ⟨engine, he, rfl⟩ fun e heq => ?_
  subst heq
  exact Succeeds.ok ⟨hv.schedule he, (SerialEngine.schedule_eq_ok he).2.1, rfl⟩

theorem scheduleOthers_succeeds {evts : List (Event ℚ Nat)} (hv : s.engine.Valid) (h : ∀ e ∈ evts, s.engine.time ≤ e.time) :
    Succeeds (fun t => t.engine.Valid ∧ s.Same t) (s.scheduleOthers evts) := by
  refine bind (scheduleAll_succeeds hv fun e he => ?_) fun engine he => Succeeds.ok ⟨he.1, he.2, rfl⟩
  obtain ⟨x, hx, rfl⟩ := mem_map.1 he
  exact h x hx

theorem tickLater_succeeds (hf : 0 < cfg.freq) (hv : s.engine.Valid) :
    Succeeds (fun t => t.engine.Valid ∧ s.Same t) (s.tickLater s.engine.time) := by
  unfold tickLater
  simp only
  split
  · exact Succeeds.ok ⟨hv, rfl, rfl⟩
  · exact @schedule_succeeds cfg { s with nextTickTime := cfg.freq.nextTick s.engine.time } _ .tick hv
      (le_of_lt (Freq.lt_nextTick hf s.engine.time))

theorem updateMemCtrl_succeeds {now : ℚ} {onRetrieve : List (Event ℚ Nat)} (hf : 0 < cfg.freq) (hv : s.engine.Valid)
    (hnow : s.engine.time = now) (hcycle : cfg.freq.OnCycle now) (h : ∀ e ∈ onRetrieve, now ≤ e.time) :
    Succeeds (fun r => r.2.engine.Valid ∧ r.2.engine.time = now) (s.updateMemCtrl now onRetrieve) := by
  unfold updateMemCtrl
  split
  · exact Succeeds.ok ⟨hv, hnow⟩
  · next msg _ =>
    refine bind (@scheduleOthers_succeeds cfg { s with topPort := s.topPort.pop } _ hv fun e he => hnow ▸ h e he)
      fun t ht => ?_
    have htime : t.engine.time = now := ht.2.1.trans hnow
    have hle : t.engine.time ≤ cfg.freq.nCyclesLater cfg.latency now :=
      htime ▸ Freq.le_nCyclesLater hf cfg.latency (htime ▸ hcycle)
    refine bind (@schedule_succeeds cfg { t with accepted := t.accepted ++ [msg] } _ _ ht.1 hle) fun u hu => ?_
    exact Succeeds.ok ⟨hu.1, hu.2.1.trans htime⟩

theorem tickLoop_succeeds {now : ℚ} {width : Nat} {onRetrieve : List (List (Event ℚ Nat))} (hf : 0 < cfg.freq)
    (hv : s.engine.Valid) (hnow : s.engine.time = now) (hcycle : cfg.freq.OnCycle now)
    (h : ∀ evts ∈ onRetrieve, ∀ e ∈ evts, now ≤ e.time) :
    Succeeds (fun r => r.2.engine.Valid ∧ r.2.engine.time = now) (tickLoop now width onRetrieve s) := by
  induction width generalizing onRetrieve s with
  | zero => exact Succeeds.ok ⟨hv, hnow⟩
  | succ _ ih =>
    have hhead : ∀ e ∈ onRetrieve.headD [], now ≤ e.time := by
      cases onRetrieve with
      | nil => simp
      | cons evts => exact h evts (mem_cons_self ..)
    refine bind (updateMemCtrl_succeeds hf hv hnow hcycle hhead) fun r hr => ?_
    refine bind (ih hr.1 hr.2 fun evts hevts => h evts (mem_of_mem_tail hevts)) fun r' hr' => ?_
    exact Succeeds.ok hr'

theorem tick_succeeds {now : ℚ} {onRetrieve : List (List (Event ℚ Nat))} (hf : 0 < cfg.freq) (hv : s.engine.Valid)
    (hnow : s.engine.time = now) (hcycle : cfg.freq.OnCycle now) (h : ∀ evts ∈ onRetrieve, ∀ e ∈ evts, now ≤ e.time) :
    Succeeds (fun _ => True) (s.tick now onRetrieve) := by
  refine bind (tickLoop_succeeds hf hv hnow hcycle h) fun r hr => ?_
  obtain ⟨madeProgress, _⟩ := r
  obtain ⟨hvt, rfl⟩ := hr
  cases madeProgress with
  | true => exact (tickLater_succeeds hf hvt).mono fun _ _ => trivial
  | false => exact Succeeds.ok trivial

theorem readRespond_succeeds {turn : Turn} {k : Nat} {req : ReadReq} (hf : 0 < cfg.freq) (hv : s.engine.Valid)
    (hreq : Servable cfg s.storage (.read req)) (h : ∀ e ∈ turn.onSend, s.engine.time ≤ e.time) :
    Succeeds (fun _ => True) (s.readRespond s.engine.time turn k req) := by
  obtain ⟨addr, haddr, hin, -⟩ := hreq
  refine bind ⟨addr, haddr, rfl⟩ fun a ha => ?_
  subst ha
  refine bind ⟨_, read_of_beyond hin, rfl⟩ fun data _ => ?_
  refine bind (scheduleOthers_succeeds hv h) fun t ht => ?_
  rw [← ht.2.1]
  split
  · have hticked := @tickLater_succeeds cfg
      { t with responses := t.responses ++ [(k, .dataReady { dst := req.src, respondTo := req.id, data })] } hf ht.1
    exact hticked.mono fun _ _ => trivial
  · exact (schedule_succeeds ht.1 (le_of_lt (Freq.lt_nextTick hf t.engine.time))).mono fun _ _ => trivial

theorem writeRespond_succeeds {turn : Turn} {k : Nat} {req : WriteReq Bytes Mask} (hf : 0 < cfg.freq) (hv : s.engine.Valid)
    (hreq : Servable cfg s.storage (.write req)) (h : ∀ e ∈ turn.onSend, s.engine.time ≤ e.time) :
    Succeeds (fun _ => True) (s.writeRespond s.engine.time turn k req) := by
  obtain ⟨addr, haddr, hin, hmask⟩ := hreq
  refine bind (scheduleOthers_succeeds hv h) fun t ht => ?_
  rw [← ht.2.1]
  split
  · refine bind ⟨addr, haddr, rfl⟩ fun a ha => ?_
    subst ha
    refine bind (writeStorage_succeeds (ht.2.2 ▸ hin) fun mask hm => hmask req mask rfl hm) fun storage _ => ?_
    have hticked := @tickLater_succeeds cfg
      { t with storage, responses := t.responses ++ [(k, .writeDone { dst := req.src, respondTo := req.id })] } hf ht.1
    exact hticked.mono fun _ _ => trivial
  · exact (schedule_succeeds ht.1 (le_of_lt (Freq.lt_nextTick hf t.engine.time))).mono fun _ _ => trivial

theorem act_succeeds {a : Action} (hf : 0 < cfg.freq) (hv : s.engine.Valid)
    (h : ∀ evt, .schedule evt = a → s.engine.time ≤ evt.time) :
    Succeeds (fun t => t.engine.Valid ∧ s.Same t) (s.act s.engine.time a) := by
  cases a with
  | deliver req =>
    unfold act
    simp only
    split
    · exact @tickLater_succeeds cfg { s with topPort := ⟨s.topPort.elements ++ [req]⟩ } hf hv
    · exact Succeeds.ok ⟨hv, rfl, rfl⟩
  | notifyPortFree => exact tickLater_succeeds hf hv
  | schedule evt => exact scheduleOthers_succeeds hv fun e he => mem_singleton.1 he ▸ h evt rfl

theorem actions_succeeds {now : ℚ} {actions : List Action} (hf : 0 < cfg.freq) (hv : s.engine.Valid)
    (hnow : s.engine.time = now) (h : ∀ evt, .schedule evt ∈ actions → now ≤ evt.time) :
    Succeeds (fun _ => True) (actions.foldlM (fun s a => Comp.act s now a) s) := by
  induction actions generalizing s with
  | nil => exact Succeeds.ok trivial
  | cons _ _ ih =>
    subst hnow
    rw [foldlM_cons]
    refine bind (act_succeeds hf hv fun evt ha => h evt (ha ▸ mem_cons_self ..)) fun t ht => ?_
    exact ih ht.1 ht.2.1 fun evt hevt => h evt (mem_cons_of_mem _ hevt)

/-- While an event is pending and every outstanding request can be served, the engine runs it without a panic. -/
theorem Kept.continues {turn : Turn} (hk : Kept storage s) (hf : 0 < cfg.freq) (hmore : s.engine.noMoreEvent = false)
    (hreqs : ∀ p ∈ s.outstanding, Servable cfg s.storage p.2)
    (hfuture : ∀ evt engine, s.engine.advance = .ok (evt, engine) → turn.Future evt.time) : ∃ s', s.step turn = .ok s' := by
  obtain ⟨evt, e, htakes, hadvance⟩ := SerialEngine.advance_eq hk.valid hmore
  have hv : SerialEngine.Valid { e with time := evt.time } := hk.valid.takes htakes
  have hturn := hfuture evt _ hadvance
  suffices hstep : Succeeds (fun _ => True) (s.step turn) from hstep.imp fun _ h => h.1
  refine bind ⟨_, hadvance, rfl⟩ fun r hr => ?_
  subst hr
  simp only
  split
  case h_1 htask =>
    exact @tick_succeeds cfg { s with engine := { e with time := evt.time } } _ _ hf hv rfl (hk.onCycle evt htakes.mem htask)
      hturn.onRetrieve
  case h_2 k req htask =>
    have hmem : (k, .read req) ∈ s.outstanding := mem_filterMap.2 ⟨evt, htakes.mem, by simp [respondOf, htask]⟩
    exact @readRespond_succeeds cfg { s with engine := { e with time := evt.time } } turn k req hf hv
      (hreqs _ hmem) hturn.onSend
  case h_3 k req htask =>
    have hmem : (k, .write req) ∈ s.outstanding := mem_filterMap.2 ⟨evt, htakes.mem, by simp [respondOf, htask]⟩
    exact @writeRespond_succeeds cfg { s with engine := { e with time := evt.time } } turn k req hf hv
      (hreqs _ hmem) hturn.onSend
  case h_4 =>
    exact @actions_succeeds cfg { s with engine := { e with time := evt.time } } _ _ hf hv rfl hturn.actions

/-! ## Order -/

/-- What is right of the controller after the steps of a run from a storage: each accepted request is answered once or still
to be answered, and all are answered when no event is left (`once`, `all`), by responses of their own (`responses`), a read is
not behind the writes accepted before it (`reads`), in the end the storage holds the last accepted writes (`final`), and the
engine goes on while an event is pending and the outstanding requests can be served (`continues`). -/
structure IsOrdered (storage : Storage) (s : Comp cfg) : Prop where
  once : (s.responses.map fst ++ s.outstanding.map fst).Perm (range s.accepted.length)
  all : s.engine.noMoreEvent = true → (s.responses.map fst).Perm (range s.accepted.length)
  responses : ∀ p ∈ s.responses, ∃ req, s.accepted[p.1]? = some req ∧ p.2.respondTo = req.id ∧ p.2.dst = req.src
  reads : (s.service storage.data).ReadsLater
  final : (s.service storage.data).Final
  continues : ∀ turn : Turn, 0 < cfg.freq → s.engine.noMoreEvent = false → (∀ p ∈ s.outstanding, Servable cfg s.storage p.2) →
    (∀ evt engine, s.engine.advance = .ok (evt, engine) → turn.Future evt.time) → ∃ s', s.step turn = .ok s'

/-- The controller is ordered while no answer overtakes an earlier write to one of its bytes. -/
theorem ordered_of_waits {s : Comp cfg} {storage : Storage} (h : Reaches Waits storage s) : s.IsOrdered storage := by
  have hk := Kept.of_reaches h
  obtain ⟨hsettled, hreads⟩ := Service.settled_of_reaches hk.reaches
  refine ⟨hk.once, fun hmore => ?_, hk.responses, hreads, hsettled.final, fun turn hf hmore hreqs hfuture => ?_⟩
  · have honce := hk.once
    rwa [outstanding, SerialEngine.pending_of_noMoreEvent hmore, filterMap_nil, map_nil, append_nil] at honce
  · exact hk.continues hf hmore hreqs hfuture

/-! ## Responses at one time -/

/-- The steps of a run, each under a check. -/
def runChecked (check : Comp cfg → Turn → Bool) (turns : List Turn) (s : Comp cfg) : Except String (Comp cfg) :=
  turns.foldlM (fun s turn => if check s turn then s.step turn else .error "not checked") s

theorem Reaches.run {ok : Comp cfg → Turn → Prop} {check : Comp cfg → Turn → Bool} (hs : Reaches ok storage s)
    (hcheck : ∀ t turn, check t turn = true → ok t turn) {turns : List Turn} (h : runChecked check turns s = .ok s') :
    Reaches ok storage s' := by
  refine of_foldlM h hs fun t turn _ t' ht hstep => ?_
  split at hstep
  · next hc => exact ht.step (hcheck t turn hc) hstep
  · cases hstep

/-- The next answer is that of the first outstanding request. -/
def firstResponds (s : Comp cfg) (_ : Turn) : Bool :=
  match s.engine.advance with
  | .error _ => true
  | .ok (evt, _) =>
    match evt.handler with
    | .respond k _ => s.outstanding.all fun p => k ≤ p.1
    | _ => true

theorem waits_of_firstResponds (s : Comp cfg) (turn : Turn) (h : s.firstResponds turn = true) : s.Waits turn := by
  rintro evt engine k req hadvance htask - ⟨p, hp, hlt, -⟩
  simp only [firstResponds, hadvance, htask, all_eq_true, decide_eq_true_eq] at h
  have := h p hp
  omega

/-- One request writes, two read, all delivered at one time. -/
def burst : List AccessReq :=
  [.write { id := 10, src := 1, pid := 0, address := 0, data := [1], dirtyMask := none },
    .read { id := 11, src := 1, pid := 0, address := 64, accessByteSize := 1 },
    .read { id := 12, src := 1, pid := 0, address := 0, accessByteSize := 1 }]

/-- The requests of the burst, accepted at a given width. -/
def burstRun (width : Nat) (check : ∀ cfg, Comp cfg → Turn → Bool) (turns : Nat) :
    Except String (Comp { freq := 1, latency := 5, width, topBufSize := 16 }) := do
  let s ← start _ (new 4096) [{ time := 0, handler := 0 }]
  runChecked (check _) ({ actions := burst.map .deliver } :: replicate turns {}) s

/-- With one request accepted in a cycle, they are answered in order. -/
theorem ordered_of_waits_narrow : ∃ s : Comp { freq := 1, latency := 5, width := 1, topBufSize := 16 },
    (s.accepted = burst ∧ s.responses = [(0, .writeDone { dst := 1, respondTo := 10 }),
      (1, .dataReady { dst := 1, respondTo := 11, data := [0] }),
      (2, .dataReady { dst := 1, respondTo := 12, data := [1] })]) ∧
    s.IsOrdered (new 4096) := by
  have hrun : (burstRun 1 (fun _ => firstResponds) 9).toOption.any (fun s => s.accepted = burst ∧
      s.responses = [(0, .writeDone { dst := 1, respondTo := 10 }),
        (1, .dataReady { dst := 1, respondTo := 11, data := [0] }),
        (2, .dataReady { dst := 1, respondTo := 12, data := [1] })]) = true := by
    decide +kernel
  obtain ⟨s, hs, hresponses⟩ := of_any hrun
  obtain ⟨_, ht, hturns⟩ := eq_ok_of_bind hs
  exact ⟨s, of_decide_eq_true hresponses, ordered_of_waits ((Reaches.start ht).run waits_of_firstResponds hturns)⟩

/-- With three accepted in a cycle, the other read is answered first, then the later read, then the write. -/
theorem burstRun_wide : ∃ s, burstRun 3 (fun _ _ _ => true) 6 = .ok s ∧ s.engine.noMoreEvent = true ∧ s.accepted = burst ∧
    s.responses = [(1, .dataReady { dst := 1, respondTo := 11, data := [0] }),
      (2, .dataReady { dst := 1, respondTo := 12, data := [0] }), (0, .writeDone { dst := 1, respondTo := 10 })] := by
  have hrun : (burstRun 3 (fun _ _ _ => true) 6).toOption.any (fun s => s.engine.noMoreEvent ∧ s.accepted = burst ∧
      s.responses = [(1, .dataReady { dst := 1, respondTo := 11, data := [0] }),
        (2, .dataReady { dst := 1, respondTo := 12, data := [0] }),
        (0, .writeDone { dst := 1, respondTo := 10 })]) = true := by
    decide +kernel
  obtain ⟨s, hs, hresponses⟩ := of_any hrun
  exact ⟨s, hs, of_decide_eq_true hresponses⟩

/-- The respond events of one tick leave the heap in another order than they were scheduled in: the read that was accepted
after the write is answered before it. -/
theorem read_overtakes_write : ∃ s : Comp { freq := 1, latency := 5, width := 3, topBufSize := 16 },
    Reaches (fun _ _ => True) (new 4096) s ∧ s.engine.noMoreEvent = true ∧ ¬ (s.service (new 4096).data).ReadsLater := by
  obtain ⟨s, hrun, hmore, haccepted, hresponses⟩ := burstRun_wide
  obtain ⟨_, ht, hturns⟩ := eq_ok_of_bind hrun
  refine ⟨s, (Reaches.start ht).run (fun _ _ _ => trivial) hturns, hmore, fun hreads => ?_⟩
  have haccesses : (s.service (new 4096).data).accepted = [.write 0 [1] none, .read 64 1, .read 0 1] := by
    simp only [service, haccepted]
    rfl
  have hanswered : (2, [0]) ∈ (s.service (new 4096).data).answered := by
    simp [service, hresponses, rspData]
  obtain ⟨-, hbytes⟩ := hreads 2 [0] 0 1 hanswered (by rw [haccesses]; rfl)
  obtain ⟨_, _, -, hp, hw, hv⟩ := hbytes 0 (by decide) 0 (.write 0 [1] none) (by decide) (by rw [haccesses]; rfl) (by decide)
  rw [haccesses] at hp
  -- the write is the only one, and the read returned another value
  have hmem := mem_of_getElem? hp
  simp only [mem_cons, not_mem_nil, or_false] at hmem
  rcases hmem with rfl | rfl | rfl
  · exact absurd hv (by decide)
  · cases hw
  · cases hw

end Comp

end Akita.Mem.Ideal
