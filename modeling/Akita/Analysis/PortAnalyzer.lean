import Akita.Maps
import Akita.Multisets
import Akita.Sim.Name
import Mathlib.Algebra.BigOperators.Group.Multiset.Basic
import Mathlib.Data.Rat.Floor

/-!
# Port analyzers

`analysis.PortAnalyzer`, a hook that counts the messages at a port.

* `PortAnalyzer.func` : what the hook does with a message;
* `PortAnalyzer.Counts` : `n` messages have been logged or are still to be logged. `Counts.func` : the hook counts one more.
-/

namespace Akita.Analysis
open Sim (atoi)
open Keyed (lookup)

/-- The meta data of a message. -/
structure Msg (π : Type) where
  src : π
  dst : π
  trafficBytes : Int

structure PerfAnalyzerEntry where
  entryType : String
  startTime : ℚ
  endTime : ℚ
  location : String
  remote : String
  what : String
  value : Int
  unit : String
  hops : Int

structure PortAnalyzerEntry where
  remotePortName : String
  outTrafficByte : Int := 0
  outTrafficMsg : Int := 0
  inTrafficByte : Int := 0
  inTrafficMsg : Int := 0
  hops : Int := 0

/-! ## Distances -/

/-- A match of `GPU\[(\d+)\]` at the start. -/
def matchGPU : List Char → Option (List Char)
  | 'G' :: 'P' :: 'U' :: '[' :: rest =>
    let ds := rest.takeWhile Char.isDigit
    if ds ≠ [] ∧ (rest.drop ds.length).head? = some ']' then some ds else none
  | _ => none

def getGPUIDFromName (name : String) : Int :=
  match name.toList.tails.findSome? matchGPU with
  | none => 0
  | some ds => (atoi ds).toOption.getD 0

def convToCoord (id : Int) : Int × Int :=
  let id := if id ≥ 24 then id + 1 else id
  (id % 7, id / 7)

def manhattanDistance (src dst : String) : Int :=
  let p := convToCoord (getGPUIDFromName src)
  let q := convToCoord (getGPUIDFromName dst)
  |p.1 - q.1| + |p.2 - q.2|

/-! ## The analyzer -/

/-- `logged` is what it has given to its logger. -/
structure PortAnalyzer (π : Type) where
  usePeriod : Bool
  period : ℚ
  port : π
  lastTime : ℚ := 0
  remoteToTrafficMap : List PortAnalyzerEntry := []
  logged : List PerfAnalyzerEntry := []

variable {π : Type}

namespace PortAnalyzer

def periodStartTime (h : PortAnalyzer π) (t : ℚ) : ℚ := ⌊t / h.period⌋ * h.period

def periodEndTime (h : PortAnalyzer π) (t : ℚ) : ℚ := h.periodStartTime t + h.period

/-- The entries of traffic in one direction, if there is any. -/
def traffic (perfEntry : PerfAnalyzerEntry) (bytes msgs hops : Int) : List PerfAnalyzerEntry :=
  if msgs ≠ 0 then
    [{ perfEntry with value := bytes, unit := "Byte", hops := 0 }, { perfEntry with value := msgs, unit := "Msg", hops }]
  else []

def summarizeEntry (perfEntry : PerfAnalyzerEntry) (entry : PortAnalyzerEntry) : List PerfAnalyzerEntry :=
  traffic { perfEntry with remote := entry.remotePortName, what := "Incoming" } entry.inTrafficByte entry.inTrafficMsg 0 ++
    traffic { perfEntry with remote := entry.remotePortName, what := "Outgoing" } entry.outTrafficByte
      entry.outTrafficMsg entry.hops

def summarize (name : π → String) (it : MapOrder PortAnalyzerEntry) (h : PortAnalyzer π) (now : ℚ) : PortAnalyzer π :=
  let startTime := if h.usePeriod then h.periodStartTime h.lastTime else 0
  let endTime := if h.usePeriod then min (h.periodEndTime h.lastTime) now else now
  let perfEntry : PerfAnalyzerEntry :=
    { entryType := "Traffic", startTime, endTime, location := name h.port, remote := "", what := "", value := 0,
      unit := "", hops := 0 }
  { h with logged := h.logged ++ (it.order h.remoteToTrafficMap).flatMap (summarizeEntry perfEntry),
           remoteToTrafficMap := [] }

variable [DecidableEq π]

def isIncoming (h : PortAnalyzer π) (msg : Msg π) : Bool := msg.dst = h.port

/-- One more message of an entry. -/
def addMsg (name : π → String) (h : PortAnalyzer π) (msg : Msg π) (entry : PortAnalyzerEntry) : PortAnalyzerEntry :=
  if h.isIncoming msg then
    { entry with inTrafficByte := entry.inTrafficByte + msg.trafficBytes, inTrafficMsg := entry.inTrafficMsg + 1 }
  else
    { entry with
      outTrafficByte := entry.outTrafficByte + msg.trafficBytes
      outTrafficMsg := entry.outTrafficMsg + 1
      hops := entry.hops + manhattanDistance (name msg.src) (name msg.dst) }

def func (name : π → String) (it : MapOrder PortAnalyzerEntry) (h : PortAnalyzer π) (now : ℚ) (msg : Msg π) :
    PortAnalyzer π :=
  let h := if h.usePeriod ∧ now > h.periodEndTime h.lastTime then h.summarize name it now else h
  let remotePortName := name (if h.isIncoming msg then msg.src else msg.dst)
  let entry := (lookup PortAnalyzerEntry.remotePortName remotePortName h.remoteToTrafficMap).getD { remotePortName }
  { h with remoteToTrafficMap := Keyed.insert PortAnalyzerEntry.remotePortName (h.addMsg name msg entry) h.remoteToTrafficMap,
           lastTime := now }

end PortAnalyzer

/-! ## Counting -/

/-- The messages that entries count. -/
def msgs (entries : List PerfAnalyzerEntry) : Int := ((entries.filter (·.unit = "Msg")).map PerfAnalyzerEntry.value).sum

theorem msgs_append (l l' : List PerfAnalyzerEntry) : msgs (l ++ l') = msgs l + msgs l' := by
  unfold msgs
  rw [List.filter_append, List.map_append, List.sum_append]

namespace PortAnalyzerEntry

def msgs (entry : PortAnalyzerEntry) : Int := entry.inTrafficMsg + entry.outTrafficMsg

end PortAnalyzerEntry

namespace PortAnalyzer

def pending (entries : List PortAnalyzerEntry) : Int := (entries.map PortAnalyzerEntry.msgs).sum

theorem pending_perm {l l' : List PortAnalyzerEntry} (h : l.Perm l') : pending l = pending l' := (h.map _).sum_eq

theorem msgs_traffic (perfEntry : PerfAnalyzerEntry) (bytes n hops : Int) : msgs (traffic perfEntry bytes n hops) = n := by
  unfold traffic
  split
  next => simp [msgs]
  next h => simpa [msgs, eq_comm] using h

theorem msgs_summarizeEntry (perfEntry : PerfAnalyzerEntry) (entry : PortAnalyzerEntry) :
    msgs (summarizeEntry perfEntry entry) = entry.msgs := by
  unfold summarizeEntry PortAnalyzerEntry.msgs
  rw [msgs_append, msgs_traffic, msgs_traffic]

theorem msgs_flatMap (perfEntry : PerfAnalyzerEntry) (entries : List PortAnalyzerEntry) :
    msgs (entries.flatMap (summarizeEntry perfEntry)) = pending entries := by
  induction entries with
  | nil => rfl
  | cons _ _ ih =>
    rw [List.flatMap_cons, msgs_append, msgs_summarizeEntry, ih]
    rfl

/-- An analyzer of a port, with its period, that has seen `n` messages. -/
structure Counts (usePeriod : Bool) (period : ℚ) (port : π) (n : Nat) (h : PortAnalyzer π) : Prop where
  usePeriod : h.usePeriod = usePeriod
  period : h.period = period
  port : h.port = port
  nodup : (h.remoteToTrafficMap.map PortAnalyzerEntry.remotePortName).Nodup
  count : msgs h.logged + pending h.remoteToTrafficMap = n

variable {usePeriod : Bool} {period : ℚ} {port : π} {n : Nat} {h : PortAnalyzer π}

theorem Counts.new (usePeriod : Bool) (period : ℚ) (port : π) : Counts usePeriod period port 0 { usePeriod, period, port } :=
  ⟨rfl, rfl, rfl, .nil, rfl⟩

theorem Counts.summarize (hc : Counts usePeriod period port n h) (name : π → String) (it : MapOrder PortAnalyzerEntry)
    (now : ℚ) : Counts usePeriod period port n (h.summarize name it now) ∧ msgs (h.summarize name it now).logged = n := by
  have hlogged : msgs (h.summarize name it now).logged = n := by
    show msgs (h.logged ++ (it.order h.remoteToTrafficMap).flatMap _) = n
    rw [msgs_append, msgs_flatMap, pending_perm (it.perm _), hc.count]
  exact ⟨⟨hc.usePeriod, hc.period, hc.port, .nil, (add_zero _).trans hlogged⟩, hlogged⟩

variable [DecidableEq π]

theorem msgs_addMsg (name : π → String) (h : PortAnalyzer π) (msg : Msg π) (entry : PortAnalyzerEntry) :
    (h.addMsg name msg entry).msgs = entry.msgs + 1 := by
  unfold addMsg PortAnalyzerEntry.msgs
  split <;> dsimp only <;> ring

theorem remotePortName_addMsg (name : π → String) (h : PortAnalyzer π) (msg : Msg π) (entry : PortAnalyzerEntry) :
    (h.addMsg name msg entry).remotePortName = entry.remotePortName := by
  unfold addMsg
  split <;> rfl

theorem Counts.func (hc : Counts usePeriod period port n h) (name : π → String) (it : MapOrder PortAnalyzerEntry) (now : ℚ)
    (msg : Msg π) : Counts usePeriod period port (n + 1) (h.func name it now msg) := by
  unfold PortAnalyzer.func
  generalize hh' : (if h.usePeriod ∧ now > h.periodEndTime h.lastTime then h.summarize name it now else h) = h'
  have hc' : Counts usePeriod period port n h' := by
    rw [← hh']
    split
    · exact (hc.summarize name it now).1
    · exact hc
  dsimp only
  generalize name (if h'.isIncoming msg then msg.src else msg.dst) = remotePortName
  -- the entry of the remote port, and the other entries
  have hentry : ∃ entry : PortAnalyzerEntry,
      (lookup PortAnalyzerEntry.remotePortName remotePortName h'.remoteToTrafficMap).getD { remotePortName } = entry ∧
      entry.remotePortName = remotePortName ∧
      pending h'.remoteToTrafficMap = entry.msgs +
        pending (Keyed.delete PortAnalyzerEntry.remotePortName remotePortName h'.remoteToTrafficMap) := by
    cases hfind : lookup PortAnalyzerEntry.remotePortName remotePortName h'.remoteToTrafficMap with
    | none =>
      refine ⟨_, rfl, rfl, ?_⟩
      rw [Keyed.delete_eq_self (Keyed.lookup_eq_none hfind)]
      exact (zero_add _).symm
    | some entry => exact ⟨entry, rfl, Keyed.key_of_lookup hfind, pending_perm (Keyed.perm_delete hc'.nodup hfind)⟩
  obtain ⟨entry, hget, hname, _⟩ := hentry
  have hkey : (h'.addMsg name msg entry).remotePortName = remotePortName := (remotePortName_addMsg ..).trans hname
  rw [hget]
  refine ⟨hc'.usePeriod, hc'.period, hc'.port, Keyed.nodup_insert hc'.nodup _, ?_⟩
  have hinsert : pending (Keyed.insert PortAnalyzerEntry.remotePortName (h'.addMsg name msg entry) h'.remoteToTrafficMap) =
      entry.msgs + 1 + pending (Keyed.delete PortAnalyzerEntry.remotePortName remotePortName h'.remoteToTrafficMap) := by
    unfold Keyed.insert
    rw [hkey, ← msgs_addMsg name h' msg entry]
    rfl
  have hcount := hc'.count
  show msgs h'.logged + pending (Keyed.insert PortAnalyzerEntry.remotePortName _ _) = _
  rw [hinsert]
  push_cast
  linarith

end PortAnalyzer

end Akita.Analysis
