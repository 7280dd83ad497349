import Akita.Analysis.Periods
import Akita.Analysis.PortAnalyzer
import Mathlib.Algebra.Order.BigOperators.Group.List

/-!
# Port traffic by period

Under which period the messages at a port are logged.

* `logStart` : the start under which a message is logged, that of the last message before the next summary;
* `reported_run` : what is logged, message by message;
* `reported_iff` : all of it is logged under the right period exactly if no message comes just when the period of the message
  before it ends.
-/

namespace Akita.Analysis
open List
open Keyed (lookup)
open Prod (fst)

variable {π : Type} [DecidableEq π]

/-! ## Amounts -/

inductive TrafficUnit
  | byte
  | msg

def TrafficUnit.label : TrafficUnit → String
  | byte => "Byte"
  | msg => "Msg"

/-- What the entries of a unit add up to, of those whose start, remote port and direction are in `P`. -/
def reported (u : TrafficUnit) (P : ℚ → String → String → Bool) (entries : List PerfAnalyzerEntry) : Int :=
  ((entries.filter fun e => e.unit = u.label ∧ P e.startTime e.remote e.what).map PerfAnalyzerEntry.value).sum

theorem reported_append (u : TrafficUnit) (P : ℚ → String → String → Bool) (l l' : List PerfAnalyzerEntry) :
    reported u P (l ++ l') = reported u P l + reported u P l' := by
  unfold reported
  rw [filter_append, map_append, sum_append]

namespace PortAnalyzerEntry

/-- The traffic of an entry, of the directions in `P`. -/
def amount (u : TrafficUnit) (P : String → Bool) (entry : PortAnalyzerEntry) : Int :=
  match u with
  | .byte => (if P "Incoming" then entry.inTrafficByte else 0) + if P "Outgoing" then entry.outTrafficByte else 0
  | .msg => (if P "Incoming" then entry.inTrafficMsg else 0) + if P "Outgoing" then entry.outTrafficMsg else 0

/-- A direction without messages has no bytes. -/
structure Valid (entry : PortAnalyzerEntry) : Prop where
  inMsg : 0 ≤ entry.inTrafficMsg
  outMsg : 0 ≤ entry.outTrafficMsg
  inByte : entry.inTrafficMsg = 0 → entry.inTrafficByte = 0
  outByte : entry.outTrafficMsg = 0 → entry.outTrafficByte = 0

end PortAnalyzerEntry

namespace PortAnalyzer

theorem reported_traffic (u : TrafficUnit) (P : ℚ → String → String → Bool) (perfEntry : PerfAnalyzerEntry) {bytes msgs : Int}
    (hops : Int) (hbytes : msgs = 0 → bytes = 0) :
    reported u P (traffic perfEntry bytes msgs hops) =
      if P perfEntry.startTime perfEntry.remote perfEntry.what then (match u with | .byte => bytes | .msg => msgs)
        else 0 := by
  unfold traffic
  split
  next =>
    cases u <;> cases hP : P perfEntry.startTime perfEntry.remote perfEntry.what <;> simp [reported, TrafficUnit.label, hP]
  next h =>
    have hzero : msgs = 0 := not_not.1 h
    cases u <;> simp [reported, hbytes hzero, hzero]

variable {entry : PortAnalyzerEntry}

theorem reported_summarizeEntry (u : TrafficUnit) (P : ℚ → String → String → Bool) (perfEntry : PerfAnalyzerEntry)
    (hv : entry.Valid) :
    reported u P (summarizeEntry perfEntry entry) = entry.amount u (P perfEntry.startTime entry.remotePortName) := by
  unfold summarizeEntry
  rw [reported_append, reported_traffic u P _ 0 hv.inByte, reported_traffic u P _ entry.hops hv.outByte]
  cases u <;> rfl

/-- What the entries of a map amount to, under a start. -/
def pendingAt (u : TrafficUnit) (P : String → String → Bool) (entries : List PortAnalyzerEntry) : Int :=
  (entries.map fun entry => entry.amount u (P entry.remotePortName)).sum

theorem pendingAt_perm (u : TrafficUnit) (P : String → String → Bool) {l l' : List PortAnalyzerEntry} (h : l.Perm l') :
    pendingAt u P l = pendingAt u P l' :=
  (h.map _).sum_eq

theorem reported_flatMap (u : TrafficUnit) (P : ℚ → String → String → Bool) (perfEntry : PerfAnalyzerEntry)
    {entries : List PortAnalyzerEntry} (hv : ∀ entry ∈ entries, entry.Valid) :
    reported u P (entries.flatMap (summarizeEntry perfEntry)) = pendingAt u (P perfEntry.startTime) entries := by
  induction entries with
  | nil => rfl
  | cons entry _ ih =>
    rw [flatMap_cons, reported_append, reported_summarizeEntry u P perfEntry (hv entry mem_cons_self),
      ih fun x hx => hv x (mem_cons_of_mem _ hx)]
    rfl

/-! ## Messages -/

section
variable (name : π → String) (port : π)

def incoming (msg : Msg π) : Bool := msg.dst = port

def remoteOf (msg : Msg π) : String := name (if incoming port msg then msg.src else msg.dst)

def directionOf (msg : Msg π) : String := if incoming port msg then "Incoming" else "Outgoing"

def weight (u : TrafficUnit) (msg : Msg π) : Int :=
  match u with
  | .byte => msg.trafficBytes
  | .msg => 1

/-- What messages amount to, each under the start it comes with. -/
def tally (u : TrafficUnit) (P : ℚ → String → String → Bool) (l : List (ℚ × Msg π)) : Int :=
  (l.map fun x => if P x.1 (remoteOf name port x.2) (directionOf port x.2) then weight u x.2 else 0).sum

end

/-- An analyzer of a port with a period. -/
structure Tracks (p : ℚ) (port : π) (h : PortAnalyzer π) : Prop where
  usePeriod : h.usePeriod = true
  period : h.period = p
  port : h.port = port
  nodup : (h.remoteToTrafficMap.map PortAnalyzerEntry.remotePortName).Nodup
  valid : ∀ entry ∈ h.remoteToTrafficMap, entry.Valid

variable {p : ℚ} {port : π} {h : PortAnalyzer π}

omit [DecidableEq π] in
theorem Tracks.new (p : ℚ) (port : π) : Tracks p port { usePeriod := true, period := p, port } :=
  ⟨rfl, rfl, rfl, .nil, forall_mem_nil _⟩

omit [DecidableEq π] in
theorem Tracks.summarize (ht : Tracks p port h) (name : π → String) (it : MapOrder PortAnalyzerEntry) (now : ℚ) :
    Tracks p port (h.summarize name it now) ∧ ∀ u P, reported u P (h.summarize name it now).logged =
      reported u P h.logged + pendingAt u (P (periodStart p h.lastTime)) h.remoteToTrafficMap := by
  refine ⟨⟨ht.usePeriod, ht.period, ht.port, .nil, forall_mem_nil _⟩, fun u P => ?_⟩
  show reported u P (h.logged ++ (it.order h.remoteToTrafficMap).flatMap _) = _
  rw [reported_append, reported_flatMap u P _ fun entry hentry => ht.valid entry ((it.perm _).mem_iff.1 hentry),
    pendingAt_perm u _ (it.perm _)]
  dsimp only
  rw [if_pos ht.usePeriod, periodStartTime, ht.period]
  rfl

theorem amount_addMsg (u : TrafficUnit) (P : String → Bool) (name : π → String) (h : PortAnalyzer π) (msg : Msg π)
    (entry : PortAnalyzerEntry) :
    (h.addMsg name msg entry).amount u P = entry.amount u P + if P (directionOf h.port msg) then weight u msg else 0 := by
  unfold addMsg directionOf incoming isIncoming PortAnalyzerEntry.amount weight
  by_cases hin : msg.dst = h.port
  · simp only [hin, decide_true, if_true]
    cases u <;> cases P "Incoming" <;> cases P "Outgoing" <;> simp <;> ring
  · simp only [hin, decide_false, Bool.false_eq_true, if_false]
    cases u <;> cases P "Incoming" <;> cases P "Outgoing" <;> simp <;> ring

theorem valid_addMsg {name : π → String} {h : PortAnalyzer π} {msg : Msg π} (hv : entry.Valid) :
    (h.addMsg name msg entry).Valid := by
  have hin := hv.inMsg
  have hout := hv.outMsg
  unfold addMsg
  split
  · exact ⟨by dsimp only; omega, hout, by dsimp only; omega, hv.outByte⟩
  · exact ⟨hin, by dsimp only; omega, hv.inByte, by dsimp only; omega⟩

theorem Tracks.add (ht : Tracks p port h) (name : π → String) (now : ℚ) (msg : Msg π)
    (hentry : (lookup PortAnalyzerEntry.remotePortName (remoteOf name port msg) h.remoteToTrafficMap).getD
      { remotePortName := remoteOf name port msg } = entry) :
    let map := Keyed.insert PortAnalyzerEntry.remotePortName (h.addMsg name msg entry) h.remoteToTrafficMap
    Tracks p port { h with remoteToTrafficMap := map, lastTime := now } ∧ ∀ u P, pendingAt u P map =
      pendingAt u P h.remoteToTrafficMap + if P (remoteOf name port msg) (directionOf port msg) then weight u msg else 0 := by
  intro map
  -- the entry of the remote port, and the other entries
  have hfound : entry.remotePortName = remoteOf name port msg ∧ entry.Valid ∧ ∀ u P, pendingAt u P h.remoteToTrafficMap =
      entry.amount u (P entry.remotePortName) +
        pendingAt u P (Keyed.delete PortAnalyzerEntry.remotePortName (remoteOf name port msg) h.remoteToTrafficMap) := by
    cases hfind : lookup PortAnalyzerEntry.remotePortName (remoteOf name port msg) h.remoteToTrafficMap with
    | none =>
      rw [hfind] at hentry
      obtain rfl := hentry
      refine ⟨rfl, ⟨le_rfl, le_rfl, fun _ => rfl, fun _ => rfl⟩, fun u P => ?_⟩
      rw [Keyed.delete_eq_self (Keyed.lookup_eq_none hfind)]
      cases u <;> simp [PortAnalyzerEntry.amount]
    | some x =>
      rw [hfind] at hentry
      obtain rfl : x = entry := hentry
      exact ⟨Keyed.key_of_lookup hfind, ht.valid x (Keyed.mem_of_lookup hfind),
        fun u P => pendingAt_perm u P (Keyed.perm_delete ht.nodup hfind)⟩
  obtain ⟨hname, hv, hpending⟩ := hfound
  have hkey : (h.addMsg name msg entry).remotePortName = remoteOf name port msg := (remotePortName_addMsg ..).trans hname
  constructor
  · refine ⟨ht.usePeriod, ht.period, ht.port, Keyed.nodup_insert ht.nodup _, fun x hx => ?_⟩
    rcases mem_cons.1 hx with rfl | hx
    · exact valid_addMsg hv
    · exact ht.valid x (Keyed.delete_sublist.subset hx)
  · intro u P
    have hadded := amount_addMsg u (P (remoteOf name port msg)) name h msg entry
    rw [ht.port] at hadded
    rw [hpending, hname]
    show (h.addMsg name msg entry).amount u (P (h.addMsg name msg entry).remotePortName) +
      pendingAt u P (Keyed.delete _ _ _) = _
    rw [hkey, hadded]
    ring

theorem Tracks.func (ht : Tracks p port h) (name : π → String) (it : MapOrder PortAnalyzerEntry) (now : ℚ) (msg : Msg π) :
    Tracks p port (h.func name it now msg) ∧ (h.func name it now msg).lastTime = now ∧
      ∀ u P start, reported u P (h.func name it now msg).logged +
        pendingAt u (P start) (h.func name it now msg).remoteToTrafficMap =
        (reported u P h.logged + pendingAt u (P (if now > periodEnd p h.lastTime then periodStart p h.lastTime else start))
          h.remoteToTrafficMap) +
          if P start (remoteOf name port msg) (directionOf port msg) then weight u msg else 0 := by
  unfold PortAnalyzer.func
  generalize hh' : (if h.usePeriod ∧ now > h.periodEndTime h.lastTime then h.summarize name it now else h) = h'
  have hend : h.periodEndTime h.lastTime = periodEnd p h.lastTime := by
    rw [← ht.period]
    rfl
  have hsummary : Tracks p port h' ∧ ∀ u P start, reported u P h'.logged + pendingAt u (P start) h'.remoteToTrafficMap =
      reported u P h.logged + pendingAt u (P (if now > periodEnd p h.lastTime then periodStart p h.lastTime else start))
        h.remoteToTrafficMap := by
    rw [← hh', hend]
    by_cases hnow : now > periodEnd p h.lastTime
    · obtain ⟨ht', hreported⟩ := ht.summarize name it now
      rw [if_pos ⟨ht.usePeriod, hnow⟩]
      refine ⟨ht', fun u P start => ?_⟩
      rw [hreported, if_pos hnow]
      exact add_zero _
    · rw [if_neg fun hboth => hnow hboth.2]
      refine ⟨ht, fun u P start => ?_⟩
      rw [if_neg hnow]
  obtain ⟨ht', hreported⟩ := hsummary
  dsimp only
  have hremote : name (if h'.isIncoming msg then msg.src else msg.dst) = remoteOf name port msg := by
    unfold isIncoming remoteOf incoming
    rw [ht'.port]
  rw [hremote]
  obtain ⟨hadd, hpending⟩ := ht'.add name now msg rfl
  refine ⟨hadd, rfl, fun u P start => ?_⟩
  rw [hpending, ← hreported u P start]
  ring

/-! ## A run -/

/-- The start under which a message is logged, with what comes after it. -/
def logStart (p t : ℚ) : List (ℚ × Msg π) → ℚ
  | [] => periodStart p t
  | (t', _) :: rest => if t' > periodEnd p t then periodStart p t else logStart p t' rest

/-- The messages, with the starts under which they are logged. -/
def placed (p : ℚ) : List (ℚ × Msg π) → List (ℚ × Msg π)
  | [] => []
  | (t, msg) :: rest => (logStart p t rest, msg) :: placed p rest

/-- A call of the hook. Its item may be no message. -/
def call (name : π → String) (it : MapOrder PortAnalyzerEntry) (h : PortAnalyzer π) : ℚ × Option (Msg π) → PortAnalyzer π
  | (_, none) => h
  | (now, some msg) => h.func name it now msg

def run (name : π → String) (it : MapOrder PortAnalyzerEntry) (p : ℚ) (port : π) (calls : List (ℚ × Option (Msg π))) :
    PortAnalyzer π :=
  calls.foldl (call name it) { usePeriod := true, period := p, port }

def messages (calls : List (ℚ × Option (Msg π))) : List (ℚ × Msg π) := calls.filterMap fun c => c.2.map fun msg => (c.1, msg)

theorem foldl_call (name : π → String) (it : MapOrder PortAnalyzerEntry) (calls : List (ℚ × Option (Msg π)))
    (h : PortAnalyzer π) : calls.foldl (call name it) h = (messages calls).foldl (fun h m => h.func name it m.1 m.2) h := by
  induction calls generalizing h with
  | nil => rfl
  | cons c _ ih =>
    obtain ⟨now, _ | msg⟩ := c
    · exact ih h
    · exact ih (h.func name it now msg)

theorem reported_foldl (name : π → String) (it : MapOrder PortAnalyzerEntry) (u : TrafficUnit)
    (P : ℚ → String → String → Bool) (msgs : List (ℚ × Msg π)) (now : ℚ) (ht : Tracks p port h) :
    reported u P ((msgs.foldl (fun h m => h.func name it m.1 m.2) h).summarize name it now).logged =
      reported u P h.logged + pendingAt u (P (logStart p h.lastTime msgs)) h.remoteToTrafficMap +
        tally name port u P (placed p msgs) := by
  induction msgs generalizing h with
  | nil =>
    rw [foldl_nil, (ht.summarize name it now).2]
    exact (add_zero _).symm
  | cons m msgs ih =>
    obtain ⟨t, msg⟩ := m
    obtain ⟨ht', hlast, hreported⟩ := ht.func name it t msg
    have hstep := hreported u P (logStart p t msgs)
    have htally : tally name port u P (placed p ((t, msg) :: msgs)) =
        (if P (logStart p t msgs) (remoteOf name port msg) (directionOf port msg) then weight u msg else 0) +
          tally name port u P (placed p msgs) := rfl
    rw [foldl_cons, ih ht', hlast, hstep, htally, logStart]
    ring

/-- What is logged in the end. -/
theorem reported_run (name : π → String) (it : MapOrder PortAnalyzerEntry) (u : TrafficUnit) (P : ℚ → String → String → Bool)
    (p : ℚ) (port : π) (calls : List (ℚ × Option (Msg π))) (now : ℚ) :
    reported u P ((run name it p port calls).summarize name it now).logged =
      tally name port u P (placed p (messages calls)) := by
  unfold run
  rw [foldl_call, reported_foldl name it u P _ now (Tracks.new p port)]
  exact zero_add _

/-! ## The right period -/

section
variable {msgs : List (ℚ × Msg π)}

omit [DecidableEq π] in
/-- A message is not logged under an earlier period. -/
theorem periodStart_le_logStart (hp : 0 < p) {t : ℚ} (h : (t :: msgs.map fst).Pairwise (· ≤ ·)) :
    periodStart p t ≤ logStart p t msgs := by
  induction msgs generalizing t with
  | nil => exact le_rfl
  | cons _ _ ih =>
    obtain ⟨hfirst, hrest⟩ := pairwise_cons.1 h
    unfold logStart
    split
    · exact le_rfl
    · exact (periodStart_mono hp (hfirst _ mem_cons_self)).trans (ih hrest)

omit [DecidableEq π] in
theorem sum_periodStart_le (hp : 0 < p) (h : (msgs.map fst).Pairwise (· ≤ ·)) :
    (msgs.map fun m => periodStart p m.1).sum ≤ ((placed p msgs).map fst).sum := by
  induction msgs with
  | nil => exact le_rfl
  | cons _ _ ih => exact add_le_add (periodStart_le_logStart hp h) (ih (pairwise_cons.1 h).2)

omit [DecidableEq π] in
/-- If no start is too late, then no message comes just when the period before it ends. -/
theorem isChain_of_sum_eq (hp : 0 < p) (h : (msgs.map fst).Pairwise (· ≤ ·))
    (hsum : ((placed p msgs).map fst).sum = (msgs.map fun m => periodStart p m.1).sum) :
    (msgs.map fst).IsChain fun t t' => t' ≠ periodEnd p t := by
  induction msgs with
  | nil => exact .nil
  | cons m msgs ih =>
    have hrest := (pairwise_cons.1 h).2
    have hhead : logStart p m.1 msgs + ((placed p msgs).map fst).sum = periodStart p m.1 +
        (msgs.map fun m => periodStart p m.1).sum := hsum
    have hle := periodStart_le_logStart hp h
    have hles := sum_periodStart_le hp hrest
    have hchain := ih hrest (by linarith)
    cases msgs with
    | nil => exact .singleton _
    | cons m' msgs =>
      refine isChain_cons_cons.2 ⟨fun hend => ?_, hchain⟩
      -- the message would be logged with the one after it
      have hlater : logStart p m.1 (m' :: msgs) = logStart p m'.1 msgs := by
        rw [logStart, if_neg (not_lt.2 hend.le)]
      have hnext := periodStart_of_ge hp hend.ge
      have hle' := periodStart_le_logStart hp hrest
      have hpos : periodStart p m.1 < periodEnd p m.1 := by
        unfold periodEnd
        linarith
      linarith

omit [DecidableEq π] in
theorem placed_of_isChain (hp : 0 < p) (h : (msgs.map fst).Pairwise (· ≤ ·))
    (hchain : (msgs.map fst).IsChain fun t t' => t' ≠ periodEnd p t) :
    placed p msgs = msgs.map fun m => (periodStart p m.1, m.2) := by
  induction msgs with
  | nil => rfl
  | cons m msgs ih =>
    have hrest := ih (pairwise_cons.1 h).2 hchain.tail
    have hstart : logStart p m.1 msgs = periodStart p m.1 := by
      cases msgs with
      | nil => rfl
      | cons m' msgs =>
        unfold logStart
        split
        next => rfl
        next hnot =>
          have hne := (isChain_cons_cons.1 hchain).1
          have hlt := lt_of_le_of_ne (not_lt.1 hnot) hne
          have hnext : logStart p m'.1 msgs = periodStart p m'.1 := congrArg fst (cons.inj hrest).1
          rw [hnext, periodStart_of_mem hp ((pairwise_cons.1 h).1 _ mem_cons_self) hlt]
    show (logStart p m.1 msgs, m.2) :: placed p msgs = _
    rw [hstart, hrest]
    rfl

/-- What is logged with an entry is logged for its start, remote port and direction. -/
def atKey (start : ℚ) (remote what : String) : ℚ → String → String → Bool := fun s r w => s = start ∧ r = remote ∧ w = what

theorem tally_msg (name : π → String) (port : π) (l : List (ℚ × Msg π)) (start : ℚ) (remote what : String) :
    tally name port .msg (atKey start remote what) l =
      (l.map fun x => (x.1, remoteOf name port x.2, directionOf port x.2)).count (start, remote, what) := by
  induction l with
  | nil => rfl
  | cons x l ih =>
    have hcons : tally name port .msg (atKey start remote what) (x :: l) =
        (if atKey start remote what x.1 (remoteOf name port x.2) (directionOf port x.2) then 1 else 0) + tally name port .msg
        (atKey start remote what) l := rfl
    rw [hcons, ih, map_cons, count_cons]
    by_cases hkey : x.1 = start ∧ remoteOf name port x.2 = remote ∧ directionOf port x.2 = what
    · rw [if_pos (by simpa [atKey] using hkey), if_pos (by simpa using hkey)]
      push_cast
      ring
    · rw [if_neg (by simpa [atKey] using hkey), if_neg (by simpa using hkey)]
      push_cast
      ring

theorem tally_all (name : π → String) (port : π) (u : TrafficUnit) (l : List (ℚ × Msg π)) :
    tally name port u (fun _ _ _ => true) l = (l.map fun x => weight u x.2).sum := rfl

omit [DecidableEq π] in
theorem messages_sublist (calls : List (ℚ × Option (Msg π))) : ((messages calls).map fst).Sublist (calls.map fst) := by
  induction calls with
  | nil => exact .slnil
  | cons c _ ih =>
    obtain ⟨_, _ | _⟩ := c
    · exact ih.cons _
    · exact ih.cons_cons _

end

/-- Every message is logged under its period exactly if none comes just when the period of the message before it ends. -/
theorem reported_iff (name : π → String) (it : MapOrder PortAnalyzerEntry) {p : ℚ} (hp : 0 < p) (port : π)
    (calls : List (ℚ × Option (Msg π))) (hsorted : (calls.map fst).Pairwise (· ≤ ·)) (now : ℚ) :
    ((∀ u start remote what, reported u (atKey start remote what) ((run name it p port calls).summarize name it now).logged =
          tally name port u (atKey start remote what) ((messages calls).map fun m => (periodStart p m.1, m.2))) ∧
        ∀ u, reported u (fun _ _ _ => true) ((run name it p port calls).summarize name it now).logged =
          ((messages calls).map fun m => weight u m.2).sum) ↔
      ((messages calls).map fst).IsChain fun t t' => t' ≠ periodEnd p t := by
  have htimes : ((messages calls).map fst).Pairwise (· ≤ ·) := hsorted.sublist (messages_sublist calls)
  simp only [reported_run]
  constructor
  · rintro ⟨hkeys, -⟩
    refine isChain_of_sum_eq hp htimes ?_
    have hcount : ((placed p (messages calls)).map fun x => (x.1, remoteOf name port x.2, directionOf port x.2)).Perm
        (((messages calls).map fun m => (periodStart p m.1, m.2)).map
          fun x => (x.1, remoteOf name port x.2, directionOf port x.2)) := by
      refine perm_iff_count.2 fun key => ?_
      have hkey := hkeys .msg key.1 key.2.1 key.2.2
      rw [tally_msg, tally_msg] at hkey
      exact_mod_cast hkey
    have hstarts := (hcount.map fst).sum_eq
    simpa only [map_map, Function.comp_def] using hstarts
  · intro hchain
    rw [placed_of_isChain hp htimes hchain]
    refine ⟨fun _ _ _ _ => rfl, fun u => ?_⟩
    rw [tally_all, map_map]
    rfl

/-- Messages from `A` to `B`, the second one when the period of the first ends. -/
def onBoundary : List (ℚ × Option (Msg String)) :=
  [(1 / 2, some { src := "A", dst := "B", trafficBytes := 4 }), (1, some { src := "A", dst := "B", trafficBytes := 4 })]

theorem reported_onBoundary :
    reported .msg (atKey 0 "A" "Incoming")
      ((run id ⟨id, fun _ => .refl _⟩ 1 "B" onBoundary).summarize id ⟨id, fun _ => .refl _⟩ 2).logged = 0 ∧
      tally id "B" .msg (atKey 0 "A" "Incoming") ((messages onBoundary).map fun m => (periodStart 1 m.1, m.2)) = 1 := by
  decide +kernel

/-- The boundary is in a period of twice the length. -/
theorem reported_iff_onBoundary :
    reported .msg (atKey 0 "A" "Incoming")
      ((run id ⟨id, fun _ => .refl _⟩ 2 "B" onBoundary).summarize id ⟨id, fun _ => .refl _⟩ 2).logged =
      tally id "B" .msg (atKey 0 "A" "Incoming") ((messages onBoundary).map fun m => (periodStart 2 m.1, m.2)) :=
  ((reported_iff id ⟨id, fun _ => .refl _⟩ (by decide) "B" onBoundary (by decide +kernel) 2).2 (by decide +kernel)).1 .msg 0
    "A" "Incoming"

end PortAnalyzer

end Akita.Analysis
