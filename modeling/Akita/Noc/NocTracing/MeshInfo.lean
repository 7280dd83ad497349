import Akita.Sim.Name
import Akita.Tracing.TraceWriter
import Mathlib.Data.Rat.Floor

/-!
# Records of flits

What `noctracing` makes of a task of a flit, and the counters of the mesh.

* `records` : a flit gives two records for each slice of its time, one of its edge and one of the mesh;
* `MeshInfo.appendRecord` : a record is counted. `MeshInfo.counts_of_appendRecords` : what the counters are after some
  records.
-/

namespace Akita.Noc.NocTracing
open List
open Sim (parseIndex)

structure Tile where
  x : Int
  y : Int
  z : Int
  deriving DecidableEq

structure MeshTraceRecord where
  timeSlice : Nat
  isGlobalRecord : Bool := false
  srcTile : Tile := ⟨0, 0, 0⟩
  dstTile : Tile := ⟨0, 0, 0⟩
  msgTypeID : Nat
  deriving DecidableEq

/-! ## Slices of time -/

def timeSliceUnit : ℚ := 1 / 1000000

/-- At most `rounds` rounds of the loop, with the time that is left and the slice. -/
def discretizeLoop : (rounds : Nat) → (time : ℚ) → (idx : Int) → ℚ × Int
  | 0, time, idx => (time, idx)
  | rounds + 1, time, idx => if time ≥ 0 then discretizeLoop rounds (time - timeSliceUnit) (idx + 1) else (time, idx)

def rounds (time : ℚ) : Nat := ⌊time / timeSliceUnit⌋₊ + 1

/-- `DiscretizeVTimeInSecToSlicedTimeInUint`. -/
def discretize (time : ℚ) : Nat × Bool :=
  let (time, idx) := discretizeLoop (rounds time) time (-1)
  ((idx % 2 ^ 64).toNat, time < 0)

/-! ## Places -/

def splitN (sep : Char) : Nat → List Char → List (List Char)
  | 0, _ => []
  | 1, s => [s]
  | n + 2, s =>
    match s.dropWhile (· ≠ sep) with
    | [] => [s]
    | _ :: rest => s.takeWhile (· ≠ sep) :: splitN sep (n + 1) rest

def exactIndexFromSwitchName (name : List Char) : Except String Tile :=
  match splitN '[' 4 name with
  | _ :: x :: y :: z :: _ => do
    let x ← parseIndex x
    let y ← parseIndex y
    let z ← parseIndex z
    return ⟨x, y, z⟩
  | _ => .error "index out of range"

def parseTileIDFromTaskWhereString (location : String) : Except String (Tile × Tile) :=
  match splitN '.' 6 location.toList with
  | _ :: src :: _ :: _ :: dst :: _ => do
    let src ← exactIndexFromSwitchName src
    let dst ← exactIndexFromSwitchName dst
    return (src, dst)
  | _ => .error "index out of range"

/-! ## Records -/

def meshMsgTypesToTraceList : List String :=
  ["*cache.FlushReq", "*cache.FlushRsp", "*mem.DataReadyRsp", "*mem.ReadReq", "*mem.WriteDoneRsp",
    "*mem.WriteReq", "*protocol.FlushReq",
    "*protocol.LaunchKernelReq", "*protocol.MapWGReq", "*protocol.WGCompletionMsg",
    "*vm.TranslationReq", "*vm.TranslationRsp"]

/-- The ID of a type of messages; a type that is not in the map has the ID 0. -/
def meshMsgTypesToTrace (msgType : String) : Nat := (meshMsgTypesToTraceList.finIdxOf? msgType).elim 0 Fin.val

/-- What a consumer appends for a task. The kind is cut by its characters, not by its bytes. -/
def records (task : Tracing.Task ℚ) : Except String (List MeshTraceRecord) :=
  if task.what ≠ "flit_through_channel" then .ok []
  else do
    let (start, _) := discretize task.startTime
    let (last, loss) := discretize task.endTime
    let last := if loss then (last + 1) % 2 ^ 64 else last
    let (srcTile, dstTile) ← parseTileIDFromTaskWhereString task.location
    if task.kind.toList.length < 5 then throw "slice bounds out of range"
    let msgTypeID := meshMsgTypesToTrace (String.ofList (task.kind.toList.drop 5))
    return (range' start (last + 1 - start)).flatMap fun timeSlice =>
      [{ timeSlice, srcTile, dstTile, msgTypeID }, { timeSlice, isGlobalRecord := true, msgTypeID }]

/-! ## The mesh -/

/-- The counters: `edge` for an edge, a slice and a type of messages. -/
structure MeshInfo where
  width : Nat
  height : Nat
  elapse : Nat := 0
  edge : Nat × Nat → Nat → Nat → Nat := fun _ _ _ => 0
  overview : Nat → Nat → Nat := fun _ _ => 0

namespace MeshInfo

/-- The nodes that `initEdgePool` connects. -/
def edges (m : MeshInfo) : List (Nat × Nat) :=
  (range m.height).flatMap fun i => (range m.width).flatMap fun j =>
    let cur := i * m.width + j
    (if 0 < i then [(cur - m.width, cur), (cur, cur - m.width)] else []) ++ if 0 < j then [(cur - 1, cur), (cur, cur - 1)]
      else []

/-- The node of a tile, as a `uint32`. -/
def node (m : MeshInfo) (t : Tile) : Nat := ((t.x * m.width + t.y) % 2 ^ 32).toNat

def appendEdgeInfo (m : MeshInfo) (time : Nat) (srcTile dstTile : Tile) (msgTypeID : Nat) : Except String MeshInfo :=
  let e := (m.node srcTile, m.node dstTile)
  if m.edges.contains e then
    .ok { m with
      elapse := max m.elapse time
      edge := fun e' t y => m.edge e' t y + if e = e' ∧ time = t ∧ msgTypeID = y then 1 else 0 }
  else .error "invalid memory address or nil pointer dereference"

def appendOverviewInfo (m : MeshInfo) (time msgTypeID : Nat) : MeshInfo :=
  { m with overview := fun t y => m.overview t y + if time = t ∧ msgTypeID = y then 1 else 0 }

/-- What the write worker does with a record. -/
def appendRecord (m : MeshInfo) (r : MeshTraceRecord) : Except String MeshInfo :=
  if r.isGlobalRecord then .ok (m.appendOverviewInfo r.timeSlice r.msgTypeID)
  else m.appendEdgeInfo r.timeSlice r.srcTile r.dstTile r.msgTypeID

/-- The records of an edge, and those of the mesh, at a time. -/
def ofEdge (m : MeshInfo) (e : Nat × Nat) (t y : Nat) (r : MeshTraceRecord) : Bool :=
  !r.isGlobalRecord && decide ((m.node r.srcTile, m.node r.dstTile) = e ∧ r.timeSlice = t ∧ r.msgTypeID = y)

def ofMesh (t y : Nat) (r : MeshTraceRecord) : Bool := r.isGlobalRecord && decide (r.timeSlice = t ∧ r.msgTypeID = y)

/-- `m'` has counted the records, in addition to what `m` has. -/
structure Counted (m : MeshInfo) (rs : List MeshTraceRecord) (m' : MeshInfo) : Prop where
  width : m'.width = m.width
  edge : ∀ e t y, m'.edge e t y = m.edge e t y + rs.countP (m.ofEdge e t y)
  overview : ∀ t y, m'.overview t y = m.overview t y + rs.countP (ofMesh t y)

theorem counted_appendRecord {m m' : MeshInfo} {r : MeshTraceRecord} (h : m.appendRecord r = .ok m') : Counted m [r] m' := by
  unfold appendRecord at h
  split at h
  next hglobal =>
    cases h
    refine ⟨rfl, fun e t y => ?_, fun t y => ?_⟩
    · simp [appendOverviewInfo, ofEdge, hglobal]
    · simp [appendOverviewInfo, ofMesh, hglobal, countP_singleton]
  next hglobal =>
    unfold appendEdgeInfo at h
    dsimp only at h
    split at h
    · cases h
      refine ⟨rfl, fun e t y => ?_, fun t y => ?_⟩
      · simp [ofEdge, hglobal, countP_singleton]
      · simp [ofMesh, hglobal]
    · cases h

theorem counts_of_appendRecords {rs : List MeshTraceRecord} {m m' : MeshInfo} (h : rs.foldlM appendRecord m = .ok m') :
    Counted m rs m' := by
  induction rs generalizing m with
  | nil =>
    cases h
    exact ⟨rfl, fun _ _ _ => rfl, fun _ _ => rfl⟩
  | cons r _ ih =>
    rw [foldlM_cons] at h
    obtain ⟨m₁, hr, hrs⟩ := eq_ok_of_bind h
    have h₁ := counted_appendRecord hr
    have h₂ := ih hrs
    have hnode : m₁.ofEdge = m.ofEdge := by
      funext e t y r
      unfold ofEdge node
      rw [h₁.width]
    refine ⟨h₂.width.trans h₁.width, fun e t y => ?_, fun t y => ?_⟩
    · rw [h₂.edge, h₁.edge, hnode, countP_cons, countP_cons, countP_nil]
      omega
    · rw [h₂.overview, h₁.overview, countP_cons, countP_cons, countP_nil]
      omega

end MeshInfo

end Akita.Noc.NocTracing
