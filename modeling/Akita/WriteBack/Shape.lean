import Akita.WriteBack.Entries

/-!
# The shape of a flow

What every stage relies on when it takes a transaction, an entry or an array from somebody else.

* `Slices.Grows` : arrays are added and keep their lengths;
* `Transaction.Shape`, `Flow.Shaped` : transactions have the fields their action needs, and arrays of data and masks have
  the length of a line.
-/

namespace Akita.WriteBack
open Sim Pipelining Mem Mem.Cache Function

variable {cfg : Config}

/-! ## Arrays -/

namespace Slices

/-- Arrays are added, and none changes its length. -/
structure Grows (s s' : Slices) : Prop where
  next : s.next ≤ s'.next
  bytes : ∀ r < s.next, (s'.bytes r).length = (s.bytes r).length
  masks : ∀ r < s.next, (s'.masks r).length = (s.masks r).length

/-- The array holds a line. -/
def Line (cfg : Config) (s : Slices) (r : ArrayRef) : Prop := r < s.next ∧ (s.bytes r).length = cfg.blockSize

/-- The array holds the dirty mask of a line. -/
def LineMask (cfg : Config) (s : Slices) (r : ArrayRef) : Prop := r < s.next ∧ (s.masks r).length = cfg.blockSize

theorem Grows.refl (s : Slices) : s.Grows s := ⟨le_rfl, fun _ _ => rfl, fun _ _ => rfl⟩

theorem Grows.trans {s s' s'' : Slices} (h : s.Grows s') (h' : s'.Grows s'') : s.Grows s'' :=
  ⟨h.next.trans h'.next, fun r hr => (h'.bytes r (hr.trans_le h.next)).trans (h.bytes r hr),
    fun r hr => (h'.masks r (hr.trans_le h.next)).trans (h.masks r hr)⟩

variable {r : ArrayRef}

theorem Line.grows {s s' : Slices} (h : Line cfg s r) (hg : s.Grows s') : Line cfg s' r :=
  ⟨h.1.trans_le hg.next, (hg.bytes r h.1).trans h.2⟩

theorem LineMask.grows {s s' : Slices} (h : LineMask cfg s r) (hg : s.Grows s') : LineMask cfg s' r :=
  ⟨h.1.trans_le hg.next, (hg.masks r h.1).trans h.2⟩

theorem grows_newBytes (s : Slices) (d : Bytes) : s.Grows (s.newBytes d).2 := by
  refine ⟨Nat.le_succ _, fun r hr => ?_, fun _ _ => rfl⟩
  simp only [newBytes, update_of_ne (Nat.ne_of_lt hr)]

theorem grows_newMask (s : Slices) (m : Mask) : s.Grows (s.newMask m).2 := by
  refine ⟨Nat.le_succ _, fun _ _ => rfl, fun r hr => ?_⟩
  simp only [newMask, update_of_ne (Nat.ne_of_lt hr)]

theorem grows_setMask {s : Slices} {m : Mask} (h : m.length = (s.masks r).length) :
    s.Grows (s.setMask r m) := by
  refine ⟨le_rfl, fun _ _ => rfl, fun r' _ => ?_⟩
  by_cases heq : r' = r
  · subst heq
    simpa [setMask] using h
  · simp [setMask, update_of_ne heq]

theorem grows_fillSlices {s : Slices} {arr : ArrayRef} {data : Bytes} {mask : Mask}
    (h : data.length = (s.bytes arr).length) : s.Grows (Flow.fillSlices s arr data mask) := by
  refine ⟨Nat.le_succ _, fun r hr => ?_, fun r hr => ?_⟩
  · by_cases heq : r = arr
    · subst heq
      simpa [Flow.fillSlices] using h
    · simp [Flow.fillSlices, update_of_ne heq]
  · simp [Flow.fillSlices, update_of_ne (Nat.ne_of_lt hr)]

theorem line_newBytes {s : Slices} {d : Bytes} (h : d.length = cfg.blockSize) : Line cfg (s.newBytes d).2 s.next :=
  ⟨Nat.lt_succ_self _, by simpa [newBytes] using h⟩

end Slices

/-! ## Transactions and entries -/

namespace Transaction

/-- The transaction will write its own data to its block. -/
def Writes (cfg : Config) (gen : Nat) (t : Transaction) : Prop :=
  ∃ w b, t.Asks (.write w) ∧ Legal cfg (.write w) ∧ t.block = some b ∧ Within cfg gen b

/-- The transaction evicts a line that is still in the storage. -/
def Evicts (cfg : Config) (t : Transaction) : Prop := ∃ v, t.victim = some v ∧ v.cacheAddress + cfg.blockSize ≤ cfg.byteSize

/-- The transaction has the line it evicts. -/
def Carries (cfg : Config) (s : Slices) (t : Transaction) : Prop := ∃ arr, t.evictingData = some arr ∧ s.Line cfg arr

def Shape (cfg : Config) (s : Slices) (gen : Nat) (t : Transaction) : Prop :=
  match t.action with
  | .actionInvalid => False
  | .bankReadHit => ∃ r b, t.Asks (.read r) ∧ Legal cfg (.read r) ∧ t.block = some b ∧ Within cfg gen b
  | .bankWriteHit => t.Writes cfg gen
  | .bankEvict => t.Evicts cfg
  | .bankEvictAndWrite => t.Writes cfg gen ∧ t.Evicts cfg
  | .bankEvictAndFetch => t.Evicts cfg
  | .bankWriteFetched => True
  | .writeBufferFetch => True
  | .writeBufferEvictAndFetch => t.Carries cfg s
  | .writeBufferEvictAndWrite => t.Writes cfg gen ∧ t.Carries cfg s
  | .writeBufferFlush => t.Carries cfg s

end Transaction

namespace Transaction

variable {s s' : Slices} {gen gen' : Nat} {t t' : Transaction}

theorem Writes.later (h : t.Writes cfg gen) (hle : gen ≤ gen') : t.Writes cfg gen' := by
  obtain ⟨w, b, hasks, hlegal, hb, hgen, hr⟩ := h
  exact ⟨w, b, hasks, hlegal, hb, hgen.trans hle, hr⟩

theorem Carries.grows (h : t.Carries cfg s) (hg : s.Grows s') : t.Carries cfg s' := by
  obtain ⟨arr, harr, hline⟩ := h
  exact ⟨arr, harr, hline.grows hg⟩

theorem Shape.later (h : t.Shape cfg s gen) (hg : s.Grows s') (hle : gen ≤ gen') : t.Shape cfg s' gen' := by
  unfold Shape at h ⊢
  cases ha : t.action <;> simp only [ha] at h ⊢
  case bankReadHit =>
    obtain ⟨r, b, hasks, hlegal, hb, hgen, hr⟩ := h
    exact ⟨r, b, hasks, hlegal, hb, hgen.trans hle, hr⟩
  case bankWriteHit => exact h.later hle
  case bankEvict => exact h
  case bankEvictAndWrite => exact ⟨h.1.later hle, h.2⟩
  case bankEvictAndFetch => exact h
  case writeBufferEvictAndFetch => exact h.grows hg
  case writeBufferEvictAndWrite => exact ⟨h.1.later hle, h.2.grows hg⟩
  case writeBufferFlush => exact h.grows hg

end Transaction

/-- The actions of transactions on their way to the bank or in it. -/
def Action.inBank : Action → Bool
  | bankReadHit | bankWriteHit | bankEvict | bankEvictAndWrite | bankEvictAndFetch | bankWriteFetched
  | writeBufferFetch => true
  | _ => false

/-- The actions of transactions in the buffer of the write buffer. -/
def Action.inWriteBuffer : Action → Bool
  | writeBufferFetch | writeBufferEvictAndFetch | writeBufferEvictAndWrite | writeBufferFlush => true
  | _ => false

namespace Flow

structure Shaped (a : Flow cfg) : Prop where
  top : ∀ req ∈ a.top, Legal cfg req
  dir : ∀ t ∈ a.dir, ∃ req, t.Asks req ∧ Legal cfg req
  bank : ∀ t ∈ a.bank, t.action.inBank = true
  toBank : ∀ t ∈ a.toBank, t.action = .bankWriteHit ∨ t.action = .bankWriteFetched
  wb : ∀ t ∈ a.wb, t.action.inWriteBuffer = true
  fetches : ∀ t ∈ a.fetches, t.action = .writeBufferFetch
  work : ∀ t ∈ a.work, t.Shape cfg a.slices a.gen
  pending : ∀ t ∈ a.pending, t.Carries cfg a.slices
  inflight : ∀ t ∈ a.inflight, t.Carries cfg a.slices
  lines : ∀ e arr, (a.mshr.heap e).data = some arr → a.slices.Line cfg arr
  masks : ∀ b m, (a.blocks b).dirtyMask = some m → a.slices.LineMask cfg m
  topOut : ∀ r, .dataReady r ∈ a.topOut → r.data.arr < a.slices.next ∧
    r.data.off + r.data.len ≤ (a.slices.bytes r.data.arr).length
  capacity : a.storage.capacity = cfg.byteSize
  answers : ∀ r, .dataReady r ∈ a.answers → r.data.length = cfg.blockSize
  chan : ∀ r, .read r ∈ a.chan → r.accessByteSize = cfg.blockSize
  toEvict : ∀ b ∈ a.toEvict, InRange cfg b

end Flow

/-- A block's bytes lie inside the storage. -/
theorem cacheAddress_le {b : BlockRef} (h : InRange cfg b) :
    b.cacheAddress cfg.geometry + cfg.blockSize ≤ cfg.byteSize := by
  have h1 : b.setID * cfg.wayAssociativity + b.wayID + 1 ≤ cfg.numSets * cfg.wayAssociativity := by
    have h2 : (b.setID + 1) * cfg.wayAssociativity ≤ cfg.numSets * cfg.wayAssociativity :=
      Nat.mul_le_mul_right _ h.1
    have h3 := h.2
    rw [Nat.add_mul, Nat.one_mul] at h2
    omega
  calc b.cacheAddress cfg.geometry + cfg.blockSize
      = (b.setID * cfg.wayAssociativity + b.wayID + 1) * cfg.blockSize := by
        rw [Nat.add_mul, Nat.one_mul]
        rfl
    _ ≤ cfg.numSets * cfg.wayAssociativity * cfg.blockSize := Nat.mul_le_mul_right _ h1
    _ = cfg.byteSize / (cfg.wayAssociativity * cfg.blockSize) * (cfg.wayAssociativity * cfg.blockSize) := by
        rw [Nat.mul_assoc]
        rfl
    _ ≤ cfg.byteSize := Nat.div_mul_le_self _ _

/-! ## Steps and arrays -/

theorem combineRequests_length {requests : List Transaction} {data data' : Bytes} {mask mask' : Mask} {dirty dirty' : Bool}
    (h : WriteBufferStage.combineRequests cfg requests data mask dirty = .ok (data', mask', dirty')) :
    data'.length = data.length ∧ mask'.length = mask.length := by
  induction requests generalizing data mask dirty with
  | nil =>
    cases h
    exact ⟨rfl, rfl⟩
  | cons t _ ih =>
    unfold WriteBufferStage.combineRequests at h
    split at h
    · exact ih h
    · cases hw : t.write with
      | none => simp [hw, deref, bind, Except.bind] at h
      | some =>
        simp only [hw, deref, bind, Except.bind] at h
        split at h
        · cases h
        · next r hr =>
          obtain ⟨d, m⟩ := r
          have h1 := overlay_length hr
          have h2 := ih h
          exact ⟨h2.1.trans h1.1, h2.2.trans h1.2⟩

theorem evictedAction_ok {x y : Action} (h : BankStage.evictedAction x = .ok y) :
    (x = .bankEvict ∧ y = .writeBufferFlush) ∨ (x = .bankEvictAndFetch ∧ y = .writeBufferEvictAndFetch) ∨
      (x = .bankEvictAndWrite ∧ y = .writeBufferEvictAndWrite) := by
  cases x <;> simp [BankStage.evictedAction] at h <;> simp [h]

theorem dirtyMaskOf_spec {s s' : Slices} {block : Block} {m : ArrayRef}
    (hmask : ∀ m, block.dirtyMask = some m → s.LineMask cfg m)
    (h : BankStage.dirtyMaskOf cfg s block = (m, s')) : s.Grows s' ∧ s'.LineMask cfg m ∧ s'.bytes = s.bytes := by
  unfold BankStage.dirtyMaskOf at h
  split at h
  · next m' hm =>
    cases h
    exact ⟨Slices.Grows.refl s, hmask m hm, rfl⟩
  · cases h
    exact ⟨Slices.grows_newMask s _, ⟨Nat.lt_succ_self _, by simp⟩, rfl⟩

namespace Flow

theorem mem_work {a : Flow cfg} {t : Transaction} :
    t ∈ a.work ↔ t ∈ a.bank ∨ t ∈ a.toBank ∨ t ∈ a.wb ∨ t ∈ a.fetches := by
  simp [work, or_assoc]

theorem forall_work {a : Flow cfg} {p : Transaction → Prop} :
    (∀ t ∈ a.work, p t) ↔ (∀ t ∈ a.bank, p t) ∧ (∀ t ∈ a.toBank, p t) ∧ (∀ t ∈ a.wb, p t) ∧ ∀ t ∈ a.fetches, p t := by
  simp only [mem_work, or_imp, forall_and]

theorem Fill.grows {a : Flow cfg} {slices : Slices} {t : Transaction} {arr : ArrayRef} {e : EntryRef} {b : BlockRef}
    {data : Bytes} {mask : Mask} {dirty : Bool} (h : a.Fill slices t arr e b data mask dirty) :
    slices.Grows (fillSlices slices arr data mask) ∧
      (fillSlices slices arr data mask).LineMask cfg slices.next := by
  obtain ⟨hdata, hmask⟩ := combineRequests_length h.combine
  exact ⟨Slices.grows_fillSlices hdata, Nat.lt_succ_self _, by simpa [fillSlices] using hmask⟩

variable {a a' : Flow cfg} {l : Label}

theorem Step.gen_le (hs : Step a l a') : a.gen ≤ a'.gen := by
  cases hs with
  | finishFlush => exact Nat.le_succ _
  | _ => exact le_rfl

theorem Step.grows (h : a.Shaped) (hs : Step a l a') : a.slices.Grows a'.slices := by
  cases hs with
  | finishRead => exact Slices.grows_newBytes _ _
  | finishWrite _ _ _ b _ _ _ _ _ _ _ _ _ _ _ _ hmask hover =>
    obtain ⟨hg, -, -⟩ := dirtyMaskOf_spec (h.masks b) hmask
    exact hg.trans (Slices.grows_setMask (overlay_length hover).2)
  | finishEviction => exact Slices.grows_newBytes _ _
  | dataReady _ _ _ _ _ _ _ _ _ _ hfill =>
    exact (Slices.grows_newBytes _ _).trans hfill.grows.1
  | fetchLocal _ _ _ _ _ _ _ _ _ _ _ _ _ hfill => exact hfill.grows.1
  | _ => exact Slices.Grows.refl _

end Flow

end Akita.WriteBack
