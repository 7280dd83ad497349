import Akita.Sim.Buffer

/-!
# Messages of the memory system

The read and write requests of `mem/mem/protocol.go` and their responses, with the fields the caches read. A message
carries its bytes either by value or as a slice, so the payload is a parameter. Ports, process IDs and message IDs
are numbers.
-/

namespace Akita.Mem
open List

abbrev PortID := Nat
abbrev MsgID := Nat
abbrev PID := Nat
abbrev Bytes := List UInt8
abbrev Mask := List Bool

structure ReadReq where
  id : MsgID
  src : PortID
  dst : PortID := 0
  pid : PID
  address : Nat
  accessByteSize : Nat
  canWaitForCoalesce : Bool := false
deriving DecidableEq

/-- `mem.WriteReq`, with data of type `δ` and a dirty mask of type `μ`, `none` for a nil mask. -/
structure WriteReq (δ μ : Type) where
  id : MsgID
  src : PortID
  dst : PortID := 0
  pid : PID
  address : Nat
  data : δ
  dirtyMask : Option μ
  canWaitForCoalesce : Bool := false
deriving DecidableEq

/-- A request with its bytes: `mem.AccessReq`. -/
inductive AccessReq
  | read (r : ReadReq)
  | write (w : WriteReq Bytes Mask)
deriving DecidableEq

namespace AccessReq

def id : AccessReq → MsgID
  | read r => r.id
  | write w => w.id

def src : AccessReq → PortID
  | read r => r.src
  | write w => w.src

def pid : AccessReq → PID
  | read r => r.pid
  | write w => w.pid

def address : AccessReq → Nat
  | read r => r.address
  | write w => w.address

/-- `GetByteSize`. -/
def byteSize : AccessReq → Nat
  | read r => r.accessByteSize
  | write w => w.data.length

end AccessReq

structure DataReadyRsp (δ : Type) where
  dst : PortID
  respondTo : MsgID
  data : δ
deriving DecidableEq

structure WriteDoneRsp where
  dst : PortID
  respondTo : MsgID
deriving DecidableEq

inductive AccessRsp (δ : Type)
  | dataReady (r : DataReadyRsp δ)
  | writeDone (r : WriteDoneRsp)
deriving DecidableEq

namespace AccessRsp

variable {δ ε : Type}

def respondTo : AccessRsp δ → MsgID
  | dataReady r => r.respondTo
  | writeDone r => r.respondTo

def dst : AccessRsp δ → PortID
  | dataReady r => r.dst
  | writeDone r => r.dst

/-- The same response with its payload read. -/
def map (f : δ → ε) : AccessRsp δ → AccessRsp ε
  | dataReady r => dataReady { dst := r.dst, respondTo := r.respondTo, data := f r.data }
  | writeDone r => writeDone r

end AccessRsp

/-- The response a request has to get, with the number of bytes in place of the bytes. -/
def AccessReq.answer : AccessReq → AccessRsp Nat
  | read r => .dataReady { dst := r.src, respondTo := r.id, data := r.accessByteSize }
  | write w => .writeDone { dst := w.src, respondTo := w.id }

/-! ## Cache lines -/

/-- `getCacheLineID`: the address with its low `log2BlockSize` bits cleared, and these bits. -/
def getCacheLineID (addr log2BlockSize : Nat) : Nat × Nat :=
  (addr / 2 ^ log2BlockSize * 2 ^ log2BlockSize, addr % 2 ^ log2BlockSize)

/-! ## Masked writes -/

/-- `for i := range data { if mask == nil || mask[i] { line[offset+i] = data[i]; dirty[offset+i] = true } }`,
from index `i` of the line on. A mask or a line that is too short is an index panic. -/
def overlay (line : Bytes) (dirty : Mask) (i : Nat) : Bytes → Option Mask → Except String (Bytes × Mask)
  | [], _ => .ok (line, dirty)
  | _ :: _, some [] => .error "index out of range"
  | b :: data, some (m :: mask) =>
    if m then
      if i < line.length ∧ i < dirty.length then
        overlay (line.set i b) (dirty.set i true) (i + 1) data (some mask)
      else .error "index out of range"
    else overlay line dirty (i + 1) data (some mask)
  | b :: data, none =>
    if i < line.length ∧ i < dirty.length then overlay (line.set i b) (dirty.set i true) (i + 1) data none
    else .error "index out of range"

/-- Byte `j` is written by data at offset `i` under a mask. -/
def covers (i : Nat) (data : Bytes) (mask : Option Mask) (j : Nat) : Bool :=
  i ≤ j && j < i + data.length &&
    match mask with
    | none => true
    | some m => m.getD (j - i) false

theorem covers_nil (i : Nat) (mask : Option Mask) (j : Nat) : covers i [] mask j = false := by
  simp only [covers, length_nil, Nat.add_zero, Bool.and_eq_false_iff, decide_eq_false_iff_not]
  left
  omega

theorem covers_cons (i : Nat) (b : UInt8) (data : Bytes) (mask : Option Mask) (j : Nat) :
    covers i (b :: data) mask j =
      (decide (i = j) && (mask.all fun m => m.headD false) || covers (i + 1) data (mask.map tail) j) := by
  rcases Nat.lt_trichotomy i j with h | rfl | h
  · have h1 : j - i = (j - (i + 1)) + 1 := by omega
    have h2 : decide (j < i + (data.length + 1)) = decide (j < i + 1 + data.length) := by
      rw [show i + (data.length + 1) = i + 1 + data.length by omega]
    have h3 : decide (i ≤ j) = true := by simp; omega
    have h4 : decide (i + 1 ≤ j) = true := by simp; omega
    have h5 : decide (i = j) = false := by simp; omega
    simp only [covers, length_cons, h2, h3, h4, h5, Bool.false_and, Bool.false_or, Bool.true_and]
    congr 1
    cases mask with
    | none => rfl
    | some m => cases m <;> simp [h1]
  · have hn : decide (i + 1 ≤ i) = false := by simp
    cases mask with
    | none => simp [covers]
    | some m => cases m <;> simp [covers]
  · have h3 : decide (i ≤ j) = false := by simp; omega
    have h4 : decide (i + 1 ≤ j) = false := by simp; omega
    have h5 : decide (i = j) = false := by simp; omega
    simp only [covers, h3, h4, h5, Bool.false_and, Bool.or_self]

variable {mask : Option Mask} {data : Bytes} {i : Nat}

variable {line : Bytes} {dirty : Mask}

theorem overlay_length {line' : Bytes} {dirty' : Mask} (h : overlay line dirty i data mask = .ok (line', dirty')) :
    line'.length = line.length ∧ dirty'.length = dirty.length := by
  fun_induction overlay line dirty i data mask with
  | case1 => cases h; exact ⟨rfl, rfl⟩
  | case2 => cases h
  | case3 _ _ _ _ _ _ _ ih => simpa using ih h
  | case4 => cases h
  | case5 _ _ _ _ _ _ _ _ ih => exact ih h
  | case6 _ _ _ _ _ _ ih => simpa using ih h
  | case7 => cases h

/-- A write that fits the line and whose mask is long enough succeeds. -/
theorem overlay_ok (hline : i + data.length ≤ line.length) (hdirty : i + data.length ≤ dirty.length)
    (hmask : ∀ m, mask = some m → data.length ≤ m.length) : ∃ r, overlay line dirty i data mask = .ok r := by
  fun_induction overlay line dirty i data mask with
  | case1 => exact ⟨_, rfl⟩
  | case2 => have := hmask _ rfl; simp at this
  | case3 _ _ _ _ _ _ _ ih =>
    simp only [length_cons] at hline hdirty
    refine ih (by simp; omega) (by simp; omega) fun m' h' => ?_
    cases h'
    simpa using hmask _ rfl
  | case4 => simp only [length_cons] at hline hdirty; omega
  | case5 _ _ _ _ _ _ _ _ ih =>
    simp only [length_cons] at hline hdirty
    refine ih (by omega) (by omega) fun m' h' => ?_
    cases h'
    simpa using hmask _ rfl
  | case6 _ _ _ _ _ _ ih =>
    simp only [length_cons] at hline hdirty
    exact ih (by simp; omega) (by simp; omega) (by simp)
  | case7 => simp only [length_cons] at hline hdirty; omega

theorem not_covers_before {j : Nat} (h : j < i) :
    covers i data mask j = false := by
  have hle : decide (i ≤ j) = false := by simp; omega
  simp [covers, hle]

/-- A masked write gives the bytes it covers the values of the data, marks them dirty and leaves the others. -/
theorem overlay_getD {line' : Bytes} {dirty' : Mask} (h : overlay line dirty i data mask = .ok (line', dirty')) (j : Nat) :
    line'.getD j 0 = (if covers i data mask j then data.getD (j - i) 0 else line.getD j 0) ∧
      dirty'.getD j false = (covers i data mask j || dirty.getD j false) := by
  -- the byte at the head of the data is the one at `i`, and no later byte is written there
  have hhead : ∀ {b : UInt8} {data : Bytes} {mask mask' : Option Mask} {line : Bytes} {dirty : Mask} {i : Nat},
      i < line.length ∧ i < dirty.length → mask'.map tail = mask → mask'.all (fun m => m.headD false) = true →
      (line'.getD j 0 = (if covers (i + 1) data mask j then data.getD (j - (i + 1)) 0 else (line.set i b).getD j 0) ∧
        dirty'.getD j false = (covers (i + 1) data mask j || (dirty.set i true).getD j false)) →
      line'.getD j 0 = (if covers i (b :: data) mask' j then (b :: data).getD (j - i) 0 else line.getD j 0) ∧
        dirty'.getD j false = (covers i (b :: data) mask' j || dirty.getD j false) := by
    intro b data mask mask' line dirty i hlt htail hhd ih
    rw [covers_cons, hhd, htail, ih.1, ih.2]
    rcases Nat.lt_trichotomy i j with hj | rfl | hj
    · have hne : decide (i = j) = false := by simp; omega
      have hsub : j - i = (j - (i + 1)) + 1 := by omega
      simp [hne, hsub, getD_eq_getElem?_getD, getElem?_set_ne (show i ≠ j by omega)]
    · simp [not_covers_before (Nat.lt_succ_self i), getD_eq_getElem?_getD, getElem?_set_self hlt.1, getElem?_set_self hlt.2]
    · have hne : decide (i = j) = false := by simp; omega
      simp [hne, not_covers_before (show j < i + 1 by omega), getD_eq_getElem?_getD,
        getElem?_set_ne (show i ≠ j by omega)]
  fun_induction overlay line dirty i data mask with
  | case1 => cases h; simp [covers_nil]
  | case2 => cases h
  | case3 _ _ _ _ _ _ hlt ih => exact hhead hlt rfl rfl (ih h)
  | case4 => cases h
  | case5 _ _ i _ _ _ _ hm ih =>
    rw [covers_cons, (ih h).1, (ih h).2]
    rcases Nat.lt_or_ge i j with hj | hj
    · have hsub : j - i = (j - (i + 1)) + 1 := by omega
      simp [hm, hsub]
    · simp [hm, not_covers_before (show j < i + 1 by omega)]
  | case6 _ _ _ _ _ hlt ih => exact hhead hlt rfl rfl (ih h)
  | case7 => cases h

/-- The mask, if any, has a bit for every byte of the data. -/
def maskFits (data : Bytes) (mask : Option Mask) : Prop := ∀ m, mask = some m → data.length ≤ m.length

instance (data : Bytes) (mask : Option Mask) : Decidable (maskFits data mask) :=
  match mask with
  | none => isTrue (fun _ h => nomatch h)
  | some m => decidable_of_iff (data.length ≤ m.length) ⟨fun h _ e => by cases e; exact h, fun h => h m rfl⟩

end Akita.Mem
