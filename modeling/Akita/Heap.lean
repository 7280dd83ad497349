import Mathlib.Data.List.Perm.Basic
import Mathlib.Order.Lattice

/-!
# Binary heaps

`container/heap` on a list, ordered by a key: `push` sifts the new element up, `pop` swaps the first and the last element and
sifts the first one down.

* `Ordered key n l` : the first `n` elements are in heap order;
* `Heap key` : a list in heap order, with `push`, `peek` and `pop`;
* `pop_spec` : what is popped has the least key, and no element is lost or made.
-/

namespace Akita
open Option
open List hiding getElem?_eq_some_iff

namespace Heap

variable {α τ : Type} [LinearOrder τ]

/-! ## The code -/

/-- `Less(i, j)`. -/
def less (key : α → τ) (l : List α) (i j : Nat) : Bool :=
  match l[i]?, l[j]? with
  | some x, some y => decide (key x < key y)
  | _, _ => false

/-- `Swap(i, j)`. -/
def swap (l : List α) (i j : Nat) : List α :=
  match l[i]?, l[j]? with
  | some x, some y => (l.set i y).set j x
  | _, _ => l

/-- The loop of `up`, with fuel for each index on the way to the root. -/
def upLoop (key : α → τ) : Nat → List α → Nat → List α
  | 0, l, _ => l
  | fuel + 1, l, j =>
    let i := (j - 1) / 2
    if i = j ∨ ¬ less key l j i then l else upLoop key fuel (swap l i j) i

def up (key : α → τ) (l : List α) (j : Nat) : List α := upLoop key j l j

/-- The smaller child of `i`, for a left child below `n`. -/
def child (key : α → τ) (l : List α) (i n : Nat) : Nat :=
  let j1 := 2 * i + 1
  if j1 + 1 < n ∧ less key l (j1 + 1) j1 then j1 + 1 else j1

/-- The loop of `down`. -/
def downLoop (key : α → τ) : Nat → List α → Nat → Nat → List α
  | 0, l, _, _ => l
  | fuel + 1, l, i, n =>
    if n ≤ 2 * i + 1 then l
    else
      let j := child key l i n
      if ¬ less key l j i then l else downLoop key fuel (swap l i j) j n

def down (key : α → τ) (l : List α) (i n : Nat) : List α := downLoop key (n - i) l i n

def push (key : α → τ) (l : List α) (x : α) : List α := up key (l ++ [x]) l.length

/-- What `Pop` does before it takes the last element. -/
def sink (key : α → τ) (l : List α) : List α := down key (swap l 0 (l.length - 1)) 0 (l.length - 1)

/-! ## Swaps -/

/-- The place an element comes from when `i` and `j` are swapped. -/
def transpose (i j k : Nat) : Nat := if k = i then j else if k = j then i else k

@[simp] theorem transpose_left (i j : Nat) : transpose i j i = j := if_pos rfl

@[simp] theorem transpose_right (i j : Nat) : transpose i j j = i := by
  unfold transpose
  split
  next h => exact h
  next => exact if_pos rfl

theorem transpose_of_ne {i j k : Nat} (hi : k ≠ i) (hj : k ≠ j) : transpose i j k = k := by
  rw [transpose, if_neg hi, if_neg hj]

theorem getElem?_swap {l : List α} {i j : Nat} (hi : i < l.length) (hj : j < l.length) (k : Nat) :
    (swap l i j)[k]? = l[transpose i j k]? := by
  have hsi := getElem?_eq_getElem hi
  have hsj := getElem?_eq_getElem hj
  simp only [swap, hsi, hsj, transpose, getElem?_set, length_set]
  by_cases hkj : k = j
  · subst hkj
    by_cases hki : k = i
    · subst hki
      simp [hi]
    · simp [hj, hki, hi]
  · by_cases hki : k = i
    · subst hki
      rw [if_neg (Ne.symm hkj), if_pos rfl, if_pos hi, if_pos rfl, hsj]
    · rw [if_neg (Ne.symm hkj), if_neg (Ne.symm hki), if_neg hki, if_neg hkj]

theorem swap_perm (l : List α) (i j : Nat) : (swap l i j).Perm l := by
  unfold swap
  split
  next x y hx hy =>
    obtain ⟨hi, rfl⟩ := List.getElem?_eq_some_iff.1 hx
    obtain ⟨hj, rfl⟩ := List.getElem?_eq_some_iff.1 hy
    exact List.set_set_perm hi hj
  next => exact List.Perm.refl _

@[simp] theorem length_swap (l : List α) (i j : Nat) : (swap l i j).length = l.length := (swap_perm l i j).length_eq

theorem upLoop_perm (key : α → τ) (fuel : Nat) (l : List α) (j : Nat) : (upLoop key fuel l j).Perm l := by
  induction fuel generalizing l j with
  | zero => exact List.Perm.refl _
  | succ _ ih =>
    rw [upLoop]
    split
    · exact List.Perm.refl _
    · exact (ih _ _).trans (swap_perm _ _ _)

theorem downLoop_perm (key : α → τ) (fuel : Nat) (l : List α) (i n : Nat) : (downLoop key fuel l i n).Perm l := by
  induction fuel generalizing l i with
  | zero => exact List.Perm.refl _
  | succ _ ih =>
    rw [downLoop]
    split
    · exact List.Perm.refl _
    · simp only
      split
      · exact List.Perm.refl _
      · exact (ih _ _).trans (swap_perm _ _ _)

/-! ## Order -/

/-- The element at `i`, if any, is not after the element at `j`. -/
def Le (key : α → τ) (l : List α) (i j : Nat) : Prop := ∀ x ∈ l[i]?, ∀ y ∈ l[j]?, key x ≤ key y

/-- The first `n` elements are in heap order. -/
def Ordered (key : α → τ) (n : Nat) (l : List α) : Prop := ∀ k, 0 < k → k < n → Le key l ((k - 1) / 2) k

variable {key : α → τ} {l : List α} {i j k n : Nat}

theorem Le.trans {a b c : Nat} (hb : b < l.length) (h1 : Le key l a b) (h2 : Le key l b c) : Le key l a c := by
  intro x hx z hz
  have hy := getElem?_eq_getElem hb
  exact le_trans (h1 x hx _ hy) (h2 _ hy z hz)

theorem le_of_not_less (h : ¬ less key l j i = true) : Le key l i j := by
  intro x hx y hy
  rw [mem_def] at hx hy
  simp only [less, hx, hy, decide_eq_true_eq, not_lt] at h
  exact h

theorem le_of_less (h : less key l j i = true) : Le key l j i := by
  intro x hx y hy
  rw [mem_def] at hx hy
  simp only [less, hx, hy, decide_eq_true_eq] at h
  exact le_of_lt h

theorem Le.swap (hi : i < l.length) (hj : j < l.length) {a b : Nat} (h : Le key l (transpose i j a) (transpose i j b)) :
    Le key (Heap.swap l i j) a b := by
  intro x hx y hy
  rw [getElem?_swap hi hj] at hx hy
  exact h x hx y hy

/-! ## Sifting up -/

/-- Heap order but for the element at `j`, which may come before its parent. -/
structure UpOrdered (key : α → τ) (n : Nat) (l : List α) (j : Nat) : Prop where
  order : ∀ k, 0 < k → k < n → k ≠ j → Le key l ((k - 1) / 2) k
  grand : ∀ k, 0 < k → k < n → (k - 1) / 2 = j → 0 < j → Le key l ((j - 1) / 2) k

theorem UpOrdered.finish (h : UpOrdered key n l j) (hle : 0 < j → Le key l ((j - 1) / 2) j) : Ordered key n l := by
  intro k hk hkn
  by_cases hkj : k = j
  · subst hkj
    exact hle hk
  · exact h.order k hk hkn hkj

/-- The element at `j` changes places with its parent. -/
theorem UpOrdered.move (h : UpOrdered key l.length l j) (hj : j < l.length) (hi : i = (j - 1) / 2) (hij : i < j)
    (hless : less key l j i = true) : UpOrdered key l.length (swap l i j) i := by
  have hil : i < l.length := by omega
  constructor
  case order =>
    intro k hk hkl hki
    apply Le.swap hil hj
    by_cases hkj : k = j
    · subst hkj
      rw [← hi, transpose_left, transpose_right]
      exact le_of_less hless
    · rw [transpose_of_ne hki hkj]
      by_cases hp : (k - 1) / 2 = i
      · -- the sibling of `j`
        rw [hp, transpose_left]
        exact (le_of_less hless).trans hil (hp ▸ h.order k hk hkl hkj)
      · by_cases hpj : (k - 1) / 2 = j
        · rw [hpj, transpose_right, hi]
          exact h.grand k hk hkl hpj (by omega)
        · rw [transpose_of_ne hp hpj]
          exact h.order k hk hkl hkj
  case grand =>
    intro k hk hkl hp hpos
    apply Le.swap hil hj
    have hparent : Le key l ((i - 1) / 2) i := h.order i hpos hil (by omega)
    rw [transpose_of_ne (show (i - 1) / 2 ≠ i by omega) (by omega)]
    by_cases hkj : k = j
    · rwa [hkj, transpose_right]
    · rw [transpose_of_ne (by omega) hkj]
      exact hparent.trans hil (hp ▸ h.order k hk hkl hkj)

variable {fuel : Nat}

theorem upLoop_ordered (hfuel : j ≤ fuel) (hj : j < l.length) (h : UpOrdered key l.length l j) :
    Ordered key l.length (upLoop key fuel l j) := by
  induction fuel generalizing l j with
  | zero =>
    obtain rfl : j = 0 := by omega
    exact h.finish fun hpos => absurd hpos (Nat.lt_irrefl 0)
  | succ _ ih =>
    rw [upLoop]
    split
    case isTrue hstop =>
      refine h.finish fun hpos => le_of_not_less ?_
      exact hstop.resolve_left (by omega)
    case isFalse hgo =>
      obtain ⟨_, hless⟩ := not_or.1 hgo
      have hmove := h.move hj rfl (by omega) (not_not.1 hless)
      rw [← length_swap l ((j - 1) / 2) j] at hmove ⊢
      exact ih (by omega) (by rw [length_swap]; omega) hmove

/-! ## Sifting down -/

/-- Heap order among the first `n` but for the element at `i`, which may come after its children. -/
structure DownOrdered (key : α → τ) (n : Nat) (l : List α) (i : Nat) : Prop where
  order : ∀ k, 0 < k → k < n → (k - 1) / 2 ≠ i → Le key l ((k - 1) / 2) k
  grand : ∀ k, 0 < k → k < n → (k - 1) / 2 = i → 0 < i → Le key l ((i - 1) / 2) k

theorem DownOrdered.finish (h : DownOrdered key n l i) (hle : ∀ k, 0 < k → k < n → (k - 1) / 2 = i → Le key l i k) :
    Ordered key n l := by
  intro k hk hkn
  by_cases hp : (k - 1) / 2 = i
  · rw [hp]
    exact hle k hk hkn hp
  · exact h.order k hk hkn hp

theorem Le.refl (key : α → τ) (l : List α) (i : Nat) : Le key l i i := by
  intro x hx y hy
  rw [mem_def] at hx hy
  rw [hx, some.injEq] at hy
  rw [hy]

theorem child_spec (key : α → τ) (l : List α) (hchild : 2 * i + 1 < n) :
    child key l i n < n ∧ 0 < child key l i n ∧ (child key l i n - 1) / 2 = i ∧
      ∀ k, 0 < k → k < n → (k - 1) / 2 = i → Le key l (child key l i n) k := by
  by_cases h : 2 * i + 1 + 1 < n ∧ less key l (2 * i + 1 + 1) (2 * i + 1) = true
  · have hc : child key l i n = 2 * i + 1 + 1 := if_pos h
    rw [hc]
    refine ⟨h.1, by omega, by omega, fun k hk hkn hp => ?_⟩
    obtain rfl | rfl : k = 2 * i + 1 ∨ k = 2 * i + 1 + 1 := by omega
    · exact le_of_less h.2
    · exact Le.refl key l _
  · have hc : child key l i n = 2 * i + 1 := if_neg h
    rw [hc]
    refine ⟨hchild, by omega, by omega, fun k hk hkn hp => ?_⟩
    obtain rfl | rfl : k = 2 * i + 1 ∨ k = 2 * i + 1 + 1 := by omega
    · exact Le.refl key l _
    · exact le_of_not_less fun hless => h ⟨hkn, hless⟩

/-- The element at `i` changes places with its child of least key. -/
theorem DownOrdered.move (h : DownOrdered key n l i) (hn : n ≤ l.length) (hj : j < n) (hpos : 0 < j) (hi : (j - 1) / 2 = i)
    (hmin : ∀ k, 0 < k → k < n → (k - 1) / 2 = i → Le key l j k) (hless : less key l j i = true) :
    DownOrdered key n (swap l i j) j := by
  have hil : i < l.length := by omega
  have hjl : j < l.length := by omega
  constructor
  case order =>
    intro k hk hkn hp
    apply Le.swap hil hjl
    by_cases hkj : k = j
    · rw [hkj, hi, transpose_left, transpose_right]
      exact le_of_less hless
    · by_cases hki : k = i
      · subst hki
        rw [transpose_left, transpose_of_ne (by omega) (by omega)]
        exact h.grand j hpos hj hi hk
      · rw [transpose_of_ne hki hkj]
        by_cases hpi : (k - 1) / 2 = i
        · rw [hpi, transpose_left]
          exact hmin k hk hkn hpi
        · rw [transpose_of_ne hpi hp]
          exact h.order k hk hkn hpi
  case grand =>
    intro k hk hkn hp _
    apply Le.swap hil hjl
    rw [hi, transpose_left, transpose_of_ne (by omega) (by omega)]
    exact hp ▸ h.order k hk hkn (by omega)

theorem downLoop_ordered (hfuel : n - i ≤ fuel) (hn : n ≤ l.length) (h : DownOrdered key n l i) :
    Ordered key n (downLoop key fuel l i n) := by
  induction fuel generalizing l i with
  | zero => exact h.finish fun k hk hkn hp => by omega
  | succ _ ih =>
    rw [downLoop]
    split
    case isTrue hleaf => exact h.finish fun k hk hkn hp => by omega
    case isFalse hinner =>
      obtain ⟨hlt, hpos, hp, hmin⟩ := child_spec key l (show 2 * i + 1 < n by omega)
      simp only
      split
      case isTrue hstop =>
        refine h.finish fun k hk hkn hk' => ?_
        exact (le_of_not_less hstop).trans (by omega) (hmin k hk hkn hk')
      case isFalse hgo =>
        exact ih (by omega) (by rwa [length_swap]) (h.move hn hlt hpos hp hmin (not_not.1 hgo))

theorem getElem?_downLoop (hn : n ≤ l.length) (hk : n ≤ k) : (downLoop key fuel l i n)[k]? = l[k]? := by
  induction fuel generalizing l i with
  | zero => rfl
  | succ _ ih =>
    rw [downLoop]
    split
    · rfl
    case isFalse hinner =>
      obtain ⟨_, _, _, -⟩ := child_spec key l (show 2 * i + 1 < n by omega)
      simp only
      split
      · rfl
      · rw [ih (by rwa [length_swap]), getElem?_swap (by omega) (by omega), transpose_of_ne (by omega) (by omega)]

/-! ## The root -/

theorem Ordered.root (h : Ordered key l.length l) (hk : k < l.length) : Le key l 0 k := by
  induction k using Nat.strongRecOn with
  | ind k ih =>
    rcases Nat.eq_zero_or_pos k with rfl | hpos
    · exact Le.refl key l 0
    · exact (ih ((k - 1) / 2) (by omega) (by omega)).trans (by omega) (h k hpos hk)

theorem push_ordered (h : Ordered key l.length l) (x : α) : Ordered key (push key l x).length (push key l x) := by
  rw [push, up, (upLoop_perm key _ _ _).length_eq]
  apply upLoop_ordered (Nat.le_refl _) (by simp)
  have hold : ∀ k, k < l.length → (l ++ [x])[k]? = l[k]? := fun k hk => getElem?_append_left hk
  constructor
  case order =>
    intro k hk hkl hkj
    rw [length_append, length_singleton] at hkl
    have hlt : k < l.length := by omega
    unfold Le
    rw [hold k hlt, hold _ (by omega)]
    exact h k hk hlt
  case grand =>
    intro k hk hkl hp
    rw [length_append, length_singleton] at hkl
    omega

theorem push_perm (key : α → τ) (l : List α) (x : α) : (push key l x).Perm (x :: l) :=
  (upLoop_perm ..).trans (perm_append_singleton x l)

theorem sink_perm (key : α → τ) (l : List α) : (sink key l).Perm l := (downLoop_perm ..).trans (swap_perm ..)

@[simp] theorem length_sink (key : α → τ) (l : List α) : (sink key l).length = l.length := (sink_perm key l).length_eq

theorem sink_ordered (h : Ordered key l.length l) : Ordered key (l.length - 1) (sink key l) := by
  rcases Nat.eq_zero_or_pos l.length with _ | hpos
  · intro k hk hkl
    omega
  · apply downLoop_ordered (Nat.le_refl _) (by rw [length_swap]; omega)
    constructor
    case order =>
      intro k hk hkl hp
      apply Le.swap hpos (by omega)
      rw [transpose_of_ne hp (by omega), transpose_of_ne (by omega) (by omega)]
      exact h k hk (by omega)
    case grand =>
      intro k _ _ _ hpos'
      exact absurd hpos' (Nat.lt_irrefl 0)

theorem getLast?_sink (key : α → τ) (l : List α) : (sink key l).getLast? = l[0]? := by
  rcases Nat.eq_zero_or_pos l.length with hl | hpos
  · obtain rfl := length_eq_zero_iff.1 hl
    rfl
  · rw [getLast?_eq_getElem?, length_sink, sink, down, getElem?_downLoop (by rw [length_swap]; omega) (Nat.le_refl _),
      getElem?_swap hpos (by omega), transpose_right]

theorem ordered_dropLast {m : Nat} (h : Ordered key m l) (hm : m = l.length - 1) :
    Ordered key l.dropLast.length l.dropLast := by
  intro k hk hkl x hx y hy
  rw [length_dropLast] at hkl
  rw [getElem?_dropLast, if_pos (by omega)] at hx hy
  exact h k hk (by omega) x hx y hy

end Heap

/-! ## Heaps -/

/-- A list in heap order. -/
structure Heap {α τ : Type} [LinearOrder τ] (key : α → τ) where
  elems : List α
  ordered : Heap.Ordered key elems.length elems

namespace Heap

variable {α τ : Type} [LinearOrder τ] {key : α → τ}

/-- `Init` of an empty list. -/
def empty (key : α → τ) : Heap key where
  elems := []
  ordered := fun _ _ h => absurd h (Nat.not_lt_zero _)

def insert (h : Heap key) (x : α) : Heap key where
  elems := push key h.elems x
  ordered := push_ordered h.ordered x

/-- The first element, without removing it. -/
def peek (h : Heap key) : Option α := h.elems.head?

/-- `Pop`, nothing on an empty heap. -/
def pop (h : Heap key) : Option (α × Heap key) :=
  (sink key h.elems).getLast?.map fun x => (x, {
    elems := (sink key h.elems).dropLast
    ordered := ordered_dropLast (sink_ordered h.ordered) (by rw [length_sink]) })

@[simp] theorem elems_empty : (empty key).elems = [] := rfl

theorem elems_insert (h : Heap key) (x : α) : (h.insert x).elems.Perm (x :: h.elems) := push_perm ..

variable {h : Heap key}

theorem mem_insert {x y : α} : y ∈ (h.insert x).elems ↔ y = x ∨ y ∈ h.elems := by
  rw [(h.elems_insert x).mem_iff, mem_cons]

theorem pop_eq_none : h.pop = none ↔ h.elems = [] := by
  rw [pop, map_eq_none_iff, getLast?_eq_none_iff, ← length_eq_zero_iff, length_sink, length_eq_zero_iff]

theorem peek_eq_none : h.peek = none ↔ h.elems = [] := head?_eq_none_iff

variable {x : α}

theorem peek_le (hpeek : h.peek = some x) : ∀ y ∈ h.elems, key x ≤ key y := by
  intro y hy
  obtain ⟨_, hk, rfl⟩ := getElem_of_mem hy
  rw [peek, head?_eq_getElem?] at hpeek
  exact h.ordered.root hk x hpeek _ (getElem?_eq_getElem hk)

theorem mem_of_peek (hpeek : h.peek = some x) : x ∈ h.elems := mem_of_head? hpeek

/-- What is popped is what `peek` shows, it has the least key, and no element is lost or made. -/
theorem pop_spec {h h' : Heap key} (hpop : h.pop = some (x, h')) :
    h.peek = some x ∧ h.elems.Perm (x :: h'.elems) ∧ ∀ y ∈ h.elems, key x ≤ key y := by
  obtain ⟨z, hz, hpair⟩ := map_eq_some_iff.1 hpop
  obtain ⟨rfl, rfl⟩ := Prod.mk.inj hpair
  have hhead : h.elems[0]? = some z := by rw [← getLast?_sink key, hz]
  have hpeek : h.peek = some z := by rw [peek, head?_eq_getElem?, hhead]
  refine ⟨hpeek, ?_, peek_le hpeek⟩
  have hsplit := dropLast_append_getLast? z hz
  calc h.elems.Perm (sink key h.elems) := (sink_perm key _).symm
    _ = (sink key h.elems).dropLast ++ [z] := hsplit.symm
    List.Perm _ (z :: (sink key h.elems).dropLast) := perm_append_singleton ..

end Heap

end Akita
