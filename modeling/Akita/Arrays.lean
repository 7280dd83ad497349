import Mathlib.Data.List.Basic

/-!
# Slices of arrays

A slice shows the first elements of an array, and copies of a slice share the array. `append` writes to the array while it has
room, and moves to a new one otherwise; it returns a slice, and leaves the one it was given.

* `Arrays.read` : what a slice shows;
* `Arrays.Own` : the slices of a family have arrays of their own;
* `Own.append`, `Own.append_copy`, `Own.rotate` : what the family shows after an `append` whose result is stored, after one
  whose result is forgotten, and after an element was moved to the end within the array.
-/

namespace Akita
open List Function

/-- The cells of each array, as many as its capacity. -/
structure Arrays (α : Type) where
  cells : Nat → List α
  next : Nat

/-- A slice from the first cell of its array. -/
structure Header where
  arr : Nat
  len : Nat
deriving DecidableEq

namespace Arrays

variable {α : Type}

def read (h : Arrays α) (s : Header) : List α := (h.cells s.arr).take s.len

/-- `append(s, xs...)`. A new array has room for `spare` more elements. -/
def append [Inhabited α] (spare : Nat → Nat → Nat) (h : Arrays α) (s : Header) (xs : List α) : Arrays α × Header :=
  let len := s.len + xs.length
  let cap := (h.cells s.arr).length
  if len ≤ cap then
    ({ h with cells := update h.cells s.arr (h.read s ++ xs ++ (h.cells s.arr).drop len) }, { s with len })
  else
    ({ cells := update h.cells h.next (h.read s ++ xs ++ replicate (spare cap len) default), next := h.next + 1 },
      { arr := h.next, len })

/-- Each of the first `n` slices has an array of its own, which has room for it. -/
structure Own (h : Arrays α) (n : Nat) (s : Nat → Header) : Prop where
  room : ∀ i < n, (s i).len ≤ (h.cells (s i).arr).length
  made : ∀ i < n, (s i).arr < h.next
  inj : ∀ i < n, ∀ j < n, (s i).arr = (s j).arr → i = j

variable {h h' : Arrays α} {n i : Nat} {s : Nat → Header} {t : Header} {xs : List α}

theorem length_read (hroom : t.len ≤ (h.cells t.arr).length) : (h.read t).length = t.len := by
  rw [read, length_take, Nat.min_eq_left hroom]

/-- One slice of the family is replaced; of the old arrays at most its own has changed. -/
theorem Own.set (hown : Own h n s) (hi : i < n) (hnext : h.next ≤ h'.next) (harr : t.arr = (s i).arr ∨ h.next ≤ t.arr)
    (hmade : t.arr < h'.next) (hroom : t.len ≤ (h'.cells t.arr).length)
    (hother : ∀ a < h.next, a ≠ (s i).arr → h'.cells a = h.cells a) :
    Own h' n (update s i t) ∧ ∀ j < n, j ≠ i → h'.read (s j) = h.read (s j) := by
  have hcells : ∀ j < n, j ≠ i → h'.cells (s j).arr = h.cells (s j).arr :=
    fun j hj hne => hother _ (hown.made j hj) fun heq => hne (hown.inj j hj i hi heq)
  have hfresh : ∀ j < n, j ≠ i → t.arr ≠ (s j).arr := by
    intro j hj hne heq
    rcases harr with harr | harr
    · exact hne (hown.inj j hj i hi (heq.symm.trans harr))
    · exact absurd (hown.made j hj) (Nat.not_lt.mpr (heq ▸ harr))
  refine ⟨⟨fun j hj => ?_, fun j hj => ?_, fun j hj k hk => ?_⟩, fun j hj hne => ?_⟩
  · by_cases hne : j = i
    · rw [hne, update_self]
      exact hroom
    · rw [update_of_ne hne, hcells j hj hne]
      exact hown.room j hj
  · by_cases hne : j = i
    · rw [hne, update_self]
      exact hmade
    · rw [update_of_ne hne]
      exact Nat.lt_of_lt_of_le (hown.made j hj) hnext
  · by_cases hji : j = i <;> by_cases hki : k = i
    · exact fun _ => hji.trans hki.symm
    · rw [hji, update_self, update_of_ne hki]
      exact fun heq => absurd heq (hfresh k hk hki)
    · rw [hki, update_self, update_of_ne hji]
      exact fun heq => absurd heq.symm (hfresh j hj hji)
    · rw [update_of_ne hji, update_of_ne hki]
      exact hown.inj j hj k hk
  · rw [read, read, hcells j hj hne]

/-! ## append -/

/-- What `append(t, xs...)` leaves, `r`. -/
structure Appended (h : Arrays α) (t : Header) (xs : List α) (r : Arrays α × Header) : Prop where
  next : h.next ≤ r.1.next
  arr : r.2.arr = t.arr ∨ h.next ≤ r.2.arr
  made : r.2.arr < r.1.next
  room : r.2.len ≤ (r.1.cells r.2.arr).length
  other : ∀ a < h.next, a ≠ t.arr → r.1.cells a = h.cells a
  cap : (r.1.cells t.arr).length = (h.cells t.arr).length
  read : r.1.read r.2 = h.read t ++ xs
  kept : r.1.read t = h.read t

variable [Inhabited α] {spare : Nat → Nat → Nat}

variable (xs spare) in
theorem append_of_room (hroom : t.len + xs.length ≤ (h.cells t.arr).length) : (h.append spare t xs).1.next = h.next ∧
    (h.append spare t xs).2 = { t with len := t.len + xs.length } := by
  rw [append, if_pos hroom]
  exact ⟨rfl, rfl⟩

variable (xs spare) in
theorem appended (hmade : t.arr < h.next) (hfits : t.len ≤ (h.cells t.arr).length) :
    Appended h t xs (h.append spare t xs) := by
  have hall : (h.read t ++ xs).length = t.len + xs.length := by rw [length_append, length_read hfits]
  unfold append
  dsimp only
  split
  · next hroom =>
    have hlen : (h.read t ++ xs ++ (h.cells t.arr).drop (t.len + xs.length)).length = (h.cells t.arr).length := by
      rw [length_append, hall, length_drop]
      omega
    refine ⟨Nat.le_refl _, .inl rfl, hmade, ?_, fun a _ hne => update_of_ne hne .., ?_, ?_, ?_⟩ <;> dsimp only
    · rw [update_self, hlen]
      exact hroom
    · rw [update_self, hlen]
    · show (update h.cells t.arr _ t.arr).take _ = _
      rw [update_self, ← hall, take_left]
    · show (update h.cells t.arr _ t.arr).take _ = _
      rw [update_self, append_assoc, take_append_of_le_length (Nat.le_of_eq (length_read hfits).symm), read, take_take,
        Nat.min_self]
  · have hne : t.arr ≠ h.next := Nat.ne_of_lt hmade
    refine ⟨Nat.le_succ _, .inr (Nat.le_refl _), Nat.lt_succ_self _, ?_, fun a ha _ => update_of_ne (Nat.ne_of_lt ha) .., ?_,
      ?_, ?_⟩ <;>
      dsimp only
    · rw [update_self, length_append, hall]
      exact Nat.le_add_right ..
    · rw [update_of_ne hne]
    · show (update h.cells h.next _ h.next).take _ = _
      rw [update_self, ← hall, take_left]
    · show (update h.cells h.next _ t.arr).take _ = _
      rw [update_of_ne hne, read]

namespace Own

variable (xs spare)

/-- `s[i] = append(s[i], xs...)`. -/
theorem append (hown : Own h n s) (hi : i < n) : Own (h.append spare (s i) xs).1 n (update s i (h.append spare (s i) xs).2) ∧
    ∀ j < n, (h.append spare (s i) xs).1.read (update s i (h.append spare (s i) xs).2 j) =
      if j = i then h.read (s i) ++ xs else h.read (s j) := by
  have ha := appended xs spare (hown.made i hi) (hown.room i hi)
  obtain ⟨hown', hother⟩ := hown.set hi ha.next ha.arr ha.made ha.room ha.other
  refine ⟨hown', fun j hj => ?_⟩
  by_cases hne : j = i
  · rw [hne, update_self, if_pos rfl, ha.read]
  · rw [update_of_ne hne, if_neg hne, hother j hj hne]

/-- `append(s[i], xs...)` with its result forgotten: nothing is seen of it. -/
theorem append_copy (hown : Own h n s) (hi : i < n) :
    Own (h.append spare (s i) xs).1 n s ∧ ∀ j < n, (h.append spare (s i) xs).1.read (s j) = h.read (s j) := by
  have ha := appended xs spare (hown.made i hi) (hown.room i hi)
  obtain ⟨hown', hother⟩ := hown.set (t := s i) hi ha.next (.inl rfl) (Nat.lt_of_lt_of_le (hown.made i hi) ha.next)
    (ha.cap ▸ hown.room i hi) ha.other
  rw [update_eq_self] at hown'
  refine ⟨hown', fun j hj => ?_⟩
  by_cases hne : j = i
  · rw [hne, ha.kept]
  · exact hother j hj hne

/-- `t := append(s[i][:k], s[i][k+1:]...)` and `append(t, x)`, on a copy of the slice: the element at `k` is taken out, the
later ones move up, and `x` becomes the last. -/
theorem rotate (hown : Own h n s) (hi : i < n) {k : Nat} (hk : k < (s i).len) (x : α) {r : Arrays α × Header}
    (hr : r = h.append spare { s i with len := k } ((h.read (s i)).drop (k + 1))) :
    Own (r.1.append spare r.2 [x]).1 n s ∧
      ∀ j < n, (r.1.append spare r.2 [x]).1.read (s j) = if j = i then (h.read (s i)).eraseIdx k ++ [x]
        else h.read (s j) := by
  have hroom := hown.room i hi
  have hlen : k + ((h.read (s i)).drop (k + 1)).length = (s i).len - 1 := by
    rw [length_drop, length_read hroom]
    omega
  have hin : k + ((h.read (s i)).drop (k + 1)).length ≤ (h.cells (s i).arr).length := by omega
  have ha := appended ((h.read (s i)).drop (k + 1)) spare (t := { s i with len := k }) (hown.made i hi)
    (Nat.le_trans (Nat.le_of_lt hk) hroom)
  obtain ⟨hnext, hslice⟩ := append_of_room _ spare (t := { s i with len := k }) hin
  rw [← hr] at ha hnext hslice
  dsimp only at hslice
  rw [hlen] at hslice
  have hlast : (s i).len - 1 + 1 = (s i).len := Nat.sub_add_cancel (Nat.one_le_of_lt hk)
  -- the second `append` finds the cell that the first has left
  have hcap : (r.1.cells r.2.arr).length = (h.cells (s i).arr).length := by
    rw [hslice]
    exact ha.cap
  have hb := appended [x] spare ha.made ha.room
  obtain ⟨-, hwhole⟩ := append_of_room [x] spare (h := r.1) (t := r.2) (by
    rw [hcap, hslice, length_singleton, hlast]
    exact hroom)
  replace hwhole : (r.1.append spare r.2 [x]).2 = s i := by
    rw [hwhole, hslice, length_singleton, hlast]
  obtain ⟨hown', hother⟩ := hown.set hi (Nat.le_trans ha.next hb.next) (.inl (by rw [hwhole])) hb.made
    hb.room fun a hlt hne => by
    rw [hb.other a (hnext ▸ hlt) (by rw [hslice]; exact hne), ha.other a hlt hne]
  rw [hwhole, update_eq_self] at hown'
  refine ⟨hown', fun j hj => ?_⟩
  by_cases hne : j = i
  · have hread := hb.read
    rw [hwhole, ha.read] at hread
    rw [hne, if_pos rfl, hread, eraseIdx_eq_take_drop_succ, read, read, take_take, Nat.min_eq_left (Nat.le_of_lt hk)]
  · rw [if_neg hne, hother j hj hne]

end Own

end Arrays

end Akita
