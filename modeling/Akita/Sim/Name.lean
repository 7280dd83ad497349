import Mathlib.Algebra.Group.Nat.Defs
import Mathlib.Data.List.Induction

/-!
# Names

`sim.NameMustBeValid`, and names of series of elements.

* `nameMustBeValid` : a name is a series of capitalized tokens, each with indices in brackets;
* `indexed` : the name of an element of a series. `indexed_inj` : different indices give different names.
-/

namespace Akita.Sim
open List

/-! ## Valid names -/

/-- `strconv.Atoi` of digits, up to the greatest number `max`. -/
def atoiDigits (max : Nat) (ds : List Char) : Except String Nat :=
  if ds ≠ [] ∧ ds.all Char.isDigit ∧ Nat.ofDigitChars 10 ds 0 ≤ max then .ok (Nat.ofDigitChars 10 ds 0)
  else .error "Name index must be integer"

def atoi : List Char → Except String Int
  | '-' :: ds => (fun n : Nat => -(n : Int)) <$> atoiDigits (2 ^ 63) ds
  | '+' :: ds => Int.ofNat <$> atoiDigits (2 ^ 63 - 1) ds
  | ds => Int.ofNat <$> atoiDigits (2 ^ 63 - 1) ds

theorem notMem_digits {c : Char} (h : c.isDigit = false) (n : Nat) : c ∉ Nat.toDigits 10 n := fun hmem =>
  absurd (Nat.isDigit_of_mem_toDigits (by decide) (by decide) hmem) (by rw [h]; exact Bool.false_ne_true)

theorem atoiDigits_eq (max n : Nat) :
    atoiDigits max (Nat.toDigits 10 n) = if n ≤ max then .ok n else .error "Name index must be integer" := by
  have hdigits : (Nat.toDigits 10 n).all Char.isDigit = true :=
    all_eq_true.mpr fun c hc => Nat.isDigit_of_mem_toDigits (by decide) (by decide) hc
  have hne : Nat.toDigits 10 n ≠ [] := Nat.toDigits_ne_nil
  simp [atoiDigits, Nat.ofDigitChars_ten_toDigits, hdigits, hne]

theorem atoi_eq (n : Nat) : atoi (Nat.toDigits 10 n) = Int.ofNat <$> atoiDigits (2 ^ 63 - 1) (Nat.toDigits 10 n) := by
  unfold atoi
  split
  · next heq => exact absurd (heq ▸ mem_cons_self) (notMem_digits (c := '-') rfl n)
  · next heq => exact absurd (heq ▸ mem_cons_self) (notMem_digits (c := '+') rfl n)
  · rfl

theorem atoi_digits {n : Nat} (h : n < 2 ^ 63) : atoi (Nat.toDigits 10 n) = .ok (n : Int) := by
  rw [atoi_eq, atoiDigits_eq, if_pos (by omega)]
  rfl

structure NameToken where
  elemName : List Char
  index : List Int

/-- `bracketMustMatch`, with the brackets that are open. -/
def bracketMustMatch (openBracketCount : Nat) : List Char → Except String Unit
  | [] => if openBracketCount = 0 then .ok () else .error "Name bracket must match"
  | '[' :: name => bracketMustMatch (openBracketCount + 1) name
  | ']' :: name =>
    if openBracketCount = 0 then .error "Name bracket must match" else bracketMustMatch (openBracketCount - 1) name
  | _ :: name => bracketMustMatch openBracketCount name

/-- An index, without the bracket at its end. -/
def parseIndex (t : List Char) : Except String Int := if t = [] then .error "slice bounds out of range" else atoi t.dropLast

theorem parseIndex_digits {n : Nat} (h : n < 2 ^ 63) : parseIndex (Nat.toDigits 10 n ++ [']']) = .ok (n : Int) := by
  rw [parseIndex, if_neg (append_ne_nil_of_right_ne_nil _ (cons_ne_nil _ _)), dropLast_concat, atoi_digits h]

def parseNameToken (token : List Char) : Except String NameToken := do
  bracketMustMatch 0 token
  let ts := token.splitOn '['
  let index ← ts.tail.mapM parseIndex
  return { elemName := ts.headD [], index }

def tokenMustBeValid (token : NameToken) : Except String Unit :=
  match token.elemName with
  | [] => .error "Name element must not be empty"
  | c :: _ =>
    match ['_', '"', '\'', '-'].find? token.elemName.contains with
    | some invalid => .error ("Name element must not contain " ++ String.singleton invalid)
    | none => if 'A' ≤ c ∧ c ≤ 'Z' then .ok () else .error "Name element must start with a capital letter"

/-- `NameMustBeValid`: all tokens are parsed before one is checked. -/
def nameMustBeValid (name : String) : Except String Unit := do
  let tokens ← (name.toList.splitOn '.').mapM parseNameToken
  tokens.forM tokenMustBeValid

/-! ## Series -/

/-- The name of an element of a series: `elem[i][j]`. -/
def indexed (elem : String) (index : List Nat) : String := index.foldl (fun name i => name ++ "[" ++ toString i ++ "]") elem

theorem toList_indexed (elem : String) (index : List Nat) :
    (indexed elem index).toList = elem.toList ++ index.flatMap fun i => '[' :: (Nat.toDigits 10 i ++ [']']) := by
  unfold indexed
  induction index generalizing elem with
  | nil => simp
  | cons i index ih =>
    rw [List.foldl_cons, ih]
    simp

theorem indexed_append (a elem : String) (index : List Nat) : indexed (a ++ elem) index = a ++ indexed elem index := by
  induction index generalizing elem with
  | nil => rfl
  | cons i index ih =>
    have hassoc : a ++ elem ++ "[" ++ toString i ++ "]" = a ++ (elem ++ "[" ++ toString i ++ "]") := by
      simp only [String.append_assoc]
    show indexed (a ++ elem ++ "[" ++ toString i ++ "]") index = _
    rw [hassoc, ih]
    rfl

theorem toString_inj {i j : Nat} (h : toString i = toString j) : i = j := by
  have hdigits : Nat.toDigits 10 i = Nat.toDigits 10 j := by
    simpa only [Nat.toString_eq_repr, Nat.toList_repr] using congrArg String.toList h
  simpa using congrArg (fun ds => Nat.ofDigitChars 10 ds 0) hdigits

/-- The last index of a name can be read off. -/
theorem index_inj {a b : String} {i j : Nat} (h : a ++ "[" ++ toString i ++ "]" = b ++ "[" ++ toString j ++ "]") :
    a = b ∧ i = j := by
  have hno : ∀ n : Nat, '[' ∉ (toString n).toList := by
    intro n
    rw [Nat.toString_eq_repr, Nat.toList_repr]
    exact notMem_digits rfl n
  have hlist : a.toList ++ '[' :: (toString i).toList = b.toList ++ '[' :: (toString j).toList := by
    have hcut := congrArg String.toList ((String.append_left_inj _).mp h)
    simpa [String.toList_append] using hcut
  -- the last open bracket is at one place
  have htake : ∀ (s ds : List Char), '[' ∉ ds → (s ++ '[' :: ds).reverse.takeWhile (· ≠ '[') = ds.reverse := by
    intro s ds hds
    rw [reverse_append, reverse_cons, append_assoc, takeWhile_append_of_pos]
    · simp
    · intro c hc
      rw [mem_reverse] at hc
      exact decide_eq_true fun heq => hds (heq ▸ hc)
  have hdigits : (toString i).toList = (toString j).toList := by
    have hrev := congrArg (fun l : List Char => l.reverse.takeWhile (· ≠ '[')) hlist
    simp only [htake _ _ (hno i), htake _ _ (hno j)] at hrev
    exact reverse_inj.mp hrev
  refine ⟨?_, toString_inj (String.toList_injective hdigits)⟩
  rw [hdigits] at hlist
  exact String.toList_injective (append_cancel_right hlist)

theorem indexed_inj {a b : String} {is js : List Nat} (hlen : is.length = js.length) (h : indexed a is = indexed b js) :
    a = b ∧ is = js := by
  induction is using reverseRecOn generalizing js with
  | nil =>
    obtain rfl := length_eq_zero_iff.mp hlen.symm
    exact ⟨h, rfl⟩
  | append_singleton _ _ ih =>
    cases js using reverseRecOn with
    | nil => simp at hlen
    | append_singleton =>
      unfold indexed at h
      rw [foldl_append, foldl_append] at h
      obtain ⟨hrest, rfl⟩ := index_inj h
      obtain ⟨rfl, rfl⟩ := ih (by simpa using hlen) hrest
      exact ⟨rfl, rfl⟩

end Akita.Sim
