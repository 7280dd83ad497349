import Akita.Returns

/-!
# Comma-separated values

A reader that follows RFC 4180, as `encoding/csv` does.

* `fields` : the fields of a record, and what follows it. `Reader.read_shorter` : it goes on;
* `fields_plain`, `fields_last` : fields without quotes. `of_fields` : what is read where a field is not quoted;
* `of_fields_quoted` : what is read where it is.
-/

namespace Akita.Csv
open List

/-- A carriage return before a line feed or at the end goes. -/
def dropReturns : List Char → List Char
  | [] => []
  | '\r' :: '\n' :: rest => '\n' :: dropReturns rest
  | ['\r'] => []
  | c :: rest => c :: dropReturns rest

/-- At the beginning of a field, in one without quotes, in a quoted one, and after a quote in a quoted one. -/
inductive Place
  | start
  | bare
  | quoted
  | quote

/-- The fields of a record, after those in `record` and the characters of the one in `field`, and what follows the record. -/
def fields : Place → List Char → List (List Char) → List Char → Except String (List (List Char) × List Char)
  | .start, field, record, [] => .ok (record ++ [field], [])
  | .start, field, record, c :: rest =>
    if c = '"' then fields .quoted field record rest
    else if c = ',' then fields .start [] (record ++ [field]) rest
    else if c = '\n' then .ok (record ++ [field], rest)
    else fields .bare (field ++ [c]) record rest
  | .bare, field, record, [] => .ok (record ++ [field], [])
  | .bare, field, record, c :: rest =>
    if c = '"' then .error "bare \" in non-quoted-field"
    else if c = ',' then fields .start [] (record ++ [field]) rest
    else if c = '\n' then .ok (record ++ [field], rest)
    else fields .bare (field ++ [c]) record rest
  | .quoted, _, _, [] => .error "extraneous or missing \" in quoted-field"
  | .quoted, field, record, c :: rest =>
    if c = '"' then fields .quote field record rest
    else fields .quoted (field ++ [c]) record rest
  | .quote, field, record, [] => .ok (record ++ [field], [])
  | .quote, field, record, c :: rest =>
    if c = '"' then fields .quoted (field ++ ['"']) record rest
    else if c = ',' then fields .start [] (record ++ [field]) rest
    else if c = '\n' then .ok (record ++ [field], rest)
    else .error "extraneous or missing \" in quoted-field"

/-- What has not been read, and how many fields a record has, which the first one says. -/
structure Reader where
  rest : List Char
  fieldsPerRecord : ℕ := 0

def newReader (file : List Char) : Reader := { rest := dropReturns file }

/-- The next record, if there is one. Empty lines are skipped. -/
def Reader.read (r : Reader) : Except String (Option (List (List Char)) × Reader) :=
  match r.rest.dropWhile (· = '\n') with
  | [] => .ok (none, { r with rest := [] })
  | c :: rest => do
    let (record, rest) ← fields .start [] [] (c :: rest)
    if r.fieldsPerRecord = 0 then pure (some record, { rest := rest, fieldsPerRecord := record.length })
    else if record.length ≠ r.fieldsPerRecord then throw "wrong number of fields"
    else pure (some record, { r with rest := rest })

/-! ## What is read -/

variable {record : List (List Char)} {fs : List (List Char)} {text : List Char} {rest : List Char} {field : List Char}

variable {place : Place}

section

attribute [local simp] fields

theorem length_fields (h : fields place field record text = .ok (fs, rest)) : rest.length ≤ text.length := by
  induction text generalizing place field record with
  | nil => cases place <;> simp_all
  | cons c text ih =>
    have hmore : ∀ {place field record}, fields place field record text = .ok (fs, rest) → rest.length ≤ (c :: text).length :=
      fun h => Nat.le_succ_of_le (ih h)
    have hend : ∀ {r : List (List Char)}, (.ok (r, text) : Except String _) = .ok (fs, rest) →
        rest.length ≤ (c :: text).length := by
      intro r h
      cases h
      exact Nat.le_succ _
    cases place <;> unfold fields at h <;> split_ifs at h <;> first | exact hmore h | exact hend h

end

variable {c : Char}

theorem length_fields_cons (h : fields place field record (c :: text) = .ok (fs, rest)) : rest.length ≤ text.length := by
  have hend : ∀ {r : List (List Char)}, (.ok (r, text) : Except String _) = .ok (fs, rest) → rest.length ≤ text.length := by
    intro r h
    cases h
    exact Nat.le_refl _
  cases place <;> unfold fields at h <;> split_ifs at h <;> first | exact length_fields h | exact hend h

/-- A record that has been read is behind. -/
theorem Reader.read_shorter {r r' : Reader} (h : r.read = .ok (some record, r')) : r'.rest.length < r.rest.length := by
  have hdrop : (r.rest.dropWhile (· = '\n')).length ≤ r.rest.length := (dropWhile_suffix _).length_le
  unfold Reader.read at h
  cases hrest : r.rest.dropWhile (· = '\n') with
  | nil =>
    rw [hrest] at h
    cases h
  | cons _ rest =>
    rw [hrest] at h hdrop
    obtain ⟨⟨_, after⟩, hfields, h⟩ := eq_ok_of_bind h
    have hshort : after.length < r.rest.length := Nat.lt_of_lt_of_le (Nat.lt_succ_of_le (length_fields_cons hfields)) hdrop
    dsimp only at h
    split_ifs at h
    · cases h
      exact hshort
    · cases h
      exact hshort

/-- The characters that a field without quotes may have. -/
def Bare (c : Char) : Prop := c ≠ '"' ∧ c ≠ ',' ∧ c ≠ '\n'

theorem fields_bare (hc : Bare c) (field : List Char) (record : List (List Char)) (rest : List Char) :
    fields .bare field record (c :: rest) = fields .bare (field ++ [c]) record rest := by
  rw [fields, if_neg hc.1, if_neg hc.2.1, if_neg hc.2.2]

theorem fields_start (hc : Bare c) (field : List Char) (record : List (List Char)) (rest : List Char) :
    fields .start field record (c :: rest) = fields .bare (field ++ [c]) record rest := by
  rw [fields, if_neg hc.1, if_neg hc.2.1, if_neg hc.2.2]

theorem fields_bare_append (h : ∀ c ∈ text, Bare c) (field : List Char) (record : List (List Char)) (rest : List Char) :
    fields .bare field record (text ++ rest) = fields .bare (field ++ text) record rest := by
  induction text generalizing field with
  | nil => rw [append_nil, List.nil_append]
  | cons c _ ih =>
    rw [cons_append, fields_bare (h c mem_cons_self), ih (fun d hd => h d (mem_cons_of_mem _ hd)), append_assoc]
    rfl

/-- A field without quotes, up to its comma. -/
theorem fields_plain (h : ∀ c ∈ text, Bare c) (record : List (List Char)) (rest : List Char) :
    fields .start [] record (text ++ ',' :: rest) = fields .start [] (record ++ [text]) rest := by
  cases text with
  | nil => rfl
  | cons c =>
    rw [cons_append, fields_start (h c mem_cons_self), fields_bare_append fun d hd => h d (mem_cons_of_mem _ hd)]
    rfl

/-- The last field of a line. -/
theorem fields_last (h : ∀ c ∈ text, Bare c) (record : List (List Char)) (rest : List Char) :
    fields .start [] record (text ++ '\n' :: rest) = .ok (record ++ [text], rest) := by
  cases text with
  | nil => rfl
  | cons c =>
    rw [cons_append, fields_start (h c mem_cons_self), fields_bare_append fun d hd => h d (mem_cons_of_mem _ hd)]
    rfl

theorem prefix_fields (h : fields place field record text = .ok (fs, rest)) : record <+: fs := by
  induction text generalizing place field record with
  | nil =>
    have hend : (.ok (record ++ [field], []) : Except String _) = .ok (fs, rest) → record <+: fs := by
      intro h
      cases h
      exact prefix_append ..
    cases place <;> unfold fields at h <;> first | exact hend h | cases h
  | cons _ text ih =>
    have hend : (.ok (record ++ [field], text) : Except String _) = .ok (fs, rest) → record <+: fs := by
      intro h
      cases h
      exact prefix_append ..
    have hnext : fields .start [] (record ++ [field]) text = .ok (fs, rest) → record <+: fs :=
      fun h => (prefix_append ..).trans (ih h)
    cases place <;> unfold fields at h <;> split_ifs at h <;> first | exact hend h | exact hnext h | exact ih h

theorem fields_comma (h : fields .start [] (record ++ [field]) text = .ok (fs, rest)) : fs[record.length]? = some field := by
  obtain ⟨_, rfl⟩ := prefix_fields h
  simp

theorem of_fields_bare (h : fields .bare field record text = .ok (fs, rest)) :
    ∃ read, fs[record.length]? = some (field ++ read) ∧ ∀ c ∈ read, Bare c := by
  induction text generalizing field with
  | nil =>
    unfold fields at h
    cases h
    exact ⟨[], by simp, forall_mem_nil _⟩
  | cons c _ ih =>
    unfold fields at h
    split_ifs at h with hquote hcomma hline
    · exact ⟨[], by rw [append_nil, fields_comma h], forall_mem_nil _⟩
    · cases h
      exact ⟨[], by simp, forall_mem_nil _⟩
    · obtain ⟨read, hread, hbare⟩ := ih h
      refine ⟨c :: read, by rw [hread, append_assoc]; rfl, ?_⟩
      exact forall_mem_cons.2 ⟨⟨hquote, hcomma, hline⟩, hbare⟩

/-- The field that is read where no quote opens it. -/
theorem of_fields (hhead : text.head? ≠ some '"')
    (h : fields .start [] record text = .ok (fs, rest)) : ∃ read, fs[record.length]? = some read ∧ ∀ c ∈ read, Bare c := by
  cases text with
  | nil =>
    unfold fields at h
    cases h
    exact ⟨[], by simp, forall_mem_nil _⟩
  | cons c =>
    unfold fields at h
    split_ifs at h with hquote hcomma hline
    · exact absurd (congrArg some hquote) hhead
    · exact ⟨[], fields_comma h, forall_mem_nil _⟩
    · cases h
      exact ⟨[], by simp, forall_mem_nil _⟩
    · obtain ⟨read, hread, hbare⟩ := of_fields_bare h
      exact ⟨c :: read, hread, forall_mem_cons.2 ⟨⟨hquote, hcomma, hline⟩, hbare⟩⟩

/-- A text with its quotes doubled. -/
def escape (text : List Char) : List Char := text.flatMap fun c => if c = '"' then ['"', '"'] else [c]

theorem of_fields_quoted_or_quote :
    (∀ field, fields .quoted field record text = .ok (fs, rest) →
      ∃ read after, fs[record.length]? = some (field ++ read) ∧ text = escape read ++ '"' :: after) ∧
    ∀ field, fields .quote field record text = .ok (fs, rest) →
      ∃ read after, fs[record.length]? = some (field ++ read) ∧ '"' :: text = escape read ++ '"' :: after := by
  induction text with
  | nil =>
    refine ⟨fun field h => (nomatch h), fun field h => ?_⟩
    unfold fields at h
    cases h
    exact ⟨[], [], by simp, rfl⟩
  | cons c text ih =>
    refine ⟨fun field h => ?_, fun field h => ?_⟩
    · unfold fields at h
      split_ifs at h with hquote
      · obtain ⟨read, after, hread, htext⟩ := ih.2 field h
        exact ⟨read, after, hread, hquote ▸ htext⟩
      · obtain ⟨read, after, hread, htext⟩ := ih.1 _ h
        refine ⟨c :: read, after, by rw [hread, append_assoc]; rfl, ?_⟩
        rw [htext, escape, escape, flatMap_cons, if_neg hquote]
        rfl
    · unfold fields at h
      split_ifs at h with hquote hcomma hline
      · obtain ⟨read, after, hread, htext⟩ := ih.1 _ h
        refine ⟨'"' :: read, after, by rw [hread, append_assoc]; rfl, ?_⟩
        rw [hquote, htext, escape, escape, flatMap_cons, if_pos rfl]
        rfl
      · exact ⟨[], c :: text, by rw [append_nil, fields_comma h], rfl⟩
      · cases h
        exact ⟨[], _, by simp, rfl⟩

/-- A quoted field: its text stands there with the quotes doubled. -/
theorem of_fields_quoted
    (h : fields .start [] record ('"' :: text) = .ok (fs, rest)) :
    ∃ read after, fs[record.length]? = some read ∧ text = escape read ++ '"' :: after :=
  of_fields_quoted_or_quote.1 [] h

/-- What comes before the first comma. -/
def beforeComma (text : List Char) : List Char := text.takeWhile (· ≠ ',')

theorem beforeComma_cons (hc : c ≠ ',') (text : List Char) : beforeComma (c :: text) = c :: beforeComma text :=
  List.takeWhile_cons_of_pos (decide_eq_true hc)

theorem beforeComma_comma (text : List Char) : beforeComma (',' :: text) = [] := List.takeWhile_cons_of_neg (by simp)

theorem beforeComma_append_comma (text rest : List Char) : beforeComma (text ++ ',' :: rest) = beforeComma text := by
  induction text with
  | nil => exact beforeComma_comma rest
  | cons c _ ih =>
    by_cases hc : c = ','
    · rw [hc, cons_append, beforeComma_comma, beforeComma_comma]
    · rw [cons_append, beforeComma_cons hc, beforeComma_cons hc, ih]

theorem length_beforeComma_append (text rest : List Char) :
    (beforeComma text).length ≤ (beforeComma (text ++ rest)).length := by
  induction text with
  | nil => exact Nat.zero_le _
  | cons c _ ih =>
    by_cases hc : c = ','
    · rw [hc, beforeComma_comma]
      exact Nat.zero_le _
    · rw [cons_append, beforeComma_cons hc, beforeComma_cons hc]
      exact Nat.succ_le_succ ih

theorem length_beforeComma_escape (text : List Char) : (beforeComma text).length ≤ (beforeComma (escape text)).length := by
  induction text with
  | nil => exact Nat.le_refl _
  | cons c text ih =>
    by_cases hc : c = ','
    · rw [hc, beforeComma_comma]
      exact Nat.zero_le _
    · rw [beforeComma_cons hc, escape, flatMap_cons, ← escape]
      split_ifs with hquote
      · show _ ≤ (beforeComma ('"' :: '"' :: escape text)).length
        rw [beforeComma_cons (by decide), beforeComma_cons (by decide)]
        exact Nat.succ_le_succ (Nat.le_succ_of_le ih)
      · show _ ≤ (beforeComma (c :: escape text)).length
        rw [beforeComma_cons hc]
        exact Nat.succ_le_succ ih

/-- What is read where a quote opens a text that was not escaped is shorter than the text. -/
theorem of_fields_unescaped {text after : List Char} (hhead : text.head? = some '"')
    (h : fields .start [] record (text ++ ',' :: after) = .ok (fs, rest)) :
    ∃ read, fs[record.length]? = some read ∧ (beforeComma read).length < (beforeComma text).length := by
  obtain ⟨tail, rfl⟩ : ∃ tail, text = '"' :: tail := List.head?_eq_some_iff.1 hhead
  obtain ⟨read, after', hread, htail⟩ := of_fields_quoted h
  refine ⟨read, hread, ?_⟩
  have hsame : beforeComma (escape read ++ '"' :: after') = beforeComma tail := by
    rw [← htail]
    exact beforeComma_append_comma tail after
  have hescape := Nat.le_trans (length_beforeComma_escape read) (length_beforeComma_append (escape read) ('"' :: after'))
  rw [beforeComma_cons (by decide), length_cons, ← hsame]
  exact Nat.lt_succ_of_le hescape

/-! ## Line ends -/

theorem dropReturns_cons_cons {c d : Char} (h : ¬ (c = '\r' ∧ d = '\n')) (rest : List Char) :
    dropReturns (c :: d :: rest) = c :: dropReturns (d :: rest) := by
  rw [dropReturns]
  · rintro rest' rfl heq
    exact h ⟨rfl, (cons.inj heq).1⟩
  · rintro - heq
    cases heq

/-- A line that does not end in a carriage return. -/
theorem dropReturns_line {line : List Char} (hline : '\n' ∉ line) (hlast : line.getLast? ≠ some '\r') (rest : List Char) :
    dropReturns (line ++ '\n' :: rest) = line ++ '\n' :: dropReturns rest := by
  have hfeed : dropReturns ('\n' :: rest) = '\n' :: dropReturns rest := by cases rest <;> simp [dropReturns]
  induction line with
  | nil => exact hfeed
  | cons c line ih =>
    cases line with
    | nil =>
      have hc : ¬ (c = '\r' ∧ '\n' = '\n') := fun hr => hlast (congrArg some hr.1)
      show dropReturns (c :: '\n' :: rest) = c :: '\n' :: dropReturns rest
      rw [dropReturns_cons_cons hc, hfeed]
    | cons d line =>
      have hd : ¬ (c = '\r' ∧ d = '\n') := fun hr => hline (hr.2 ▸ mem_cons_of_mem _ mem_cons_self)
      have hrest := ih (fun hmem => hline (mem_cons_of_mem _ hmem)) (by simpa using hlast)
      show dropReturns (c :: d :: (line ++ '\n' :: rest)) = c :: (d :: line ++ '\n' :: dropReturns rest)
      rw [dropReturns_cons_cons hd, ← hrest]
      rfl

end Akita.Csv
