import Akita.Tracing.CSV

/-!
# What is read back

When the reader lists the tasks that the writer has written.

* `fields_line` : a line without commas and quotes in the texts of its task. `plain_of_fields` : a line that is read as its
  task;
* `readsBack_iff` : the tasks are read back when no text of theirs has a comma or a quote.
-/

namespace Akita.Tracing.CSVTraceReader
open List
open Csv (Reader Bare fields beforeComma)
open CSVTraceWriter (call file_run header line written)
open String (ofList)

/-! ## Blanks -/

/-- A text without line feeds, and without spaces at its ends. -/
structure Clean (s : String) : Prop where
  line : '\n' ∉ s.toList
  head : s.toList.head? ≠ some ' '
  last : s.toList.getLast? ≠ some ' '

variable {text : List Char}

theorem trim_eq_self (hhead : text.head? ≠ some ' ') (hlast : text.getLast? ≠ some ' ') : trim text = text := by
  have hdrop : text.dropWhile (· = ' ') = text := by
    cases text with
    | nil => rfl
    | cons => exact dropWhile_cons_of_neg fun hc => hhead (congrArg some (of_decide_eq_true hc))
  unfold trim
  rw [hdrop, rdropWhile_eq_self_iff]
  intro hne hc
  exact hlast ((getLast?_eq_some_getLast hne).trans (congrArg some (of_decide_eq_true hc)))

theorem trim_blank (hhead : text.head? ≠ some ' ') (hlast : text.getLast? ≠ some ' ') : trim (' ' :: text) = text := by
  have hdrop : (' ' :: text).dropWhile (· = ' ') = text.dropWhile (· = ' ') := dropWhile_cons_of_pos (by simp)
  have hself := trim_eq_self hhead hlast
  unfold trim at hself ⊢
  rw [hdrop, hself]

theorem mem_of_mem_trim {c : Char} (h : c ∈ trim text) : c ∈ text :=
  (dropWhile_suffix _).subset (( rdropWhile_prefix _ _).subset h)

theorem length_beforeComma_trim (text : List Char) : (beforeComma (trim text)).length ≤ (beforeComma text).length := by
  have hprefix : (beforeComma (trim text)).length ≤ (beforeComma (text.dropWhile (· = ' '))).length := by
    obtain ⟨rest, hrest⟩ := rdropWhile_prefix (· = ' ') (text.dropWhile (· = ' '))
    have happend := Csv.length_beforeComma_append (trim text) rest
    unfold trim at happend ⊢
    rwa [hrest] at happend
  refine hprefix.trans ?_
  clear hprefix
  induction text with
  | nil => exact le_rfl
  | cons c _ ih =>
    by_cases hc : c = ' '
    · subst hc
      rw [dropWhile_cons_of_pos (by simp), Csv.beforeComma_cons (by decide)]
      exact ih.trans (Nat.le_succ _)
    · rw [dropWhile_cons_of_neg (by simpa using hc)]

/-! ## A line -/

/-- The five texts of a task. -/
def texts (task : Task ℚ) : List String := [task.id, task.parentID, task.kind, task.what, task.location]

/-- A text without commas and quotes. -/
def Plain (s : String) : Prop := ∀ c ∈ s.toList, c ≠ ',' ∧ c ≠ '"'

variable {s : String}

theorem Clean.bare (h : Clean s) (hplain : Plain s) : ∀ c ∈ s.toList, Bare c := fun c hc =>
  ⟨(hplain c hc).2, (hplain c hc).1, fun hline => h.line (hline ▸ hc)⟩

theorem bare_blank (h : ∀ c ∈ text, Bare c) : ∀ c ∈ ' ' :: text, Bare c :=
  List.forall_mem_cons.2 ⟨⟨by decide, by decide, by decide⟩, h⟩

/-- The times of a line, and what follows it. -/
def timesOf (task : Task ℚ) (rest : List Char) : List Char :=
  (' ' :: formatDecimal 10 task.startTime) ++ ',' :: ((' ' :: formatDecimal 10 task.endTime) ++ '\n' :: rest)

theorem line_append (task : Task ℚ) (rest : List Char) : line task ++ rest =
    task.id.toList ++ ',' :: ((' ' :: task.parentID.toList) ++ ',' ::
      ((' ' :: task.kind.toList) ++ ',' :: ((' ' :: task.what.toList) ++ ',' ::
      ((' ' :: task.location.toList) ++ ',' :: timesOf task rest)))) := by
  have hcomma : ", ".toList = [',', ' '] := by decide
  have hfeed : "\n".toList = ['\n'] := by decide
  unfold line timesOf
  simp only [hcomma, hfeed, List.append_assoc, List.cons_append, List.nil_append]

theorem not_plain_char {c : Char} (h : IsPlain c) : Bare c ∧ c ≠ ' ' ∧ c ≠ '\r' := by
  refine ⟨⟨?_, ?_, ?_⟩, ?_, ?_⟩ <;>
  · rintro rfl
    rcases h with h | h | h <;> exact absurd h (by decide)

theorem fields_times (task : Task ℚ) (record : List (List Char)) (rest : List Char) :
    fields .start [] record (timesOf task rest) =
    .ok (record ++ [' ' :: formatDecimal 10 task.startTime, ' ' :: formatDecimal 10 task.endTime], rest) := by
  have hbare : ∀ x : ℚ, ∀ c ∈ formatDecimal 10 x, Bare c := fun x c hc => (not_plain_char (isPlain_formatDecimal hc)).1
  unfold timesOf
  rw [Csv.fields_plain (bare_blank (hbare _)), Csv.fields_last (bare_blank (hbare _)), List.append_assoc]
  rfl

/-- The fields of a task. -/
def record (task : Task ℚ) : List (List Char) :=
  [task.id.toList, ' ' :: task.parentID.toList, ' ' :: task.kind.toList, ' ' :: task.what.toList, ' ' :: task.location.toList,
    ' ' :: formatDecimal 10 task.startTime, ' ' :: formatDecimal 10 task.endTime]

variable {task : Task ℚ}

theorem fields_line (hclean : ∀ s ∈ texts task, Clean s) (hplain : ∀ s ∈ texts task, Plain s) (rest : List Char) :
    fields .start [] [] (line task ++ rest) = .ok (record task, rest) := by
  have hbare : ∀ s ∈ texts task, ∀ c ∈ s.toList, Bare c := fun s hs => (hclean s hs).bare (hplain s hs)
  simp only [texts, List.forall_mem_cons] at hbare
  obtain ⟨hid, hparentID, hkind, hwhat, hlocation, -⟩ := hbare
  rw [line_append, Csv.fields_plain hid, Csv.fields_plain (bare_blank hparentID), Csv.fields_plain (bare_blank hkind),
    Csv.fields_plain (bare_blank hwhat), Csv.fields_plain (bare_blank hlocation), fields_times]
  rfl

variable {fs : List (List Char)}

/-- A text that is read as it was written. -/
theorem bare_of_read {before : List (List Char)} {read : List Char} {after : List Char} {rest : List Char}
    (h : fields .start [] before ((' ' :: s.toList) ++ ',' :: after) = .ok (fs, rest))
    (hread : fs[before.length]? = some read) (htrim : ofList (trim read) = s) :
    Plain s ∧ fields .start [] (before ++ [' ' :: s.toList]) after = .ok (fs, rest) ∧ ∀ c ∈ s.toList, Bare c := by
  obtain ⟨_, hread', hbare⟩ := Csv.of_fields (by simp) h
  obtain rfl := Option.some.inj (hread.symm.trans hread')
  have hs : ∀ c ∈ s.toList, Bare c := by
    rw [← htrim, String.toList_ofList]
    exact fun c hc => hbare c (mem_of_mem_trim hc)
  refine ⟨fun c hc => ⟨(hs c hc).2.1, (hs c hc).1⟩, ?_, hs⟩
  rwa [Csv.fields_plain (bare_blank hs)] at h

theorem bare_of_read_first {read : List Char} {after : List Char} {rest : List Char}
    (h : fields .start [] [] (s.toList ++ ',' :: after) = .ok (fs, rest)) (hread : fs[0]? = some read)
    (htrim : ofList (trim read) = s) : Plain s ∧ fields .start [] [s.toList] after = .ok (fs, rest) := by
  have hlist : trim read = s.toList := by rw [← htrim, String.toList_ofList]
  have hhead : s.toList.head? ≠ some '"' := by
    intro hquote
    obtain ⟨read', hread', hlt⟩ := Csv.of_fields_unescaped hquote h
    obtain rfl := Option.some.inj (hread.symm.trans hread')
    have hle := length_beforeComma_trim read
    rw [hlist] at hle
    exact absurd hle (not_le.2 hlt)
  have hopen : (s.toList ++ ',' :: after).head? ≠ some '"' := by
    rw [List.head?_append]
    cases hcase : s.toList.head? with
    | none => simp
    | some =>
      rw [hcase] at hhead
      exact hhead
  obtain ⟨_, hread', hbare⟩ := Csv.of_fields hopen h
  obtain rfl := Option.some.inj (hread.symm.trans hread')
  have hs : ∀ c ∈ s.toList, Bare c := by
    rw [← hlist]
    exact fun c hc => hbare c (mem_of_mem_trim hc)
  refine ⟨fun c hc => ⟨(hs c hc).2.1, (hs c hc).1⟩, ?_⟩
  rwa [Csv.fields_plain hs] at h

/-- A line that is read as its task has neither commas nor quotes in the texts. -/
theorem plain_of_fields {rest rest' : List Char} (h : fields .start [] [] (line task ++ rest) = .ok (fs, rest'))
    {id parentID kind what location : List Char} {others : List (List Char)}
    (hfs : fs = id :: parentID :: kind :: what :: location :: others) (hid : ofList (trim id) = task.id)
    (hparentID : ofList (trim parentID) = task.parentID) (hkind : ofList (trim kind) = task.kind)
    (hwhat : ofList (trim what) = task.what) (hlocation : ofList (trim location) = task.location) :
    ∀ s ∈ texts task, Plain s := by
  rw [line_append] at h
  obtain ⟨hplain₁, h⟩ := bare_of_read_first h (hfs ▸ rfl) hid
  obtain ⟨hplain₂, h, -⟩ := bare_of_read h (hfs ▸ rfl) hparentID
  obtain ⟨hplain₃, h, -⟩ := bare_of_read h (hfs ▸ rfl) hkind
  obtain ⟨hplain₄, h, -⟩ := bare_of_read h (hfs ▸ rfl) hwhat
  obtain ⟨hplain₅, -, -⟩ := bare_of_read h (hfs ▸ rfl) hlocation
  simp only [texts, List.forall_mem_cons]
  exact ⟨hplain₁, hplain₂, hplain₃, hplain₄, hplain₅, fun s hs => absurd hs List.not_mem_nil⟩

/-! ## A record -/

section
variable {parseFloat : List Char → Option ℚ}

theorem trim_formatDecimal (x : ℚ) : trim (' ' :: formatDecimal 10 x) = formatDecimal 10 x := by
  have hno : ∀ c ∈ formatDecimal 10 x, c ≠ ' ' := fun c hc => (not_plain_char (isPlain_formatDecimal hc)).2.1
  refine trim_blank (fun h => ?_) fun h => ?_
  · exact hno ' ' (List.mem_of_head? h) rfl
  · exact hno ' ' (List.mem_of_getLast? h) rfl

theorem parse_record (hparse : ∀ x, (parseFloat (formatDecimal 10 x)).isSome) (hclean : ∀ s ∈ texts task, Clean s) :
    ∃ task', parseCSVRecord parseFloat (record task) = .ok task' ∧ texts task' = texts task := by
  obtain ⟨startTime, hstart⟩ := Option.isSome_iff_exists.1 (hparse task.startTime)
  obtain ⟨endTime, hend⟩ := Option.isSome_iff_exists.1 (hparse task.endTime)
  have htime : ∀ {x y : ℚ}, parseFloat (formatDecimal 10 x) = some y →
      parseTime parseFloat (' ' :: formatDecimal 10 x) = .ok y := by
    intro x y hxy
    unfold parseTime
    rw [trim_formatDecimal, hxy]
    rfl
  simp only [texts, List.forall_mem_cons] at hclean
  obtain ⟨hid, hparentID, hkind, hwhat, hlocation, -⟩ := hclean
  unfold record parseCSVRecord
  dsimp only
  rw [htime hstart, htime hend]
  refine ⟨_, rfl, ?_⟩
  simp only [texts, trim_eq_self hid.head hid.last, trim_blank hparentID.head hparentID.last,
    trim_blank hkind.head hkind.last,
    trim_blank hwhat.head hwhat.last, trim_blank hlocation.head hlocation.last, String.ofList_toList]

theorem of_parse {fs : List (List Char)} {task' : Task ℚ} (h : parseCSVRecord parseFloat fs = .ok task') :
    ∃ id parentID kind what location others, fs = id :: parentID :: kind :: what :: location :: others ∧ texts task' =
      [ofList (trim id), ofList (trim parentID), ofList (trim kind), ofList (trim what), ofList (trim location)] := by
  unfold parseCSVRecord at h
  split at h
  · next id parentID kind what location startTime endTime others =>
    obtain ⟨_, -, h⟩ := eq_ok_of_bind h
    obtain ⟨_, -, h⟩ := eq_ok_of_bind h
    cases h
    exact ⟨id, parentID, kind, what, location, startTime :: endTime :: others, rfl, rfl⟩
  · cases h

/-! ## The file -/

theorem read_eq {c : Char} (hc : c ≠ '\n') (text : List Char) : ({ rest := c :: text, fieldsPerRecord := 7 } : Reader).read =
    (fields .start [] [] (c :: text) >>= fun r =>
      if r.1.length ≠ 7 then .error "wrong number of fields" else .ok (some r.1, { rest := r.2, fieldsPerRecord := 7 })) := by
  have hdrop : (c :: text).dropWhile (· = '\n') = c :: text := List.dropWhile_cons_of_neg (by simpa using hc)
  unfold Reader.read
  dsimp only
  rw [hdrop]
  rfl

theorem line_cons (hclean : ∀ s ∈ texts task, Clean s) (rest : List Char) :
    ∃ c text, c ≠ '\n' ∧ line task ++ rest = c :: text := by
  have hid := hclean task.id List.mem_cons_self
  rw [line_append]
  cases hcase : task.id.toList with
  | nil => exact ⟨',', _, by decide, rfl⟩
  | cons c => exact ⟨c, _, fun hc => hid.line (hcase ▸ hc ▸ List.mem_cons_self), rfl⟩

theorem read_line (hclean : ∀ s ∈ texts task, Clean s) (hplain : ∀ s ∈ texts task, Plain s) (rest : List Char) :
    ({ rest := line task ++ rest, fieldsPerRecord := 7 } : Reader).read = .ok
    (some (record task), { rest := rest, fieldsPerRecord := 7 }) := by
  obtain ⟨_, _, hc, htext⟩ := line_cons hclean rest
  rw [htext, read_eq hc, ← htext, fields_line hclean hplain]
  rfl

theorem of_read (hclean : ∀ s ∈ texts task, Clean s) {rest : List Char} {fs : List (List Char)} {r : Reader}
    (h : ({ rest := line task ++ rest, fieldsPerRecord := 7 } : Reader).read = .ok (some fs, r)) :
    ∃ rest', fields .start [] [] (line task ++ rest) = .ok (fs, rest') := by
  obtain ⟨_, _, hc, htext⟩ := line_cons hclean rest
  rw [htext, read_eq hc, ← htext] at h
  obtain ⟨⟨_, rest'⟩, hfields, h⟩ := eq_ok_of_bind h
  dsimp only at h
  split_ifs at h
  cases h
  exact ⟨rest', hfields⟩

variable {tasks : List (Task ℚ)}

theorem scan_iff {each : Task ℚ → Except String (List ListedTask)} (heach : ∀ task, each task = .ok [{ toTask := task }])
    (hparse : ∀ x, (parseFloat (formatDecimal 10 x)).isSome) (hclean : ∀ task ∈ tasks, ∀ s ∈ texts task, Clean s) {fuel : ℕ}
    (hfuel : tasks.length < fuel) :
    (∃ listed, scan parseFloat each fuel { rest := tasks.flatMap line, fieldsPerRecord := 7 } = .ok listed ∧
      listed.map (fun task => texts task.toTask) = tasks.map texts) ↔ ∀ task ∈ tasks, ∀ s ∈ texts task, Plain s := by
  induction tasks generalizing fuel with
  | nil =>
    obtain ⟨fuel, rfl⟩ := Nat.exists_eq_succ_of_ne_zero (Nat.ne_of_gt hfuel)
    exact ⟨fun _ task htask => absurd htask List.not_mem_nil, fun _ => ⟨[], rfl, rfl⟩⟩
  | cons task _ ih =>
    obtain ⟨fuel, rfl⟩ := Nat.exists_eq_succ_of_ne_zero (Nat.ne_of_gt (Nat.zero_lt_of_lt hfuel))
    obtain ⟨hfirst, hothers⟩ := List.forall_mem_cons.1 hclean
    have hrest := ih hothers (Nat.lt_of_succ_lt_succ hfuel)
    rw [List.flatMap_cons, List.forall_mem_cons, scan]
    constructor
    · rintro ⟨listed, hscan, htexts⟩
      obtain ⟨⟨read, reader⟩, hread, hscan⟩ := eq_ok_of_bind hscan
      cases read with
      | none =>
        cases hscan
        cases htexts
      | some =>
        obtain ⟨task', htask', hscan⟩ := eq_ok_of_bind hscan
        rw [heach] at hscan
        obtain ⟨listed', hlisted', hscan⟩ := eq_ok_of_bind (r := scan parseFloat each fuel reader) hscan
        cases hscan
        obtain ⟨id, parentID, kind, what, location, _, hfs, htask⟩ := of_parse htask'
        obtain ⟨hsame, hlisted⟩ := List.cons.inj htexts
        have hfive : [ofList (trim id), ofList (trim parentID), ofList (trim kind), ofList (trim what),
            ofList (trim location)] = [task.id, task.parentID, task.kind, task.what, task.location] := htask.symm.trans hsame
        simp only [List.cons.injEq, and_true] at hfive
        obtain ⟨hid, hparentID, hkind, hwhat, hlocation⟩ := hfive
        obtain ⟨_, hfields⟩ := of_read hfirst hread
        have hplain := plain_of_fields hfields hfs hid hparentID hkind hwhat hlocation
        -- the line was read to its end
        rw [read_line hfirst hplain] at hread
        cases hread
        exact ⟨hplain, hrest.1 ⟨listed', hlisted', hlisted⟩⟩
    · rintro ⟨hplain, hall⟩
      obtain ⟨listed, hscan, htexts⟩ := hrest.2 hall
      obtain ⟨task', htask', hsame⟩ := parse_record hparse hfirst
      refine ⟨{ toTask := task' } :: listed, ?_, congrArg₂ List.cons hsame htexts⟩
      rw [read_line hfirst hplain]
      show (parseCSVRecord parseFloat (record task) >>= _) = _
      rw [htask']
      show (each task' >>= _) = _
      rw [heach]
      show (scan parseFloat each fuel _ >>= _) = _
      rw [hscan]
      rfl

/-- A line before its end time. -/
def lineStart (task : Task ℚ) : List Char :=
  task.id.toList ++ ", ".toList ++ task.parentID.toList ++ ", ".toList ++ task.kind.toList ++ ", ".toList ++
    task.what.toList ++ ", ".toList ++
    task.location.toList ++ ", ".toList ++ formatDecimal 10 task.startTime ++ ", ".toList

/-- There are no carriage returns to drop at the end of a line. -/
theorem dropReturns_line (hclean : ∀ s ∈ texts task, Clean s) (rest : List Char) :
    Csv.dropReturns (line task ++ rest) = line task ++ Csv.dropReturns rest := by
  have hsplit : ∀ rest, line task ++ rest = (lineStart task ++ formatDecimal 10 task.endTime) ++ '\n' :: rest := by
    intro rest
    show (lineStart task ++ formatDecimal 10 task.endTime ++ "\n".toList) ++ rest = _
    rw [List.append_assoc]
    rfl
  have htime : ∀ {x : ℚ}, '\n' ∉ formatDecimal 10 x := fun hmem => (not_plain_char (isPlain_formatDecimal hmem)).1.2.2 rfl
  have hcomma : '\n' ∉ ", ".toList := by decide
  rw [hsplit, hsplit]
  refine Csv.dropReturns_line ?_ ?_ rest
  · simp only [texts, List.forall_mem_cons] at hclean
    obtain ⟨hid, hparentID, hkind, hwhat, hlocation, -⟩ := hclean
    simp only [lineStart, List.mem_append, hid.line, hparentID.line, hkind.line, hwhat.line, hlocation.line, hcomma, htime,
      or_self, not_false_eq_true]
  · have hne : formatDecimal 10 task.endTime ≠ [] := by
      intro hnil
      have hpoint : '.' ∈ formatDecimal 10 task.endTime :=
        List.mem_append_right _ (List.mem_append_right _ List.mem_cons_self)
      rw [hnil] at hpoint
      cases hpoint
    rw [List.getLast?_append_of_ne_nil _ hne]
    exact fun hlast => (not_plain_char (isPlain_formatDecimal (List.mem_of_getLast? hlast))).2.2 rfl

theorem dropReturns_lines (hclean : ∀ task ∈ tasks, ∀ s ∈ texts task, Clean s) :
    Csv.dropReturns (tasks.flatMap line) = tasks.flatMap line := by
  induction tasks with
  | nil => rfl
  | cons _ _ ih =>
    obtain ⟨hfirst, hothers⟩ := List.forall_mem_cons.1 hclean
    rw [List.flatMap_cons, dropReturns_line hfirst, ih hothers]

theorem skipCSVHeader_file (hclean : ∀ task ∈ tasks, ∀ s ∈ texts task, Clean s) :
    skipCSVHeader (Csv.newReader (header ++ tasks.flatMap line)) =
      .ok { rest := tasks.flatMap line, fieldsPerRecord := 7 } := by
  have hheader : header = "ID, ParentID, Kind, What, Where, Start, End".toList ++ ['\n'] := by decide
  have hdrop : Csv.dropReturns (header ++ tasks.flatMap line) =
      "ID, ParentID, Kind, What, Where, Start, End".toList ++ '\n' :: tasks.flatMap line := by
    rw [hheader, List.append_assoc]
    have hsame := dropReturns_lines hclean
    exact (Csv.dropReturns_line (by decide) (by decide) _).trans (congrArg (fun rest => _ ++ '\n' :: rest) hsame)
  unfold Csv.newReader
  rw [hdrop]
  rfl

theorem length_lines (tasks : List (Task ℚ)) : tasks.length ≤ (tasks.flatMap line).length := by
  induction tasks with
  | nil => exact le_rfl
  | cons task =>
    have hline : 0 < (line task).length := by
      rw [line, List.length_append]
      exact Nat.add_pos_right _ (by decide)
    rw [List.flatMap_cons, List.length_append, List.length_cons]
    omega

/-- After any calls and a last flush, every task is listed with its texts, in the order of the writes, when none of the texts
has a comma or a quote. -/
theorem readsBack_iff (hparse : ∀ x, (parseFloat (formatDecimal 10 x)).isSome) (bufferSize : ℕ)
    (calls : List CSVTraceWriter.Call) (hclean : ∀ task ∈ written calls, ∀ s ∈ texts task, Clean s) :
    (∃ listed, listTasks parseFloat (calls.foldl call (.init bufferSize)).flush.file {} = .ok listed ∧
      listed.map (fun task => texts task.toTask) = (written calls).map texts) ↔
        ∀ task ∈ written calls, ∀ s ∈ texts task, Plain s := by
  rw [file_run, listTasks, forEach, skipCSVHeader_file hclean]
  refine scan_iff (fun task => ?_) hparse hclean (Nat.lt_succ_of_le (length_lines _))
  simp [keepTask, meetIDRequirement, meetParentIDRequirement, meetKindRequirement, meetWhereRequirement,
    meetTimeRangeRequirement, pure, Except.pure]

/-- A task that writes back, on two components. -/
def writeBack (what : String) : Task ℚ :=
  { id := "2", parentID := "1", kind := "req_in", what := what, location := "GPU[1].L2[0]",
    startTime := 1 / 3, endTime := -5 / 2 }

theorem isSome_parseDecimal (x : ℚ) : (parseDecimal (formatDecimal 10 x)).isSome = true := by
  rw [parseDecimal_formatDecimal]
  rfl

instance (s : String) : Decidable (Plain s) := List.decidableBAll _ _

theorem clean_iff (s : String) : Clean s ↔ '\n' ∉ s.toList ∧ s.toList.head? ≠ some ' ' ∧ s.toList.getLast? ≠ some ' ' :=
  ⟨fun h => ⟨h.line, h.head, h.last⟩, fun h => ⟨h.1, h.2.1, h.2.2⟩⟩

instance (s : String) : Decidable (Clean s) := decidable_of_iff' _ (clean_iff s)

theorem readsBack_writeReq :
    ∃ listed, listTasks parseDecimal
      ([.write (writeBack "*mem.WriteReq"), .flush, .write (writeBack "*mem.ReadReq")].foldl call
        (.init 1000)).flush.file {} = .ok listed ∧
      listed.map (fun task => texts task.toTask) = [texts (writeBack "*mem.WriteReq"), texts (writeBack "*mem.ReadReq")] :=
  (readsBack_iff isSome_parseDecimal 1000 [.write (writeBack "*mem.WriteReq"), .flush, .write (writeBack "*mem.ReadReq")]
    (by decide +kernel)).2 (by decide +kernel)

/-- The type of a function has a comma. -/
theorem listTasks_comma :
    (∀ s ∈ texts (writeBack "func(int, int)"), Clean s) ∧
      listTasks parseDecimal ([.write (writeBack "func(int, int)")].foldl call (.init 1000)).flush.file {} =
        .error "wrong number of fields" := by
  decide +kernel

end

end Akita.Tracing.CSVTraceReader
