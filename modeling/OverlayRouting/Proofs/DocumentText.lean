/-
# OverlayRouting.Proofs.DocumentText -- a document of sections is read back

A document that is written in the one form of the writer holds what its lines say: a table for
each section, with the value that each of its lines was written for (`document?_documentText`).

The reader goes line by line with as many lines to come as there are characters, which is always
enough (`ReadsAs`).  The statements then open one table after the other, and an entry goes to the
last one.
-/
import OverlayRouting.Proofs.QuotedText
import OverlayRouting.Proofs.ScalarText
import OverlayRouting.Toml.Reader

namespace OverlayRouting.Toml

set_option autoImplicit false

open Text (Ends ends_cons expect? expect?_cons)

/-! ## What is written -/

/-- A text that is read as a value up to the end of its line. -/
structure IsValue (text : List Char) (value : Value) : Prop where
  visible : ∀ rest, Ends isSpace (text ++ '\n' :: rest)
  reads : ∀ rest, value? depthLimit (text ++ '\n' :: rest) = some (value, '\n' :: rest)

/-- An entry and the value that it is written for. -/
structure Line where
  key : String
  text : List Char
  value : Value
  bare : IsBare key
  isValue : IsValue text value

/-- A section and what it is written for. -/
structure Page where
  name : String
  lines : List Line
  bare : IsBare name
  distinct : (lines.map (·.key)).Nodup

def Line.entry (line : Line) : String × List Char := (line.key, line.text)

def Line.meant (line : Line) : String × Value := (line.key, line.value)

def Line.statement (line : Line) : Statement := .entry [] line.key line.value

def Page.section (page : Page) : Section := ⟨page.name, page.lines.map Line.entry⟩

def Page.meant (page : Page) : String × Value := (page.name, .table .header (page.lines.map Line.meant))

def Page.statements (page : Page) : List Statement := .header [page.name] :: page.lines.map Line.statement

/-! ## Lines -/

section Lines

variable {cs rest : List Char} {name : String}

theorem skipSpaces_of_ends (ends : Ends isSpace cs) : skipSpaces cs = cs :=
  Text.dropWhile_of_ends (List.forall_mem_nil _) ends

theorem not_isSpace_of_isBareKeyChar {c : Char} (bare : isBareKeyChar c = true) : isSpace c = false := by
  rw [← Bool.not_eq_true]
  intro space
  rw [isSpace, Bool.or_eq_true, beq_iff_eq, beq_iff_eq] at space
  rcases space with rfl | rfl <;> revert bare <;> decide

theorem IsBare.chars (bare : IsBare name) :
    name.toList ≠ [] ∧ ∀ c ∈ name.toList, isBareKeyChar c = true := by
  rw [IsBare, Bool.and_eq_true, List.all_eq_true] at bare
  exact ⟨by simpa using bare.1, bare.2⟩

theorem IsBare.cons (bare : IsBare name) : ∃ c more, name.toList = c :: more ∧ isBareKeyChar c = true := by
  obtain ⟨some_char, chars⟩ := bare.chars
  obtain ⟨c, more, shape⟩ := List.exists_cons_of_ne_nil some_char
  exact ⟨c, more, shape, chars c (shape ▸ List.mem_cons_self)⟩

theorem IsBare.ends (bare : IsBare name) {c : Char} (other : isBareKeyChar c = false) (rest : List Char) :
    Ends (· == c) (name.toList ++ rest) := by
  obtain ⟨d, more, shape, first⟩ := bare.cons
  rw [shape]
  refine ends_cons.2 (beq_eq_false_iff_ne.2 ?_)
  rintro rfl
  rw [other] at first
  cases first

theorem IsBare.ends_isSpace (bare : IsBare name) : Ends isSpace (name.toList ++ rest) := by
  obtain ⟨c, more, shape, first⟩ := bare.cons
  rw [shape]
  exact ends_cons.2 (not_isSpace_of_isBareKeyChar first)

theorem simpleKey?_bare (bare : IsBare name) (ends : Ends isBareKeyChar rest) :
    simpleKey? (name.toList ++ rest) = some (name, rest) := by
  obtain ⟨some_char, chars⟩ := bare.chars
  have filled : name.toList.isEmpty = false := by simpa using some_char
  unfold simpleKey?
  split
  · rename_i found
    have double := bare.ends (c := '"') (by decide) rest
    rw [found] at double
    cases ends_cons.1 double
  · rename_i found
    have single := bare.ends (c := '\'') (by decide) rest
    rw [found] at single
    cases ends_cons.1 single
  · simp only [Text.takeWhile_of_ends chars ends, Text.dropWhile_of_ends chars ends, filled]
    simp

/-- A bare key alone, with blanks behind it or not. -/
theorem key?_bare (bare : IsBare name) (most : Nat) (ends : Ends isBareKeyChar rest)
    (pointless : Ends (· == '.') (skipSpaces rest)) :
    key? (most + 1) (name.toList ++ rest) = some ([name], skipSpaces rest) := by
  rw [key?, skipSpaces_of_ends bare.ends_isSpace, simpleKey?_bare bare ends]
  simp only [Option.bind_eq_bind, Option.bind_some]
  split
  · rename_i found
    rw [found] at pointless
    cases ends_cons.1 pointless
  · rfl

theorem endLine?_lineFeed (rest : List Char) : endLine? ('\n' :: rest) = some rest := rfl

theorem header?_written (bare : IsBare name) (rest : List Char) :
    header? [']'] (name.toList ++ ']' :: '\n' :: rest) = some ([name], rest) := by
  have key : key? depthLimit (name.toList ++ ']' :: '\n' :: rest) = some ([name], ']' :: '\n' :: rest) :=
    key?_bare bare 78 (ends_cons.2 (by decide)) (ends_cons.2 (by decide))
  rw [header?, key]
  rfl

theorem statement?_header (bare : IsBare name) (rest : List Char) :
    statement? ('[' :: (name.toList ++ ']' :: '\n' :: rest)) = some (.header [name], rest) := by
  have header := header?_written bare rest
  unfold statement?
  split
  · rename_i found
    have single := bare.ends (c := '[') (by decide) (']' :: '\n' :: rest)
    rw [List.cons.inj found |>.2] at single
    cases ends_cons.1 single
  · rename_i found
    cases found
    change (header? [']'] _).map _ = _
    rw [header]
    rfl
  · rename_i other
    exact absurd rfl (other _)

theorem pair?_line (line : Line) (rest : List Char) :
    pair? (value? depthLimit) (line.key.toList ++ ' ' :: '=' :: ' ' :: (line.text ++ '\n' :: rest)) =
      some (([], line.key, line.value), '\n' :: rest) := by
  have key : key? depthLimit (line.key.toList ++ ' ' :: '=' :: ' ' :: (line.text ++ '\n' :: rest)) =
      some ([line.key], '=' :: ' ' :: (line.text ++ '\n' :: rest)) :=
    key?_bare line.bare 78 (ends_cons.2 (by decide)) (ends_cons.2 (by decide))
  have visible : skipSpaces (' ' :: (line.text ++ '\n' :: rest)) = line.text ++ '\n' :: rest :=
    skipSpaces_of_ends (line.isValue.visible rest)
  rw [pair?, key]
  simp only [Option.bind_eq_bind, Option.bind_some, List.getLast?_singleton, expect?_cons, visible,
    line.isValue.reads]
  rfl

theorem statement?_line (line : Line) (rest : List Char) :
    statement? (entryLine line.entry ++ rest) = some (line.statement, rest) := by
  have shape : entryLine line.entry ++ rest =
      line.key.toList ++ ' ' :: '=' :: ' ' :: (line.text ++ '\n' :: rest) := by
    simp [entryLine, Line.entry]
  have pair := pair?_line line rest
  have ends := line.bare.ends (c := '[') (by decide) (' ' :: '=' :: ' ' :: (line.text ++ '\n' :: rest))
  rw [shape]
  unfold statement?
  split
  · rename_i found
    rw [found] at ends
    cases ends_cons.1 ends
  · rename_i found
    rw [found] at ends
    cases ends_cons.1 ends
  · simp only [pair, Option.bind_eq_bind, Option.bind_some, endLine?_lineFeed]
    rfl

end Lines

/-! ## Values -/

theorem isValue_of_isWord {word : List Char} {value : Value} (found : Scalar.IsWord word value) :
    IsValue word value := by
  obtain ⟨c, more, rfl⟩ := List.exists_cons_of_ne_nil found.some_char
  have char := found.chars c List.mem_cons_self
  have other {d : Char} (mark : Scalar.isWordChar d = false) : c ≠ d := by
    rintro rfl
    rw [mark] at char
    cases char
  refine ⟨fun rest => ends_cons.2 ?_, fun rest => ?_⟩
  · simp [isSpace, other (d := ' ') rfl, other (d := '\t') rfl]
  · have reads := found.read? (ends_cons.2 (by decide) : Ends Scalar.isWordChar ('\n' :: rest))
    rw [List.cons_append, value?]
    · exact reads
    all_goals
      rintro cs same
      exact other rfl (List.cons.inj same).1

theorem write_cons (content : List Char) : ∃ c more, Quoted.write content = c :: more ∧
    (c = '"' ∨ c = '\'') := by
  have shape := Quoted.write_append content []
  rw [List.append_nil] at shape
  rw [shape]
  rcases Quoted.styleFor_cases content with same | ⟨same, -⟩ | same | ⟨same, -⟩ <;> rw [same]
  · exact ⟨'"', _, rfl, .inl rfl⟩
  · exact ⟨'\'', _, rfl, .inr rfl⟩
  · exact ⟨'"', _, rfl, .inl rfl⟩
  · exact ⟨'\'', _, rfl, .inr rfl⟩

theorem isValue_text (content : String) : IsValue (Written.text content) (.text content) := by
  obtain ⟨c, more, shape, quote⟩ := write_cons content.toList
  refine ⟨fun rest => ?_, fun rest => ?_⟩
  · rw [Written.text, shape]
    rcases quote with rfl | rfl <;> exact ends_cons.2 (by decide)
  · have reads := Quoted.read?_write content.toList
      (ends_cons.2 (by decide) : Ends (fun c => c == '"' || c == '\'') ('\n' :: rest))
    rw [Written.text]
    have text : value?.text? (Quoted.write content.toList ++ '\n' :: rest) =
        some (.text content, '\n' :: rest) := by
      rw [value?.text?, reads]
      simp
    rw [shape] at text ⊢
    rcases quote with rfl | rfl <;> exact text

/-! ## Rows of lines -/

/-- A text is read as some statements, if there are enough lines to come. -/
def ReadsAs (cs : List Char) (statements : List Statement) : Prop :=
  ∀ budget, cs.length < budget → statements? budget cs = some statements

theorem readsAs_nil : ReadsAs [] [] := by
  intro budget enough
  obtain ⟨budget, rfl⟩ : ∃ more, budget = more + 1 := ⟨budget - 1, by omega⟩
  rfl

section Rows

variable {cs rest : List Char} {statements : List Statement} {statement : Statement}

theorem ReadsAs.blank (reads : ReadsAs rest statements) : ReadsAs ('\n' :: rest) statements := by
  intro budget enough
  rw [List.length_cons] at enough
  obtain ⟨budget, rfl⟩ : ∃ more, budget = more + 1 := ⟨budget - 1, by omega⟩
  exact reads budget (by omega)

/-- A character that no blank, comment or end of a line starts with. -/
def opensLine (c : Char) : Bool := !isSpace c && c != '#' && c != '\n' && c != '\r'

theorem opensLine_of_isBareKeyChar {c : Char} (bare : isBareKeyChar c = true) : opensLine c = true := by
  rw [opensLine, not_isSpace_of_isBareKeyChar bare]
  simp only [Bool.not_false, Bool.true_and, Bool.and_eq_true, bne_iff_ne]
  refine ⟨⟨?_, ?_⟩, ?_⟩ <;> rintro rfl <;> revert bare <;> decide

theorem endLine?_cons {c : Char} (opens : opensLine c = true) (more : List Char) :
    endLine? (c :: more) = none := by
  simp only [opensLine, Bool.and_eq_true, Bool.not_eq_true', bne_iff_ne] at opens
  obtain ⟨⟨⟨visible, comment⟩, line⟩, carriage⟩ := opens
  unfold endLine?
  rw [skipSpaces_of_ends (ends_cons.2 visible)]
  split
  · rename_i same
    exact absurd (List.cons.inj same).1 comment
  · simp only
    split
    · rename_i nothing
      cases nothing
    · rename_i same
      exact absurd (List.cons.inj same).1 line
    · rename_i same
      exact absurd (List.cons.inj same).1 carriage
    · rfl

theorem ReadsAs.line (reads : ReadsAs rest statements) {c : Char} {more : List Char}
    (opens : opensLine c = true) (shorter : rest.length ≤ more.length)
    (first : statement? (c :: more) = some (statement, rest)) :
    ReadsAs (c :: more) (statement :: statements) := by
  intro budget enough
  rw [List.length_cons] at enough
  obtain ⟨budget, rfl⟩ : ∃ more, budget = more + 1 := ⟨budget - 1, by omega⟩
  have visible : isSpace c = false := by
    simp only [opensLine, Bool.and_eq_true, Bool.not_eq_true'] at opens
    exact opens.1.1.1
  rw [statements?, skipSpaces_of_ends (ends_cons.2 visible)]
  simp only [endLine?_cons opens, first, reads budget (by omega), Option.bind_eq_bind, Option.bind_some]

theorem ReadsAs.entry (line : Line) (reads : ReadsAs rest statements) :
    ReadsAs (entryLine line.entry ++ rest) (line.statement :: statements) := by
  have first := statement?_line line rest
  obtain ⟨c, more, shape, bare⟩ := line.bare.cons
  have text : entryLine line.entry ++ rest = c :: (more ++ " = ".toList ++ line.text ++ '\n' :: rest) := by
    simp [entryLine, Line.entry, shape]
  rw [text] at first ⊢
  refine reads.line (opensLine_of_isBareKeyChar bare) ?_ first
  rw [List.length_append, List.length_cons]
  omega

theorem ReadsAs.entries (lines : List Line) (reads : ReadsAs rest statements) :
    ReadsAs ((lines.map Line.entry).flatMap entryLine ++ rest) (lines.map Line.statement ++ statements) := by
  induction lines with
  | nil => exact reads
  | cons line lines ih =>
      rw [List.map_cons, List.flatMap_cons, List.append_assoc]
      exact ReadsAs.entry line ih

theorem ReadsAs.page (page : Page) (reads : ReadsAs rest statements) :
    ReadsAs (page.section.lines ++ rest) (page.statements ++ statements) := by
  have header := statement?_header page.bare ((page.lines.map Line.entry).flatMap entryLine ++ rest)
  have text : page.section.lines ++ rest =
      '[' :: (page.name.toList ++ ']' :: '\n' :: ((page.lines.map Line.entry).flatMap entryLine ++ rest)) := by
    simp [Section.lines, Page.section]
  rw [text]
  refine (reads.entries page.lines).line (by decide) ?_ header
  simp only [List.length_append, List.length_cons]
  omega

theorem readsAs_documentText (pages : List Page) :
    ReadsAs (documentText (pages.map Page.section)) (pages.flatMap Page.statements) := by
  induction pages with
  | nil => exact readsAs_nil
  | cons page pages ih =>
      cases pages with
      | nil =>
          have alone := readsAs_nil.page page
          simpa [documentText] using alone
      | cons next pages =>
          rw [documentText, List.map_cons, List.map_cons, List.map_cons, List.map_cons,
            List.intercalate_cons_cons, List.append_assoc]
          exact ih.blank.page page

end Rows

/-! ## Tables -/

section Tables

variable {done inner : Entries} {name key : String}

theorem lookup_last (new : done.lookup name = none) (value : Value) :
    (done ++ [(name, value)]).lookup name = some value := by
  rw [List.lookup_append, new]
  simp

theorem lookup_other (absent : done.lookup key = none) (other : key ≠ name) (value : Value) :
    (done ++ [(name, value)]).lookup key = none := by
  rw [List.lookup_append, absent]
  simp [List.lookup, beq_eq_false_iff_ne.2 other]

theorem replace_last (new : done.lookup name = none) (value value' : Value) :
    Entries.replace name value' (done ++ [(name, value)]) = done ++ [(name, value')] := by
  rw [List.lookup_eq_none_iff] at new
  have kept : done.map (fun entry => if entry.1 = name then (name, value') else entry) = done := by
    refine (List.map_congr_left fun entry member => ?_).trans (List.map_id done)
    have other := new entry member
    rw [bne_iff_ne] at other
    exact if_neg other.symm
  rw [Entries.replace, List.map_append, kept]
  simp

theorem state?_header (new : done.lookup name = none) (current : List String) :
    Draft.state? ⟨done, current⟩ (.header [name]) = some ⟨done ++ [(name, .table .header [])], [name]⟩ := by
  simp [Draft.state?, Entries.atHeader, Entries.alter, Entries.openTable, new]

theorem add_new (fresh : inner.lookup key = none) (value : Value) :
    Entries.add [] key value inner = some (inner ++ [(key, value)]) := by
  simp [Entries.add, Entries.alter, fresh]

theorem state?_entry (new : done.lookup name = none) (fresh : inner.lookup key = none) (value : Value) :
    Draft.state? ⟨done ++ [(name, .table .header inner)], [name]⟩ (.entry [] key value) =
      some ⟨done ++ [(name, .table .header (inner ++ [(key, value)]))], [name]⟩ := by
  have enters : Passage.ofHeader.mayEnter .header = true := rfl
  simp only [Draft.state?, Entries.alter, lookup_last new, enters, add_new fresh, guard_true,
    Option.bind_eq_bind, Option.bind_some, Option.pure_def, replace_last new]

theorem foldlM_lines (new : done.lookup name = none) (lines : List Line)
    (distinct : (lines.map (·.key)).Nodup) (fresh : ∀ line ∈ lines, inner.lookup line.key = none) :
    (lines.map Line.statement).foldlM Draft.state? ⟨done ++ [(name, .table .header inner)], [name]⟩ =
      some ⟨done ++ [(name, .table .header (inner ++ lines.map Line.meant))], [name]⟩ := by
  induction lines generalizing inner with
  | nil => simp
  | cons line lines ih =>
      obtain ⟨first, others⟩ := List.forall_mem_cons.1 fresh
      rw [List.map_cons, List.nodup_cons] at distinct
      have still : ∀ other ∈ lines, (inner ++ [line.meant]).lookup other.key = none := by
        intro other member
        refine lookup_other (others other member) ?_ _
        rintro same
        exact distinct.1 (same ▸ List.mem_map_of_mem member)
      have more := ih distinct.2 still
      rw [List.append_assoc] at more
      rw [List.map_cons, List.foldlM_cons, Line.statement, state?_entry new first]
      exact more

theorem foldlM_pages (pages : List Page) (distinct : (pages.map (·.name)).Nodup)
    (new : ∀ page ∈ pages, done.lookup page.name = none) (current : List String) :
    ∃ last, (pages.flatMap Page.statements).foldlM Draft.state? ⟨done, current⟩ =
      some ⟨done ++ pages.map Page.meant, last⟩ := by
  induction pages generalizing done current with
  | nil => exact ⟨current, by simp⟩
  | cons page pages ih =>
      obtain ⟨first, others⟩ := List.forall_mem_cons.1 new
      rw [List.map_cons, List.nodup_cons] at distinct
      have still : ∀ other ∈ pages, (done ++ [page.meant]).lookup other.name = none := by
        intro other member
        refine lookup_other (others other member) ?_ _
        rintro same
        exact distinct.1 (same ▸ List.mem_map_of_mem member)
      obtain ⟨last, more⟩ := ih distinct.2 still [page.name]
      have empty : ∀ line ∈ page.lines, ([] : Entries).lookup line.key = none := fun line _ => rfl
      have lines := foldlM_lines first page.lines page.distinct empty
      rw [List.append_assoc] at more
      refine ⟨last, ?_⟩
      rw [List.flatMap_cons, List.foldlM_append, Page.statements, List.foldlM_cons, state?_header first]
      simp only [Option.bind_eq_bind, Option.bind_some, lines]
      exact more

end Tables

theorem assemble?_pages (pages : List Page) (distinct : (pages.map (·.name)).Nodup) :
    assemble? (pages.flatMap Page.statements) = some (pages.map Page.meant) := by
  have nothing : ∀ page ∈ pages, ([] : Entries).lookup page.name = none := fun page _ => rfl
  obtain ⟨last, folded⟩ := foldlM_pages pages distinct nothing []
  rw [assemble?, folded]
  rfl

/-- A document of sections holds what its lines are written for. -/
theorem document?_documentText (pages : List Page) (distinct : (pages.map (·.name)).Nodup) :
    document? (String.ofList (documentText (pages.map Page.section))) = some (pages.map Page.meant) := by
  have reads := readsAs_documentText pages
  have unmarked : dropByteOrderMark (documentText (pages.map Page.section)) =
      documentText (pages.map Page.section) := by
    cases pages with
    | nil => rfl
    | cons page pages => cases pages <;> rfl
  simp only [document?, String.toList_ofList, unmarked, reads _ (Nat.lt_succ_self _),
    Option.bind_eq_bind, Option.bind_some]
  exact assemble?_pages pages distinct

end OverlayRouting.Toml
