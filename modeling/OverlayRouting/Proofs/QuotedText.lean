/-
# OverlayRouting.Proofs.QuotedText -- a string in quotes is read back

Whatever a string holds, reading its written form gives the string, and stops right behind the
closing quotes (`read?_write`).

A reader between three quotes does not know yet whether the quotes that it has seen belong to the
string, and a writer leaves two of them in a row as they are.  So both are followed with the row
of quotes that stands right before the next character: `behind row` is the reader's mode there.
-/
import OverlayRouting.Proofs.AddressText
import OverlayRouting.Toml.Quoted.Writer

namespace OverlayRouting.Toml.Quoted

set_option autoImplicit false

variable {style : Style} {mode next : Mode} {c : Char} {row : Nat}
  {cs rest said more : List Char} {found : List Char × List Char}

/-! ## Steps -/

theorem run_next (turns : turn style mode c = .next next said)
    (reads : run style next rest = some (more, cs)) :
    run style mode (c :: rest) = some (said ++ more, cs) := by
  rw [run, turns]
  simp only [reads, Option.map_some]

theorem run_silent (turns : turn style mode c = .next next [])
    (reads : run style next rest = some (more, cs)) : run style mode (c :: rest) = some (more, cs) :=
  run_next turns reads

/-- The mode behind some quotes in a string. -/
def behind (row : Nat) : Mode := if row = 0 then .plain else .quotes row

/-- At a character other than a quote, the quotes before it belong to the string. -/
theorem run_behind (few : row ≤ 2) (other : c ≠ style.quote)
    (turns : onPlain style c = .next next said) (reads : run style next rest = some (more, cs)) :
    run style (behind row) (c :: rest) = some (List.replicate row style.quote ++ (said ++ more), cs) := by
  rw [behind]
  split
  · rename_i none
    rw [none, List.replicate_zero, List.nil_append]
    have plain : turn style .plain c = .next next said := turns
    exact run_next plain reads
  · rw [← List.append_assoc]
    refine run_next ?_ reads
    simp only [turn, onQuotes]
    rw [if_neg other, if_neg (by omega), turns]
    rfl

/-- One more quote between three quotes. -/
theorem run_quote (row : Nat) (triple : style.triple = true) (few : row < 5)
    (reads : run style (.quotes (row + 1)) rest = some (more, cs)) :
    run style (behind row) (style.quote :: rest) = some (more, cs) := by
  rw [behind]
  split
  · rename_i none
    rw [none] at reads
    refine run_silent ?_ reads
    rw [turn, onPlain, if_pos rfl, if_pos triple]
  · refine run_silent ?_ reads
    simp only [turn, onQuotes]
    rw [if_pos trivial, if_pos few]

/-- The closing quotes, with some quotes of the string right before them. -/
theorem run_delimiter (few : row ≤ if style.triple then 2 else 0)
    (ends : Text.Ends (· == style.quote) rest) :
    run style (behind row) (style.delimiter ++ rest) =
      some (List.replicate row style.quote, rest) := by
  rw [Style.delimiter]
  cases triple : style.triple with
  | false =>
      obtain rfl : row = 0 := by simpa [triple] using few
      simp [behind, run, turn, onPlain, triple]
  | true =>
      have room : row ≤ 2 := by simpa [triple] using few
      refine run_quote row triple (by omega) ?_
      refine run_quote (row + 1) triple (by omega) ?_
      refine run_quote (row + 2) triple (by omega) ?_
      change run style (.quotes (row + 3)) rest = _
      cases rest with
      | nil =>
          rw [run, atEnd, if_pos (by omega)]
          simp
      | cons c rest =>
          have other : c ≠ style.quote := by simpa using Text.ends_cons.1 ends
          rw [run]
          simp only [turn, onQuotes]
          rw [if_neg other, if_pos (by omega)]
          simp

/-! ## Escapes -/

theorem onCode_digit {digit : Nat} (small : digit < 16) (left value : Nat) :
    onCode left value (Nat.digitChar digit).toUpper =
      if 1 < left then .next (.code (left - 1) (value * 16 + digit)) []
      else if (value * 16 + digit).isValidChar then .next .plain [Char.ofNat (value * 16 + digit)]
      else .refused := by
  have meant : ∀ n < 16, Text.digitValue (Nat.digitChar n).toUpper = n := by decide
  have hexadecimal : Text.isDigitOf 16 (Nat.digitChar digit).toUpper = true := by
    rw [Text.isDigitOf, meant digit small]
    exact decide_eq_true small
  rw [onCode, hexadecimal, meant digit small]
  rfl

/-- The digits of the number of a character are read to the character. -/
theorem run_digits (small : c.toNat < 0x80) (reads : run style .plain rest = some (more, cs)) :
    run style (.code 4 0) (((Text.digits 16 4 c.toNat).map fun digit => (Nat.digitChar digit).toUpper) ++
      rest) = some (c :: more, cs) := by
  have digits : Text.digits 16 4 c.toNat =
      [c.toNat / 16 / 16 / 16 % 16, c.toNat / 16 / 16 % 16, c.toNat / 16 % 16, c.toNat % 16] := rfl
  have number : (((0 * 16 + c.toNat / 16 / 16 / 16 % 16) * 16 + c.toNat / 16 / 16 % 16) * 16 +
      c.toNat / 16 % 16) * 16 + c.toNat % 16 = c.toNat := by omega
  have valid : c.toNat.isValidChar := .inl (by omega)
  rw [digits]
  refine run_silent (onCode_digit (Nat.mod_lt _ (by decide)) 4 _) ?_
  refine run_silent (onCode_digit (Nat.mod_lt _ (by decide)) 3 _) ?_
  refine run_silent (onCode_digit (Nat.mod_lt _ (by decide)) 2 _) ?_
  have last : turn style (.code 1 ((((0 * 16 + c.toNat / 16 / 16 / 16 % 16) * 16 +
      c.toNat / 16 / 16 % 16) * 16 + c.toNat / 16 % 16))) (Nat.digitChar (c.toNat % 16)).toUpper =
        .next .plain [c] := by
    rw [turn, onCode_digit (Nat.mod_lt _ (by decide)), number, if_neg (by decide), if_pos valid,
      Char.ofNat_toNat]
  exact run_next last reads

theorem onPlain_lineFeed (other : '\n' ≠ style.quote) (triple : style.triple = true) :
    onPlain style '\n' = .next .plain ['\n'] := by
  rw [onPlain, if_neg other, if_neg (by simp), if_pos ⟨triple, rfl⟩]

theorem onPlain_visible (other : c ≠ style.quote) (unescaped : style.escapes = true → c ≠ '\\')
    (printable : isControl c = false) : onPlain style c = .next .plain [c] := by
  have feed : c ≠ '\n' := by
    rintro rfl
    cases printable
  have carriage : c ≠ '\r' := by
    rintro rfl
    cases printable
  rw [onPlain, if_neg other, if_neg fun both => unescaped both.1 both.2, if_neg (by simp [feed]),
    if_neg (by simp [carriage]), if_neg (by simp [printable])]

theorem lookup_shortEscapes {entry : Char × Char}
    (found : shortEscapes.find? (fun entry => entry.2 = c) = some entry) :
    shortEscapes.lookup entry.1 = some c := by
  have meant : ∀ entry ∈ shortEscapes, shortEscapes.lookup entry.1 = some entry.2 := by decide
  have same : entry.2 = c := by simpa using List.find?_some found
  exact same ▸ meant entry (List.mem_of_find?_eq_some found)

/-- A character that stands for itself, behind some quotes. -/
theorem run_itself (few : row ≤ 2) (other : c ≠ style.quote)
    (turns : onPlain style c = .next .plain [c]) (reads : run style .plain rest = some (more, cs)) :
    run style (behind row) (c :: rest) = some (List.replicate row style.quote ++ (c :: more), cs) :=
  run_behind few other turns reads

/-- An escape, behind some quotes. -/
theorem run_backslash (escapes : style.escapes = true) (quote : style.quote = '"') (few : row ≤ 2)
    (reads : run style .escape rest = some (more, cs)) :
    run style (behind row) ('\\' :: rest) = some (List.replicate row style.quote ++ more, cs) := by
  have foreign : '\\' ≠ style.quote := by
    rw [quote]
    decide
  have turns : onPlain style '\\' = .next .escape [] := by
    rw [onPlain, if_neg foreign, if_pos ⟨escapes, rfl⟩]
  exact run_behind few foreign turns reads

/-- A character other than a quote, behind some quotes: it is escaped, or stands as it is. -/
theorem run_escapeChar (escapes : style.escapes = true) (quote : style.quote = '"') (few : row ≤ 2)
    (other : c ≠ style.quote) (reads : run style .plain rest = some (more, cs)) :
    run style (behind row) (escapeChar style c ++ rest) =
      some (List.replicate row style.quote ++ (c :: more), cs) := by
  rw [escapeChar]
  split
  · rename_i line
    rw [Bool.and_eq_true, beq_iff_eq] at line
    obtain ⟨triple, rfl⟩ := line
    exact run_itself few other (onPlain_lineFeed other triple) reads
  · split
    · rename_i entry found
      have escape : turn style .escape entry.1 = .next .plain [c] := by
        simp only [turn, onEscape, lookup_shortEscapes found]
      exact run_backslash escapes quote few (run_next escape reads)
    · rename_i unescaped
      have visible : c ≠ '\\' := by
        rintro rfl
        revert unescaped
        decide
      split
      · rename_i control
        have small : c.toNat < 0x80 := by
          simp only [isControl, Bool.or_eq_true, Bool.and_eq_true, decide_eq_true_eq,
            beq_iff_eq] at control
          omega
        have code : turn style .escape 'u' = .next (.code 4 0) [] := rfl
        exact run_backslash escapes quote few (run_silent code (run_digits small reads))
      · rename_i printable
        exact run_itself few other (onPlain_visible other (fun _ => visible) (by simpa using printable)) reads

/-! ## Strings -/

theorem barePairs_le (style : Style) : barePairs style ≤ 2 := by
  rw [barePairs]
  split <;> decide

/-- A string with escapes is read back, with the quotes before it. -/
theorem run_escaped (escapes : style.escapes = true) (quote : style.quote = '"')
    (ends : Text.Ends (· == style.quote) rest) (few : row ≤ barePairs style) (content : List Char) :
    run style (behind row) (escaped style row content ++ (style.delimiter ++ rest)) =
      some (List.replicate row style.quote ++ content, rest) := by
  have room := barePairs_le style
  induction content generalizing row with
  | nil =>
      rw [escaped, List.nil_append, List.append_nil]
      exact run_delimiter few ends
  | cons c content ih =>
      rw [escaped]
      split
      · rename_i same
        subst same
        split
        · rename_i bare
          have triple : style.triple = true := by
            rw [barePairs] at bare
            split at bare
            · assumption
            · omega
          have more := ih bare
          rw [List.replicate_succ', List.append_assoc] at more
          exact run_quote row triple (by omega) more
        · have escape : turn style .escape style.quote = .next .plain [style.quote] := by
            rw [quote]
            rfl
          exact run_backslash escapes quote (by omega) (run_next escape (ih (Nat.zero_le _)))
      · rename_i other
        rw [List.append_assoc]
        exact run_escapeChar escapes quote (by omega) other (ih (Nat.zero_le _))

theorem le_longestRow (c : Char) (row : Nat) (cs : List Char) : row ≤ longestRow c row cs := by
  induction cs generalizing row with
  | nil => exact Nat.le_refl _
  | cons d rest ih =>
      rw [longestRow]
      split
      · exact Nat.le_of_succ_le (ih (row + 1))
      · exact Nat.le_max_left _ _

/-- A string without escapes is read back, if no row of quotes in it closes it. -/
theorem run_literal (escapes : style.escapes = false) (ends : Text.Ends (· == style.quote) rest)
    (content : List Char)
    (plain : ∀ c ∈ content, isControl c = true → c = '\n' ∧ style.triple = true)
    (few : longestRow style.quote row content ≤ barePairs style) :
    run style (behind row) (content ++ (style.delimiter ++ rest)) =
      some (List.replicate row style.quote ++ content, rest) := by
  have room := barePairs_le style
  induction content generalizing row with
  | nil =>
      rw [List.nil_append, List.append_nil]
      exact run_delimiter few ends
  | cons c content ih =>
      have later := fun d member => plain d (List.mem_cons_of_mem c member)
      rw [longestRow] at few
      split at few
      · rename_i same
        subst same
        have triple : style.triple = true := by
          have some_row := le_longestRow style.quote (row + 1) content
          rw [barePairs] at few
          split at few
          · assumption
          · omega
        have more := ih later few
        have some_row := le_longestRow style.quote (row + 1) content
        rw [List.replicate_succ', List.append_assoc] at more
        exact run_quote row triple (by omega) more
      · rename_i other
        have more : run style (behind 0) _ = some (List.replicate 0 _ ++ content, rest) :=
          ih later (by omega)
        refine run_itself (by omega) other ?_ more
        cases control : isControl c with
        | false => exact onPlain_visible other (by simp [escapes]) control
        | true =>
            obtain ⟨rfl, triple⟩ := plain c List.mem_cons_self control
            exact onPlain_lineFeed other triple

/-! ## Written strings -/

theorem dropLineFeed_of_ends (ends : Text.Ends (fun c => c == '\n' || c == '\r') cs) :
    dropLineFeed cs = cs := by
  cases cs with
  | nil => rfl
  | cons c rest =>
      have other := Text.ends_cons.1 ends
      simp only [Bool.or_eq_false_iff, beq_eq_false_iff_ne] at other
      rw [dropLineFeed]
      · simp [other]
      · simp [other]

/-- The first character of an escaped one is a backslash or the character, which then has a
place on the line or ends it. -/
theorem escapeChar_cons (style : Style) (c : Char) : ∃ d more, escapeChar style c = d :: more ∧
    (d = '\\' ∨ d = c ∧ (isControl c = false ∨ c = '\n')) := by
  rw [escapeChar]
  split
  · rename_i line
    rw [Bool.and_eq_true, beq_iff_eq] at line
    exact ⟨c, [], rfl, .inr ⟨rfl, .inr line.2⟩⟩
  · split
    · exact ⟨_, _, rfl, .inl rfl⟩
    · split
      · exact ⟨_, _, rfl, .inl rfl⟩
      · rename_i printable
        exact ⟨c, [], rfl, .inr ⟨rfl, .inl (by simpa using printable)⟩⟩

/-- An escaped string does not start with a character that is no quote, no backslash, and none of
those that stand for themselves in the string. -/
theorem ends_escaped {p : Char → Bool} (backslash : p '\\' = false)
    (quote : row < barePairs style → p style.quote = false)
    (content : List Char) (itself : ∀ c ∈ content, c ≠ style.quote →
      isControl c = false ∨ c = '\n' → p c = false) (ends : content = [] → Text.Ends p rest) :
    Text.Ends p (escaped style row content ++ rest) := by
  cases content with
  | nil => exact ends rfl
  | cons c content =>
      rw [escaped]
      split
      · rename_i same
        split
        · rename_i bare
          exact Text.ends_cons.2 (same ▸ quote bare)
        · exact Text.ends_cons.2 backslash
      · rename_i other
        obtain ⟨d, more, shape, first⟩ := escapeChar_cons style c
        rw [shape]
        refine Text.ends_cons.2 ?_
        rcases first with rfl | ⟨rfl, stands⟩
        · exact backslash
        · exact itself d List.mem_cons_self other stands

theorem styleFor_cases (content : List Char) :
    styleFor content = .basic ∨
    (styleFor content = .literal ∧ content ≠ [] ∧ (∀ c ∈ content, isControl c = false) ∧
      longestRow '\'' 0 content = 0) ∨
    styleFor content = .basicLines ∨
    (styleFor content = .literalLines ∧ (∀ c ∈ content, isControl c = true → c = '\n') ∧
      longestRow '\'' 0 content ≤ 2) := by
  have printable (plain : (content.all fun c => !isControl c || c == '\n') = true) :
      ∀ c ∈ content, isControl c = true → c = '\n' := by
    intro c member control
    simpa [control] using List.all_eq_true.1 plain c member
  rw [styleFor]
  split
  · exact .inl rfl
  · rename_i quoted
    split
    · rename_i plain
      simp only [Bool.and_eq_true, Bool.not_eq_true', beq_iff_eq] at plain
      obtain ⟨⟨plain, line⟩, none⟩ := plain
      refine .inr (.inl ⟨rfl, ?_, fun c member => ?_, none⟩)
      · rintro rfl
        exact quoted rfl
      · by_contra control
        rw [Bool.not_eq_false] at control
        obtain rfl := printable plain c member control
        rw [hasLines, List.contains_eq_mem, decide_eq_false_iff_not] at line
        exact line member
    · split
      · exact .inr (.inr (.inl rfl))
      · split
        · rename_i plain
          simp only [Bool.and_eq_true, decide_eq_true_eq] at plain
          exact .inr (.inr (.inr ⟨rfl, printable plain.1, plain.2⟩))
        · split
          · exact .inr (.inr (.inl rfl))
          · exact .inl rfl

/-- What stands between the quotes. -/
def body (style : Style) (content : List Char) : List Char :=
  if style.escapes then escaped style 0 content else content

theorem run_body (content : List Char) (ends : Text.Ends (fun c => c == '"' || c == '\'') rest) :
    run (styleFor content) .plain (body (styleFor content) content ++
      ((styleFor content).delimiter ++ rest)) = some (content, rest) := by
  have double : Text.Ends (· == '"') rest := ends.mono fun c => by simp +contextual
  have single : Text.Ends (· == '\'') rest := ends.mono fun c => by simp +contextual
  rcases styleFor_cases content with same | ⟨same, -, plain, none⟩ | same | ⟨same, plain, few⟩ <;>
    rw [same]
  · change run .basic (behind 0) (escaped .basic 0 content ++ _) =
      some (List.replicate 0 '"' ++ content, rest)
    exact run_escaped rfl rfl double (Nat.zero_le _) content
  · change run .literal (behind 0) _ = some (List.replicate 0 '\'' ++ content, rest)
    refine run_literal rfl single content (fun c member control => ?_) (Nat.le_of_eq none)
    rw [plain c member] at control
    cases control
  · change run .basicLines (behind 0) (escaped .basicLines 0 content ++ _) =
      some (List.replicate 0 '"' ++ content, rest)
    exact run_escaped rfl rfl double (Nat.zero_le _) content
  · change run .literalLines (behind 0) _ = some (List.replicate 0 '\'' ++ content, rest)
    exact run_literal rfl single content (fun c member control => ⟨plain c member control, rfl⟩) few

theorem not_isPrefixOf_of_ends (quotes : List Char) (ends : Text.Ends (· == c) cs) :
    (c :: quotes).isPrefixOf cs = false := by
  cases cs with
  | nil => rfl
  | cons d rest =>
      have other := Text.ends_cons.1 ends
      rw [beq_eq_false_iff_ne] at other
      simp [List.isPrefixOf, Ne.symm other]

/-- A text that opens like a string on one line opens no other string. -/
theorem find?_basic (ends : [('"' : Char), '"'].isPrefixOf cs = false) :
    allStyles.find? (fun style => style.delimiter.isPrefixOf ('"' :: cs)) = some .basic := by
  have lines : Style.basicLines.delimiter.isPrefixOf ('"' :: cs) = false := ends
  simp only [allStyles, lineStyles, List.cons_append, List.nil_append, List.find?_cons, lines]
  rfl

theorem find?_literal (ends : Text.Ends (· == '\'') cs) :
    allStyles.find? (fun style => style.delimiter.isPrefixOf ('\'' :: cs)) = some .literal := by
  have lines : Style.literalLines.delimiter.isPrefixOf ('\'' :: cs) = false :=
    not_isPrefixOf_of_ends ['\''] ends
  have lines' : Style.basicLines.delimiter.isPrefixOf ('\'' :: cs) = false := rfl
  simp only [allStyles, lineStyles, List.cons_append, List.nil_append, List.find?_cons, lines, lines']
  rfl

/-- The line feed that comes in front of several lines is dropped, and nothing else. -/
theorem dropLineFeed_body (content rest : List Char) (triple : (styleFor content).triple = true) :
    dropLineFeed ((if hasLines content then ['\n'] else []) ++
      (body (styleFor content) content ++ ((styleFor content).delimiter ++ rest))) =
        body (styleFor content) content ++ ((styleFor content).delimiter ++ rest) := by
  cases lines : hasLines content with
  | true => rfl
  | false =>
      rw [hasLines, List.contains_eq_mem, decide_eq_false_iff_not] at lines
      have visible (c : Char) (member : c ∈ content) (stands : isControl c = false ∨ c = '\n') :
          (c == '\n' || c == '\r') = false := by
        have feed : c ≠ '\n' := fun same => lines (same ▸ member)
        have control := stands.resolve_right feed
        have carriage : c ≠ '\r' := by
          rintro rfl
          cases control
        simp [feed, carriage]
      refine dropLineFeed_of_ends ?_
      rcases styleFor_cases content with same | ⟨same, -⟩ | same | ⟨same, plain, -⟩ <;>
        rw [same] at triple ⊢
      · cases triple
      · cases triple
      · exact ends_escaped rfl (fun _ => rfl) content (fun c member _ => visible c member)
          fun _ => Text.ends_cons.2 rfl
      · cases content with
        | nil => exact Text.ends_cons.2 rfl
        | cons c content =>
            refine Text.ends_cons.2 (visible c List.mem_cons_self ?_)
            cases control : isControl c with
            | false => exact .inl rfl
            | true => exact .inr (plain c List.mem_cons_self control)

theorem write_append (content rest : List Char) :
    write content ++ rest = (styleFor content).delimiter ++
      ((if (styleFor content).triple && hasLines content then ['\n'] else []) ++
        (body (styleFor content) content ++ ((styleFor content).delimiter ++ rest))) := by
  simp only [write, body, List.append_assoc]

theorem find?_write (content : List Char) (ends : Text.Ends (fun c => c == '"' || c == '\'') rest) :
    allStyles.find? (fun style => style.delimiter.isPrefixOf (write content ++ rest)) =
      some (styleFor content) := by
  rw [write_append]
  rcases styleFor_cases content with same | ⟨same, some_content, -, none⟩ | same | ⟨same, -⟩ <;>
    rw [same]
  · refine find?_basic ?_
    change [('"' : Char), '"'].isPrefixOf (escaped .basic 0 content ++ '"' :: rest) = false
    cases content with
    | nil => exact not_isPrefixOf_of_ends [] (ends.mono fun c => by simp +contextual)
    | cons c content =>
        refine not_isPrefixOf_of_ends ['"'] ?_
        refine ends_escaped rfl (fun few => absurd few (Nat.lt_irrefl 0)) _
          (fun c _ other _ => beq_eq_false_iff_ne.2 other) ?_
        intro nothing
        cases nothing
  · refine find?_literal ?_
    cases content with
    | nil => exact absurd rfl some_content
    | cons c content =>
        refine Text.ends_cons.2 (beq_eq_false_iff_ne.2 ?_)
        rintro rfl
        have some_row := le_longestRow '\'' (0 + 1) content
        rw [longestRow, if_pos rfl] at none
        omega
  · rfl
  · rfl

/-- A string is read back from its text in quotes. -/
theorem read?_write (content : List Char) (ends : Text.Ends (fun c => c == '"' || c == '\'') rest) :
    read? allStyles (write content ++ rest) = some (content, rest) := by
  have reads := run_body content ends
  rw [read?, find?_write content ends, write_append, Option.bind_eq_bind, Option.bind_some,
    List.drop_left]
  cases triple : (styleFor content).triple with
  | true =>
      have dropped := dropLineFeed_body content rest triple
      simp only [Bool.true_and, if_true, dropped]
      exact reads
  | false => exact reads

end OverlayRouting.Toml.Quoted
