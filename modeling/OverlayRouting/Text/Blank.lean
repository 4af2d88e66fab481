/-
# OverlayRouting.Text.Blank -- blanks, words and lines

A blank is a character of Unicode's `White_Space` property: 25 characters, more
than the ASCII ones that `Char.isWhitespace` knows.
Trimming takes blanks from both ends and leaves the rest (`mem_trimChars`), words are the
maximal runs without a blank (`mem_words`), and lines end at a line feed.
-/
namespace OverlayRouting.Text

set_option autoImplicit false

/-- The `White_Space` ranges, first and last code point. -/
def blankRanges : List (Nat × Nat) :=
  [(0x09, 0x0D), (0x20, 0x20), (0x85, 0x85), (0xA0, 0xA0), (0x1680, 0x1680), (0x2000, 0x200A),
    (0x2028, 0x2029), (0x202F, 0x202F), (0x205F, 0x205F), (0x3000, 0x3000)]

def isBlank (c : Char) : Bool :=
  blankRanges.any fun range => range.1 ≤ c.toNat && c.toNat ≤ range.2

example : (blankRanges.map fun range => range.2 + 1 - range.1).sum = 25 := by decide

/-! ## Trimming -/

/-- The text without the blanks in front of it and behind it. -/
def trimChars (cs : List Char) : List Char :=
  ((cs.dropWhile isBlank).reverse.dropWhile isBlank).reverse

def trim (text : String) : String := String.ofList (trimChars text.toList)

theorem mem_dropWhile {cs : List Char} {c : Char} (member : c ∈ cs) (visible : isBlank c = false) :
    c ∈ cs.dropWhile isBlank := by
  induction cs with
  | nil => cases member
  | cons d rest ih =>
      by_cases blank : isBlank d = true
      · rw [List.dropWhile_cons_of_pos blank]
        rcases List.mem_cons.1 member with rfl | behind
        · rw [visible] at blank
          cases blank
        · exact ih behind
      · rw [List.dropWhile_cons_of_neg blank]
        exact member

/-- Trimming leaves every visible character. -/
theorem mem_trimChars {cs : List Char} {c : Char} (member : c ∈ cs) (visible : isBlank c = false) :
    c ∈ trimChars cs :=
  List.mem_reverse.2 (mem_dropWhile (List.mem_reverse.2 (mem_dropWhile member visible)) visible)

/-! ## Words -/

/-- Split at every character that `cut` picks; the pieces between two cuts may
be empty. -/
def splitChars (cut : Char → Bool) : List Char → List (List Char)
  | [] => [[]]
  | c :: rest =>
      match splitChars cut rest with
      | [] => [[c]]
      | piece :: pieces => if cut c then [] :: piece :: pieces else (c :: piece) :: pieces

theorem splitChars_ne_nil (cut : Char → Bool) (cs : List Char) : splitChars cut cs ≠ [] := by
  cases cs with
  | nil => exact List.cons_ne_nil _ _
  | cons c rest =>
      rw [splitChars]
      split
      · exact List.cons_ne_nil _ _
      · split <;> exact List.cons_ne_nil _ _

/-- The piece in front of the first cut comes first. -/
theorem splitChars_append {cut : Char → Bool} {piece : List Char} {c : Char}
    (uncut : ∀ d ∈ piece, cut d = false) (cuts : cut c = true) (rest : List Char) :
    splitChars cut (piece ++ c :: rest) = piece :: splitChars cut rest := by
  induction piece with
  | nil =>
      rw [List.nil_append, splitChars]
      split
      · rename_i nothing
        exact absurd nothing (splitChars_ne_nil cut rest)
      · rename_i first others split
        rw [if_pos cuts, split]
  | cons d more ih =>
      rw [List.cons_append, splitChars, ih fun e member => uncut e (List.mem_cons_of_mem _ member)]
      simp [uncut d List.mem_cons_self]

theorem not_cut_of_mem_split {cut : Char → Bool} {cs piece : List Char} {c : Char}
    (member : piece ∈ splitChars cut cs) (inside : c ∈ piece) : cut c = false := by
  induction cs generalizing piece with
  | nil =>
      simp only [splitChars, List.mem_singleton] at member
      subst member
      cases inside
  | cons d rest ih =>
      simp only [splitChars] at member
      split at member
      · rename_i nothing
        cases rest with
        | nil => simp [splitChars] at nothing
        | cons e more =>
            simp only [splitChars] at nothing
            split at nothing
            · cases nothing
            · split at nothing <;> cases nothing
      · rename_i head tail split
        split at member
        · rcases List.mem_cons.1 member with h | h
          · subst h; cases inside
          · exact ih (split ▸ h) inside
        · rename_i notCut
          rcases List.mem_cons.1 member with h | h
          · subst h
            rcases List.mem_cons.1 inside with h | h
            · subst h; simpa using notCut
            · exact ih (split ▸ List.mem_cons_self) h
          · exact ih (split ▸ List.mem_cons_of_mem _ h) inside

/-- The maximal runs without a blank. -/
def words (cs : List Char) : List (List Char) :=
  (splitChars isBlank cs).filter fun piece => !piece.isEmpty

theorem mem_words {cs word : List Char} (member : word ∈ words cs) :
    word ≠ [] ∧ ∀ c ∈ word, isBlank c = false := by
  simp only [words, List.mem_filter] at member
  refine ⟨fun empty => ?_, fun c inside => not_cut_of_mem_split member.1 inside⟩
  simp [empty] at member

theorem words_append {word : List Char} {c : Char} (some : word ≠ [])
    (visible : ∀ d ∈ word, isBlank d = false) (blank : isBlank c = true) (rest : List Char) :
    words (word ++ c :: rest) = word :: words rest := by
  rw [words, splitChars_append visible blank, List.filter_cons_of_pos, words]
  simpa using some

/-- The lines of a text: it is cut at every line feed. -/
def lines (cs : List Char) : List (List Char) := splitChars (· == '\n') cs

/-- Does `part` stand somewhere in the text? -/
def contains (part : List Char) : List Char → Bool
  | [] => part.isEmpty
  | c :: rest => part.isPrefixOf (c :: rest) || contains part rest

/-- ASCII letters in lower case, every other character as it is. -/
def lowerCase (cs : List Char) : List Char := cs.map Char.toLower

end OverlayRouting.Text
