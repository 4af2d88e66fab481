/-
# OverlayRouting.Toml.Reader -- TOML documents from text

A document is a row of lines: headers, entries and lines with nothing but a comment.
Only strings of several lines and lists go on over the end of a line.  Values in
values go 79 deep, and a key has 79 parts at most.

`document?` refuses a text with any fault; what a document holds is put together by
`assemble?`.
-/
import OverlayRouting.Toml.Assembly
import OverlayRouting.Toml.Quoted
import OverlayRouting.Toml.Scalar

namespace OverlayRouting.Toml

set_option autoImplicit false

open Text (expect?)

/-! ## Blanks and comments -/

def skipSpaces (cs : List Char) : List Char := cs.dropWhile isSpace

/-- A comment may hold all but control characters. -/
def isCommentChar (c : Char) : Bool := !isControl c

/-- The text behind the end of a line, which only blanks and a comment may come
before. -/
def endLine? (cs : List Char) : Option (List Char) :=
  let rest := match skipSpaces cs with
    | '#' :: comment => comment.dropWhile isCommentChar
    | rest => rest
  match rest with
  | [] => some []
  | '\n' :: rest => some rest
  | '\r' :: '\n' :: rest => some rest
  | _ => none

/-- Drop blanks, line ends and comments; a comment has to end. -/
def skipLines? : (inComment : Bool) → List Char → Option (List Char)
  | false, [] => some []
  | true, [] => none
  | _, '\n' :: rest => skipLines? false rest
  | _, '\r' :: '\n' :: rest => skipLines? false rest
  | true, c :: rest => if isCommentChar c then skipLines? true rest else none
  | false, c :: rest =>
      if isSpace c then skipLines? false rest
      else if c = '#' then skipLines? true rest
      else some (c :: rest)

/-! ## Keys -/

def isBareKeyChar (c : Char) : Bool := c.isAlphanum || c == '-' || c == '_'

/-- A name that is a key without quotes. -/
def IsBare (name : String) : Prop :=
  (!name.toList.isEmpty && name.toList.all isBareKeyChar) = true

instance (name : String) : Decidable (IsBare name) := inferInstanceAs (Decidable (_ = true))

/-- A key without points: a string in quotes or a row of plain characters. -/
def simpleKey? (cs : List Char) : Option (String × List Char) :=
  match cs with
  | '"' :: _ | '\'' :: _ =>
      (Quoted.read? Quoted.lineStyles cs).map fun found => (String.ofList found.1, found.2)
  | _ =>
      let word := cs.takeWhile isBareKeyChar
      if word.isEmpty then none else some (String.ofList word, cs.dropWhile isBareKeyChar)

/-- A key of at most `most` parts with points between them. -/
def key? : (most : Nat) → List Char → Option (List String × List Char)
  | 0, _ => none
  | most + 1, cs => do
      let (part, cs) ← simpleKey? (skipSpaces cs)
      match skipSpaces cs with
      | '.' :: rest => do
          let (parts, rest) ← key? most rest
          some (part :: parts, rest)
      | rest => some ([part], rest)

/-- The most parts that a key may have, and how deep values may be in values. -/
def depthLimit : Nat := 79

/-! ## Values -/

/-- The items of a list behind its opening bracket; `value?` reads one.  A comma may
stand behind the last one. -/
def items? (value? : List Char → Option (Value × List Char)) :
    (budget : Nat) → List Char → Option (List Value × List Char)
  | 0, _ => none
  | budget + 1, cs => do
      match ← skipLines? false cs with
      | ']' :: rest => some ([], rest)
      | cs => do
          let (item, cs) ← value? cs
          match ← skipLines? false cs with
          | ']' :: rest => some ([item], rest)
          | ',' :: rest => do
              let (items, rest) ← items? value? budget rest
              some (item :: items, rest)
          | _ => none

/-- A key, an equals sign and a value. -/
def pair? (value? : List Char → Option (Value × List Char)) (cs : List Char) :
    Option ((List String × String × Value) × List Char) := do
  let (parts, cs) ← key? depthLimit cs
  let key ← parts.getLast?
  let (value, cs) ← value? (skipSpaces (← expect? '=' cs))
  some ((parts.dropLast, key, value), cs)

/-- The pairs in braces, of which there is at least one, behind the opening brace. -/
def pairs? (value? : List Char → Option (Value × List Char)) :
    (budget : Nat) → List Char → Option (List (List String × String × Value) × List Char)
  | 0, _ => none
  | budget + 1, cs => do
      let (pair, cs) ← pair? value? cs
      match skipSpaces cs with
      | '\x7d' :: rest => some ([pair], rest)
      | ',' :: rest => do
          let (pairs, rest) ← pairs? value? budget rest
          some (pair :: pairs, rest)
      | _ => none

/-- A value at the front of a text, with values in it up to a depth. -/
def value? : (depth : Nat) → List Char → Option (Value × List Char)
  | depth, '[' :: cs =>
      match depth with
      | 0 => none
      | depth + 1 => do
          let (items, rest) ← items? (value? depth) cs.length cs
          some (.list items, rest)
  | depth, '\x7b' :: cs =>
      match depth with
      | 0 => none
      | depth + 1 =>
          match skipSpaces cs with
          | '\x7d' :: rest => some (.table .closed [], rest)
          | _ => do
              let (pairs, rest) ← pairs? (value? depth) cs.length cs
              some (← braced? pairs, rest)
  | _, '"' :: cs => text? ('"' :: cs)
  | _, '\'' :: cs => text? ('\'' :: cs)
  | _, cs => Scalar.read? cs
where
  text? (cs : List Char) : Option (Value × List Char) :=
    (Quoted.read? Quoted.allStyles cs).map fun found => (.text (String.ofList found.1), found.2)

/-! ## Documents -/

/-- A header behind its opening brackets. -/
def header? (close : List Char) (cs : List Char) : Option (List String × List Char) := do
  let (path, cs) ← key? depthLimit cs
  guard (close.isPrefixOf cs)
  some (path, ← endLine? (cs.drop close.length))

/-- The statement on a line that is not empty, and the text behind the line. -/
def statement? (cs : List Char) : Option (Statement × List Char) :=
  match cs with
  | '[' :: '[' :: cs => (header? "]]".toList cs).map fun found => (.element found.1, found.2)
  | '[' :: cs => (header? "]".toList cs).map fun found => (.header found.1, found.2)
  | cs => do
      let ((path, key, value), cs) ← pair? (value? depthLimit) cs
      some (.entry path key value, ← endLine? cs)

/-- The statements of a text, whose length bounds how many lines there are. -/
def statements? : (budget : Nat) → List Char → Option (List Statement)
  | 0, _ => none
  | budget + 1, cs =>
      match skipSpaces cs with
      | [] => some []
      | cs =>
          match endLine? cs with
          | some rest => statements? budget rest
          | none => do
              let (statement, rest) ← statement? cs
              some (statement :: (← statements? budget rest))

/-- A mark of the byte order may stand in front of the text. -/
def dropByteOrderMark : List Char → List Char
  | c :: rest => if c = '\uFEFF' then rest else c :: rest
  | [] => []

/-- The entries of a document. -/
def document? (text : String) : Option Entries := do
  let cs := dropByteOrderMark text.toList
  assemble? (← statements? (cs.length + 1) cs)

end OverlayRouting.Toml
