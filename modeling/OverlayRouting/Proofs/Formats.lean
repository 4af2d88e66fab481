/-
# OverlayRouting.Proofs.Formats -- formats that give back what was written

What settings need of the formats that they are kept in is little (`Formats.Lawful`): a document
that is written is read back with its tables in some order, only a whole number that has no place
in 64 bits with a sign keeps a document from being written, and a span is read back from its
text.  This is said of documents of sections with names that need no quotes; how anything is
written is left open.

The formats that the agent uses are lawful (`Formats.standard_lawful`).
-/
import Mathlib.Data.List.Forall2
import OverlayRouting.Proofs.DocumentText
import OverlayRouting.Proofs.SpanText
import OverlayRouting.Settings.Standard

namespace OverlayRouting

set_option autoImplicit false

/-! ## What is asked of formats -/

/-- A name that is a key in every format. -/
def IsPlainName (name : String) : Prop :=
  name ≠ "" ∧ ∀ c ∈ name.toList, (c.isAlphanum || c == '_') = true

instance (name : String) : Decidable (IsPlainName name) :=
  have := List.decidableBAll (fun c => (c.isAlphanum || c == '_') = true) name.toList
  inferInstanceAs (Decidable (name ≠ "" ∧ _))

namespace Data

/-- A text, a flag or a number, from zero on if it is whole. -/
def IsPlain : Data → Prop
  | .text _ | .flag _ | .real _ => True
  | .whole n => 0 ≤ n
  | _ => False

/-- Whole numbers have 64 bits with a sign. -/
def Fits : Data → Prop
  | .whole n => n < 0x8000000000000000
  | _ => True

end Data

/-- Fields that every format has a place for: their names are plain, none is given twice, and
their values are plain. -/
structure ArePlainFields (fields : List (String × Data)) : Prop where
  distinct : (fields.map Prod.fst).Nodup
  named : ∀ field ∈ fields, IsPlainName field.1
  plain : ∀ field ∈ fields, field.2.IsPlain

theorem arePlainFields_of_names {fields : List (String × Data)} (names : List String)
    (same : fields.map Prod.fst = names)
    (plainNames : names.Nodup ∧ ∀ name ∈ names, IsPlainName name)
    (plain : ∀ field ∈ fields, field.2.IsPlain) : ArePlainFields fields where
  distinct := same ▸ plainNames.1
  named := List.forall_mem_map.1 (same ▸ plainNames.2)
  plain := plain

namespace Sections

/-- Sections that every format has a place for. -/
structure ArePlain (parts : Sections) : Prop where
  distinct : (parts.map Prod.fst).Nodup
  named : ∀ part ∈ parts, IsPlainName part.1
  fields : ∀ part ∈ parts, ArePlainFields part.2

/-- No number is too large for a document. -/
def Fit (parts : Sections) : Prop := ∀ part ∈ parts, ∀ field ∈ part.2, field.2.Fits

/-- The document holds these sections.  Tables have no order, so both the sections and
their fields may have changed places. -/
def HeldBy (parts : Sections) (document : List (String × Data)) : Prop :=
  ∃ moved : Sections, parts.Forall₂ (fun part part' => part.1 = part'.1 ∧ part.2.Perm part'.2) moved ∧
    moved.document.Perm document

theorem heldBy_document (parts : Sections) : parts.HeldBy parts.document :=
  ⟨parts, List.forall₂_same.2 fun _ _ => ⟨rfl, .refl _⟩, .refl _⟩

end Sections

/-- What is known of formats. -/
structure Formats.Lawful (formats : Formats) : Prop where
  /-- What was written is read back. -/
  read_write : ∀ {parts : Sections} {text : String}, parts.ArePlain →
    formats.write? parts.document = some text →
    ∃ document, formats.read? text = some document ∧ parts.HeldBy document
  /-- Texts, flags and numbers can be written, but for whole numbers that are too large. -/
  writes : ∀ {parts : Sections}, parts.ArePlain →
    ((formats.write? parts.document).isSome = true ↔ parts.Fit)
  /-- The text of a span has the same value when it is read. -/
  read_span : ∀ span, formats.readSpan (formats.spanText span) = .ok span

/-! ## TOML documents as data -/

section Lists

variable {α β γ : Type} {read? : α → Option β}

theorem isSome_mapM_iff {xs : List α} :
    (xs.mapM read?).isSome = true ↔ ∀ x ∈ xs, (read? x).isSome = true := by
  induction xs with
  | nil => simp
  | cons x xs ih =>
      rw [List.mapM_cons, List.forall_mem_cons, ← ih]
      cases read? x <;> cases xs.mapM read? <;> simp

/-- What is found of each is the image of something that it comes from. -/
theorem exists_of_mapM (image : γ → β) (source : γ → α) {xs : List α} {ys : List β}
    (found : xs.mapM read? = some ys)
    (lifts : ∀ x ∈ xs, ∀ y, read? x = some y → ∃ z, image z = y ∧ source z = x) :
    ∃ zs : List γ, zs.map image = ys ∧ zs.map source = xs := by
  induction xs generalizing ys with
  | nil =>
      cases found
      exact ⟨[], rfl, rfl⟩
  | cons x xs ih =>
      obtain ⟨first, others⟩ := List.forall_mem_cons.1 lifts
      simp only [List.mapM_cons, Option.bind_eq_bind, Option.bind_eq_some_iff, Option.pure_def,
        Option.some.injEq] at found
      obtain ⟨y, here, ys', there, rfl⟩ := found
      obtain ⟨z, rfl, rfl⟩ := first y here
      obtain ⟨zs, rfl, rfl⟩ := ih there others
      exact ⟨z :: zs, rfl, rfl⟩

end Lists

namespace Toml

theorem entriesData_eq_map (entries : Entries) :
    entriesData entries = entries.map fun entry => (entry.1, entry.2.data) := by
  induction entries with
  | nil => rfl
  | cons entry entries ih => rw [entriesData, ih, List.map_cons]

/-- The field that a line is for. -/
def Line.field (line : Line) : String × Data := (line.key, line.value.data)

/-- The section that a page is for. -/
def Page.part (page : Page) : String × List (String × Data) := (page.name, page.lines.map Line.field)

theorem Page.data_meant (page : Page) :
    (page.meant.1, page.meant.2.data) = (page.part.1, .record page.part.2) := by
  rw [Page.meant, Value.data, entriesData_eq_map, List.map_map]
  rfl

theorem entriesData_meant (pages : List Page) :
    entriesData (pages.map Page.meant) = (Sections.document (pages.map Page.part)) := by
  rw [entriesData_eq_map, Sections.document, List.map_map, List.map_map]
  exact List.map_congr_left fun page _ => page.data_meant

theorem isBare_of_isPlainName {name : String} (plain : IsPlainName name) : IsBare name := by
  obtain ⟨filled, chars⟩ := plain
  rw [IsBare, Bool.and_eq_true, List.all_eq_true]
  refine ⟨by simpa using filled, fun c member => ?_⟩
  have char := chars c member
  rw [Bool.or_eq_true] at char
  rw [isBareKeyChar, Bool.or_eq_true, Bool.or_eq_true]
  exact char.imp .inl id

section Fields

variable {name : String} {data : Data}

theorem isSome_fieldText?_iff (named : IsPlainName name) (plain : data.IsPlain) :
    (fieldText? (name, data)).isSome = true ↔ data.Fits := by
  rw [fieldText?, if_pos (isBare_of_isPlainName named), Option.isSome_map]
  cases data with
  | text | real | flag => exact iff_of_true rfl trivial
  | whole n =>
      obtain ⟨n, rfl⟩ := Int.eq_ofNat_of_zero_le plain
      rw [Data.Fits]
      change (word? (.whole (.ofNat n))).isSome = true ↔ _
      rw [word?]
      split <;> simp <;> omega
  | null | list | record => cases plain

/-- What an entry is written for is read from it. -/
theorem exists_line (named : IsPlainName name) (plain : data.IsPlain) {entry : String × List Char}
    (written : fieldText? (name, data) = some entry) :
    ∃ line : Line, line.entry = entry ∧ line.field = (name, data) := by
  have bare := isBare_of_isPlainName named
  rw [fieldText?, if_pos bare, Option.map_eq_some_iff] at written
  obtain ⟨word, written, rfl⟩ := written
  cases data with
  | text content =>
      cases written
      exact ⟨⟨name, _, .text content, bare, isValue_text content⟩, rfl, rfl⟩
  | real x =>
      cases written
      exact ⟨⟨name, _, .real x, bare, isValue_of_isWord (Scalar.isWord_real x)⟩, rfl, rfl⟩
  | flag value =>
      cases written
      exact ⟨⟨name, _, .flag value, bare, isValue_of_isWord (Scalar.isWord_flag value)⟩, rfl, rfl⟩
  | whole n =>
      obtain ⟨n, rfl⟩ := Int.eq_ofNat_of_zero_le plain
      change word? (.whole (.ofNat n)) = some word at written
      rw [word?] at written
      split at written
      · rename_i small
        cases written
        exact ⟨⟨name, _, .whole n, bare, isValue_of_isWord (Scalar.isWord_natural small)⟩, rfl, rfl⟩
      · cases written
  | null | list | record => cases plain

end Fields

section Parts

variable {name : String} {fields : List (String × Data)}

theorem isSome_section?_iff (named : IsPlainName name) (plain : ArePlainFields fields) :
    (section? (name, .record fields)).isSome = true ↔ ∀ field ∈ fields, field.2.Fits := by
  rw [section?, if_pos (isBare_of_isPlainName named), Option.isSome_map, isSome_mapM_iff]
  refine forall₂_congr fun field member => ?_
  exact isSome_fieldText?_iff (plain.named field member) (plain.plain field member)

/-- What a section is written for is read from it. -/
theorem exists_page (named : IsPlainName name) (plain : ArePlainFields fields) {part : Section}
    (written : section? (name, .record fields) = some part) :
    ∃ page : Page, page.section = part ∧ page.part = (name, fields) := by
  have bare := isBare_of_isPlainName named
  rw [section?, if_pos bare, Option.map_eq_some_iff] at written
  obtain ⟨entries, written, rfl⟩ := written
  have lifts : ∀ field ∈ fields, ∀ entry, fieldText? field = some entry →
      ∃ line : Line, line.entry = entry ∧ line.field = field := fun field member entry found =>
    exists_line (plain.named field member) (plain.plain field member) found
  obtain ⟨lines, rfl, rfl⟩ := exists_of_mapM Line.entry Line.field written lifts
  have distinct := plain.distinct
  rw [List.map_map] at distinct
  exact ⟨⟨name, lines, bare, distinct⟩, rfl, rfl⟩

end Parts

section Documents

variable {parts : Sections}

theorem isSome_write?_iff (plain : parts.ArePlain) :
    (write? parts.document).isSome = true ↔ parts.Fit := by
  rw [write?, Option.isSome_map, isSome_mapM_iff, Sections.document, List.forall_mem_map]
  refine forall₂_congr fun part member => ?_
  exact isSome_section?_iff (plain.named part member) (plain.fields part member)

theorem read?_write? (plain : parts.ArePlain) {text : String}
    (written : write? parts.document = some text) : read? text = some parts.document := by
  rw [write?, Option.map_eq_some_iff, Sections.document, List.mapM_map] at written
  obtain ⟨sections, written, rfl⟩ := written
  have lifts : ∀ part ∈ parts, ∀ written, section? (part.1, .record part.2) = some written →
      ∃ page : Page, page.section = written ∧ page.part = part := fun part member _ found =>
    exists_page (plain.named part member) (plain.fields part member) found
  obtain ⟨pages, rfl, rfl⟩ := exists_of_mapM Page.section Page.part written lifts
  have distinct := plain.distinct
  rw [List.map_map] at distinct
  rw [read?, document?_documentText pages distinct, Option.map_some, entriesData_meant]

end Documents

end Toml

/-- The formats that the agent uses give back what was written. -/
theorem Formats.standard_lawful : standard.Lawful where
  read_write {parts} _ plain written :=
    ⟨parts.document, Toml.read?_write? plain written, parts.heldBy_document⟩
  writes := Toml.isSome_write?_iff
  read_span := Span.ofText_text

end OverlayRouting
