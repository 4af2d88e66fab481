/-
# OverlayRouting.Proofs.SettingsFile -- settings that are saved are loaded again

Settings that have a text are read from it as they were, every one of them to the last bit
(`ofText_text?`), whatever lawful formats the text is written in.  So settings without a fault are
loaded from the file that they were saved to (`loaded_as_saved`); and they are saved wherever
there is a directory, unless their window is larger than any number of a document.

The fields of a section come back in any order, and so do the sections.  Reading one and then
another is the same as the other way round (`Commuting`), so reading them all is the same as
reading them in the order of writing.
-/
import OverlayRouting.Proofs.Formats
import OverlayRouting.Proofs.Overrides
import OverlayRouting.Settings.File

namespace OverlayRouting

set_option autoImplicit false

/-! ## Entries in any order -/

section Order

variable {ε σ α : Type}

/-- Taking the step of one entry and then that of another is the same as the other way round. -/
def Commuting (step : σ → α → Except ε σ) (entries : List α) : Prop :=
  ∀ a ∈ entries, ∀ b ∈ entries, ∀ s, (step s a >>= (step · b)) = (step s b >>= (step · a))

variable {step : σ → α → Except ε σ} {entries entries' : List α}

theorem Commuting.of_cons {a : α} (comm : Commuting step (a :: entries)) : Commuting step entries :=
  fun b member c member' => comm b (List.mem_cons_of_mem a member) c (List.mem_cons_of_mem a member')

theorem Commuting.of_perm (perm : entries.Perm entries') (comm : Commuting step entries) :
    Commuting step entries' :=
  fun a member b member' => comm a (perm.mem_iff.2 member) b (perm.mem_iff.2 member')

theorem Commuting.foldlM_eq (comm : Commuting step entries) (perm : entries.Perm entries') (s : σ) :
    entries.foldlM step s = entries'.foldlM step s := by
  induction perm generalizing s with
  | nil => rfl
  | cons a _ ih =>
      rw [List.foldlM_cons, List.foldlM_cons]
      exact congrArg _ (funext (ih comm.of_cons))
  | swap a b entries =>
      have turned := comm b List.mem_cons_self a (List.mem_cons_of_mem b List.mem_cons_self) s
      simp only [List.foldlM_cons, ← bind_assoc, turned]
  | trans first _ ih ih' => exact (ih comm s).trans (ih' (comm.of_perm first) s)

end Order

/-! ## Values -/

namespace Data

theorem natural?_natCast {n bound : Nat} (small : n < bound) :
    (Data.whole n).natural? bound = some n := if_pos small

theorem fit_eq {α : Type} {read? : Data → Option α} {data : Data} {found : α}
    (reads : read? data = some found) : data.fit read? = .ok found := by
  rw [fit, reads]

theorem setting_encode_UInt64 (n : UInt64) : (encode n).setting = .ok n := by
  refine fit_eq ?_
  change ((Data.whole n.toNat).natural? UInt64.size).map UInt64.ofNat = some n
  rw [natural?_natCast n.toNat_lt, Option.map_some, UInt64.ofNat_toNat]

theorem setting_encode_UInt32 (n : UInt32) : (encode n).setting = .ok n := by
  refine fit_eq ?_
  change ((Data.whole n.toNat).natural? UInt32.size).map UInt32.ofNat = some n
  rw [natural?_natCast n.toNat_lt, Option.map_some, UInt32.ofNat_toNat]

theorem setting_real_widen (x : Float32) : (real (Decimal.widen x)).setting = .ok x :=
  fit_eq (congrArg some (Decimal.narrow_widen x))

theorem setting_encode_Bool (value : Bool) : (encode value).setting = .ok value := rfl

theorem setting_encode_String (value : String) : (encode value).setting = .ok value := rfl

end Data

/-! ## Sections -/

section Sections

variable {read : List (String × Data)}

namespace RouterSettings

open Data (setting_encode_UInt64 setting_real_widen setting_encode_Bool)

theorem commuting_fields (settings : RouterSettings) : Commuting set settings.fields := by
  simp [Commuting, fields, set, setting_encode_UInt64, setting_real_widen, setting_encode_Bool,
    Except.map, bind, Except.bind]

theorem foldlM_fields (settings : RouterSettings) (same : settings.fields.Perm read) :
    read.foldlM set {} = .ok settings := by
  rw [← settings.commuting_fields.foldlM_eq same]
  simp only [fields, List.foldlM_cons, set, setting_encode_UInt64, setting_real_widen,
    setting_encode_Bool]
  rfl

theorem arePlainFields (settings : RouterSettings) : ArePlainFields settings.fields := by
  have plain : ∀ field ∈ settings.fields, field.2.IsPlain := by simp [fields, encode, Data.IsPlain]
  exact arePlainFields_of_names names rfl (by decide) plain

end RouterSettings

namespace LogSettings

open Data (setting_encode_Bool setting_encode_String)

theorem commuting_fields (settings : LogSettings) : Commuting set settings.fields := by
  simp [Commuting, fields, set, setting_encode_Bool, setting_encode_String, Except.map, bind,
    Except.bind]

theorem foldlM_fields (settings : LogSettings) (same : settings.fields.Perm read) :
    read.foldlM set {} = .ok settings := by
  rw [← settings.commuting_fields.foldlM_eq same]
  rfl

theorem arePlainFields (settings : LogSettings) : ArePlainFields settings.fields := by
  have plain : ∀ field ∈ settings.fields, field.2.IsPlain := by simp [fields, encode, Data.IsPlain]
  exact arePlainFields_of_names names rfl (by decide) plain

end LogSettings

variable [formats : Formats]

theorem span_encode (lawful : formats.Lawful) (span : Span) :
    (encode (formats.spanText span)).span = .ok span := lawful.read_span span

namespace ProbeSettings

open Data (setting_encode_UInt32)

theorem commuting_fields (lawful : formats.Lawful) (settings : ProbeSettings) :
    Commuting set settings.fields := by
  simp [Commuting, fields, set, span_encode lawful, setting_encode_UInt32, Except.map, bind,
    Except.bind]

theorem foldlM_fields (lawful : formats.Lawful) (settings : ProbeSettings)
    (same : settings.fields.Perm read) : read.foldlM set {} = .ok settings := by
  rw [← (settings.commuting_fields lawful).foldlM_eq same]
  simp only [fields, List.foldlM_cons, set, span_encode lawful, setting_encode_UInt32]
  rfl

theorem arePlainFields (settings : ProbeSettings) : ArePlainFields settings.fields := by
  have plain : ∀ field ∈ settings.fields, field.2.IsPlain := by simp [fields, encode, Data.IsPlain]
  exact arePlainFields_of_names names rfl (by decide) plain

end ProbeSettings

end Sections

/-! ## Documents and files -/

namespace Settings

section Saved

variable [formats : Formats]

theorem arePlain_sections (settings : Settings) : settings.sections.ArePlain where
  distinct := show ["router", "probe", "logging"].Nodup by decide
  named := by
    simp only [sections, List.forall_mem_cons]
    decide
  fields := by
    simp only [sections, List.forall_mem_cons, List.not_mem_nil, false_imp_iff, implies_true, and_true]
    exact ⟨settings.router.arePlainFields, settings.probe.arePlainFields, settings.log.arePlainFields⟩

theorem set_router (settings : Settings) {router : RouterSettings} {read : List (String × Data)}
    (same : router.fields.Perm read) :
    settings.set ("router", .record read) = .ok { settings with router } := by
  have found : RouterSettings.ofData (.record read) = .ok router := router.foldlM_fields same
  rw [set, found]
  rfl

theorem set_probe (lawful : formats.Lawful) (settings : Settings) {probe : ProbeSettings}
    {read : List (String × Data)} (same : probe.fields.Perm read) :
    settings.set ("probe", .record read) = .ok { settings with probe } := by
  have found : ProbeSettings.ofData (.record read) = .ok probe := probe.foldlM_fields lawful same
  rw [set, found]
  rfl

theorem set_log (settings : Settings) {log : LogSettings} {read : List (String × Data)}
    (same : log.fields.Perm read) :
    settings.set ("logging", .record read) = .ok { settings with log } := by
  have found : LogSettings.ofData (.record read) = .ok log := log.foldlM_fields same
  rw [set, found]
  rfl

/-- Settings are read from whatever document holds them. -/
theorem foldlM_of_heldBy (lawful : formats.Lawful) (settings : Settings)
    {document : List (String × Data)} (held : settings.sections.HeldBy document) :
    document.foldlM set {} = .ok settings := by
  obtain ⟨moved, same, perm⟩ := held
  simp only [sections, List.forall₂_cons_left_iff, List.forall₂_nil_left_iff] at same
  obtain ⟨⟨_, router⟩, _, ⟨rfl, sameRouter⟩, ⟨⟨_, probe⟩, _, ⟨rfl, sameProbe⟩, ⟨⟨_, log⟩, _,
    ⟨rfl, sameLog⟩, rfl, rfl⟩, rfl⟩, rfl⟩ := same
  have readRouter s := set_router s sameRouter
  have readProbe s := set_probe lawful s sameProbe
  have readLog s := set_log s sameLog
  have comm : Commuting set
      (Sections.document [("router", router), ("probe", probe), ("logging", log)]) := by
    simp [Commuting, Sections.document, readRouter, readProbe, readLog, bind, Except.bind]
  rw [← comm.foldlM_eq perm]
  simp only [Sections.document, List.map_cons, List.map_nil, List.foldlM_cons, readRouter, readProbe,
    readLog]
  rfl

/-- Settings are read from their text as they were. -/
theorem ofText_text? (lawful : formats.Lawful) {settings : Settings} {text : String}
    (written : settings.text? = some text) : ofText text = .ok settings := by
  obtain ⟨document, read, held⟩ := lawful.read_write settings.arePlain_sections written
  rw [ofText, read]
  exact foldlM_of_heldBy lawful settings held

theorem fit_sections_iff (settings : Settings) :
    settings.sections.Fit ↔ settings.router.windowSize.toNat < 0x8000000000000000 := by
  have count : settings.probe.count.toNat < 0x8000000000000000 :=
    settings.probe.count.toNat_lt.trans (by decide)
  simp only [Sections.Fit, sections, RouterSettings.fields, ProbeSettings.fields, LogSettings.fields,
    encode, Data.Fits, List.forall_mem_cons, List.not_mem_nil, false_imp_iff, implies_true, and_true,
    true_and]
  omega

theorem text?_eq_none_iff (lawful : formats.Lawful) (settings : Settings) :
    settings.text? = none ↔ 0x8000000000000000 ≤ settings.router.windowSize.toNat := by
  have writes := lawful.writes settings.arePlain_sections
  rw [fit_sections_iff] at writes
  rw [text?, ← Option.not_isSome_iff_eq_none, writes, not_lt]

/-- Saving fails and leaves the place as it is, or leaves the text there. -/
theorem save_cases (settings : Settings) (place : Place) :
    (place = .nowhere ∨ settings.text? = none) ∧ (∃ cause, settings.save place = (.error cause, place)) ∨
      place ≠ .nowhere ∧ ∃ text, settings.text? = some text ∧
        settings.save place = (.ok (), .file (Text.Utf8.encode text)) := by
  rw [save]
  cases settings.text? with
  | none => exact .inl ⟨.inr rfl, _, rfl⟩
  | some text =>
      cases place with
      | nowhere => exact .inl ⟨.inl rfl, _, rfl⟩
      | vacant => exact .inr ⟨nofun, text, rfl, rfl⟩
      | file bytes => exact .inr ⟨nofun, text, rfl, rfl⟩

theorem load_encode (lawful : formats.Lawful) {settings : Settings} {text : String}
    (written : settings.text? = some text) (valid : settings.check = .ok ()) :
    load (.file (Text.Utf8.encode text)) = .ok settings := by
  rw [load, Text.Utf8.strict?_encode]
  simp only [ofText_text? lawful written, valid]

end Saved

/-- Saving settings without a fault fails and leaves the place as it is, or loading gives the
settings, whatever lawful formats are used.  It fails only without a directory, and for a window
that is no number of a document. -/
theorem loaded_as_saved [formats : Formats] (lawful : formats.Lawful) (settings : Settings)
    (valid : settings.check = .ok ()) (place : Place) :
    ((∃ cause, settings.save place = (.error cause, place)) ∨
      ∃ bytes, settings.save place = (.ok (), .file bytes) ∧ load (.file bytes) = .ok settings) ∧
    ((settings.save place).1 = .ok () ↔
      place ≠ .nowhere ∧ settings.router.windowSize.toNat < 0x8000000000000000) := by
  have small := text?_eq_none_iff lawful settings
  rcases settings.save_cases place with ⟨reason, cause, failed⟩ | ⟨somewhere, text, written, saved⟩
  · rw [small] at reason
    refine ⟨.inl ⟨cause, failed⟩, ?_⟩
    rw [failed]
    constructor
    · intro impossible
      cases impossible
    · rintro ⟨somewhere, fits⟩
      exact absurd fits (reason.resolve_left somewhere).not_gt
  · rw [written] at small
    refine ⟨.inr ⟨_, saved, load_encode lawful written valid⟩, ?_⟩
    rw [saved]
    exact iff_of_true rfl ⟨somewhere, not_le.1 fun large => nomatch small.2 large⟩

/-- The sample is loaded from where no file was; a window that is too large leaves a file as
it was. -/
theorem sample_loaded_as_saved :
    let greedy : Settings := { router := { windowSize := 0x8000000000000000 } }
    Formats.standard.Lawful ∧ sample.check = .ok () ∧ greedy.check = .ok () ∧
      (∃ bytes, sample.save .vacant = (.ok (), .file bytes) ∧ load (.file bytes) = .ok sample) ∧
      ∃ cause, greedy.save (.file [35]) = (.error cause, .file [35]) := by
  intro greedy
  have lawful := Formats.standard_lawful
  have valid : sample.check = .ok () := (check_eq_ok_iff sample).2 (by decide)
  have valid' : greedy.check = .ok () := (check_eq_ok_iff greedy).2 (by decide)
  obtain ⟨saved, fits⟩ := loaded_as_saved lawful sample valid .vacant
  obtain ⟨refused, fits'⟩ := loaded_as_saved lawful greedy valid' (.file [35])
  refine ⟨lawful, valid, valid', saved.resolve_left ?_, refused.resolve_right ?_⟩
  · rintro ⟨cause, failed⟩
    have succeeds := fits.2 ⟨nofun, by decide⟩
    rw [failed] at succeeds
    cases succeeds
  · rintro ⟨bytes, succeeds, -⟩
    have small := (fits'.1 (by rw [succeeds])).2
    exact absurd small (by decide)

end Settings

end OverlayRouting
