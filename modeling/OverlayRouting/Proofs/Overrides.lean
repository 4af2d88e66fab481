/-
# OverlayRouting.Proofs.Overrides -- the environment keeps valid settings valid

What a variable may say is never a fault of the setting that it overrides: a size that is read is
positive (`windowSize?_eq_some_iff`), and margins that are read are numbers that are not negative
(`margins?_eq_some_iff`).  Each variable governs its own part of the settings, the margins being
one part, and has nothing to do with the other variables (`Governs`).  So settings without a fault
have none when they are overridden (`override_valid`).
-/
import Mathlib.Data.Option.Basic
import OverlayRouting.Settings.Environment

namespace OverlayRouting

set_option autoImplicit false

/-! ## What the variables say -/

namespace Environment

theorem windowSize?_eq_some_iff (text : String) (size : UInt64) :
    windowSize? text = some size ↔
      Decimal.whole? (Text.trimChars text.toList) = some (size.toNat : Int) ∧ 0 < size.toNat := by
  simp only [windowSize?, Option.bind_eq_bind, Option.bind_eq_some_iff, Option.guard_eq_some',
    exists_const, Option.some.injEq]
  constructor
  · rintro ⟨number, read, ⟨positive, fits⟩, rfl⟩
    have same : (UInt64.ofNat number.toNat).toNat = number.toNat := UInt64.toNat_ofNat_of_lt (by omega)
    rw [same, Int.toNat_of_nonneg (Int.le_of_lt positive)]
    exact ⟨read, by omega⟩
  · rintro ⟨read, positive⟩
    have fits : size.toNat < UInt64.size := size.toNat_lt
    refine ⟨_, read, ⟨by omega, by omega⟩, ?_⟩
    rw [Int.toNat_natCast, UInt64.ofNat_toNat]

theorem margins?_eq_some_iff (text : String) (margins : Margins) :
    margins? text = some margins ↔ ∃ diff ratio,
      Text.cutAt? ',' text.toList = some (diff, ratio) ∧
      Decimal.single? (Text.trimChars diff) = some margins.diff ∧
      Decimal.single? (Text.trimChars ratio) = some margins.ratio ∧
      0 ≤ margins.diff ∧ 0 ≤ margins.ratio := by
  simp only [margins?, Option.bind_eq_bind, Option.bind_eq_some_iff, Option.guard_eq_some',
    exists_const, Option.some.injEq, Prod.exists]
  constructor
  · rintro ⟨diff, ratio, cut, _, first, _, second, nonneg, rfl⟩
    exact ⟨diff, ratio, cut, first, second, nonneg⟩
  · rintro ⟨diff, ratio, cut, first, second, nonneg⟩
    exact ⟨diff, ratio, cut, _, first, _, second, nonneg, rfl⟩

end Environment

/-! ## Parts of the settings -/

namespace Settings

/-- A variable governs a part of the settings.  The part becomes what the variable says, it stays
what it was if the variable is not set or says nothing that the part may be, and no other variable
counts for it. -/
structure Governs {α : Type} (name : String) (said? : String → Option α) (part : Settings → α) :
    Prop where
  said : ∀ settings environment text value, environment name = some text →
    said? text = some value → part (override settings environment) = value
  unset : ∀ settings environment, environment name = none →
    part (override settings environment) = part settings
  unfit : ∀ settings environment text, environment name = some text → said? text = none →
    part (override settings environment) = part settings
  alone : ∀ settings environment environment', environment name = environment' name →
    part (override settings environment) = part (override settings environment')

section

variable {α : Type} {name : String} {said? : String → Option α} {part : Settings → α}

theorem governs_of_getD (overridden : ∀ settings environment, part (override settings environment) =
    ((environment name).bind said?).getD (part settings)) : Governs name said? part where
  said settings environment text value set reads := by
    rw [overridden, set, Option.bind_some, reads, Option.getD_some]
  unset settings environment absent := by
    rw [overridden, absent, Option.bind_none, Option.getD_none]
  unfit settings environment text set nothing := by
    rw [overridden, set, Option.bind_some, nothing, Option.getD_none]
  alone settings environment environment' same := by rw [overridden, overridden, same]

/-- What holds of the part before and of all that the variable may say holds of it afterwards. -/
theorem Governs.keeps (governs : Governs name said? part) (holds : α → Prop)
    (fits : ∀ text value, said? text = some value → holds value) (settings : Settings)
    (environment : Environment) (before : holds (part settings)) :
    holds (part (settings.override environment)) := by
  cases set : environment name with
  | none => rwa [governs.unset settings environment set]
  | some text =>
      cases reads : said? text with
      | none => rwa [governs.unfit settings environment text set reads]
      | some value =>
          rw [governs.said settings environment text value set reads]
          exact fits text value reads

end

theorem governs_cleanupOnExit :
    Governs Environment.cleanupOnExit Environment.flag? (·.router.cleanupOnExit) :=
  governs_of_getD fun _ _ => rfl

theorem governs_vpnClient : Governs Environment.vpnClient Environment.flag? (·.router.vpnClient) :=
  governs_of_getD fun _ _ => rfl

theorem governs_windowSize :
    Governs Environment.windowSize Environment.windowSize? (·.router.windowSize) :=
  governs_of_getD fun _ _ => rfl

theorem governs_margins : Governs Environment.margins Environment.margins? (·.router.margins) :=
  governs_of_getD fun _ _ => rfl

/-! ## Faults -/

theorem check_eq_ok_iff (settings : Settings) : settings.check = .ok () ↔ settings.faults = [] := by
  rw [check]
  split <;> simp_all

theorem faults_eq_nil_iff (settings : Settings) : settings.faults = [] ↔
    settings.router.windowSize ≠ 0 ∧
    (0 ≤ settings.router.margins.diff ∧ 0 ≤ settings.router.margins.ratio) ∧
    (settings.probe.interval.nanos ≠ 0 ∧ settings.probe.applyInterval.nanos ≠ 0) ∧
    settings.probe.timeout.nanos ≠ 0 ∧ settings.probe.count ≠ 0 ∧
    settings.log.format ∈ logFormats := by
  simp [faults, marginsHold, RouterSettings.margins, and_assoc]

theorem override_valid (settings : Settings) (valid : settings.check = .ok ())
    (environment : Environment) :
    (settings.override environment).check = .ok () ∧
      (settings.override environment).probe = settings.probe ∧
      (settings.override environment).log = settings.log ∧
      Governs Environment.cleanupOnExit Environment.flag? (·.router.cleanupOnExit) ∧
      Governs Environment.vpnClient Environment.flag? (·.router.vpnClient) ∧
      Governs Environment.windowSize Environment.windowSize? (·.router.windowSize) ∧
      Governs Environment.margins Environment.margins? (·.router.margins) := by
  rw [check_eq_ok_iff, faults_eq_nil_iff] at valid ⊢
  obtain ⟨windowSize, margins, rest⟩ := valid
  refine ⟨⟨?_, ?_, rest⟩, rfl, rfl, governs_cleanupOnExit, governs_vpnClient, governs_windowSize,
    governs_margins⟩
  · refine governs_windowSize.keeps (· ≠ 0) (fun text size reads => ?_) settings environment
      windowSize
    rintro rfl
    exact Nat.lt_irrefl 0 ((Environment.windowSize?_eq_some_iff text 0).1 reads).2
  · refine governs_margins.keeps (fun margins => 0 ≤ margins.diff ∧ 0 ≤ margins.ratio)
      (fun text margins reads => ?_) settings environment margins
    obtain ⟨-, -, -, -, -, nonneg⟩ := (Environment.margins?_eq_some_iff text margins).1 reads
    exact nonneg

/-- A size of zero and a ratio that is no number are not taken over, and a diff not without its
ratio. -/
theorem override_valid_in_part :
    let environment : Environment := fun name =>
      if name = Environment.vpnClient then some " YES\n"
      else if name = Environment.windowSize then some "0"
      else if name = Environment.margins then some "5,nan"
      else none
    sample.check = .ok () ∧ (sample.override environment).check = .ok () ∧
      (sample.override environment).router.cleanupOnExit = sample.router.cleanupOnExit ∧
      (sample.override environment).router.vpnClient = true ∧
      (sample.override environment).router.windowSize = sample.router.windowSize ∧
      (sample.override environment).router.margins = sample.router.margins := by
  intro environment
  have valid : sample.check = .ok () := (check_eq_ok_iff sample).2 (by decide)
  obtain ⟨still, -, -, cleanupOnExit, vpnClient, windowSize, margins⟩ :=
    override_valid sample valid environment
  refine ⟨valid, still, ?_, ?_, ?_, ?_⟩
  · exact cleanupOnExit.unset sample environment (by decide)
  · exact vpnClient.said sample environment " YES\n" true (by decide) (by decide)
  · exact windowSize.unfit sample environment "0" (by decide) (by decide)
  · exact margins.unfit sample environment "5,nan" (by decide) (by decide)

end Settings

end OverlayRouting
