/-
# OverlayRouting.Text.Utf8 -- characters from bytes

`scan` looks at the front of a byte sequence: either a whole character stands
there, or bytes that belong to none.  Of the latter it takes the longest start of
a well-formed sequence, or one byte if not even that begins one.  Reading strictly
refuses such bytes; reading leniently puts U+FFFD in the place of each run that
`scan` takes.  What `encode` writes is read as it was (`strict?_encode`).
-/
namespace OverlayRouting.Text.Utf8

set_option autoImplicit false

/-- What stands at the front of a byte sequence, and the bytes behind it. -/
inductive Front where
  | character (c : Char) (rest : List UInt8)
  | broken (rest : List UInt8)

/-- What a first byte promises: the bits it gives, how many bytes follow, and
the range that the second byte has to be in. -/
structure Lead where
  bits : Nat
  following : Nat
  low : Nat := 0x80
  high : Nat := 0xBF

/-- The first bytes of well-formed sequences.  The narrower ranges of a second
byte shut out overlong forms, surrogates and what lies above U+10FFFF. -/
def lead? (byte : UInt8) : Option Lead :=
  let b := byte.toNat
  if b < 0x80 then some { bits := b, following := 0 }
  else if b < 0xC2 then none
  else if b < 0xE0 then some { bits := b - 0xC0, following := 1 }
  else if b = 0xE0 then some { bits := 0, following := 2, low := 0xA0 }
  else if b = 0xED then some { bits := 0xD, following := 2, high := 0x9F }
  else if b < 0xF0 then some { bits := b - 0xE0, following := 2 }
  else if b = 0xF0 then some { bits := 0, following := 3, low := 0x90 }
  else if b < 0xF4 then some { bits := b - 0xF0, following := 3 }
  else if b = 0xF4 then some { bits := 4, following := 3, high := 0x8F }
  else none

/-- Take `following` more bytes into `bits`; the next one lies in `low..high`. -/
def follow (low high : Nat) : (following bits : Nat) → List UInt8 → Front
  | 0, bits, bytes => .character (Char.ofNat bits) bytes
  | following + 1, bits, bytes =>
      match bytes with
      | [] => .broken []
      | byte :: rest =>
          if low ≤ byte.toNat ∧ byte.toNat ≤ high then
            follow 0x80 0xBF following (bits * 64 + (byte.toNat - 0x80)) rest
          else .broken (byte :: rest)

def scan (byte : UInt8) (rest : List UInt8) : Front :=
  match lead? byte with
  | none => .broken rest
  | some lead => follow lead.low lead.high lead.following lead.bits rest

def Front.rest : Front → List UInt8
  | .character _ rest => rest
  | .broken rest => rest

theorem follow_rest_le (low high following bits : Nat) (bytes : List UInt8) :
    (follow low high following bits bytes).rest.length ≤ bytes.length := by
  induction following generalizing low high bits bytes with
  | zero => exact Nat.le_refl _
  | succ n ih =>
      cases bytes with
      | nil => exact Nat.le_refl _
      | cons byte rest =>
          simp only [follow]
          split
          · exact Nat.le_trans (ih ..) (Nat.le_succ _)
          · exact Nat.le_refl _

theorem scan_rest_le (byte : UInt8) (rest : List UInt8) :
    (scan byte rest).rest.length ≤ rest.length := by
  simp only [scan]
  split
  · exact Nat.le_refl _
  · exact follow_rest_le ..

set_option linter.unusedVariables false in
/-- The characters of a byte sequence; bytes that belong to none give `none`. -/
def decode : List UInt8 → List (Option Char)
  | [] => []
  | byte :: rest =>
      have shorter := scan_rest_le byte rest
      match found : scan byte rest with
      | .character c others => some c :: decode others
      | .broken others => none :: decode others
termination_by bytes => bytes.length
decreasing_by
  all_goals
    simp only [found, Front.rest] at shorter
    simp only [List.length_cons]
    omega

/-- The text that the bytes encode, if they encode one. -/
def strict? (bytes : List UInt8) : Option String :=
  ((decode bytes).mapM id).map String.ofList

/-- The text of the bytes, with U+FFFD for each run that is no character. -/
def lenient (bytes : List UInt8) : String :=
  String.ofList ((decode bytes).map fun c => c.getD (Char.ofNat 0xFFFD))

/-! ## Writing -/

/-- The last six bits of a number, as a byte that follows another one. -/
def follower (n : Nat) : UInt8 := UInt8.ofNat (0x80 + n % 64)

def encodeChar (c : Char) : List UInt8 :=
  let n := c.toNat
  if n < 0x80 then [UInt8.ofNat n]
  else if n < 0x800 then [UInt8.ofNat (0xC0 + n / 64), follower n]
  else if n < 0x10000 then [UInt8.ofNat (0xE0 + n / 4096), follower (n / 64), follower n]
  else [UInt8.ofNat (0xF0 + n / 262144), follower (n / 4096), follower (n / 64), follower n]

/-- The bytes that encode a text. -/
def encode (text : String) : List UInt8 := text.toList.flatMap encodeChar

theorem toNat_follower (n : Nat) : (follower n).toNat = 0x80 + n % 64 := by
  simp only [follower, UInt8.toNat_ofNat']
  omega

theorem toNat_lead {n : Nat} (small : n < 256) : (UInt8.ofNat n).toNat = n := by
  simp only [UInt8.toNat_ofNat']
  omega

/-- A byte that follows another one is taken as six bits. -/
theorem follow_follower {low high following bits n : Nat} (bytes : List UInt8)
    (above : low ≤ 0x80 + n % 64) (below : 0x80 + n % 64 ≤ high) :
    follow low high (following + 1) bits (follower n :: bytes) =
      follow 0x80 0xBF following (bits * 64 + n % 64) bytes := by
  simp only [follow, toNat_follower]
  rw [if_pos ⟨above, below⟩, Nat.add_sub_cancel_left]

/-- The first byte of two. -/
theorem lead?_two {b : Nat} (low : 0xC2 ≤ b) (high : b < 0xE0) :
    lead? (UInt8.ofNat b) = some { bits := b - 0xC0, following := 1 } := by
  simp only [lead?, toNat_lead (show b < 256 by omega)]
  rw [if_neg (by omega), if_neg (by omega), if_pos high]

/-- The first byte of three: the second one is high behind the first such byte and
low behind the one of the surrogates. -/
theorem lead?_three {b : Nat} (low : 0xE0 ≤ b) (high : b < 0xF0) :
    lead? (UInt8.ofNat b) =
      some { bits := b - 0xE0, following := 2, low := if b = 0xE0 then 0xA0 else 0x80
             high := if b = 0xED then 0x9F else 0xBF } := by
  simp only [lead?, toNat_lead (show b < 256 by omega)]
  rw [if_neg (by omega), if_neg (by omega), if_neg (by omega)]
  by_cases first : b = 0xE0
  · simp [first]
  · by_cases surrogate : b = 0xED
    · simp [surrogate]
    · simp [first, surrogate, high]

/-- The first byte of four: likewise, and behind the last one no more than U+10FFFF. -/
theorem lead?_four {b : Nat} (low : 0xF0 ≤ b) (high : b ≤ 0xF4) :
    lead? (UInt8.ofNat b) =
      some { bits := b - 0xF0, following := 3, low := if b = 0xF0 then 0x90 else 0x80
             high := if b = 0xF4 then 0x8F else 0xBF } := by
  simp only [lead?, toNat_lead (show b < 256 by omega)]
  rw [if_neg (by omega), if_neg (by omega), if_neg (by omega), if_neg (by omega), if_neg (by omega),
    if_neg (by omega)]
  by_cases first : b = 0xF0
  · simp [first]
  · by_cases last : b = 0xF4
    · simp [last]
    · rw [if_neg first, if_pos (by omega)]
      simp [first, last]

/-- The bytes of a character, split as `scan` wants them, are read as it. -/
theorem scan_encodeChar (c : Char) (bytes : List UInt8) :
    ∃ byte rest, encodeChar c ++ bytes = byte :: rest ∧ scan byte rest = .character c bytes := by
  have valid : c.toNat < 0xD800 ∨ 0xDFFF < c.toNat ∧ c.toNat < 0x110000 := c.valid
  have same : Char.ofNat c.toNat = c := Char.ofNat_toNat c
  simp only [encodeChar]
  split
  · refine ⟨_, bytes, rfl, ?_⟩
    simp only [scan, lead?, toNat_lead (show c.toNat < 256 by omega), if_pos ‹c.toNat < 0x80›, follow, same]
  · split
    · refine ⟨_, follower c.toNat :: bytes, rfl, ?_⟩
      simp only [scan, lead?_two (show 0xC2 ≤ 0xC0 + c.toNat / 64 by omega) (by omega)]
      rw [follow_follower, follow,
        show (0xC0 + c.toNat / 64 - 0xC0) * 64 + c.toNat % 64 = c.toNat by omega, same]
      all_goals omega
    · split
      · refine ⟨_, follower (c.toNat / 64) :: follower c.toNat :: bytes, rfl, ?_⟩
        simp only [scan, lead?_three (show 0xE0 ≤ 0xE0 + c.toNat / 4096 by omega) (by omega)]
        rw [follow_follower, follow_follower, follow,
          show ((0xE0 + c.toNat / 4096 - 0xE0) * 64 + c.toNat / 64 % 64) * 64 + c.toNat % 64 =
            c.toNat by omega, same]
        rotate_right 2
        · split <;> omega
        · split <;> omega
        all_goals omega
      · refine ⟨_, follower (c.toNat / 4096) :: follower (c.toNat / 64) :: follower c.toNat :: bytes,
          rfl, ?_⟩
        simp only [scan, lead?_four (show 0xF0 ≤ 0xF0 + c.toNat / 262144 by omega) (by omega)]
        rw [follow_follower, follow_follower, follow_follower, follow,
          show (((0xF0 + c.toNat / 262144 - 0xF0) * 64 + c.toNat / 4096 % 64) * 64 +
            c.toNat / 64 % 64) * 64 + c.toNat % 64 = c.toNat by omega, same]
        rotate_right 2
        · split <;> omega
        · split <;> omega
        all_goals omega

theorem decode_flatMap_encodeChar (cs : List Char) : decode (cs.flatMap encodeChar) = cs.map some := by
  induction cs with
  | nil => simp [decode]
  | cons c rest ih =>
      obtain ⟨byte, bytes, split, scanned⟩ := scan_encodeChar c (rest.flatMap encodeChar)
      rw [List.flatMap_cons, split, decode]
      split
      · rename_i found
        rw [scanned] at found
        cases found
        rw [ih]
        rfl
      · rename_i found
        rw [scanned] at found
        cases found

theorem mapM_id_map_some {α : Type} (xs : List α) : (xs.map some).mapM id = some xs := by
  induction xs with
  | nil => rfl
  | cons x rest ih => simp [ih]

theorem strict?_encode (text : String) : strict? (encode text) = some text := by
  rw [strict?, encode, decode_flatMap_encodeChar, mapM_id_map_some, Option.map_some, String.ofList_toList]

theorem lenient_encode (text : String) : lenient (encode text) = text := by
  rw [lenient, encode, decode_flatMap_encodeChar, List.map_map]
  simp [Function.comp_def]

end OverlayRouting.Text.Utf8
