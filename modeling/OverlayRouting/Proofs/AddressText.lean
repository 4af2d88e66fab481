/-
# OverlayRouting.Proofs.AddressText -- what is written is read back

An address is read back from its text by either spelling, whatever stands behind the text
that cannot continue it (`read?_text`); so an address and a prefix are read back from their
own text, and two prefixes with the same text are one (`Prefix.text_inj`).

A reader takes all the digits that it finds, so each step needs to know where they end:
`Ends p rest` says that `rest` does not start with one.  The groups of IPv6 are read one
after the other (`someGroups_spelled`) until something stops them (`someGroups_stop`).  The
gap stands for a run of zeros because `longestRun` only ever remembers such runs
(`zeros_longestRun`).
-/
import Mathlib.Tactic.Common
import OverlayRouting.Prefix
import OverlayRouting.Text.Blank

namespace OverlayRouting

set_option autoImplicit false

namespace Text

/-- The text does not start with such a character. -/
def Ends (p : Char → Bool) (cs : List Char) : Prop := ∀ c, cs.head? = some c → p c = false

theorem ends_nil (p : Char → Bool) : Ends p [] := by
  intro c first
  cases first

theorem ends_cons {p : Char → Bool} {c : Char} {cs : List Char} :
    Ends p (c :: cs) ↔ p c = false := by
  simp [Ends]

theorem Ends.mono {p q : Char → Bool} {cs : List Char} (ends : Ends p cs)
    (weaker : ∀ c, p c = false → q c = false) : Ends q cs :=
  fun c first => weaker c (ends c first)

/-- What is taken from the front is all that belongs there. -/
theorem takeWhile_of_ends {p : Char → Bool} {cs rest : List Char} (all : ∀ c ∈ cs, p c = true)
    (ends : Ends p rest) : (cs ++ rest).takeWhile p = cs := by
  rw [List.takeWhile_append_of_pos all]
  cases rest with
  | nil => simp
  | cons c more => simp [ends_cons.1 ends]

theorem dropWhile_of_ends {p : Char → Bool} {cs rest : List Char} (all : ∀ c ∈ cs, p c = true)
    (ends : Ends p rest) : (cs ++ rest).dropWhile p = rest := by
  rw [List.dropWhile_append_of_pos all]
  cases rest with
  | nil => rfl
  | cons c more => simp [ends_cons.1 ends]

theorem expect?_of_ends {c : Char} {cs : List Char} (ends : Ends (· == c) cs) :
    expect? c cs = none := by
  cases cs with
  | nil => rfl
  | cons d rest =>
      have differ := ends_cons.1 ends
      simp only [beq_eq_false_iff_ne] at differ
      rw [expect?, if_neg (Ne.symm differ)]

theorem expect?_cons (c : Char) (rest : List Char) : expect? c (c :: rest) = some rest :=
  if_pos rfl

theorem toNat_of_isDigit {c : Char} (digit : c.isDigit = true) : 48 ≤ c.toNat ∧ c.toNat ≤ 57 := by
  simpa [Char.isDigit, UInt32.le_iff_toNat_le] using digit

theorem isDigitOf_of_isDigit {c : Char} (digit : c.isDigit = true) : isDigitOf 10 c = true := by
  have range := toNat_of_isDigit digit
  have zero : '0'.toNat = 48 := rfl
  rw [isDigitOf, digitValue, if_pos digit, decide_eq_true_eq, zero]
  omega

theorem not_isBlank_of_isDigit {c : Char} (digit : c.isDigit = true) : isBlank c = false := by
  have range := toNat_of_isDigit digit
  rw [← Bool.not_eq_true]
  simp [isBlank, blankRanges]
  omega

theorem isAlpha_iff {c : Char} : c.isAlpha = true ↔
    (65 ≤ c.toNat ∧ c.toNat ≤ 90) ∨ (97 ≤ c.toNat ∧ c.toNat ≤ 122) := by
  change (decide (65 ≤ c.val ∧ c.val ≤ 90) ||
    (decide (97 ≤ c.val) && decide (c.val ≤ 122))) = true ↔ _
  simp [UInt32.le_iff_toNat_le]

theorem not_isAlpha_of_isDigit {c : Char} (digit : c.isDigit = true) : c.isAlpha = false := by
  have range := toNat_of_isDigit digit
  rw [← Bool.not_eq_true, isAlpha_iff]
  omega

/-- Visible characters of ASCII only. -/
def IsPlain (cs : List Char) : Prop := ∀ c ∈ cs, 33 ≤ c.toNat ∧ c.toNat < 127

instance (cs : List Char) : Decidable (IsPlain cs) := List.decidableBAll _ cs

theorem isPlain_cons {c : Char} {cs : List Char} :
    IsPlain (c :: cs) ↔ (33 ≤ c.toNat ∧ c.toNat < 127) ∧ IsPlain cs :=
  List.forall_mem_cons

theorem isPlain_append {front back : List Char} :
    IsPlain (front ++ back) ↔ IsPlain front ∧ IsPlain back :=
  List.forall_mem_append

theorem IsPlain.visible {cs : List Char} (plain : IsPlain cs) {c : Char} (member : c ∈ cs) :
    isBlank c = false := by
  have bounds := plain c member
  simp only [isBlank, blankRanges, List.any_cons, List.any_nil, Bool.or_false, Bool.or_eq_false_iff,
    Bool.and_eq_false_iff, decide_eq_false_iff_not]
  omega

theorem IsPlain.nul_not_mem {cs : List Char} (plain : IsPlain cs) : '\x00' ∉ cs := by
  intro member
  have low := (plain _ member).1
  revert low
  decide

theorem isPlain_toDigits {base : Nat} (above : 1 < base) (below : base ≤ 16) (n : Nat) :
    IsPlain (Nat.toDigits base n) := by
  intro c member
  obtain ⟨digit, small, rfl⟩ := exists_of_mem_toDigits above member
  have hexadecimal : ∀ digit, digit < 16 →
      33 ≤ digit.digitChar.toNat ∧ digit.digitChar.toNat < 127 := by decide
  exact hexadecimal digit (by omega)

end Text

namespace Address

open Text (Ends ends_cons digits ofDigits isDigitOf expect?_cons isPlain_cons isPlain_append
  isPlain_toDigits)

variable {spelling : Spelling}

/-! ## Numbers -/

/-- A number is read up to where its digits end. -/
theorem number?_toDigits {base most bound n : Nat} {zeroMayLead : Bool} {rest : List Char}
    (above : 1 < base) (below : base ≤ 16) (room : 0 < most) (few : n < Nat.pow base most)
    (small : n < bound) (ends : Ends (isDigitOf base) rest) :
    number? base most bound zeroMayLead (Nat.toDigits base n ++ rest) = some (n, rest) := by
  have all : ∀ c ∈ Nat.toDigits base n, isDigitOf base c = true :=
    fun c => Text.isDigitOf_of_mem_toDigits above below
  have short := (Nat.length_toDigits_le_iff above room).2 few
  -- the check for a zero in front concerns only numbers with more than one digit
  have led : ¬ (1 < (Nat.toDigits base n).length ∧ (Nat.toDigits base n).head? = some '0') := by
    rintro ⟨long, zero⟩
    by_cases nothing : n = 0
    · rw [nothing, Nat.toDigits_zero, List.length_singleton] at long
      omega
    · exact Text.head?_toDigits_ne above (by omega) zero
  simp only [number?, Text.takeWhile_of_ends all ends, Text.dropWhile_of_ends all ends,
    Text.numberOf_toDigits above below]
  rw [if_neg, if_neg]
  · simp only [Bool.and_eq_true, decide_eq_true_eq, beq_iff_eq, not_and]
    exact fun strict zero => led ⟨strict.2, zero⟩
  · simp only [Bool.or_eq_true, decide_eq_true_eq, List.isEmpty_iff, not_or]
    exact ⟨⟨Nat.toDigits_ne_nil, by omega⟩, by omega⟩

theorem number?_of_ends {base most bound : Nat} {zeroMayLead : Bool} {cs : List Char}
    (ends : Ends (isDigitOf base) cs) : number? base most bound zeroMayLead cs = none := by
  have nothing : cs.takeWhile (isDigitOf base) = [] :=
    Text.takeWhile_of_ends (List.forall_mem_nil _) ends
  simp only [number?, nothing]
  rfl

/-- What is left of the digits of a number starts with none. -/
theorem number?_rest {base most bound n : Nat} {zeroMayLead : Bool} {cs rest : List Char}
    (read : number? base most bound zeroMayLead cs = some (n, rest)) :
    rest = cs.dropWhile (isDigitOf base) := by
  simp only [number?] at read
  split at read
  · cases read
  · split at read
    · cases read
    · cases read
      rfl

/-! ## Octets -/

theorem toList_joined (mark : Char) {separator : String} (only : separator.toList = [mark])
    (first : String) (others : List String) :
    (joined separator (first :: others)).toList =
      first.toList ++ others.flatMap fun text => mark :: text.toList := by
  rw [joined, String.toList_intercalate, only]
  induction others generalizing first with
  | nil => simp [List.intercalate]
  | cons second others ih =>
      have rest := ih second
      simp only [List.map_cons, List.intercalate_cons_cons, List.flatMap_cons] at rest ⊢
      rw [rest]
      simp

/-- Octets, each behind a point. -/
def pointed (octets : List Nat) : List Char :=
  octets.flatMap fun octet => '.' :: Nat.toDigits 10 octet

theorem ends_pointed {octets : List Nat} {rest : List Char} (ends : Ends (isDigitOf 10) rest) :
    Ends (isDigitOf 10) (pointed octets ++ rest) := by
  cases octets with
  | nil => exact ends
  | cons octet more => exact ends_cons.2 (by decide)

theorem moreOctets?_pointed {octets : List Nat} {rest : List Char}
    (small : ∀ octet ∈ octets, octet < 256) (ends : Ends (isDigitOf 10) rest) :
    moreOctets? spelling octets.length (pointed octets ++ rest) = some (octets, rest) := by
  induction octets with
  | nil => rfl
  | cons octet more ih =>
      have front : pointed (octet :: more) ++ rest =
          '.' :: (Nat.toDigits 10 octet ++ (pointed more ++ rest)) := by
        simp [pointed]
      have one := small octet List.mem_cons_self
      simp only [List.length_cons, moreOctets?, front, expect?_cons, Option.bind_eq_bind,
        Option.bind_some]
      rw [number?_toDigits (by decide) (by decide) (by decide) (Nat.lt_trans one (by decide)) one
          (ends_pointed ends), Option.bind_some,
        ih fun other member => small other (List.mem_cons_of_mem _ member)]
      rfl

theorem dotted_spec (bits : Nat) : ∃ first others, octets bits = first :: others ∧
    others.length = 3 ∧ (∀ octet ∈ first :: others, octet < 256) ∧
    (dotted bits).toList = Nat.toDigits 10 first ++ pointed others := by
  have length : (octets bits).length = 4 := Text.length_digits 256 4 bits
  have small : ∀ octet ∈ octets bits, octet < 256 := fun octet =>
    Text.lt_of_mem_digits (by decide)
  cases split : octets bits with
  | nil => simp [split] at length
  | cons first others =>
      rw [split] at length small
      refine ⟨first, others, rfl, Nat.succ.inj length, small, ?_⟩
      rw [dotted, split, List.map_cons, toList_joined '.' rfl, pointed, List.flatMap_map]
      simp

theorem v4?_dotted {bits : Nat} {rest : List Char} (small : bits < UInt32.size)
    (ends : Ends (isDigitOf 10) rest) :
    v4? spelling ((dotted bits).toList ++ rest) = some (BitVec.ofNat 32 bits, rest) := by
  obtain ⟨first, others, split, three, each, text⟩ := dotted_spec bits
  have one := each first List.mem_cons_self
  simp only [v4?, text, List.append_assoc, Option.bind_eq_bind]
  rw [number?_toDigits (by decide) (by decide) (by decide) (Nat.lt_trans one (by decide)) one
      (ends_pointed ends), Option.bind_some, ← three,
    moreOctets?_pointed (fun octet member => each octet (List.mem_cons_of_mem _ member)) ends,
    Option.bind_some, ← split]
  show some (BitVec.ofNat 32 (ofDigits 256 (digits 256 4 bits)), rest) = _
  rw [Text.ofDigits_digits 256 4 bits small]

/-- Neither a digit nor a point, so neither a group nor an octet goes on with it. -/
def closes (c : Char) : Bool := isDigitOf 16 c || c == '.'

theorem ends_of_closes {base : Nat} {rest : List Char} (below : base ≤ 16)
    (ends : Ends closes rest) : Ends (isDigitOf base) rest := by
  refine ends.mono fun c outside => ?_
  simp only [closes, isDigitOf, Bool.or_eq_false_iff, decide_eq_false_iff_not] at outside ⊢
  omega

theorem ends_dropWhile {front rest : List Char} (pointless : '.' ∉ front)
    (ends : Ends closes rest) :
    Ends (· == '.') ((front ++ rest).dropWhile (isDigitOf 10)) := by
  induction front with
  | nil =>
      rw [Text.dropWhile_of_ends (List.forall_mem_nil _)
        (ends_of_closes (show 10 ≤ 16 by decide) ends)]
      exact ends.mono fun c outside => (Bool.or_eq_false_iff.1 outside).2
  | cons c more ih =>
      rw [List.mem_cons, not_or] at pointless
      by_cases digit : isDigitOf 10 c = true
      · rw [List.cons_append, List.dropWhile_cons_of_pos digit]
        exact ih pointless.2
      · rw [List.cons_append, List.dropWhile_cons_of_neg digit]
        exact ends_cons.2 (beq_eq_false_iff_ne.2 (Ne.symm pointless.1))

/-- A number with no point behind it does not start an IPv4 address. -/
theorem v4?_of_ends {front rest : List Char} (pointless : '.' ∉ front) (ends : Ends closes rest) :
    v4? spelling (front ++ rest) = none := by
  simp only [v4?, Option.bind_eq_bind]
  cases read : number? 10 3 256 spelling.zeroMayLead (front ++ rest) with
  | none => rfl
  | some found =>
      obtain ⟨octet, cs⟩ := found
      rw [Option.bind_some, number?_rest read]
      simp only [moreOctets?, Text.expect?_of_ends (ends_dropWhile pointless ends),
        Option.bind_eq_bind, Option.bind_none]

/-! ## Groups -/

/-- Groups with a colon in front of each but the first of all. -/
def spelled (first : Bool) : List Nat → List Char
  | [] => []
  | group :: more => (if first then [] else [':']) ++ Nat.toDigits 16 group ++ spelled false more

theorem toList_colons (parts : List Nat) : (colons parts).toList = spelled true parts := by
  have others : ∀ parts : List Nat,
      (parts.flatMap fun group => ':' :: Nat.toDigits 16 group) = spelled false parts := by
    intro parts
    induction parts with
    | nil => rfl
    | cons group more ih => simp [spelled, ih]
  cases parts with
  | nil => rfl
  | cons first more =>
      rw [colons, List.map_cons, toList_joined ':' rfl, List.flatMap_map, spelled, ← others]
      simp [hexGroup]

theorem afterColon?_spelled (first : Bool) (group : Nat) (more : List Nat) (rest : List Char) :
    afterColon? first (spelled first (group :: more) ++ rest) =
      some (spelled true (group :: more) ++ rest) := by
  cases first <;> simp [afterColon?, spelled, expect?_cons]

theorem ends_spelled (parts : List Nat) {rest : List Char} (ends : Ends closes rest) :
    Ends closes (spelled false parts ++ rest) := by
  cases parts with
  | nil => exact ends
  | cons group more => exact ends_cons.2 (by decide)

theorem spelled_append (group : Nat) (more : List Nat) (rest : List Char) :
    spelled true (group :: more) ++ rest =
      Nat.toDigits 16 group ++ (spelled false more ++ rest) := by
  simp [spelled]

/-- Groups do not start with an IPv4 address. -/
theorem v4?_spelled (parts : List Nat) {rest : List Char} (ends : Ends closes rest) :
    v4? spelling (spelled true parts ++ rest) = none := by
  cases parts with
  | nil => exact v4?_of_ends List.not_mem_nil ends
  | cons group more =>
      have pointless : '.' ∉ Nat.toDigits 16 group := by
        intro point
        have digit := Text.isDigitOf_of_mem_toDigits (by decide) (by decide) point
        revert digit
        decide
      rw [spelled_append, v4?_of_ends pointless (ends_spelled more ends)]

theorem number?_spelled {group : Nat} (small : group < 65536) (more : List Nat) {rest : List Char}
    (ends : Ends closes rest) :
    number? 16 4 65536 true (spelled true (group :: more) ++ rest) =
      some (group, spelled false more ++ rest) := by
  rw [spelled_append, number?_toDigits (by decide) (by decide) (by decide) small small
    (ends_of_closes (by decide) (ends_spelled more ends))]

/-- Groups that are written down are read, and then what stands behind them. -/
theorem someGroups_spelled {parts : List Nat} {rest : List Char} (room : Nat) (first : Bool)
    (small : ∀ group ∈ parts, group < 65536) (fits : parts.length ≤ room)
    (ends : Ends closes rest) :
    someGroups spelling room first (spelled first parts ++ rest) =
      { someGroups spelling (room - parts.length) (first && parts.isEmpty) rest with
        parts := parts ++
          (someGroups spelling (room - parts.length) (first && parts.isEmpty) rest).parts } := by
  -- behind the first group a colon is due, so `first` changes on the way
  induction parts generalizing room first with
  | nil => simp [spelled]
  | cons group more ih =>
      obtain ⟨room, rfl⟩ := Nat.exists_eq_add_of_le' (Nat.le_trans (Nat.succ_pos _) fits)
      have next := ih room false (fun other member => small other (List.mem_cons_of_mem _ member))
        (Nat.le_of_succ_le_succ fits)
      simp only [someGroups, afterColon?_spelled, Option.bind_eq_bind, Option.bind_some,
        v4?_spelled _ ends, ite_self, number?_spelled (small group List.mem_cons_self) more ends]
      simp [next]

/-- Where neither an octet nor a group can stand, the groups are at their end. -/
theorem someGroups_stop {room : Nat} {first : Bool} {cs : List Char}
    (stops : ∀ rest, afterColon? first cs = some rest → Ends closes rest) :
    someGroups spelling room first cs = ⟨[], false, cs⟩ := by
  cases room with
  | zero => rfl
  | succ room =>
      cases entered : afterColon? first cs with
      | none => simp [someGroups, entered]
      | some rest =>
          have ends := stops rest entered
          have octet : v4? spelling rest = none := v4?_of_ends (List.not_mem_nil) ends
          have group : number? 16 4 65536 true rest = none :=
            number?_of_ends (ends_of_closes (by decide) ends)
          simp [someGroups, entered, octet, group]

/-- A character that an address may be written with. -/
def spells (c : Char) : Bool := closes c || c == ':'

theorem closes_of_spells {rest : List Char} (ends : Ends spells rest) : Ends closes rest :=
  ends.mono fun _ outside => (Bool.or_eq_false_iff.1 outside).1

/-- Behind an address there are no more groups. -/
theorem someGroups_behind {room : Nat} {first : Bool} {rest : List Char} (ends : Ends spells rest) :
    someGroups spelling room first rest = ⟨[], false, rest⟩ := by
  refine someGroups_stop fun cs entered => ?_
  cases first with
  | true =>
      cases entered
      exact closes_of_spells ends
  | false =>
      rw [afterColon?, if_neg (by decide), Text.expect?_of_ends (ends.mono fun c outside =>
        (Bool.or_eq_false_iff.1 outside).2)] at entered
      cases entered

/-- The gap stops the groups in front of it, if there are any or not. -/
theorem someGroups_gap {room : Nat} {first : Bool} {rest : List Char} :
    someGroups spelling room first (':' :: ':' :: rest) = ⟨[], false, ':' :: ':' :: rest⟩ := by
  refine someGroups_stop fun cs entered => ?_
  cases first with
  | true =>
      cases entered
      exact ends_cons.2 (by decide)
  | false =>
      rw [afterColon?, if_neg (by decide), expect?_cons] at entered
      cases entered
      exact ends_cons.2 (by decide)

/-! ## IPv6 addresses -/

theorem v6?_whole {parts : List Nat} {rest : List Char} (eight : parts.length = 8)
    (small : ∀ group ∈ parts, group < 65536) (ends : Ends closes rest) :
    v6? spelling (spelled true parts ++ rest) =
      some (BitVec.ofNat 128 (ofDigits 65536 parts), rest) := by
  have read : someGroups spelling 8 true (spelled true parts ++ rest) = _ :=
    someGroups_spelled 8 true small (by omega) ends
  rw [v6?, read, eight]
  simp [someGroups, eight]

/-- The gap stands for as many zeros as are missing, in the larger room that one spelling
leaves behind it as well as in the smaller one. -/
theorem v6?_gap {left : List Nat} {cs : List Char} {tail : Groups}
    (small : ∀ group ∈ left, group < 65536) (short : left.length < 8)
    (read : ∀ room, 7 - left.length ≤ room → someGroups spelling room true cs = tail) :
    v6? spelling (spelled true left ++ ':' :: ':' :: cs) =
      some (BitVec.ofNat 128 (ofDigits 65536
        (left ++ List.replicate (8 - left.length - tail.parts.length) 0 ++ tail.parts)),
        tail.rest) := by
  have front : someGroups spelling 8 true (spelled true left ++ ':' :: ':' :: cs) =
      ⟨left, false, ':' :: ':' :: cs⟩ := by
    rw [someGroups_spelled 8 true small (by omega) (ends_cons.2 (by decide)), someGroups_gap,
      List.append_nil]
  have room : 7 - left.length ≤
      if spelling.gapMayBeEmpty then 8 - left.length else 7 - left.length := by
    split <;> omega
  simp [v6?, front, expect?_cons, Nat.ne_of_lt short, read _ room]

theorem v6?_shortened {left right : List Nat} {rest : List Char}
    (small : ∀ group ∈ left ++ right, group < 65536) (short : left.length + right.length < 7)
    (ends : Ends spells rest) :
    v6? spelling (spelled true left ++ ':' :: ':' :: (spelled true right ++ rest)) =
      some (BitVec.ofNat 128 (ofDigits 65536
        (left ++ List.replicate (8 - left.length - right.length) 0 ++ right)), rest) := by
  have read (room : Nat) (space : 7 - left.length ≤ room) :
      someGroups spelling room true (spelled true right ++ rest) = ⟨right, false, rest⟩ := by
    rw [someGroups_spelled room true
        (fun group member => small group (List.mem_append_right _ member)) (by omega)
        (closes_of_spells ends), someGroups_behind ends, List.append_nil]
  exact v6?_gap (fun group member => small group (List.mem_append_left _ member)) (by omega) read

/-- An IPv4 address takes the place of the last two groups. -/
theorem v6?_mapped {low : Nat} {rest : List Char} (small : low < UInt32.size)
    (ends : Ends (isDigitOf 10) rest) :
    v6? spelling (':' :: ':' :: (spelled true [0xFFFF] ++ ':' :: ((dotted low).toList ++ rest))) =
      some (BitVec.ofNat 128 (0xFFFF * UInt32.size + low), rest) := by
  have octets (room : Nat) (space : 0 < room) :
      someGroups spelling (room + 1) false (':' :: ((dotted low).toList ++ rest)) =
        ⟨digits 65536 2 low, true, rest⟩ := by
    have bits : (BitVec.ofNat 32 low).toNat = low := Nat.mod_eq_of_lt small
    simp [someGroups, afterColon?, expect?_cons, v4?_dotted small ends, space, bits]
  have read (room : Nat) (space : 7 ≤ room) :
      someGroups spelling room true
          (spelled true [0xFFFF] ++ ':' :: ((dotted low).toList ++ rest)) =
        ⟨0xFFFF :: digits 65536 2 low, true, rest⟩ := by
    obtain ⟨room, rfl⟩ := Nat.exists_eq_add_of_le' (show 2 ≤ room by omega)
    rw [someGroups_spelled (room + 2) true (by decide) (by simp) (ends_cons.2 (by decide))]
    simp [octets room (by omega)]
  -- nothing stands in front of the gap, and three groups behind it
  have value : ofDigits 65536 ([] ++ List.replicate 5 0 ++ (0xFFFF :: digits 65536 2 low)) =
      0xFFFF * UInt32.size + low := by
    simp only [ofDigits, digits, List.replicate, List.nil_append, List.cons_append, List.foldl_cons,
      List.foldl_nil, UInt32.size] at small ⊢
    omega
  have whole := v6?_gap (List.forall_mem_nil _) (by decide) read
  rw [← value]
  exact whole

/-! ## Runs of zeros -/

/-- The groups of the run are zeros. -/
def ZeroRun.Zeros (run : ZeroRun) (parts : List Nat) : Prop :=
  (parts.drop run.start).take run.length = List.replicate run.length 0

theorem ZeroRun.Zeros.extend {run : ZeroRun} {parts : List Nat} (zeros : run.Zeros parts)
    (next : parts[run.start + run.length]? = some 0) :
    ZeroRun.Zeros ⟨run.start, run.length + 1⟩ parts := by
  simp only [Zeros] at zeros ⊢
  rw [List.take_add_one, zeros, List.getElem?_drop, next, List.replicate_succ']
  rfl

/-- The run that ends right before a zero goes on with it, or starts with it if it is empty. -/
theorem ZeroRun.Zeros.grow {current : ZeroRun} {parts : List Nat} {start : Nat}
    (zeros : current.Zeros parts)
    (reaches : current.length = 0 ∨ current.start + current.length = start)
    (here : parts[start]? = some 0) :
    ∃ run, (if current.length = 0 then ZeroRun.mk start 1
        else ⟨current.start, current.length + 1⟩) = run ∧
      run.Zeros parts ∧ run.start + run.length = start + 1 := by
  by_cases empty : current.length = 0
  · have none : ZeroRun.Zeros ⟨start, 0⟩ parts := rfl
    exact ⟨⟨start, 0 + 1⟩, if_pos empty, none.extend here, rfl⟩
  · have ending := reaches.resolve_left empty
    refine ⟨⟨current.start, current.length + 1⟩, if_neg empty, zeros.extend (ending ▸ here), ?_⟩
    rw [← ending]
    rfl

/-- Both runs that the search remembers consist of zeros. -/
theorem zeros_longestRun {parts : List Nat} (rest : List Nat) {start : Nat} {current best : ZeroRun}
    (behind : parts.drop start = rest) (currentZeros : current.Zeros parts)
    (reaches : current.length = 0 ∨ current.start + current.length = start)
    (bestZeros : best.Zeros parts) : (longestRun start current best rest).Zeros parts := by
  -- on what is left of the row; `parts` stays the whole of it, which the runs speak of
  induction rest generalizing start current best with
  | nil => exact bestZeros
  | cons group rest ih =>
      have here : parts[start]? = some group := by
        rw [← List.head?_drop, behind]
        rfl
      have after : parts.drop (start + 1) = rest := by
        rw [← List.drop_drop, behind]
        rfl
      rw [longestRun]
      split
      · rename_i zero
        obtain ⟨run, same, zeros, reached⟩ := currentZeros.grow reaches (zero ▸ here)
        simp only [same]
        refine ih after zeros (.inr reached) ?_
        split
        · exact zeros
        · exact bestZeros
      · exact ih after rfl (.inl rfl) bestZeros

/-- With zeros in the place of the run, the groups are whole again. -/
theorem ZeroRun.Zeros.refill {run : ZeroRun} {parts : List Nat} (zeros : run.Zeros parts) :
    parts.take run.start ++ List.replicate run.length 0 ++ parts.drop (run.start + run.length) =
      parts := by
  rw [← zeros, List.append_assoc, ← List.drop_drop, List.take_append_drop, List.take_append_drop]

theorem ZeroRun.Zeros.fits {run : ZeroRun} {parts : List Nat} (zeros : run.Zeros parts)
    (some : 0 < run.length) : run.start + run.length ≤ parts.length := by
  have length := congrArg List.length zeros
  simp only [List.length_take, List.length_drop, List.length_replicate] at length
  omega

/-! ## Addresses -/

/-- The shortened text of the groups is read as all of them. -/
theorem v6?_run {parts : List Nat} {run : ZeroRun} {rest : List Char} (eight : parts.length = 8)
    (small : ∀ group ∈ parts, group < 65536) (zeros : run.Zeros parts) (long : 1 < run.length)
    (ends : Ends spells rest) :
    v6? spelling (spelled true (parts.take run.start) ++
        ':' :: ':' :: (spelled true (parts.drop (run.start + run.length)) ++ rest)) =
      some (BitVec.ofNat 128 (ofDigits 65536 parts), rest) := by
  have fits := zeros.fits (by omega)
  have before : (parts.take run.start).length = run.start := by
    rw [List.length_take]
    omega
  have after : (parts.drop (run.start + run.length)).length = 8 - (run.start + run.length) := by
    rw [List.length_drop, eight]
  have inside : ∀ group ∈ parts.take run.start ++ parts.drop (run.start + run.length),
      group < 65536 := fun group member => by
    rcases List.mem_append.1 member with left | right
    · exact small group (List.mem_of_mem_take left)
    · exact small group (List.mem_of_mem_drop right)
  rw [v6?_shortened inside (by omega) ends, before, after,
    show 8 - run.start - (8 - (run.start + run.length)) = run.length by omega, zeros.refill]

/-- The three ways in which the text of an IPv6 address comes about. -/
theorem toList_v6Text (bits : Nat) :
    (bits / UInt32.size = 0xFFFF ∧ (v6Text bits).toList =
      spelled true [] ++ ':' :: ':' :: (spelled true [0xFFFF] ++
        ':' :: (dotted (bits % UInt32.size)).toList)) ∨
    (∃ run : ZeroRun, run.Zeros (groups bits) ∧ 1 < run.length ∧ (v6Text bits).toList =
      spelled true ((groups bits).take run.start) ++
        ':' :: ':' :: spelled true ((groups bits).drop (run.start + run.length))) ∨
    (v6Text bits).toList = spelled true (groups bits) := by
  have zeros : (longestRun 0 ⟨0, 0⟩ ⟨0, 0⟩ (groups bits)).Zeros (groups bits) :=
    zeros_longestRun (groups bits) rfl rfl (.inl rfl) rfl
  rw [v6Text]
  split
  · rename_i mapped
    refine .inl ⟨mapped, ?_⟩
    rw [String.toList_append]
    rfl
  · split
    · rename_i long
      exact .inr (.inl ⟨_, zeros, long, by simp [toList_colons]⟩)
    · exact .inr (.inr (toList_colons _))

theorem v6?_text {bits : Nat} {rest : List Char} (small : bits < Nat.pow 2 128)
    (ends : Ends spells rest) :
    v6? spelling ((v6Text bits).toList ++ rest) = some (BitVec.ofNat 128 bits, rest) := by
  have eight : (groups bits).length = 8 := Text.length_digits 65536 8 bits
  have each : ∀ group ∈ groups bits, group < 65536 := fun group =>
    Text.lt_of_mem_digits (by decide)
  have whole : ofDigits 65536 (groups bits) = bits := Text.ofDigits_digits 65536 8 bits small
  rcases toList_v6Text bits with ⟨mapped, text⟩ | ⟨run, zeros, long, text⟩ | text
  · have low : bits % UInt32.size < UInt32.size := Nat.mod_lt _ (by decide)
    have read : v6? spelling _ = _ :=
      v6?_mapped low (ends_of_closes (by decide) (closes_of_spells ends))
    have value : 0xFFFF * UInt32.size + bits % UInt32.size = bits := by
      rw [← mapped, Nat.div_add_mod']
    rw [value] at read
    simpa [text, spelled] using read
  · have read : v6? spelling _ = _ := v6?_run eight each zeros long ends
    rw [whole] at read
    simpa [text] using read
  · rw [text, v6?_whole eight each (closes_of_spells ends), whole]

theorem v4?_v6Text (bits : Nat) {rest : List Char} (ends : Ends spells rest) :
    v4? spelling ((v6Text bits).toList ++ rest) = none := by
  have colon (cs : List Char) : Ends closes (':' :: cs) := ends_cons.2 (by decide)
  rcases toList_v6Text bits with ⟨-, text⟩ | ⟨run, -, -, text⟩ | text
  · rw [text, List.append_assoc]
    exact v4?_spelled [] (colon _)
  · rw [text, List.append_assoc]
    exact v4?_spelled _ (colon _)
  · rw [text]
    exact v4?_spelled _ (closes_of_spells ends)

/-! ## Characters -/

theorem isPlain_pointed (octets : List Nat) : Text.IsPlain (pointed octets) := by
  induction octets with
  | nil => exact List.forall_mem_nil _
  | cons octet more ih =>
      rw [pointed, List.flatMap_cons, List.cons_append, isPlain_cons, isPlain_append]
      exact ⟨by decide, isPlain_toDigits (by decide) (by decide) octet, ih⟩

theorem isPlain_dotted (bits : Nat) : Text.IsPlain (dotted bits).toList := by
  obtain ⟨first, others, -, -, -, text⟩ := dotted_spec bits
  rw [text, isPlain_append]
  exact ⟨isPlain_toDigits (by decide) (by decide) first, isPlain_pointed others⟩

theorem isPlain_spelled (first : Bool) (parts : List Nat) : Text.IsPlain (spelled first parts) := by
  induction parts generalizing first with
  | nil => exact List.forall_mem_nil _
  | cons group more ih =>
      have mark : Text.IsPlain (if first then [] else [':']) := by
        cases first <;> decide
      rw [spelled, isPlain_append, isPlain_append]
      exact ⟨⟨mark, isPlain_toDigits (by decide) (by decide) group⟩, ih false⟩

/-- An address is written with visible characters only. -/
theorem isPlain_text (address : Address) : Text.IsPlain address.text.toList := by
  have colon : 33 ≤ ':'.toNat ∧ ':'.toNat < 127 := by decide
  cases address with
  | v4 bits => exact isPlain_dotted bits.toNat
  | v6 bits =>
      rw [text]
      rcases toList_v6Text bits.toNat with ⟨-, whole⟩ | ⟨run, -, -, whole⟩ | whole
      · simp only [whole, isPlain_append, isPlain_cons]
        exact ⟨isPlain_spelled _ _, colon, colon, isPlain_spelled _ _, colon, isPlain_dotted _⟩
      · simp only [whole, isPlain_append, isPlain_cons]
        exact ⟨isPlain_spelled _ _, colon, colon, isPlain_spelled _ _⟩
      · rw [whole]
        exact isPlain_spelled _ _

/-! ## Reading -/

/-- An address is read back from its text. -/
theorem read?_text (spelling : Spelling) (address : Address) {rest : List Char}
    (ends : Ends spells rest) :
    read? spelling (address.text.toList ++ rest) = some (address, rest) := by
  cases address with
  | v4 bits =>
      rw [read?, text, v4?_dotted bits.isLt (ends_of_closes (by decide) (closes_of_spells ends)),
        BitVec.ofNat_toNat, BitVec.setWidth_eq]
  | v6 bits =>
      rw [read?, text, v4?_v6Text bits.toNat ends, v6?_text bits.isLt ends, Option.map_some,
        BitVec.ofNat_toNat, BitVec.setWidth_eq]

theorem ofText?_text (address : Address) : ofText? address.text = some address := by
  have read := address.read?_text .plain (Text.ends_nil spells)
  rw [List.append_nil] at read
  rw [ofText?, read]

end Address

namespace Prefix

open Text (ends_cons ends_nil)

theorem toList_text (net : Prefix) :
    net.text.toList = net.address.text.toList ++ '/' :: Nat.toDigits 10 net.length := by
  simp [text]

theorem lengthBehind?_toDigits (net : Prefix) :
    lengthBehind? net.address ('/' :: Nat.toDigits 10 net.length) = some net := by
  obtain ⟨address, length, fits⟩ := net
  have read (most : Nat) (room : 0 < most) (few : length < 10 ^ most) :
      Address.number? 10 most (address.width + 1) true (Nat.toDigits 10 length) =
        some (length, []) := by
    rw [← List.append_nil (Nat.toDigits 10 length)]
    exact Address.number?_toDigits (by decide) (by decide) room few (Nat.lt_succ_of_le fits)
      (ends_nil _)
  simp only [lengthBehind?, Text.expect?_cons, Option.bind_eq_bind, Option.bind_some]
  cases address with
  | v4 bits =>
      have small : length < 10 ^ 2 := Nat.lt_of_le_of_lt fits (show 32 < 100 by decide)
      simp [read 2 (by decide) small, ofLength?, fits]
  | v6 bits =>
      have small : length < 10 ^ 3 := Nat.lt_of_le_of_lt fits (show 128 < 1000 by decide)
      simp [read 3 (by decide) small, ofLength?, fits]

/-- A prefix is read back from its text. -/
theorem ofText?_text (net : Prefix) : ofText? net.text = some net := by
  rw [ofText?, toList_text, Address.read?_text .inPrefix net.address (ends_cons.2 (by decide))]
  exact net.lengthBehind?_toDigits

theorem text_inj {a b : Prefix} (same : a.text = b.text) : a = b := by
  have read := a.ofText?_text
  rw [same, b.ofText?_text] at read
  exact (Option.some.inj read).symm

theorem isPlain_text (net : Prefix) : Text.IsPlain net.text.toList := by
  rw [toList_text, Text.isPlain_append, Text.isPlain_cons]
  exact ⟨net.address.isPlain_text, by decide,
    Text.isPlain_toDigits (by decide) (by decide) net.length⟩

end Prefix

end OverlayRouting
