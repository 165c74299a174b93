import Mathlib.Tactic.IntervalCases
import TwoPass.Program
import TwoPass.Proofs.General

/-!
# Values of numerals

A numeral is a row of digits, at least one, and denotes their positional value, however long it is.
Reading a text finds a value exactly if the text is a numeral whose value stays within the limit:
the value grows with every digit, so that no front passes the limit if the whole numeral does not.
A literal is a numeral in base sixteen with a value below `2 ^ 64`.
-/

namespace TwoPass.Numeral

/-! ## Digits -/

/-- The digits of base sixteen in the order of their values, in lower and in upper case. -/
def digitRows : List (List Char) :=
  [['0', '1', '2', '3', '4', '5', '6', '7', '8', '9', 'a', 'b', 'c', 'd', 'e', 'f'],
   ['0', '1', '2', '3', '4', '5', '6', '7', '8', '9', 'A', 'B', 'C', 'D', 'E', 'F']]

/-- A character is the digit with the given value. -/
def IsDigit (base : Nat) (character : Char) (value : Nat) : Prop :=
  value < base ∧ ∃ row ∈ digitRows, row[value]? = some character

variable {base limit : Nat} {character : Char} {text : List Char} {value : Nat}

theorem hexDigit?_eq_some_iff :
    hexDigit? character = some value ↔ ∃ row ∈ digitRows, row[value]? = some character := by
  constructor
  · intro h
    have hcode : character.toNat = value + 48 ∧ value < 10 ∨
        character.toNat = value + 87 ∧ 10 ≤ value ∧ value < 16 ∨
        character.toNat = value + 55 ∧ 10 ≤ value ∧ value < 16 := by
      unfold hexDigit? at h
      grind
    -- the code determines the character, so one case is left for each value and row
    rw [← Char.ofNat_toNat character]
    rcases hcode with ⟨hcode, hlt⟩ | ⟨hcode, hle, hlt⟩ | ⟨hcode, hle, hlt⟩ <;>
    · rw [hcode]
      clear h hcode
      interval_cases value <;> decide
  · intro ⟨row, hrow, hcharacter⟩
    have hlength : ∀ row ∈ digitRows, row.length = 16 := by
      decide
    have hlt : value < 16 := by
      rw [← hlength row hrow]
      exact (List.getElem?_eq_some_iff.mp hcharacter).1
    simp only [digitRows, List.mem_cons, List.not_mem_nil, or_false] at hrow
    rcases hrow with rfl | rfl <;>
    · interval_cases value <;>
      · obtain rfl := Option.some.inj hcharacter
        rfl

theorem digit?_eq_some_iff : digit? base character = some value ↔ IsDigit base character value := by
  unfold digit? IsDigit
  rw [Option.filter_eq_some_iff, hexDigit?_eq_some_iff, decide_eq_true_eq, and_comm]

/-! ## Numerals -/

/-- A text is a numeral with the given value. -/
structure Denotes (base : Nat) (text : List Char) (value : Nat) : Prop where
  ne_nil : text ≠ []
  positional : ∃ digits, List.Forall₂ (IsDigit base) text digits ∧ positional base digits = value

/-- A numeral starts with a digit. -/
theorem Denotes.exists_isDigit_head {rest : List Char}
    (h : Denotes base (character :: rest) value) :
    ∃ digit, IsDigit base character digit := by
  obtain ⟨digits, hdigits, -⟩ := h.positional
  obtain ⟨digit, _, hdigit, -⟩ := List.forall₂_cons_left_iff.mp hdigits
  exact ⟨digit, hdigit⟩

/-- A zero in front of a numeral does not change its value. -/
theorem denotes_zero_cons_iff (hbase : 0 < base) (hne : text ≠ []) :
    Denotes base ('0' :: text) value ↔ Denotes base text value := by
  have hzero : IsDigit base '0' 0 := ⟨hbase, by decide⟩
  have hvalue (digits : List Nat) : positional base (0 :: digits) = positional base digits := by
    simp [positional]
  constructor
  · intro h
    obtain ⟨_, hall, hpositional⟩ := h.positional
    obtain ⟨digit, digits, hdigit, hdigits, rfl⟩ := List.forall₂_cons_left_iff.mp hall
    have hdigit : digit = 0 := by
      rw [← digit?_eq_some_iff] at hdigit hzero
      exact Option.some.inj (hdigit.symm.trans hzero)
    rw [hdigit, hvalue] at hpositional
    exact ⟨hne, digits, hdigits, hpositional⟩
  · intro h
    obtain ⟨digits, hdigits, hpositional⟩ := h.positional
    exact ⟨List.cons_ne_nil _ _, 0 :: digits, .cons hzero hdigits,
      (hvalue digits).trans hpositional⟩

theorem denotes_zeros_append_iff (hbase : 0 < base) (hne : text ≠ []) (count : Nat) :
    Denotes base (List.replicate count '0' ++ text) value ↔ Denotes base text value := by
  induction count with
  | zero => rfl
  | succ count ih =>
    rw [List.replicate_succ, List.cons_append, denotes_zero_cons_iff hbase, ih]
    apply List.append_ne_nil_of_right_ne_nil
    exact hne

/-! ## Numbers that are written -/

theorem isDigit_digitChar (hbase : base ≤ 16) {digit : Nat} (h : digit < base) :
    IsDigit base (Nat.digitChar digit) digit := by
  have hdigit : hexDigit? (Nat.digitChar digit) = some digit :=
    hexDigit?_digitChar (Nat.lt_of_lt_of_le h hbase)
  rw [← digit?_eq_some_iff, digit?, hdigit, Option.filter_some, if_pos (decide_eq_true h)]

theorem denotes_singleton {digit : Nat} (h : IsDigit base character digit) :
    Denotes base [character] digit where
  ne_nil := List.cons_ne_nil _ _
  positional := ⟨[digit], .cons h .nil, by simp [Numeral.positional]⟩

theorem Denotes.concat {digit : Nat} (h : Denotes base text value)
    (hdigit : IsDigit base character digit) :
    Denotes base (text ++ [character]) (value * base + digit) where
  ne_nil := List.append_ne_nil_of_left_ne_nil h.ne_nil _
  positional := by
    obtain ⟨digits, hdigits, rfl⟩ := h.positional
    exact ⟨digits ++ [digit], List.rel_append hdigits (.cons hdigit .nil),
      positional_concat base digits digit⟩

/-- A number is denoted by its digits. -/
theorem denotes_toDigits (hbase : 1 < base) (hle : base ≤ 16) (number : Nat) :
    Denotes base (Nat.toDigits base number) number := by
  induction number using Nat.strongRecOn with
  | ind number ih =>
    rw [Nat.toDigits_eq_if hbase]
    split
    · next hlt => exact denotes_singleton (isDigit_digitChar hle hlt)
    · next hge =>
      have hpos : 0 < number := by omega
      have hfront := ih (number / base) (Nat.div_lt_self hpos hbase)
      have hlast := isDigit_digitChar hle (Nat.mod_lt number (Nat.zero_lt_of_lt hbase))
      have hdenotes := hfront.concat hlast
      rwa [Nat.div_add_mod'] at hdenotes

/-! ## Reading -/

/-- The value of digits that follow a numeral with the value `total`. -/
def extend (base total : Nat) (digits : List Nat) : Nat :=
  digits.foldl (fun total digit ↦ total * base + digit) total

@[simp]
theorem extend_nil (base total : Nat) : extend base total [] = total := rfl

@[simp]
theorem extend_cons (base total digit : Nat) (digits : List Nat) :
    extend base total (digit :: digits) = extend base (total * base + digit) digits := rfl

theorem le_extend {base : Nat} (hbase : 0 < base) (total : Nat) (digits : List Nat) :
    total ≤ extend base total digits := by
  induction digits generalizing total with
  | nil => exact Nat.le_refl total
  | cons digit digits ih =>
    calc
      total ≤ total * base + digit := Nat.le_add_right_of_le (Nat.le_mul_of_pos_right total hbase)
      _ ≤ extend base (total * base + digit) digits := ih (total * base + digit)

theorem readFrom_eq_ok_iff {total : Nat} (hbase : 0 < base) (htotal : total ≤ limit) :
    readFrom base limit total text = .ok value ↔
      ∃ digits, List.Forall₂ (IsDigit base) text digits ∧ extend base total digits = value ∧
        value ≤ limit := by
  induction text generalizing total with
  | nil =>
    constructor
    · intro h
      obtain rfl := Except.ok.inj h
      exact ⟨[], .nil, rfl, htotal⟩
    · intro ⟨digits, hdigits, hvalue, _⟩
      rw [List.forall₂_nil_left_iff] at hdigits
      rw [hdigits, extend_nil] at hvalue
      rw [readFrom, hvalue]
  | cons character rest ih =>
    simp only [List.forall₂_cons_left_iff, ← digit?_eq_some_iff]
    cases hdigit : digit? base character with
    | none => simp [readFrom, hdigit]
    | some digit =>
      simp only [readFrom, hdigit, Option.some.injEq]
      by_cases hnext : total * base + digit ≤ limit
      · rw [if_pos hnext, ih hnext]
        constructor
        · intro ⟨digits, hdigits, hvalue, hlimit⟩
          exact ⟨digit :: digits, ⟨digit, digits, rfl, hdigits, rfl⟩, hvalue, hlimit⟩
        · rintro ⟨_, ⟨_, digits, rfl, hdigits, rfl⟩, hvalue, hlimit⟩
          exact ⟨digits, hdigits, hvalue, hlimit⟩
      · rw [if_neg hnext]
        constructor
        · intro h
          cases h
        · rintro ⟨_, ⟨_, digits, rfl, -, rfl⟩, hvalue, hlimit⟩
          -- the value of the whole numeral is at least that of its first digits
          have hgrows := le_extend hbase (total * base + digit) digits
          rw [extend_cons] at hvalue
          omega

theorem read_of_ne_nil (h : text ≠ []) : read base limit text = readFrom base limit 0 text := by
  unfold read
  rw [if_neg]
  exact mt List.isEmpty_iff.mp h

theorem read_eq_ok_iff (hbase : 0 < base) :
    read base limit text = .ok value ↔ Denotes base text value ∧ value ≤ limit := by
  by_cases hnil : text = []
  · subst hnil
    refine iff_of_false ?_ fun h ↦ h.1.ne_nil rfl
    simp [read]
  · rw [read_of_ne_nil hnil, readFrom_eq_ok_iff hbase (Nat.zero_le limit)]
    constructor
    · rintro ⟨digits, hdigits, hvalue, hlimit⟩
      exact ⟨⟨hnil, digits, hdigits, hvalue⟩, hlimit⟩
    · rintro ⟨hdenotes, hlimit⟩
      obtain ⟨digits, hdigits, hvalue⟩ := hdenotes.positional
      exact ⟨digits, hdigits, hvalue, hlimit⟩

end TwoPass.Numeral

namespace TwoPass

/-! ## Literals -/

theorem literalValue?_eq_some_iff {text : String} {value : Nat} :
    literalValue? text = some value ↔
      Numeral.Denotes 16 text.toList value ∧ value < 2 ^ 64 := by
  have hread : literalValue? text = some value ↔
      Numeral.read 16 literalLimit text.toList = .ok value := by
    unfold literalValue?
    cases Numeral.read 16 literalLimit text.toList <;> simp [Except.toOption]
  have hlimit : value ≤ literalLimit ↔ value < 2 ^ 64 := Nat.lt_succ_iff.symm
  rw [hread, Numeral.read_eq_ok_iff (by decide), hlimit]

/-- Whether a text is a numeral in base sixteen whose value has at most 64 bits. -/
def IsLiteral (text : String) : Prop :=
  ∃ value, Numeral.Denotes 16 text.toList value ∧ value < 2 ^ 64

theorem literalValue?_eq_none_iff {text : String} :
    literalValue? text = none ↔ ¬ IsLiteral text := by
  simp only [Option.eq_none_iff_forall_ne_some, ne_eq, literalValue?_eq_some_iff, IsLiteral,
    not_exists]

end TwoPass
