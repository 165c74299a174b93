import TwoPass.Image
import TwoPass.Proofs.Numeral

/-!
# Texts that are no numerals, and literals

Reading calls a text too large exactly if some front of it is a numeral that passes the limit
already, and finds a wrong digit in all other texts that are no numerals.  A literal has a value
exactly if it is a numeral in base sixteen below `2 ^ 64`; the cause of a text that is none holds
the text as it was written.
-/

namespace TwoPass.Numeral

variable {base limit : Nat} {character : Char} {text : List Char} {value : Nat}

/-- Some front of a text is a numeral that passes the limit. -/
def Exceeds (base limit : Nat) (text : List Char) : Prop :=
  ∃ front value, front <+: text ∧ Denotes base front value ∧ limit < value

theorem readFrom_ne_empty (total : Nat) : readFrom base limit total text ≠ .error .empty := by
  induction text generalizing total with
  | nil => simp [readFrom]
  | cons character rest ih =>
    rw [readFrom]
    split
    · simp
    · split
      · apply ih
      · simp

theorem read_eq_empty_iff : read base limit text = .error .empty ↔ text = [] := by
  constructor
  · intro h
    by_contra hnil
    rw [read_of_ne_nil hnil] at h
    exact readFrom_ne_empty 0 h
  · intro hnil
    rw [hnil]
    rfl

/-- Some digits at the front of a text, read behind others, pass the limit. -/
def ExceedsFrom (base limit total : Nat) (text : List Char) : Prop :=
  ∃ front digits, front <+: text ∧ List.Forall₂ (IsDigit base) front digits ∧
    limit < extend base total digits

theorem not_exceedsFrom_nil {total : Nat} (htotal : total ≤ limit) :
    ¬ ExceedsFrom base limit total [] := by
  intro ⟨front, digits, hfront, hdigits, hlimit⟩
  rw [List.prefix_nil] at hfront
  rw [hfront, List.forall₂_nil_left_iff] at hdigits
  rw [hdigits, extend_nil] at hlimit
  omega

/-- As long as the limit is not passed, one more character has to be a digit. -/
theorem exceedsFrom_cons_iff {total : Nat} (htotal : total ≤ limit) {rest : List Char} :
    ExceedsFrom base limit total (character :: rest) ↔
      ∃ digit, IsDigit base character digit ∧
        ExceedsFrom base limit (total * base + digit) rest := by
  constructor
  · intro ⟨front, digits, hfront, hdigits, hlimit⟩
    rcases List.prefix_cons_iff.mp hfront with rfl | ⟨others, rfl, hothers⟩
    · exact absurd ⟨[], digits, List.prefix_rfl, hdigits, hlimit⟩ (not_exceedsFrom_nil htotal)
    · obtain ⟨digit, following, hdigit, hfollowing, rfl⟩ := List.forall₂_cons_left_iff.mp hdigits
      exact ⟨digit, hdigit, others, following, hothers, hfollowing, hlimit⟩
  · intro ⟨digit, hdigit, front, digits, hfront, hdigits, hlimit⟩
    exact ⟨character :: front, digit :: digits, (List.prefix_cons_inj character).mpr hfront,
      .cons hdigit hdigits, hlimit⟩

/-- Reading stops at the first character that is no digit or makes the value pass the limit, so that
nothing behind a front that is too large matters. -/
theorem readFrom_eq_tooLarge_iff {total : Nat} (htotal : total ≤ limit) :
    readFrom base limit total text = .error .tooLarge ↔ ExceedsFrom base limit total text := by
  induction text generalizing total with
  | nil =>
    apply iff_of_false _ (not_exceedsFrom_nil htotal)
    exact nofun
  | cons character rest ih =>
    rw [exceedsFrom_cons_iff htotal, readFrom]
    simp only [← digit?_eq_some_iff]
    cases hdigit : digit? base character with
    | none => simp
    | some digit =>
      simp only [Option.some.injEq, exists_eq_left']
      by_cases hnext : total * base + digit ≤ limit
      · rw [if_pos hnext, ih hnext]
      · -- the digits so far are too large already, so nothing more has to be read
        rw [if_neg hnext]
        apply iff_of_true rfl
        exact ⟨[], [], List.nil_prefix, .nil, Nat.lt_of_not_le hnext⟩

theorem exceeds_iff_exceedsFrom : Exceeds base limit text ↔ ExceedsFrom base limit 0 text := by
  constructor
  · intro ⟨front, value, hfront, hdenotes, hlimit⟩
    obtain ⟨digits, hdigits, rfl⟩ := hdenotes.positional
    exact ⟨front, digits, hfront, hdigits, hlimit⟩
  · intro ⟨front, digits, hfront, hdigits, hlimit⟩
    refine ⟨front, positional base digits, hfront, ⟨?_, digits, hdigits, rfl⟩, hlimit⟩
    intro hnil
    rw [hnil] at hdigits
    exact not_exceedsFrom_nil (Nat.zero_le limit) ⟨[], digits, List.prefix_rfl, hdigits, hlimit⟩

theorem read_eq_tooLarge_iff :
    read base limit text = .error .tooLarge ↔ Exceeds base limit text := by
  rw [exceeds_iff_exceedsFrom]
  by_cases hnil : text = []
  · subst hnil
    apply iff_of_false _ (not_exceedsFrom_nil (Nat.zero_le limit))
    simp [read]
  · rw [read_of_ne_nil hnil]
    exact readFrom_eq_tooLarge_iff (Nat.zero_le limit)

theorem read_eq_invalidDigit_iff (hbase : 0 < base) :
    read base limit text = .error .invalidDigit ↔
      text ≠ [] ∧ (¬ ∃ value ≤ limit, Denotes base text value) ∧ ¬ Exceeds base limit text := by
  have hok : (∃ value ≤ limit, Denotes base text value) ↔
      ∃ value, read base limit text = .ok value := by
    simp only [read_eq_ok_iff hbase, and_comm]
  rw [ne_eq, ← @read_eq_empty_iff base limit text, hok, ← read_eq_tooLarge_iff]
  rcases read base limit text with (_ | _ | _) | value <;> simp

end TwoPass.Numeral

namespace TwoPass

/-! ## Literals -/

namespace Operand

variable (labels : LabelTable) (mnemonic text : String)

theorem value_literal_eq_ok_iff {value : Nat} :
    (literal text).value labels mnemonic = .ok value ↔
      Numeral.Denotes 16 text.toList value ∧ value < 2 ^ 64 := by
  rw [← literalValue?_eq_some_iff, Operand.value]
  cases literalValue? text <;> simp

theorem value_literal_eq_error {cause : Cause}
    (h : (literal text).value labels mnemonic = .error cause) : cause = .invalidLiteral text := by
  rw [Operand.value] at h
  cases hvalue : literalValue? text with
  | none =>
    rw [hvalue] at h
    exact (Except.error.inj h).symm
  | some value =>
    rw [hvalue] at h
    exact nomatch h

/-- A literal has a value exactly if its text is a hexadecimal numeral below `2 ^ 64`, of whatever
length, and any other text is reported as it was written.  Zeros in front of a text do not
matter. -/
theorem value_literal_exact :
    (∀ value, (literal text).value labels mnemonic = .ok value ↔
      Numeral.Denotes 16 text.toList value ∧ value < 2 ^ 64) ∧
    (∀ cause, (literal text).value labels mnemonic = .error cause ↔
      cause = .invalidLiteral text ∧
        ¬ ∃ value, Numeral.Denotes 16 text.toList value ∧ value < 2 ^ 64) ∧
    (text ≠ "" → ∀ count value,
      (literal (String.ofList (List.replicate count '0') ++ text)).value labels mnemonic =
        .ok value ↔ (literal text).value labels mnemonic = .ok value) := by
  refine ⟨fun value ↦ value_literal_eq_ok_iff labels mnemonic text, ?_, ?_⟩
  · intro cause
    simp only [← value_literal_eq_ok_iff labels mnemonic text]
    cases hvalue : (literal text).value labels mnemonic with
    | ok value => simp
    | error found =>
      obtain rfl := value_literal_eq_error labels mnemonic text hvalue
      simp [eq_comm]
  · intro hne count value
    have hlist : text.toList ≠ [] := mt String.toList_eq_nil_iff.mp hne
    rw [value_literal_eq_ok_iff, value_literal_eq_ok_iff, String.toList_append,
      String.toList_ofList, Numeral.denotes_zeros_append_iff (by decide) hlist]

/-- The largest literal keeps its value behind any number of zeros, and the next number is no
literal any more. -/
theorem value_literal_exact_edge :
    (∀ count, (literal (String.ofList (List.replicate count '0') ++ "ffffFFFFffffFFFF")).value ⟨[]⟩
      "PSH_LIT" = .ok (2 ^ 64 - 1)) ∧
    (literal "10000000000000000").value ⟨[]⟩ "PSH_LIT" =
      .error (.invalidLiteral "10000000000000000") ∧
    ¬ ∃ value, Numeral.Denotes 16 "10000000000000000".toList value ∧ value < 2 ^ 64 := by
  have herror : (literal "10000000000000000").value ⟨[]⟩ "PSH_LIT" =
      .error (.invalidLiteral "10000000000000000") := by
    rfl
  refine ⟨fun count ↦ ?_, herror, ?_⟩
  · apply ((value_literal_exact ⟨[]⟩ "PSH_LIT" "ffffFFFFffffFFFF").2.2 (by decide) count _).mpr
    rfl
  · exact (((value_literal_exact ⟨[]⟩ "PSH_LIT" "10000000000000000").2.1 _).mp herror).2

end Operand

end TwoPass
