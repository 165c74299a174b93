import Mathlib.Data.List.TakeWhile
import TwoPass.Proofs.General
import TwoPass.Proofs.Literal
import TwoPass.Text.Word

/-!
# Which texts are addresses

An address is written between blanks, with or without an announcement of base sixteen, with or
without a plus sign, and as a numeral of any length whose value has at most sixteen bits.  Every
other text is refused, and which fault is found is determined by the text.
-/

namespace TwoPass

/-! ## Blanks around a text -/

namespace Text

/-- A text is another one between blanks, and the other one has no blank at its ends. -/
structure Trims (text core : List Char) : Prop where
  split : ∃ before after, text = before ++ core ++ after ∧
    (∀ character ∈ before, isBlank character = true) ∧
    ∀ character ∈ after, isBlank character = true
  head : ∀ character ∈ core.head?, isBlank character = false
  last : ∀ character ∈ core.getLast?, isBlank character = false

theorem isBlank_head?_dropWhile (text : List Char) :
    ∀ character ∈ (text.dropWhile isBlank).head?, isBlank character = false := by
  intro character hhead
  have hnot := List.head?_dropWhile_not isBlank text
  rw [hhead] at hnot
  exact hnot

/-- The text in front of the blanks at the end. -/
theorem trimEnd_append_takeWhile (text : List Char) :
    trimEnd text ++ (text.reverse.takeWhile isBlank).reverse = text := by
  calc
    trimEnd text ++ (text.reverse.takeWhile isBlank).reverse =
        (text.reverse.takeWhile isBlank ++ text.reverse.dropWhile isBlank).reverse := by
      rw [List.reverse_append, trimEnd]
    _ = text.reverse.reverse := by rw [List.takeWhile_append_dropWhile]
    _ = text := List.reverse_reverse text

theorem trims_trim (text : List Char) : Trims text (trim text) := by
  have hend := trimEnd_append_takeWhile (text.dropWhile isBlank)
  constructor
  · refine ⟨text.takeWhile isBlank, ((text.dropWhile isBlank).reverse.takeWhile isBlank).reverse,
      ?_, ?_, ?_⟩
    · rw [List.append_assoc, trim, hend, List.takeWhile_append_dropWhile]
    · intro character hmem
      exact List.mem_takeWhile_imp hmem
    · intro character hmem
      exact List.mem_takeWhile_imp (List.mem_reverse.mp hmem)
  · intro character hhead
    apply isBlank_head?_dropWhile text
    rw [← hend, List.head?_append]
    simp only [trim, Option.mem_def] at hhead
    simp [hhead]
  · intro character hlast
    apply isBlank_head?_dropWhile (text.dropWhile isBlank).reverse
    rw [← List.getLast?_reverse]
    exact hlast

end Text

namespace Word

/-! ## Bases and signs -/

/-- A text announces a base, and digits follow. -/
inductive Announces : List Char → Nat → List Char → Prop
  | lower (digits : List Char) : Announces ('0' :: 'x' :: digits) 16 digits
  | upper (digits : List Char) : Announces ('0' :: 'X' :: digits) 16 digits
  | nothing {digits : List Char} (hlower : ¬ ['0', 'x'] <+: digits)
      (hupper : ¬ ['0', 'X'] <+: digits) : Announces digits 10 digits

/-- There may be a plus sign in front of a text. -/
inductive Signed : List Char → List Char → Prop
  | bare (text : List Char) : Signed text text
  | plus (text : List Char) : Signed ('+' :: text) text

theorem announces_splitBase (text : List Char) :
    Announces text (splitBase text).1 (splitBase text).2 := by
  unfold splitBase
  split
  · exact .lower _
  · exact .upper _
  · next hlower hupper =>
    apply Announces.nothing
    · rintro ⟨rest, rfl⟩
      exact hlower rest rfl
    · rintro ⟨rest, rfl⟩
      exact hupper rest rfl

theorem Announces.base_pos {text digits : List Char} {base : Nat}
    (h : Announces text base digits) : 0 < base := by
  cases h <;> decide

theorem dropPlus_eq_nil_iff {digits : List Char} : dropPlus digits = [] ↔ digits = [] := by
  unfold dropPlus
  split <;> simp

/-- What holds neither of the empty text nor behind a plus sign holds without the sign. -/
theorem exists_signed_iff {Holds : List Char → Prop} (hnil : ¬ Holds [])
    (hplus : ∀ rest, ¬ Holds ('+' :: rest)) {digits : List Char} :
    (∃ characters, Signed digits characters ∧ Holds characters) ↔ Holds (dropPlus digits) := by
  constructor
  · rintro ⟨characters, hsigned, hholds⟩
    cases hsigned with
    | bare =>
      have hbare : dropPlus digits = digits := by
        unfold dropPlus
        split
        · exact absurd hholds (hplus _)
        · rfl
      rwa [hbare]
    | plus =>
      cases characters with
      | nil => exact absurd hholds hnil
      | cons first rest => exact hholds
  · intro hholds
    unfold dropPlus at hholds
    split at hholds
    · exact ⟨_, .plus _, hholds⟩
    · exact ⟨digits, .bare digits, hholds⟩

theorem not_isDigit_plus (base digit : Nat) : ¬ Numeral.IsDigit base '+' digit := by
  have hrows : ∀ row ∈ Numeral.digitRows, '+' ∉ row := by
    decide
  intro ⟨_, row, hrow, hplus⟩
  exact hrows row hrow (List.mem_of_getElem? hplus)

theorem not_denotes_plus {base value : Nat} (rest : List Char) :
    ¬ Numeral.Denotes base ('+' :: rest) value := by
  intro h
  obtain ⟨digit, hdigit⟩ := h.exists_isDigit_head
  exact not_isDigit_plus base digit hdigit

theorem exists_signed_denotes_iff {base value : Nat} {digits : List Char} :
    (∃ characters, Signed digits characters ∧ Numeral.Denotes base characters value) ↔
      Numeral.Denotes base (dropPlus digits) value := by
  apply exists_signed_iff
  · intro h
    exact h.ne_nil rfl
  · exact not_denotes_plus

theorem exists_signed_exceeds_iff {base limit : Nat} {digits : List Char} :
    (∃ characters, Signed digits characters ∧ Numeral.Exceeds base limit characters) ↔
      Numeral.Exceeds base limit (dropPlus digits) := by
  apply exists_signed_iff
  · rintro ⟨front, value, hfront, hdenotes, -⟩
    exact hdenotes.ne_nil (List.prefix_nil.mp hfront)
  · rintro rest ⟨front, value, hfront, hdenotes, -⟩
    rcases List.prefix_cons_iff.mp hfront with rfl | ⟨others, rfl, -⟩
    · exact hdenotes.ne_nil rfl
    · exact not_denotes_plus others hdenotes

/-! ## Addresses -/

/-- How the digits behind an announcement are taken. -/
structure Classifies (base : Nat) (digits : List Char) (result : Except Numeral.Fault UInt16) :
    Prop where
  ok_iff : ∀ value, result = .ok value ↔
    ∃ characters, Signed digits characters ∧ Numeral.Denotes base characters value.toNat
  empty_iff : result = .error .empty ↔ digits = []
  /-- A numeral at the front is too large, whatever follows it. -/
  tooLarge_iff : result = .error .tooLarge ↔
    ∃ characters, Signed digits characters ∧ Numeral.Exceeds base 0xFFFF characters
  /-- In all other texts there is something that is no digit. -/
  invalidDigit_iff : result = .error .invalidDigit ↔
    digits ≠ [] ∧
    (¬ ∃ value ≤ 0xFFFF, ∃ characters, Signed digits characters ∧
      Numeral.Denotes base characters value) ∧
    ¬ ∃ characters, Signed digits characters ∧ Numeral.Exceeds base 0xFFFF characters

theorem map_read_eq_ok_iff {base : Nat} (hbase : 0 < base) {text : List Char} {value : UInt16} :
    (Numeral.read base 0xFFFF text).map UInt16.ofNat = .ok value ↔
      Numeral.Denotes base text value.toNat := by
  simp only [map_eq_ok_iff, Numeral.read_eq_ok_iff hbase]
  constructor
  · rintro ⟨number, ⟨hdenotes, hle⟩, rfl⟩
    rwa [UInt16.toNat_ofNat', Nat.mod_eq_of_lt (Nat.lt_succ_of_le hle)]
  · intro hdenotes
    have hle : value.toNat ≤ 0xFFFF := Nat.le_of_lt_succ value.toNat_lt
    exact ⟨value.toNat, ⟨hdenotes, hle⟩, UInt16.ofNat_toNat⟩

theorem classifies_read {base : Nat} (hbase : 0 < base) (digits : List Char) :
    Classifies base digits ((Numeral.read base 0xFFFF (dropPlus digits)).map UInt16.ofNat) where
  ok_iff value := by
    rw [exists_signed_denotes_iff, map_read_eq_ok_iff hbase]
  empty_iff := by
    rw [map_eq_error_iff, Numeral.read_eq_empty_iff, dropPlus_eq_nil_iff]
  tooLarge_iff := by
    rw [map_eq_error_iff, Numeral.read_eq_tooLarge_iff, exists_signed_exceeds_iff]
  invalidDigit_iff := by
    rw [map_eq_error_iff, Numeral.read_eq_invalidDigit_iff hbase, exists_signed_exceeds_iff]
    simp only [exists_signed_denotes_iff, ne_eq, dropPlus_eq_nil_iff]

/-- Without the blanks around it, a text announces a base.  Whether the digits that follow are an
address, and why not, depends on them and on the base alone. -/
theorem parse_classifies (text : String) :
    ∃ core base digits, Text.Trims text.toList core ∧ Announces core base digits ∧
      Classifies base digits (parse text) := by
  have hbase := announces_splitBase (Text.trim text.toList)
  exact ⟨_, _, _, Text.trims_trim text.toList, hbase, classifies_read hbase.base_pos _⟩

/-- An address between blanks that are not all ASCII, and next to a character that looks like a
blank and is none. -/
theorem parse_classifies_wide :
    parse "\u3000 0X+00000ffff\u00a0\n" = .ok 0xFFFF ∧
      parse "\u200b0X+00000ffff" = .error .invalidDigit ∧
      ∃ core base digits, Text.Trims "\u3000 0X+00000ffff\u00a0\n".toList core ∧
        Announces core base digits ∧ Classifies base digits (.ok 0xFFFF) := by
  have haddress : parse "\u3000 0X+00000ffff\u00a0\n" = .ok 0xFFFF := by
    decide
  refine ⟨haddress, by decide, ?_⟩
  rw [← haddress]
  exact parse_classifies "\u3000 0X+00000ffff\u00a0\n"

example : parse "0x" = .error .empty ∧ parse "65536z" = .error .tooLarge ∧
    parse "6553z6" = .error .invalidDigit := by
  decide

end Word

end TwoPass
