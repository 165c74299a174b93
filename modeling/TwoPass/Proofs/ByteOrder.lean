import Mathlib.Data.String.Basic

/-!
# Texts in the order of their bytes

Texts are ordered by their characters, and characters by their code points.  UTF-8 keeps this order:
of two different characters, the one with the smaller code point has the smaller bytes at the first
place where the two differ, whatever follows them.  Sorting names by characters and sorting them by
bytes is therefore the same.
-/

namespace TwoPass.Text

/-- The UTF-8 bytes of a text. -/
def utf8 (text : String) : List UInt8 :=
  text.toUTF8.data.toList

theorem utf8_eq_flatMap (text : String) :
    utf8 text = text.toList.flatMap String.utf8EncodeChar := by
  unfold utf8
  rw [String.toUTF8_eq_toByteArray, ← String.utf8Encode_toList, List.utf8Encode,
    List.toList_data_toByteArray]

/-! ## Bytes that decide an order -/

/-- Some bytes come before others, whatever follows either of them. -/
def Precedes (first second : List UInt8) : Prop :=
  ∀ rest others, first ++ rest < second ++ others

theorem append_lt_append_iff (front : List UInt8) {first second : List UInt8} :
    front ++ first < front ++ second ↔ first < second := by
  induction front with
  | nil => rfl
  | cons byte front ih =>
    rw [List.cons_append, List.cons_append, List.cons_lt_cons_iff, ih]
    simp [UInt8.lt_irrefl]

theorem precedes_cons {low high : UInt8} (h : low < high) (rest others : List UInt8) :
    Precedes (low :: rest) (high :: others) := by
  intro more further
  exact List.cons_lt_cons_iff.mpr (.inl h)

theorem Precedes.append {first second : List UInt8} (h : Precedes first second)
    (rest others : List UInt8) : Precedes (first ++ rest) (second ++ others) := by
  intro more further
  rw [List.append_assoc, List.append_assoc]
  exact h _ _

theorem Precedes.append_left {first second : List UInt8} (h : Precedes first second)
    (front : List UInt8) : Precedes (front ++ first) (front ++ second) := by
  intro rest others
  rw [List.append_assoc, List.append_assoc, append_lt_append_iff]
  exact h rest others

theorem ofNat_lt_ofNat {low high : Nat} (h : low < high) (hbyte : high < 256) :
    UInt8.ofNat low < UInt8.ofNat high := by
  rw [UInt8.lt_iff_toNat_lt, UInt8.toNat_ofNat', UInt8.toNat_ofNat']
  omega

/-! ## Characters -/

/-- The bytes of a code point with the given number of continuation bytes, each of which takes six
bits.  What is left of the code point is added to `lead`. -/
def multibyte (lead : Nat) : Nat → Nat → List UInt8
  | 0, code => [UInt8.ofNat (lead + code)]
  | count + 1, code => multibyte lead count (code / 64) ++ [UInt8.ofNat (128 + code % 64)]

theorem exists_multibyte_eq_cons (lead count code : Nat) :
    ∃ rest, multibyte lead count code = UInt8.ofNat (lead + code / 64 ^ count) :: rest := by
  induction count generalizing code with
  | zero => exact ⟨[], by rw [Nat.pow_zero, Nat.div_one]; rfl⟩
  | succ count ih =>
    obtain ⟨rest, hrest⟩ := ih (code / 64)
    refine ⟨rest ++ [UInt8.ofNat (128 + code % 64)], ?_⟩
    rw [multibyte, hrest, Nat.div_div_eq_div_mul, Nat.pow_succ, Nat.mul_comm 64]
    rfl

/-- Among code points with as many bytes, the bytes decide as the code points do. -/
theorem precedes_multibyte {lead count low high : Nat} (h : low < high)
    (hbyte : lead + high / 64 ^ count < 256) :
    Precedes (multibyte lead count low) (multibyte lead count high) := by
  induction count generalizing low high with
  | zero =>
    rw [Nat.pow_zero, Nat.div_one] at hbyte
    exact precedes_cons (ofNat_lt_ofNat (Nat.add_lt_add_left h lead) hbyte) [] []
  | succ count ih =>
    by_cases hsame : low / 64 = high / 64
    · have hlast : UInt8.ofNat (128 + low % 64) < UInt8.ofNat (128 + high % 64) := by
        apply ofNat_lt_ofNat <;> omega
      rw [multibyte, multibyte, hsame]
      exact (precedes_cons hlast [] []).append_left _
    · rw [Nat.pow_succ, Nat.mul_comm, ← Nat.div_div_eq_div_mul] at hbyte
      exact (ih (by omega) hbyte).append _ _

/-- The first byte and the number of continuation bytes that a code point has. -/
inductive Width (code : Nat) : Nat → Nat → Prop
  | one (h : code < 0x80) : Width code 0 0
  | two (hlow : 0x80 ≤ code) (hhigh : code < 0x800) : Width code 0xC0 1
  | three (hlow : 0x800 ≤ code) (hhigh : code < 0x10000) : Width code 0xE0 2
  | four (hlow : 0x10000 ≤ code) (hhigh : code < 0x110000) : Width code 0xF0 3

/-- Code points have as many bytes as each other, or their first bytes decide. -/
theorem Width.compare {low high lead other count more : Nat} (hlow : Width low lead count)
    (hhigh : Width high other more) (h : low < high) :
    other + high / 64 ^ more < 256 ∧
      (lead = other ∧ count = more ∨ lead + low / 64 ^ count < other + high / 64 ^ more) := by
  cases hlow <;> cases hhigh <;> omega

theorem toNat_lt (character : Char) : character.val.toNat < 0x110000 := by
  rcases character.valid with hlow | ⟨-, hhigh⟩
  · exact Nat.lt_trans hlow (by decide)
  · exact hhigh

theorem exists_width (character : Char) :
    ∃ lead count, Width character.val.toNat lead count ∧
      String.utf8EncodeChar character = multibyte lead count character.val.toNat := by
  have hbound := toNat_lt character
  unfold String.utf8EncodeChar
  dsimp only
  generalize character.val.toNat = code at hbound ⊢
  by_cases hone : code ≤ 127
  · refine ⟨0, 0, .one (by omega), ?_⟩
    rw [if_pos hone, multibyte, Nat.zero_add]
  rw [if_neg hone]
  by_cases htwo : code ≤ 2047
  · refine ⟨0xC0, 1, .two (by omega) (by omega), ?_⟩
    rw [if_pos htwo, show code / 64 % 32 + 192 = 0xC0 + code / 64 by omega, Nat.add_comm _ 128]
    rfl
  rw [if_neg htwo]
  by_cases hthree : code ≤ 65535
  · refine ⟨0xE0, 2, .three (by omega) (by omega), ?_⟩
    rw [if_pos hthree, show code / 4096 % 16 + 224 = 0xE0 + code / 64 / 64 by omega,
      Nat.add_comm _ 128, Nat.add_comm _ 128]
    rfl
  · refine ⟨0xF0, 3, .four (by omega) (by omega), ?_⟩
    rw [if_neg hthree, show code / 262144 % 8 + 240 = 0xF0 + code / 64 / 64 / 64 by omega,
      show code / 4096 = code / 64 / 64 by omega, Nat.add_comm _ 128, Nat.add_comm _ 128,
      Nat.add_comm _ 128]
    rfl

theorem precedes_utf8EncodeChar {first second : Char} (h : first < second) :
    Precedes (String.utf8EncodeChar first) (String.utf8EncodeChar second) := by
  have hcode : first.val.toNat < second.val.toNat := h
  obtain ⟨lead, count, hwidth, hfirst⟩ := exists_width first
  obtain ⟨other, more, hotherWidth, hsecond⟩ := exists_width second
  obtain ⟨hbyte, ⟨rfl, rfl⟩ | hlead⟩ := hwidth.compare hotherWidth hcode
  · rw [hfirst, hsecond]
    exact precedes_multibyte hcode hbyte
  · obtain ⟨rest, hrest⟩ := exists_multibyte_eq_cons lead count first.val.toNat
    obtain ⟨others, hothers⟩ := exists_multibyte_eq_cons other more second.val.toNat
    rw [hfirst, hsecond, hrest, hothers]
    exact precedes_cons (ofNat_lt_ofNat hlead hbyte) rest others

/-! ## Texts -/

theorem flatMap_utf8EncodeChar_lt {first second : List Char} (h : first < second) :
    first.flatMap String.utf8EncodeChar < second.flatMap String.utf8EncodeChar := by
  induction first generalizing second with
  | nil =>
    cases second with
    | nil => exact absurd h (List.lt_irrefl [])
    | cons character rest =>
      obtain ⟨byte, bytes, hbytes⟩ :=
        List.exists_cons_of_ne_nil (String.utf8EncodeChar_ne_nil (c := character))
      rw [List.flatMap_cons, hbytes]
      exact List.nil_lt_cons _ _
  | cons character rest ih =>
    cases second with
    | nil => exact absurd h (List.not_lt_nil _)
    | cons other others =>
      rw [List.flatMap_cons, List.flatMap_cons]
      rcases List.cons_lt_cons_iff.mp h with hless | ⟨hsame, hrest⟩
      · exact precedes_utf8EncodeChar hless _ _
      · rw [hsame, append_lt_append_iff]
        exact ih hrest

/-- The order of texts is that of their bytes. -/
theorem utf8_lt_utf8_iff {first second : String} : utf8 first < utf8 second ↔ first < second := by
  rw [utf8_eq_flatMap, utf8_eq_flatMap, String.lt_iff_toList_lt]
  refine ⟨?_, flatMap_utf8EncodeChar_lt⟩
  intro h
  rcases lt_trichotomy first.toList second.toList with hless | hsame | hgreater
  · exact hless
  · rw [hsame] at h
    exact absurd h (List.lt_irrefl _)
  · exact absurd h (List.lt_asymm (flatMap_utf8EncodeChar_lt hgreater))

end TwoPass.Text
