import TwoPass.Json.Token

/-!
# Tokens that are written are read back

The text of a token is read as that token, whatever stands behind it, except that a number must not
be followed by a character that would make it longer.  `Token.Spells` says which texts consist of
given tokens with blanks around them, and all tokens of such a text are found.
-/

namespace TwoPass.Json

/-! ## Quoted texts -/

namespace Quoted

theorem unit?_digitChar {high low : Nat} (hhigh : high < 16) (hlow : low < 16) :
    unit? '0' '0' (Nat.digitChar high) (Nat.digitChar low) = some (high * 16 + low) := by
  have hzero : Numeral.hexDigit? '0' = some 0 := by decide
  simp [unit?, hzero, Numeral.hexDigit?_digitChar hhigh, Numeral.hexDigit?_digitChar hlow,
    Numeral.positional]

/-- The three ways in which a character is written: by a letter, by its number, or as itself. -/
inductive Written (character : Char) : List Char → Prop
  | letter {letter : Char} (hletter : shortEscape? letter = some character) :
      Written character ['\\', letter]
  | number (hcontrol : character.toNat < 0x20) :
      Written character ['\\', 'u', '0', '0', Nat.digitChar (character.toNat / 16),
        Nat.digitChar (character.toNat % 16)]
  | plain (hquote : character ≠ '"') (hbackslash : character ≠ '\\')
      (hcontrol : ¬ character.toNat < 0x20) : Written character [character]

theorem written_escape (character : Char) : Written character (escape character) := by
  unfold escape
  split
  · exact .letter (by subst_vars; rfl)
  split
  · exact .letter (by subst_vars; rfl)
  split
  · exact .letter (by subst_vars; rfl)
  split
  · exact .letter (by subst_vars; rfl)
  split
  · exact .letter (by subst_vars; rfl)
  split
  · exact .letter (by subst_vars; rfl)
  split
  · exact .letter (by subst_vars; rfl)
  split
  · exact .number ‹_›
  · exact .plain ‹_› ‹_› ‹_›

/-- A character is read as one piece, however it is written. -/
theorem Written.pieces?_append {character : Char} {text : List Char} (h : Written character text)
    (rest : List Char) :
    pieces? (text ++ rest) = push (.character character) (pieces? rest) := by
  cases h with
  | @letter letter hletter =>
    have hnotNumber : letter ≠ 'u' := by
      rintro rfl
      cases hletter
    rw [List.cons_append, List.cons_append, List.nil_append, pieces?, hletter]
    intro _ _ _ _ _ hnumber
    exact absurd hnumber hnotNumber
  | number hcontrol =>
    have hunit := unit?_digitChar (show character.toNat / 16 < 16 by omega)
      (show character.toNat % 16 < 16 by omega)
    rw [show character.toNat / 16 * 16 + character.toNat % 16 = character.toNat by omega] at hunit
    have hpiece : Piece.ofUnit character.toNat = .character character := by
      rw [Piece.ofUnit, if_neg (by omega), Char.ofNat_toNat]
    simp only [List.cons_append, List.nil_append, pieces?, hunit, hpiece]
  | plain hquote hbackslash hcontrol =>
    simp [pieces?, hbackslash, hcontrol]

theorem pieces?_flatMap_escape (text rest : List Char) :
    pieces? (text.flatMap escape ++ '"' :: rest) = some (text.map .character, rest) := by
  induction text with
  | nil => rfl
  | cons character text ih =>
    rw [List.flatMap_cons, List.append_assoc, (written_escape character).pieces?_append, ih]
    rfl

theorem text?_map_character (text : List Char) : text? (text.map .character) = some text := by
  induction text with
  | nil => rfl
  | cons character text ih => rw [List.map_cons, text?, ih, Option.map_some]

/-- A quoted text is read back up to its closing quote. -/
theorem read?_flatMap_escape (text rest : List Char) :
    read? (text.flatMap escape ++ '"' :: rest) = some (.string (String.ofList text), rest) := by
  simp only [read?, pieces?_flatMap_escape, Option.map_some, token, text?_map_character]

end Quoted

/-! ## Natural numbers -/

namespace Number

/-- Whether a character makes the number in front of it longer. -/
def continues (character : Char) : Bool :=
  character.isDigit || character = '.' || character = 'e' || character = 'E'

/-- A text that starts with no character of the number in front of it. -/
def Delimits (rest : List Char) : Prop :=
  ∀ character ∈ rest.head?, continues character = false

theorem delimits_nil : Delimits [] := by
  intro character h
  cases h

theorem delimits_cons {character : Char} (h : continues character = false) (rest : List Char) :
    Delimits (character :: rest) := by
  intro other hother
  cases hother
  exact h

theorem toDigits_ne_zero_cons {value : Nat} (h : 0 < value) (rest : List Char) :
    Nat.toDigits 10 value ≠ '0' :: rest := by
  induction value using Nat.strongRecOn generalizing rest with
  | ind value ih =>
    rw [Nat.toDigits_eq_if (by decide)]
    by_cases hsmall : value < 10
    · have hdigit : ∀ digit < 10, 0 < digit → Nat.digitChar digit ≠ '0' := by decide
      rw [if_pos hsmall]
      intro hdigits
      exact hdigit value hsmall h (List.cons.inj hdigits).1
    · rw [if_neg hsmall]
      intro hdigits
      rcases List.append_eq_cons_iff.mp hdigits with ⟨hnone, -⟩ | ⟨others, hfirst, -⟩
      · exact Nat.toDigits_ne_nil hnone
      · exact ih (value / 10) (by omega) (by omega) others hfirst

theorem digits?_append {digits rest : List Char} (hne : digits ≠ [])
    (hdigits : ∀ digit ∈ digits, digit.isDigit) (hrest : Delimits rest) :
    digits? (digits ++ rest) = some (digits, rest) := by
  have hnone : rest.takeWhile Char.isDigit = [] ∧ rest.dropWhile Char.isDigit = rest := by
    cases rest with
    | nil => exact ⟨rfl, rfl⟩
    | cons character rest =>
      have hdigit : character.isDigit = false := by
        have := hrest character rfl
        simp_all [continues]
      simp [hdigit]
  rw [digits?, List.takeWhile_append_of_pos hdigits, List.dropWhile_append_of_pos hdigits, hnone.1,
    hnone.2, List.append_nil]
  split
  · contradiction
  · rfl

theorem isDigit_of_mem_toDigits {value : Nat} {digit : Char} (h : digit ∈ Nat.toDigits 10 value) :
    digit.isDigit :=
  Nat.isDigit_of_mem_toDigits (by decide) (by decide) h

theorem exists_toDigits_eq_cons (value : Nat) :
    ∃ digit others, Nat.toDigits 10 value = digit :: others ∧ digit.isDigit := by
  obtain ⟨digit, others, hdigits⟩ :=
    List.exists_cons_of_ne_nil (Nat.toDigits_ne_nil (n := value) (b := 10))
  exact ⟨digit, others, hdigits, isDigit_of_mem_toDigits (hdigits ▸ List.mem_cons_self)⟩

theorem whole?_toDigits (value : Nat) {rest : List Char} (hrest : Delimits rest) :
    whole? (Nat.toDigits 10 value ++ rest) = some (Nat.toDigits 10 value, rest) := by
  rcases Nat.eq_zero_or_pos value with rfl | hpositive
  · rfl
  · have hdigits : digits? (Nat.toDigits 10 value ++ rest) = some (Nat.toDigits 10 value, rest) :=
      digits?_append Nat.toDigits_ne_nil (fun _ ↦ isDigit_of_mem_toDigits) hrest
    rw [whole?, hdigits]
    intro others hothers
    rcases List.append_eq_cons_iff.mp hothers with ⟨hnone, -⟩ | ⟨_, hfirst, -⟩
    · exact Nat.toDigits_ne_nil hnone
    · exact toDigits_ne_zero_cons hpositive _ hfirst

theorem fraction?_of_delimits {rest : List Char} (h : Delimits rest) :
    fraction? rest = some ([], rest) := by
  rw [fraction?]
  rintro others rfl
  cases h '.' rfl

theorem exponent?_of_delimits {rest : List Char} (h : Delimits rest) :
    exponent? rest = some (none, rest) := by
  cases rest with
  | nil => rfl
  | cons mark rest =>
    have hmark : ¬ (mark = 'e' ∨ mark = 'E') := by
      have := h mark rfl
      simp_all [continues]
    rw [exponent?, if_neg hmark]

theorem sign_toDigits (value : Nat) (rest : List Char) :
    sign (Nat.toDigits 10 value ++ rest) = (false, Nat.toDigits 10 value ++ rest) := by
  obtain ⟨digit, others, hdigits, hdigit⟩ := exists_toDigits_eq_cons value
  rw [hdigits, List.cons_append, sign]
  rintro _ hminus
  cases hminus
  cases hdigit

/-- A natural number is read back if the text behind it does not make it longer. -/
theorem read?_toDigits (value : Nat) {rest : List Char} (hrest : Delimits rest) :
    read? (Nat.toDigits 10 value ++ rest) = some (.natural value, rest) := by
  simp [read?, sign_toDigits, whole?_toDigits value hrest, fraction?_of_delimits hrest,
    exponent?_of_delimits hrest, Nat.ofDigitChars_ten_toDigits]

end Number

/-! ## Texts that are made up of tokens -/

namespace Token

/-- A token ends where the given text begins.  Only a natural number could go on there; other
numbers are left out. -/
def Ends : Token → List Char → Prop
  | .natural _, rest => Number.Delimits rest
  | .decimal _, _ => False
  | _, _ => True

theorem next?_of_isDigit {digit : Char} (h : digit.isDigit) (rest : List Char) :
    next? (digit :: rest) = Number.read? (digit :: rest) := by
  unfold next?
  split
  case h_11 => rfl
  all_goals
    rename_i hsource
    cases hsource
    cases h

theorem next?_text {token : Token} {rest : List Char} (h : token.Ends rest) :
    next? (token.text ++ rest) = some (token, rest) := by
  cases token with
  | decimal number => exact absurd h id
  | natural value =>
    have hread := Number.read?_toDigits value h
    obtain ⟨digit, others, hdigits, hdigit⟩ := Number.exists_toDigits_eq_cons value
    rw [hdigits, List.cons_append] at hread
    rw [Token.text, hdigits, List.cons_append, next?_of_isDigit hdigit, hread]
  | string value =>
    have hread := Quoted.read?_flatMap_escape value.toList rest
    rw [String.ofList_toList] at hread
    rw [Token.text, Quoted.write, List.append_assoc, List.cons_append]
    exact hread
  | bool value => cases value <;> rfl
  | _ => rfl

theorem isSpace_of_isDigit {digit : Char} (h : digit.isDigit) : isSpace digit = false := by
  unfold isSpace
  have hne {other : Char} (hother : other.isDigit = false) : digit ≠ other := by
    rintro rfl
    rw [h] at hother
    cases hother
  simp [hne]

/-- No token starts with a blank. -/
theorem exists_text_eq_cons {token : Token} {rest : List Char} (h : token.Ends rest) :
    ∃ first others, token.text ++ rest = first :: others ∧ isSpace first = false := by
  cases token with
  | decimal number => exact absurd h id
  | natural value =>
    obtain ⟨digit, others, hdigits, hdigit⟩ := Number.exists_toDigits_eq_cons value
    refine ⟨digit, others ++ rest, ?_, ?_⟩
    · rw [Token.text, hdigits, List.cons_append]
    · exact isSpace_of_isDigit hdigit
  | bool value => cases value <;> exact ⟨_, _, rfl, rfl⟩
  | _ => exact ⟨_, _, rfl, rfl⟩

/-- A text consists of some tokens with blanks around them. -/
inductive Spells : List Char → List Token → Prop
  | nil : Spells [] []
  | blank {character : Char} {text : List Char} {tokens : List Token}
      (hspace : isSpace character = true) (hrest : Spells text tokens) :
      Spells (character :: text) tokens
  | token {token : Token} {text : List Char} {tokens : List Token} (hends : token.Ends text)
      (hrest : Spells text tokens) : Spells (token.text ++ text) (token :: tokens)

/-- All tokens of a text are found. -/
theorem Spells.scan?_eq {text : List Char} {tokens : List Token} (h : Spells text tokens) :
    scan? text = some tokens := by
  induction h with
  | nil => rw [scan?]
  | blank hspace _ ih => rw [scan?, if_pos hspace, ih]
  | @token token text tokens hends _ ih =>
    have hnext := next?_text hends
    obtain ⟨first, others, htext, hspace⟩ := exists_text_eq_cons hends
    rw [htext] at hnext ⊢
    rw [scan?, if_neg (by rw [hspace]; exact Bool.false_ne_true)]
    split
    next hnone =>
      rw [hnext] at hnone
      cases hnone
    next found after hfound =>
      rw [hnext] at hfound
      cases hfound
      rw [ih, Option.map_some]

theorem Spells.blanks {blanks text : List Char} {tokens : List Token} (h : Spells text tokens)
    (hblanks : ∀ character ∈ blanks, isSpace character = true) :
    Spells (blanks ++ text) tokens := by
  induction blanks with
  | nil => exact h
  | cons character blanks ih =>
    have hparts := List.forall_mem_cons.mp hblanks
    exact .blank hparts.1 (ih hparts.2)

end Token

end TwoPass.Json
