import TwoPass.Text.Decimal
import TwoPass.Text.Numeral

/-!
# JSON tokens

The text of a document is a sequence of tokens with blanks between them.  `Token.text` writes a
token and `Token.scan?` reads the tokens of a text.
-/

namespace TwoPass.Json

inductive Token where
  | openBracket
  | closeBracket
  | openBrace
  | closeBrace
  | comma
  | colon
  | null
  | bool (value : Bool)
  | natural (value : Nat)
  | decimal (number : Decimal)
  | string (text : String)
  /-- A string that spells no text. -/
  | illFormed
  deriving DecidableEq

/-! ## Quoted texts -/

namespace Quoted

/-- How a character is written inside quotes: quotes, backslashes and control characters are
escaped, and all others stand for themselves. -/
def escape (character : Char) : List Char :=
  if character = '"' then ['\\', '"']
  else if character = '\\' then ['\\', '\\']
  else if character = '\x08' then ['\\', 'b']
  else if character = '\x0c' then ['\\', 'f']
  else if character = '\n' then ['\\', 'n']
  else if character = '\r' then ['\\', 'r']
  else if character = '\t' then ['\\', 't']
  else if character.toNat < 0x20 then
    ['\\', 'u', '0', '0', Nat.digitChar (character.toNat / 16),
     Nat.digitChar (character.toNat % 16)]
  else [character]

def write (text : List Char) : List Char :=
  '"' :: text.flatMap escape ++ ['"']

/-- The character that a letter stands for after a backslash. -/
def shortEscape? : Char → Option Char
  | '"' => some '"'
  | '\\' => some '\\'
  | '/' => some '/'
  | 'b' => some '\x08'
  | 'f' => some '\x0c'
  | 'n' => some '\n'
  | 'r' => some '\r'
  | 't' => some '\t'
  | _ => none

/-- The sixteen-bit unit that four hexadecimal digits stand for. -/
def unit? (first second third fourth : Char) : Option Nat := do
  let first ← Numeral.hexDigit? first
  let second ← Numeral.hexDigit? second
  let third ← Numeral.hexDigit? third
  let fourth ← Numeral.hexDigit? fourth
  return Numeral.positional 16 [first, second, third, fourth]

/-- What a character or an escape inside quotes stands for. -/
inductive Piece where
  | character (value : Char)
  /-- One half of a character that is written as two units. -/
  | surrogate (unit : Nat)
  deriving DecidableEq

def Piece.ofUnit (unit : Nat) : Piece :=
  if 0xD800 ≤ unit ∧ unit < 0xE000 then .surrogate unit else .character (Char.ofNat unit)

/-- The character that a high and a low surrogate make up. -/
def pair? (high low : Nat) : Option Char :=
  if high < 0xDC00 ∧ 0xDC00 ≤ low then
    some (Char.ofNat (0x10000 + (high - 0xD800) * 0x400 + (low - 0xDC00)))
  else none

/-- The text that some pieces spell.  Surrogates have to come in pairs. -/
def text? : List Piece → Option (List Char)
  | [] => some []
  | .character value :: rest => (text? rest).map (value :: ·)
  | .surrogate high :: .surrogate low :: rest => do
    let value ← pair? high low
    let text ← text? rest
    return value :: text
  | .surrogate _ :: _ => none

/-- Puts a piece in front of those that were read. -/
def push (piece : Piece) (read : Option (List Piece × List Char)) :
    Option (List Piece × List Char) :=
  read.map fun (pieces, rest) ↦ (piece :: pieces, rest)

/-- Reads the pieces up to the closing quote.  Control characters have to be escaped. -/
def pieces? : List Char → Option (List Piece × List Char)
  | [] => none
  | '"' :: rest => some ([], rest)
  | '\\' :: 'u' :: first :: second :: third :: fourth :: rest =>
    match unit? first second third fourth with
    | none => none
    | some unit => push (.ofUnit unit) (pieces? rest)
  | '\\' :: letter :: rest =>
    match shortEscape? letter with
    | none => none
    | some value => push (.character value) (pieces? rest)
  | value :: rest =>
    if value.toNat < 0x20 then none else push (.character value) (pieces? rest)

/-- The token of some pieces. -/
def token (pieces : List Piece) : Token :=
  match text? pieces with
  | some text => .string (String.ofList text)
  | none => .illFormed

/-- Reads a string up to its closing quote. -/
def read? (source : List Char) : Option (Token × List Char) :=
  (pieces? source).map fun (pieces, rest) ↦ (token pieces, rest)

theorem length_lt_of_push {piece : Piece} {read : Option (List Piece × List Char)} {bound : Nat}
    (h : ∀ pieces rest, read = some (pieces, rest) → rest.length < bound)
    {pieces : List Piece} {rest : List Char} (pushed : push piece read = some (pieces, rest)) :
    rest.length < bound := by
  simp only [push, Option.map_eq_some_iff, Prod.mk.injEq, Prod.exists] at pushed
  obtain ⟨inner, after, found, -, rfl⟩ := pushed
  exact h inner after found

theorem length_lt_of_pieces? {source rest : List Char} {pieces : List Piece}
    (h : pieces? source = some (pieces, rest)) : rest.length < source.length := by
  fun_induction pieces? source generalizing pieces rest
  case case2 =>
    cases h
    simp
  case case4 | case6 | case8 =>
    rename_i shorter
    have := length_lt_of_push (fun _ _ found ↦ shorter found) h
    simp only [List.length_cons]
    omega
  all_goals cases h

/-- Reading a string uses up at least its closing quote. -/
theorem length_lt_of_read? {source rest : List Char} {token : Token}
    (h : read? source = some (token, rest)) : rest.length < source.length := by
  simp only [read?, Option.map_eq_some_iff, Prod.mk.injEq, Prod.exists] at h
  obtain ⟨pieces, after, found, -, rfl⟩ := h
  exact length_lt_of_pieces? found

end Quoted

/-! ## Numbers -/

namespace Number

/-- The digits at the front of a text, of which there has to be one. -/
def digits? (source : List Char) : Option (List Char × List Char) :=
  match source.takeWhile Char.isDigit with
  | [] => none
  | digits => some (digits, source.dropWhile Char.isDigit)

/-- Whether a minus stands at the front of a text, and what follows it. -/
def sign : List Char → Bool × List Char
  | '-' :: rest => (true, rest)
  | source => (false, source)

/-- The whole part of a number, which starts with a zero only if it is one. -/
def whole? : List Char → Option (List Char × List Char)
  | '0' :: rest => some (['0'], rest)
  | source => digits? source

/-- The digits of a fraction, which may be missing. -/
def fraction? : List Char → Option (List Char × List Char)
  | '.' :: rest => digits? rest
  | source => some ([], source)

def exponentSign : List Char → Bool × List Char
  | '+' :: rest => (false, rest)
  | source => sign source

def exponentValue (negative : Bool) (digits : List Char) : Int :=
  let size : Int := Nat.ofDigitChars 10 digits 0
  if negative then -size else size

/-- The exponent of a number, which may be missing. -/
def exponent? : List Char → Option (Option Int × List Char)
  | [] => some (none, [])
  | mark :: rest =>
    if mark = 'e' ∨ mark = 'E' then
      let (negative, unsigned) := exponentSign rest
      (digits? unsigned).map fun (digits, after) ↦ (some (exponentValue negative digits), after)
    else some (none, mark :: rest)

/-- Reads a number.  One without sign, fraction and exponent is a natural number. -/
def read? (source : List Char) : Option (Token × List Char) := do
  let (negative, unsigned) := sign source
  let (whole, afterWhole) ← whole? unsigned
  let (fraction, afterFraction) ← fraction? afterWhole
  let (exponent, after) ← exponent? afterFraction
  if !negative && fraction.isEmpty && exponent.isNone then
    return (.natural (Nat.ofDigitChars 10 whole 0), after)
  else
    return (.decimal ⟨negative, whole, fraction, exponent.getD 0⟩, after)

/-- Writes a number with its exponent, so that it is not taken for a natural number. -/
def write (number : Decimal) : List Char :=
  let sign := if number.negative then ['-'] else []
  let fraction := if number.fraction.isEmpty then [] else '.' :: number.fraction
  let exponentSign := if number.exponent < 0 then ['-'] else []
  sign ++ number.whole ++ fraction ++ 'e' :: exponentSign ++
    Nat.toDigits 10 number.exponent.natAbs

theorem length_lt_of_digits? {source digits rest : List Char}
    (h : digits? source = some (digits, rest)) : rest.length < source.length := by
  have split := List.takeWhile_append_dropWhile (p := Char.isDigit) (l := source)
  unfold digits? at h
  split at h
  · simp at h
  · rename_i nonempty
    cases h
    have positive : 0 < (source.takeWhile Char.isDigit).length :=
      List.length_pos_iff.mpr nonempty
    have total := congrArg List.length split
    simp only [List.length_append] at total
    omega

theorem length_sign_le (source : List Char) : (sign source).2.length ≤ source.length := by
  unfold sign
  split <;> simp

theorem length_lt_of_whole? {source whole rest : List Char}
    (h : whole? source = some (whole, rest)) : rest.length < source.length := by
  unfold whole? at h
  split at h
  · cases h
    simp
  · exact length_lt_of_digits? h

theorem length_le_of_fraction? {source fraction rest : List Char}
    (h : fraction? source = some (fraction, rest)) : rest.length ≤ source.length := by
  unfold fraction? at h
  split at h
  · have shorter := length_lt_of_digits? h
    simp only [List.length_cons]
    omega
  · cases h
    exact Nat.le_refl _

theorem length_exponentSign_le (source : List Char) :
    (exponentSign source).2.length ≤ source.length := by
  unfold exponentSign
  split
  · simp
  · exact length_sign_le source

theorem length_le_of_exponent? {source rest : List Char} {exponent : Option Int}
    (h : exponent? source = some (exponent, rest)) : rest.length ≤ source.length := by
  unfold exponent? at h
  split at h
  · cases h
    simp
  · rename_i mark tail
    split at h
    · simp only [Option.map_eq_some_iff, Prod.mk.injEq, Prod.exists] at h
      obtain ⟨digits, after, found, -, rfl⟩ := h
      have shorter := length_lt_of_digits? found
      have signed := length_exponentSign_le tail
      simp only [List.length_cons]
      omega
    · cases h
      simp

/-- Reading a number uses up at least one digit. -/
theorem length_lt_of_read? {source rest : List Char} {token : Token}
    (h : read? source = some (token, rest)) : rest.length < source.length := by
  simp only [read?, Option.bind_eq_bind, Option.bind_eq_some_iff, Prod.exists] at h
  obtain ⟨whole, afterWhole, foundWhole, fraction, afterFraction, foundFraction, exponent, after,
    foundExponent, result⟩ := h
  have sameRest : after = rest := by
    split at result <;> simp_all
  subst sameRest
  have signed := length_sign_le source
  have first := length_lt_of_whole? foundWhole
  have second := length_le_of_fraction? foundFraction
  have third := length_le_of_exponent? foundExponent
  omega

end Number

/-! ## Tokens -/

namespace Token

def text : Token → List Char
  | .openBracket => ['[']
  | .closeBracket => [']']
  | .openBrace => ['\x7b']
  | .closeBrace => ['\x7d']
  | .comma => [',']
  | .colon => [':']
  | .null => ['n', 'u', 'l', 'l']
  | .bool true => ['t', 'r', 'u', 'e']
  | .bool false => ['f', 'a', 'l', 's', 'e']
  | .natural value => Nat.toDigits 10 value
  | .decimal number => Number.write number
  | .string text => Quoted.write text.toList
  | .illFormed => ['"', '\\', 'u', 'd', '8', '0', '0', '"']

/-- Reads the token at the front of a text. -/
def next? : List Char → Option (Token × List Char)
  | '[' :: rest => some (.openBracket, rest)
  | ']' :: rest => some (.closeBracket, rest)
  | '\x7b' :: rest => some (.openBrace, rest)
  | '\x7d' :: rest => some (.closeBrace, rest)
  | ',' :: rest => some (.comma, rest)
  | ':' :: rest => some (.colon, rest)
  | 'n' :: 'u' :: 'l' :: 'l' :: rest => some (.null, rest)
  | 't' :: 'r' :: 'u' :: 'e' :: rest => some (.bool true, rest)
  | 'f' :: 'a' :: 'l' :: 's' :: 'e' :: rest => some (.bool false, rest)
  | '"' :: rest => Quoted.read? rest
  | source => Number.read? source

/-- Reading a token uses up some of the text. -/
theorem length_lt_of_next? {source rest : List Char} {token : Token}
    (h : next? source = some (token, rest)) : rest.length < source.length := by
  unfold next? at h
  split at h
  case h_10 =>
    have shorter := Quoted.length_lt_of_read? h
    simp only [List.length_cons]
    omega
  case h_11 => exact Number.length_lt_of_read? h
  all_goals
    cases h
    simp only [List.length_cons]
    omega

/-- Whether a character may stand between tokens. -/
def isSpace (character : Char) : Bool :=
  character = ' ' || character = '\t' || character = '\n' || character = '\r'

/-- Reads all tokens of a text. -/
def scan? : List Char → Option (List Token)
  | [] => some []
  | character :: rest =>
    if isSpace character then scan? rest
    else
      match found : next? (character :: rest) with
      | none => none
      | some (token, after) =>
        have := length_lt_of_next? found
        (scan? after).map (token :: ·)
termination_by source => source.length
decreasing_by
  · exact Nat.lt_succ_self _
  · assumption

end Token

end TwoPass.Json
