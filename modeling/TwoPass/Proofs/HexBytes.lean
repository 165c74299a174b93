import Mathlib.Data.List.Forall2
import TwoPass.Proofs.Numeral
import TwoPass.Text.Blank
import TwoPass.Text.HexBytes

/-!
# Texts of byte sequences

The text of a byte sequence can be cut between any two bytes, so that the texts of its parts, with a
blank between neighbours, are the text of the whole.  Cut at every blank, it falls into literals of
two digits whose values are the bytes, so that it belongs to no other sequence.
-/

namespace TwoPass

/-! ## Cutting a text -/

theorem hexBytes_singleton (byte : UInt8) : hexBytes [byte] = hexPair byte :=
  List.intercalate_singleton

theorem hexBytes_cons (byte : UInt8) {rest : List UInt8} (h : rest ≠ []) :
    hexBytes (byte :: rest) = hexPair byte ++ ' ' :: hexBytes rest := by
  obtain ⟨next, others, rfl⟩ := List.exists_cons_of_ne_nil h
  unfold hexBytes
  rw [List.map_cons, List.map_cons, List.intercalate_cons_cons, List.append_assoc,
    List.singleton_append]

theorem hexBytes_append {first second : List UInt8} (hfirst : first ≠ []) (hsecond : second ≠ []) :
    hexBytes (first ++ second) = hexBytes first ++ ' ' :: hexBytes second := by
  induction first with
  | nil => exact absurd rfl hfirst
  | cons byte rest ih =>
    by_cases hrest : rest = []
    · rw [hrest, List.singleton_append, hexBytes_cons byte hsecond, hexBytes_singleton]
    · have happend : rest ++ second ≠ [] := List.append_ne_nil_of_left_ne_nil hrest second
      calc
        hexBytes (byte :: rest ++ second) = hexPair byte ++ ' ' :: hexBytes (rest ++ second) :=
          hexBytes_cons byte happend
        _ = hexPair byte ++ ' ' :: (hexBytes rest ++ ' ' :: hexBytes second) := by
          rw [ih hrest]
        _ = hexBytes (byte :: rest) ++ ' ' :: hexBytes second := by
          rw [hexBytes_cons byte hrest, List.append_assoc, List.cons_append]

/-- The texts of some parts, none of them empty, make up the text of the whole. -/
theorem intercalate_map_hexBytes {parts : List (List UInt8)} (h : ∀ part ∈ parts, part ≠ []) :
    [' '].intercalate (parts.map hexBytes) = hexBytes parts.flatten := by
  induction parts with
  | nil => rfl
  | cons part others ih =>
    have hpart : part ≠ [] := h part List.mem_cons_self
    have hothers : ∀ other ∈ others, other ≠ [] :=
      fun other hmem ↦ h other (List.mem_cons_of_mem part hmem)
    cases others with
    | nil => rw [List.map_singleton, List.intercalate_singleton, List.flatten_singleton]
    | cons next rest =>
      have hflatten : (next :: rest).flatten ≠ [] :=
        List.append_ne_nil_of_left_ne_nil (hothers next List.mem_cons_self) rest.flatten
      calc
        [' '].intercalate ((part :: next :: rest).map hexBytes) =
            hexBytes part ++ [' '] ++ [' '].intercalate ((next :: rest).map hexBytes) :=
          List.intercalate_cons_cons
        _ = hexBytes part ++ ' ' :: hexBytes (next :: rest).flatten := by
          rw [ih hothers, List.append_assoc, List.singleton_append]
        _ = hexBytes (part ++ (next :: rest).flatten) := (hexBytes_append hpart hflatten).symm

theorem isBlank_digitChar : ∀ digit < 16, Text.isBlank (Nat.digitChar digit) = false := by
  decide

/-- The text of a byte sequence ends with a digit. -/
theorem exists_hexBytes_eq_concat {bytes : List UInt8} (h : bytes ≠ []) :
    ∃ front digit, hexBytes bytes = front ++ [digit] ∧ Text.isBlank digit = false := by
  induction bytes with
  | nil => exact absurd rfl h
  | cons byte rest ih =>
    by_cases hrest : rest = []
    · refine ⟨[Nat.digitChar (byte.toNat / 16)], Nat.digitChar (byte.toNat % 16), ?_, ?_⟩
      · rw [hrest, hexBytes_singleton]
        rfl
      · exact isBlank_digitChar _ (Nat.mod_lt _ (by decide))
    · obtain ⟨front, digit, hfront, hdigit⟩ := ih hrest
      refine ⟨hexPair byte ++ ' ' :: front, digit, ?_, hdigit⟩
      rw [hexBytes_cons byte hrest, hfront, List.append_assoc, List.cons_append]

/-! ## Pairs of digits -/

theorem exists_eq_digitChar_of_mem_hexPair {byte : UInt8} {character : Char}
    (h : character ∈ hexPair byte) : ∃ digit < 16, character = Nat.digitChar digit := by
  have hbyte : byte.toNat < 256 := byte.toNat_lt
  simp only [hexPair, List.mem_cons, List.not_mem_nil, or_false] at h
  rcases h with hhigh | hlow
  · exact ⟨byte.toNat / 16, by omega, hhigh⟩
  · exact ⟨byte.toNat % 16, by omega, hlow⟩

theorem blank_notMem_hexPair (byte : UInt8) : ' ' ∉ hexPair byte := by
  intro hmem
  obtain ⟨digit, hdigit, heq⟩ := exists_eq_digitChar_of_mem_hexPair hmem
  have hblank : Text.isBlank ' ' = false := by
    rw [heq]
    exact isBlank_digitChar digit hdigit
  exact absurd hblank (by decide)

/-- A digit takes one byte. -/
theorem utf8ByteSize_hexPair (byte : UInt8) : (String.ofList (hexPair byte)).utf8ByteSize = 2 := by
  have hdigit : ∀ digit < 16, (Nat.digitChar digit).utf8Size = 1 := by
    decide
  have hsize (character : Char) (h : character ∈ hexPair byte) : character.utf8Size = 1 := by
    obtain ⟨digit, hlt, rfl⟩ := exists_eq_digitChar_of_mem_hexPair h
    exact hdigit digit hlt
  have hpair : String.ofList (hexPair byte) =
      String.singleton (Nat.digitChar (byte.toNat / 16)) ++
        String.singleton (Nat.digitChar (byte.toNat % 16)) := by
    apply String.toList_inj.mp
    simp [hexPair]
  rw [hpair, String.utf8ByteSize_append, String.utf8ByteSize_singleton,
    String.utf8ByteSize_singleton, hsize _ List.mem_cons_self,
    hsize _ (List.mem_cons_of_mem _ List.mem_cons_self)]

/-- A byte is the value of the literal that it is written as. -/
theorem literalValue?_hexPair (byte : UInt8) :
    literalValue? (String.ofList (hexPair byte)) = some byte.toNat := by
  have hbyte : byte.toNat < 256 := byte.toNat_lt
  have hhigh : byte.toNat / 16 < 16 := by omega
  have hlow : byte.toNat % 16 < 16 := by omega
  have hdenotes : Numeral.Denotes 16 (hexPair byte) (byte.toNat / 16 * 16 + byte.toNat % 16) :=
    (Numeral.denotes_singleton (Numeral.isDigit_digitChar (Nat.le_refl 16) hhigh)).concat
      (Numeral.isDigit_digitChar (Nat.le_refl 16) hlow)
  rw [Nat.div_add_mod'] at hdenotes
  rw [literalValue?_eq_some_iff, String.toList_ofList]
  exact ⟨hdenotes, by omega⟩

/-! ## Reading a text back -/

/-- The parts of a text between its blanks.  Two blanks in a row have an empty part between them. -/
def Text.parts (text : String) : List String :=
  (text.split ' ').toList.map String.Slice.copy

/-- A part of a text has two characters, and is a literal with the value of a byte. -/
structure IsBytePart (part : String) (byte : UInt8) : Prop where
  length_eq : part.length = 2
  literalValue?_eq : literalValue? part = some byte.toNat

/-- A text holds a byte sequence: there is one part for each byte, in the same order, and nothing
else but single blanks between neighbours. -/
structure Transcribes (text : String) (bytes : List UInt8) : Prop where
  eq_empty_iff : text = "" ↔ bytes = []
  parts : bytes ≠ [] → List.Forall₂ IsBytePart (Text.parts text) bytes
  length_eq : bytes ≠ [] → text.length = 3 * bytes.length - 1
  /-- Every character takes one byte. -/
  utf8ByteSize_eq : text.utf8ByteSize = text.length

theorem renderHex_eq_empty_iff {bytes : List UInt8} : renderHex bytes = "" ↔ bytes = [] := by
  constructor
  · intro htext
    by_contra hbytes
    obtain ⟨front, digit, hconcat, -⟩ := exists_hexBytes_eq_concat hbytes
    rw [← toList_renderHex, htext] at hconcat
    simp at hconcat
  · intro hbytes
    rw [hbytes]
    rfl

theorem parts_renderHex {bytes : List UInt8} (h : bytes ≠ []) :
    Text.parts (renderHex bytes) = bytes.map (String.ofList ∘ hexPair) := by
  have hblank : ∀ pair ∈ bytes.map hexPair, ' ' ∉ pair := by
    intro pair hmem
    obtain ⟨byte, -, rfl⟩ := List.mem_map.mp hmem
    exact blank_notMem_hexPair byte
  have hsplit : (hexBytes bytes).splitOn ' ' = bytes.map hexPair := by
    apply List.splitOn_intercalate ' ' hblank
    exact mt List.map_eq_nil_iff.mp h
  rw [Text.parts, String.toList_split_char, toList_renderHex, hsplit, List.map_map]

theorem renderHex_singleton (byte : UInt8) : renderHex [byte] = String.ofList (hexPair byte) := by
  rw [renderHex, hexBytes_singleton]

theorem renderHex_cons (byte : UInt8) {rest : List UInt8} (h : rest ≠ []) :
    renderHex (byte :: rest) = String.ofList (hexPair byte) ++ " " ++ renderHex rest := by
  apply String.toList_inj.mp
  simp [hexBytes_cons byte h]

theorem length_renderHex {bytes : List UInt8} (h : bytes ≠ []) :
    (renderHex bytes).length = 3 * bytes.length - 1 := by
  induction bytes with
  | nil => exact absurd rfl h
  | cons byte rest ih =>
    by_cases hrest : rest = []
    · rw [hrest, renderHex_singleton, String.length_ofList]
      rfl
    · have hpos : 0 < rest.length := List.length_pos_of_ne_nil hrest
      have hblank : " ".length = 1 := rfl
      rw [renderHex_cons byte hrest, String.length_append, String.length_append,
        String.length_ofList, length_hexPair, hblank, ih hrest, List.length_cons]
      omega

theorem utf8ByteSize_renderHex (bytes : List UInt8) :
    (renderHex bytes).utf8ByteSize = (renderHex bytes).length := by
  induction bytes with
  | nil => rfl
  | cons byte rest ih =>
    by_cases hrest : rest = []
    · rw [hrest, renderHex_singleton, utf8ByteSize_hexPair, String.length_ofList, length_hexPair]
    · have hblank : " ".utf8ByteSize = " ".length := rfl
      rw [renderHex_cons byte hrest, String.utf8ByteSize_append, String.utf8ByteSize_append,
        String.length_append, String.length_append, utf8ByteSize_hexPair, String.length_ofList,
        length_hexPair, hblank, ih]

theorem transcribes_renderHex (bytes : List UInt8) : Transcribes (renderHex bytes) bytes where
  eq_empty_iff := renderHex_eq_empty_iff
  parts h := by
    rw [parts_renderHex h, List.forall₂_map_left_iff, List.forall₂_same]
    intro byte _
    exact ⟨String.length_ofList, literalValue?_hexPair byte⟩
  length_eq := length_renderHex
  utf8ByteSize_eq := utf8ByteSize_renderHex bytes

theorem rightUnique_isBytePart : Relator.RightUnique IsBytePart := by
  intro part first second hfirst hsecond
  have hvalue : some first.toNat = some second.toNat :=
    hfirst.literalValue?_eq.symm.trans hsecond.literalValue?_eq
  exact UInt8.toNat_inj.mp (Option.some.inj hvalue)

/-- A text holds one byte sequence at most. -/
theorem Transcribes.unique {text : String} {first second : List UInt8}
    (hfirst : Transcribes text first) (hsecond : Transcribes text second) : first = second := by
  have hnil : first = [] ↔ second = [] := hfirst.eq_empty_iff.symm.trans hsecond.eq_empty_iff
  -- the empty text has an empty part, so that the empty sequence is not found through its parts
  by_cases hempty : first = []
  · rw [hempty, hnil.mp hempty]
  · apply List.right_unique_forall₂' rightUnique_isBytePart (hfirst.parts hempty)
    exact hsecond.parts (mt hnil.mpr hempty)

/-- The text of a byte sequence can be read back, and no two sequences have the same text. -/
theorem renderHex_lossless :
    (∀ bytes, Transcribes (renderHex bytes) bytes) ∧ Function.Injective renderHex := by
  refine ⟨transcribes_renderHex, ?_⟩
  intro first second htext
  have hfirst : Transcribes (renderHex second) first := by
    rw [← htext]
    exact transcribes_renderHex first
  exact hfirst.unique (transcribes_renderHex second)

example : renderHex [0x1b, 0x00, 0xff] = "1b 00 ff" := by
  decide

end TwoPass
