import TwoPass.Image
import TwoPass.Proofs.Numeral
import TwoPass.Proofs.RegisterFile

/-!
# Contents of operand slots

What an operand stands for, and which bytes a slot holds for it.  `Slot.Holds` and `Slot.HoldAll`
say this without the encoder: by the names of a register file, and by values up to the width of the
slot.
-/

namespace TwoPass

/-! ## Outcomes of logged runs -/

namespace Logged

variable {ε α β : Type} {first : Logged ε α} {next : α → Logged ε β}

theorem outcome_bind_eq_ok_iff {value : β} :
    (first >>= next).outcome = .ok value ↔
      ∃ middle, first.outcome = .ok middle ∧ (next middle).outcome = .ok value := by
  rw [outcome_bind]
  cases first.outcome <;> simp [Except.bind]

theorem outcome_bind_eq_error_iff {failure : ε} :
    (first >>= next).outcome = .error failure ↔
      first.outcome = .error failure ∨
        ∃ middle, first.outcome = .ok middle ∧ (next middle).outcome = .error failure := by
  rw [outcome_bind]
  cases first.outcome <;> simp [Except.bind]

end Logged

/-! ## Values of operands -/

namespace Operand

/-- The number that an operand stands for: the address of a symbol, or what a literal denotes as a
numeral in base sixteen. -/
inductive Denotes (labels : LabelTable) : Operand → Nat → Prop
  | symbol {name : String} {address : UInt16} (haddress : labels.get? name = some address) :
      Denotes labels (.symbol name) address.toNat
  | literal {text : String} {value : Nat} (hvalue : Numeral.Denotes 16 text.toList value)
      (hlimit : value < 2 ^ 64) :
      Denotes labels (.literal text) value

variable {labels : LabelTable} {mnemonic : String} {operand : Operand} {value : Nat}

theorem denotes_literal_iff {text : String} :
    (Operand.literal text).Denotes labels value ↔ literalValue? text = some value := by
  rw [literalValue?_eq_some_iff]
  refine ⟨?_, ?_⟩
  · intro h
    cases h with
    | literal hvalue hlimit => exact ⟨hvalue, hlimit⟩
  · intro ⟨hvalue, hlimit⟩
    exact .literal hvalue hlimit

theorem denotes_symbol_iff {name : String} :
    (Operand.symbol name).Denotes labels value ↔
      ∃ address, labels.get? name = some address ∧ address.toNat = value := by
  refine ⟨?_, ?_⟩
  · intro h
    cases h with
    | symbol haddress => exact ⟨_, haddress, rfl⟩
  · intro ⟨address, haddress, hvalue⟩
    subst hvalue
    exact .symbol haddress

theorem value_eq_ok_iff :
    operand.value labels mnemonic = .ok value ↔ operand.Denotes labels value := by
  cases operand with
  | register name =>
    refine ⟨fun h ↦ ?_, fun h ↦ ?_⟩
    · cases h
    · cases h
  | literal text =>
    rw [denotes_literal_iff, Operand.value]
    cases literalValue? text <;> simp
  | symbol name =>
    rw [denotes_symbol_iff, Operand.value, LabelTable.resolve]
    cases labels.get? name <;> simp [Except.map]

end Operand

/-! ## Bytes of slots -/

namespace Slot

/-- The bytes that a slot holds for an operand. -/
inductive Holds (registers : RegisterFile) (labels : LabelTable) :
    Slot → Operand → List UInt8 → Prop
  | register {name : String} {index : UInt8}
      (hname : registers.names[index.toNat]? = some name) :
      Holds registers labels .register (.register name) [index]
  | byte {operand : Operand} {value : Nat} {low : UInt8} (hvalue : operand.Denotes labels value)
      (hlow : low.toNat = value % 256) :
      Holds registers labels .byte operand [low]
  | word {operand : Operand} {value : Nat} {high low : UInt8}
      (hvalue : operand.Denotes labels value)
      (hword : high.toNat * 256 + low.toNat = value % 65536) :
      Holds registers labels .word operand [high, low]

/-- The bytes that some slots hold one after another for as many operands. -/
inductive HoldAll (registers : RegisterFile) (labels : LabelTable) :
    List Slot → List Operand → List UInt8 → Prop
  | nil : HoldAll registers labels [] [] []
  | cons {slot : Slot} {operand : Operand} {bytes others : List UInt8} {slots : List Slot}
      {operands : List Operand} (hfirst : Holds registers labels slot operand bytes)
      (hrest : HoldAll registers labels slots operands others) :
      HoldAll registers labels (slot :: slots) (operand :: operands) (bytes ++ others)

variable {registers : RegisterFile} {labels : LabelTable} {slot : Slot} {operand : Operand}
  {slots : List Slot} {operands : List Operand} {bytes : List UInt8}

theorem Holds.length_eq (h : Holds registers labels slot operand bytes) :
    bytes.length = slot.width := by
  cases h <;> rfl

theorem HoldAll.length_eq (h : HoldAll registers labels slots operands bytes) :
    bytes.length = totalWidth slots := by
  induction h with
  | nil => rfl
  | cons hfirst _ ih => rw [List.length_append, hfirst.length_eq, ih, totalWidth]

theorem HoldAll.length_operands (h : HoldAll registers labels slots operands bytes) :
    operands.length = slots.length := by
  induction h with
  | nil => rfl
  | cons _ _ ih => rw [List.length_cons, List.length_cons, ih]

/-- The bytes of one slot stand behind those of the slots before it. -/
theorem HoldAll.split (h : HoldAll registers labels slots operands bytes) {position : Nat}
    (hslot : slots[position]? = some slot) (hoperand : operands[position]? = some operand) :
    ∃ before content after, bytes = before ++ content ++ after ∧
      before.length = totalWidth (slots.take position) ∧
      Holds registers labels slot operand content := by
  induction h generalizing position with
  | nil => simp at hslot
  | @cons _ _ first others _ _ hfirst _ ih =>
    cases position with
    | zero =>
      rw [List.getElem?_cons_zero, Option.some.injEq] at hslot hoperand
      subst hslot hoperand
      exact ⟨[], first, others, rfl, rfl, hfirst⟩
    | succ position =>
      rw [List.getElem?_cons_succ] at hslot hoperand
      obtain ⟨before, content, after, hbytes, hlength, hcontent⟩ := ih hslot hoperand
      refine ⟨first ++ before, content, after, ?_, ?_, hcontent⟩
      · rw [hbytes, List.append_assoc, List.append_assoc, List.append_assoc]
      · rw [List.length_append, hfirst.length_eq, hlength, List.take_succ_cons, totalWidth]

end Slot

theorem wordBytes_eq_iff {value : Nat} {bytes : List UInt8} :
    wordBytes value = bytes ↔
      ∃ high low : UInt8, bytes = [high, low] ∧
        high.toNat * 256 + low.toNat = value % 65536 := by
  refine ⟨?_, ?_⟩
  · intro h
    refine ⟨_, _, h.symm, ?_⟩
    rw [UInt8.toNat_ofNat', UInt8.toNat_ofNat']
    omega
  · intro ⟨high, low, hbytes, hword⟩
    have hhigh := high.toNat_lt
    have hlow := low.toNat_lt
    have hfirst : UInt8.ofNat (value / 256) = high := by
      apply UInt8.toNat_inj.mp
      rw [UInt8.toNat_ofNat']
      omega
    have hsecond : UInt8.ofNat value = low := by
      apply UInt8.toNat_inj.mp
      rw [UInt8.toNat_ofNat']
      omega
    rw [hbytes, wordBytes, hfirst, hsecond]

theorem ofNat_eq_byte_iff {value : Nat} {low : UInt8} :
    UInt8.ofNat value = low ↔ low.toNat = value % 256 := by
  rw [← UInt8.toNat_inj, UInt8.toNat_ofNat', eq_comm]

end TwoPass
