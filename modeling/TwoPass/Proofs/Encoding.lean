import TwoPass.Proofs.FirstFault
import TwoPass.Proofs.Slot

/-!
# What the second pass does with one instruction

An instruction is encoded exactly if it has bytes in the sense of `Machine.Encodes`: its opcode and
the contents of its slots.  Otherwise it breaks one of the rules of `EncodingFault`, which come in
the order in which they are checked: the number of operands, the leftmost operand that does not fit
its slot, and, where sizes are strict, the declared size.
-/

namespace TwoPass

/-! ## Operands -/

/-- The causes for which an operand is rejected in a slot. -/
inductive OperandFault (registers : RegisterFile) (isLabel : String → Prop) (mnemonic : String) :
    Slot → Operand → Cause → Prop
  | notARegister {operand : Operand} (hoperand : ∀ name, operand ≠ .register name) :
      OperandFault registers isLabel mnemonic .register operand (.malformedInstruction mnemonic)
  | unknownRegister {name : String} (hname : name ∉ registers.names) :
      OperandFault registers isLabel mnemonic .register (.register name) (.unknownRegister name)
  | notAValue {slot : Slot} {name : String} (hslot : slot ≠ .register) :
      OperandFault registers isLabel mnemonic slot (.register name)
        (.malformedInstruction mnemonic)
  | unresolvedLabel {slot : Slot} {name : String} (hslot : slot ≠ .register)
      (hname : ¬ isLabel name) :
      OperandFault registers isLabel mnemonic slot (.symbol name) (.unresolvedLabel name)
  | invalidLiteral {slot : Slot} {digits : String} (hslot : slot ≠ .register)
      (hdigits : ¬ IsLiteral digits) :
      OperandFault registers isLabel mnemonic slot (.literal digits) (.invalidLiteral digits)

/-- The operand with the given position is rejected in its slot. -/
def OperandFaultAt (registers : RegisterFile) (isLabel : String → Prop) (mnemonic : String)
    (slots : List Slot) (operands : List Operand) (position : Nat) (cause : Cause) : Prop :=
  ∃ slot operand, slots[position]? = some slot ∧ operands[position]? = some operand ∧
    OperandFault registers isLabel mnemonic slot operand cause

/-- A cause found at some position, with none found to the left of it. -/
def Leftmost (fault : Nat → Cause → Prop) (cause : Cause) : Prop :=
  ∃ position, fault position cause ∧ ∀ earlier < position, ∀ other, ¬ fault earlier other

theorem leftmost_iff {fault : Nat → Cause → Prop} {cause : Cause} :
    Leftmost fault cause ↔
      fault 0 cause ∨
        (∀ other, ¬ fault 0 other) ∧ Leftmost (fun position ↦ fault (position + 1)) cause := by
  refine ⟨?_, ?_⟩
  · intro ⟨position, hfault, hleft⟩
    cases position with
    | zero => exact .inl hfault
    | succ position =>
      refine .inr ⟨hleft 0 (by omega), position, hfault, ?_⟩
      intro earlier hearlier
      exact hleft (earlier + 1) (by omega)
  · intro h
    rcases h with hfault | ⟨hclean, position, hfault, hleft⟩
    · exact ⟨0, hfault, fun earlier hearlier ↦ absurd hearlier (Nat.not_lt_zero earlier)⟩
    · refine ⟨position + 1, hfault, ?_⟩
      intro earlier hearlier
      cases earlier with
      | zero => exact hclean
      | succ earlier => exact hleft earlier (by omega)

theorem exists_leftmost_iff {fault : Nat → Cause → Prop} :
    (∃ cause, Leftmost fault cause) ↔ ∃ position cause, fault position cause := by
  refine ⟨fun ⟨cause, position, hfault, _⟩ ↦ ⟨position, cause, hfault⟩, ?_⟩
  intro ⟨position, cause, hfault⟩
  induction position using Nat.strongRecOn generalizing cause with
  | ind position ih =>
    by_cases hleft : ∃ earlier, earlier < position ∧ ∃ other, fault earlier other
    · obtain ⟨earlier, hearlier, other, hother⟩ := hleft
      exact ih earlier hearlier other hother
    · refine ⟨cause, position, hfault, ?_⟩
      intro earlier hearlier other hother
      exact hleft ⟨earlier, hearlier, other, hother⟩

namespace Operand

variable {registers : RegisterFile} {labels : LabelTable} {mnemonic : String} {operand : Operand}

theorem registerIndex_eq_ok_iff {index : UInt8} :
    operand.registerIndex registers mnemonic = .ok index ↔
      ∃ name, operand = .register name ∧ registers.names[index.toNat]? = some name := by
  cases operand with
  | literal digits => simp [registerIndex]
  | symbol name => simp [registerIndex]
  | register name =>
    simp only [registerIndex, Operand.register.injEq, exists_eq_left',
      ← RegisterFile.indexOf?_eq_some_iff]
    cases registers.indexOf? name <;> simp

theorem registerIndex_eq_error_iff {isLabel : String → Prop} {cause : Cause} :
    operand.registerIndex registers mnemonic = .error cause ↔
      OperandFault registers isLabel mnemonic .register operand cause := by
  refine ⟨?_, ?_⟩
  · intro h
    cases operand with
    | register name =>
      rw [registerIndex] at h
      cases hindex : registers.indexOf? name with
      | none =>
        rw [hindex] at h
        cases h
        exact .unknownRegister (RegisterFile.indexOf?_eq_none_iff.mp hindex)
      | some index =>
        rw [hindex] at h
        cases h
    | literal digits =>
      cases h
      exact .notARegister (fun _ hname ↦ by cases hname)
    | symbol name =>
      cases h
      exact .notARegister (fun _ hname ↦ by cases hname)
  · intro h
    cases h with
    | notARegister hoperand =>
      cases operand with
      | register name => exact absurd rfl (hoperand name)
      | literal digits => rfl
      | symbol name => rfl
    | unknownRegister hname =>
      rw [registerIndex, RegisterFile.indexOf?_eq_none_iff.mpr hname]
    | notAValue hslot => exact absurd rfl hslot
    | unresolvedLabel hslot _ => exact absurd rfl hslot
    | invalidLiteral hslot _ => exact absurd rfl hslot

theorem value_eq_error_iff {isLabel : String → Prop} {slot : Slot} {cause : Cause}
    (hlabels : ∀ name, labels.get? name = none ↔ ¬ isLabel name) (hslot : slot ≠ .register) :
    operand.value labels mnemonic = .error cause ↔
      OperandFault registers isLabel mnemonic slot operand cause := by
  refine ⟨?_, ?_⟩
  · intro h
    cases operand with
    | register name =>
      cases h
      exact .notAValue hslot
    | literal digits =>
      rw [Operand.value] at h
      cases hvalue : literalValue? digits with
      | none =>
        rw [hvalue] at h
        cases h
        exact .invalidLiteral hslot (literalValue?_eq_none_iff.mp hvalue)
      | some value =>
        rw [hvalue] at h
        cases h
    | symbol name =>
      rw [Operand.value, map_eq_error_iff, LabelTable.resolve] at h
      cases haddress : labels.get? name with
      | none =>
        rw [haddress] at h
        cases h
        exact .unresolvedLabel hslot ((hlabels name).mp haddress)
      | some address =>
        rw [haddress] at h
        cases h
  · intro h
    cases h with
    | notARegister _ => exact absurd rfl hslot
    | unknownRegister _ => exact absurd rfl hslot
    | notAValue _ => rfl
    | unresolvedLabel _ hname =>
      rw [Operand.value, LabelTable.resolve, (hlabels _).mpr hname]
      rfl
    | invalidLiteral _ hdigits =>
      rw [Operand.value, literalValue?_eq_none_iff.mpr hdigits]

end Operand

namespace Machine

variable {machine : Machine} {labels : LabelTable} {isLabel : String → Prop} {mnemonic : String}
  {slot : Slot} {operand : Operand} {slots : List Slot} {operands : List Operand}

theorem outcome_encodeOperand :
    (machine.encodeOperand labels mnemonic slot operand).outcome =
      match slot with
      | .register => (operand.registerIndex machine.registers mnemonic).map fun index ↦ [index]
      | .byte => (operand.value labels mnemonic).map fun value ↦ [UInt8.ofNat value]
      | .word => (operand.value labels mnemonic).map wordBytes := by
  cases slot with
  | register =>
    simp only [encodeOperand, Logged.outcome_bind, Logged.outcome_emit, Logged.outcome_ofExcept,
      Logged.outcome_pure, Except.bind]
    cases operand.registerIndex machine.registers mnemonic <;> rfl
  | byte =>
    simp only [encodeOperand, Logged.outcome_bind, Logged.outcome_emit, Logged.outcome_ofExcept,
      Logged.outcome_pure, Except.bind]
    cases operand.value labels mnemonic <;> rfl
  | word =>
    simp only [encodeOperand, Logged.outcome_bind, Logged.outcome_emit, Logged.outcome_ofExcept,
      Logged.outcome_pure, Except.bind]
    cases operand.value labels mnemonic <;> rfl

/-- An operand is encoded to the bytes that its slot holds for it. -/
theorem encodeOperand_eq_ok_iff {bytes : List UInt8} :
    (machine.encodeOperand labels mnemonic slot operand).outcome = .ok bytes ↔
      slot.Holds machine.registers labels operand bytes := by
  rw [outcome_encodeOperand]
  cases slot with
  | register =>
    simp only [map_eq_ok_iff, Operand.registerIndex_eq_ok_iff]
    refine ⟨?_, ?_⟩
    · intro ⟨index, ⟨name, hoperand, hname⟩, hbytes⟩
      subst hoperand hbytes
      exact .register hname
    · intro h
      cases h with
      | register hname => exact ⟨_, ⟨_, rfl, hname⟩, rfl⟩
  | byte =>
    simp only [map_eq_ok_iff, Operand.value_eq_ok_iff]
    refine ⟨?_, ?_⟩
    · intro ⟨value, hvalue, hbytes⟩
      subst hbytes
      exact .byte hvalue (ofNat_eq_byte_iff.mp rfl)
    · intro h
      cases h with
      | byte hvalue hlow => exact ⟨_, hvalue, by rw [ofNat_eq_byte_iff.mpr hlow]⟩
  | word =>
    simp only [map_eq_ok_iff, Operand.value_eq_ok_iff]
    refine ⟨?_, ?_⟩
    · intro ⟨value, hvalue, hbytes⟩
      obtain ⟨high, low, hbytes, hword⟩ := wordBytes_eq_iff.mp hbytes
      subst hbytes
      exact .word hvalue hword
    · intro h
      cases h with
      | word hvalue hword => exact ⟨_, hvalue, wordBytes_eq_iff.mpr ⟨_, _, rfl, hword⟩⟩

theorem encodeOperand_eq_error_iff {cause : Cause}
    (hlabels : ∀ name, labels.get? name = none ↔ ¬ isLabel name) :
    (machine.encodeOperand labels mnemonic slot operand).outcome = .error cause ↔
      OperandFault machine.registers isLabel mnemonic slot operand cause := by
  rw [outcome_encodeOperand]
  cases slot with
  | register =>
    rw [map_eq_error_iff]
    exact Operand.registerIndex_eq_error_iff
  | byte =>
    rw [map_eq_error_iff]
    exact Operand.value_eq_error_iff hlabels (by decide)
  | word =>
    rw [map_eq_error_iff]
    exact Operand.value_eq_error_iff hlabels (by decide)

/-! ## Operand lists -/

theorem encodeOperands_cons :
    machine.encodeOperands labels mnemonic ((slot :: slots).zip (operand :: operands)) = do
      let bytes ← machine.encodeOperand labels mnemonic slot operand
      let others ← machine.encodeOperands labels mnemonic (slots.zip operands)
      return bytes ++ others := rfl

theorem encodeOperands_eq_ok_iff {bytes : List UInt8} (hlength : operands.length = slots.length) :
    (machine.encodeOperands labels mnemonic (slots.zip operands)).outcome = .ok bytes ↔
      Slot.HoldAll machine.registers labels slots operands bytes := by
  induction slots generalizing operands bytes with
  | nil =>
    obtain rfl := List.length_eq_zero_iff.mp hlength
    refine ⟨fun h ↦ ?_, fun h ↦ ?_⟩
    · cases h
      exact .nil
    · cases h
      rfl
  | cons slot slots ih =>
    cases operands with
    | nil => cases hlength
    | cons operand operands =>
      have hrest : operands.length = slots.length := Nat.succ.inj hlength
      simp only [encodeOperands_cons, Logged.outcome_bind_eq_ok_iff, encodeOperand_eq_ok_iff,
        ih hrest, Logged.outcome_pure, Except.ok.injEq]
      refine ⟨?_, ?_⟩
      · intro ⟨first, hfirst, others, hothers, hbytes⟩
        subst hbytes
        exact .cons hfirst hothers
      · intro h
        cases h with
        | cons hfirst hothers => exact ⟨_, hfirst, _, hothers, rfl⟩

theorem encodeOperands_eq_error_iff {cause : Cause} (hlength : operands.length = slots.length)
    (hlabels : ∀ name, labels.get? name = none ↔ ¬ isLabel name) :
    (machine.encodeOperands labels mnemonic (slots.zip operands)).outcome = .error cause ↔
      Leftmost (OperandFaultAt machine.registers isLabel mnemonic slots operands) cause := by
  induction slots generalizing operands with
  | nil =>
    refine ⟨fun h ↦ ?_, fun ⟨position, ⟨slot, operand, hslot, _⟩, _⟩ ↦ ?_⟩
    · cases h
    · simp at hslot
  | cons slot slots ih =>
    cases operands with
    | nil => cases hlength
    | cons operand operands =>
      have hrest : operands.length = slots.length := Nat.succ.inj hlength
      have hfirst (other : Cause) :
          OperandFaultAt machine.registers isLabel mnemonic (slot :: slots) (operand :: operands) 0
            other ↔ (machine.encodeOperand labels mnemonic slot operand).outcome =
              .error other := by
        rw [encodeOperand_eq_error_iff hlabels]
        simp [OperandFaultAt]
      -- behind the first operand, positions count from the second one
      have hlater : (fun position ↦ OperandFaultAt machine.registers isLabel mnemonic
          (slot :: slots) (operand :: operands) (position + 1)) =
          OperandFaultAt machine.registers isLabel mnemonic slots operands := rfl
      have hclean := exists_ok_iff_of_error_iff fun other ↦ (hfirst other).symm
      have hothers (bytes : List UInt8) :
          (do
            let others ← machine.encodeOperands labels mnemonic (slots.zip operands)
            return bytes ++ others : Logged Cause (List UInt8)).outcome = .error cause ↔
          (machine.encodeOperands labels mnemonic (slots.zip operands)).outcome =
            .error cause := by
        rw [Logged.outcome_bind_eq_error_iff]
        simp
      rw [leftmost_iff, hlater, ← ih hrest, hfirst, ← hclean, encodeOperands_cons,
        Logged.outcome_bind_eq_error_iff]
      simp only [hothers, exists_and_right]

/-! ## Instructions -/

/-- The bytes of an instruction are its opcode and the contents of its slots.  Where sizes are
strict, their number is also the declared one. -/
inductive Encodes (machine : Machine) (labels : LabelTable) (strict : Bool) (mnemonic : String)
    (operands : List Operand) : List UInt8 → Prop
  | intro {entry : Entry} {body : List UInt8}
      (hentry : machine.instructions.get? mnemonic = some entry)
      (hbody : Slot.HoldAll machine.registers labels entry.mode.slots operands body)
      (hsize : strict = true → entry.size.toNat = entry.mode.encodedSize) :
      Encodes machine labels strict mnemonic operands (entry.opcode :: body)

end Machine

/-- The causes for which the second pass rejects a statement. -/
inductive EncodingFault (machine : Machine) (isLabel : String → Prop) (strict : Bool)
    (earlier : Program) : Statement → Cause → Prop
  | unknownMnemonic {mnemonic : String} {operands : List Operand}
      (hunknown : machine.instructions.get? mnemonic = none) :
      EncodingFault machine isLabel strict earlier (.instruction mnemonic operands)
        (.unknownMnemonic mnemonic)
  | arity {mnemonic : String} {operands : List Operand} {entry : Entry}
      (hentry : machine.instructions.get? mnemonic = some entry)
      (harity : operands.length ≠ entry.mode.arity) :
      EncodingFault machine isLabel strict earlier (.instruction mnemonic operands)
        (.malformedInstruction mnemonic)
  | operand {mnemonic : String} {operands : List Operand} {entry : Entry} {cause : Cause}
      (hentry : machine.instructions.get? mnemonic = some entry)
      (harity : operands.length = entry.mode.arity)
      (hleftmost : Leftmost (OperandFaultAt machine.registers isLabel mnemonic entry.mode.slots
        operands) cause) :
      EncodingFault machine isLabel strict earlier (.instruction mnemonic operands) cause
  | size {mnemonic : String} {operands : List Operand} {entry : Entry}
      (hentry : machine.instructions.get? mnemonic = some entry)
      (harity : operands.length = entry.mode.arity)
      (hoperands : ∀ position cause, ¬ OperandFaultAt machine.registers isLabel mnemonic
        entry.mode.slots operands position cause)
      (hstrict : strict = true) (hsize : entry.size.toNat ≠ entry.mode.encodedSize) :
      EncodingFault machine isLabel strict earlier (.instruction mnemonic operands)
        (.sizeMismatch mnemonic entry.size entry.mode.encodedSize)

namespace Machine

variable {machine : Machine} {labels : LabelTable} {isLabel : String → Prop} {strict : Bool}
  {mnemonic : String} {operands : List Operand} {index : Nat} {address : UInt32}

theorem outcome_checkSize {declared : UInt64} {emitted : Nat} :
    (checkSize strict index mnemonic declared emitted).outcome =
      if strict = true ∧ declared.toNat ≠ emitted then
        .error (.sizeMismatch mnemonic declared emitted)
      else .ok () := by
  unfold checkSize
  by_cases hsize : emitted = declared.toNat
  · rw [if_pos hsize, if_neg (fun h ↦ h.2 hsize.symm), Logged.outcome_pure]
  · rw [if_neg hsize]
    cases strict with
    | true => rw [if_pos rfl, if_pos ⟨rfl, Ne.symm hsize⟩, Logged.outcome_fail]
    | false => rfl

/-- With the right number of operands, only the operands and the declared size are left to check. -/
theorem outcome_encodeInstruction {entry : Entry}
    (hentry : machine.instructions.get? mnemonic = some entry)
    (harity : operands.length = entry.mode.arity) :
    (machine.encodeInstruction labels strict index address mnemonic operands).outcome =
      (machine.encodeOperands labels mnemonic (entry.mode.slots.zip operands)).outcome.bind
        fun body ↦
          if strict = true ∧ entry.size.toNat ≠ entry.mode.encodedSize then
            .error (.sizeMismatch mnemonic entry.size entry.mode.encodedSize)
          else .ok (entry.opcode :: body) := by
  simp only [encodeInstruction, hentry, if_pos harity, Logged.outcome_bind, outcome_checkSize,
    Logged.outcome_emit, Logged.outcome_pure, List.length_cons]
  cases hbody :
      (machine.encodeOperands labels mnemonic (entry.mode.slots.zip operands)).outcome with
  | error cause => rfl
  | ok body =>
    have hlength : body.length + 1 = entry.mode.encodedSize := by
      rw [Mode.encodedSize, ← ((encodeOperands_eq_ok_iff harity).mp hbody).length_eq, Nat.add_comm]
    simp only [Except.bind, hlength]
    by_cases hwrong : strict = true ∧ entry.size.toNat ≠ entry.mode.encodedSize
    · rw [if_pos hwrong, if_pos hwrong]
    · rw [if_neg hwrong, if_neg hwrong]

theorem encodeInstruction_eq_ok_iff {bytes : List UInt8} :
    (machine.encodeInstruction labels strict index address mnemonic operands).outcome =
        .ok bytes ↔
      machine.Encodes labels strict mnemonic operands bytes := by
  refine ⟨?_, ?_⟩
  · intro h
    cases hentry : machine.instructions.get? mnemonic with
    | none => simp [encodeInstruction, hentry] at h
    | some entry =>
      by_cases harity : operands.length = entry.mode.arity
      · rw [outcome_encodeInstruction hentry harity] at h
        cases hbody :
            (machine.encodeOperands labels mnemonic (entry.mode.slots.zip operands)).outcome with
        | error cause => rw [hbody] at h; cases h
        | ok body =>
          rw [hbody, Except.bind] at h
          have hsize : ¬ (strict = true ∧ entry.size.toNat ≠ entry.mode.encodedSize) := by
            intro hwrong
            rw [if_pos hwrong] at h
            cases h
          rw [if_neg hsize] at h
          cases h
          refine .intro hentry ((encodeOperands_eq_ok_iff harity).mp hbody) ?_
          intro hstrict
          exact Decidable.not_not.mp fun hne ↦ hsize ⟨hstrict, hne⟩
      · simp [encodeInstruction, hentry, harity] at h
  · intro h
    cases h with
    | @intro entry body hentry hbody hsize =>
      have harity : operands.length = entry.mode.arity := hbody.length_operands
      rw [outcome_encodeInstruction hentry harity, (encodeOperands_eq_ok_iff harity).mpr hbody,
        Except.bind, if_neg fun hwrong ↦ hwrong.2 (hsize hwrong.1)]

theorem encodeInstruction_eq_error_iff {cause : Cause} (earlier : Program)
    (hlabels : ∀ name, labels.get? name = none ↔ ¬ isLabel name) :
    (machine.encodeInstruction labels strict index address mnemonic operands).outcome =
        .error cause ↔
      EncodingFault machine isLabel strict earlier (.instruction mnemonic operands) cause := by
  refine ⟨?_, ?_⟩
  · intro h
    cases hentry : machine.instructions.get? mnemonic with
    | none =>
      rw [encodeInstruction, hentry] at h
      cases h
      exact .unknownMnemonic hentry
    | some entry =>
      by_cases harity : operands.length = entry.mode.arity
      · rw [outcome_encodeInstruction hentry harity] at h
        cases hbody :
            (machine.encodeOperands labels mnemonic (entry.mode.slots.zip operands)).outcome with
        | error other =>
          rw [hbody] at h
          cases h
          exact .operand hentry harity ((encodeOperands_eq_error_iff harity hlabels).mp hbody)
        | ok body =>
          rw [hbody, Except.bind] at h
          by_cases hwrong : strict = true ∧ entry.size.toNat ≠ entry.mode.encodedSize
          · rw [if_pos hwrong] at h
            cases h
            refine .size hentry harity ?_ hwrong.1 hwrong.2
            intro position other hfault
            obtain ⟨leftmost, hleftmost⟩ := exists_leftmost_iff.mpr ⟨position, other, hfault⟩
            rw [← encodeOperands_eq_error_iff harity hlabels, hbody] at hleftmost
            cases hleftmost
          · rw [if_neg hwrong] at h
            cases h
      · simp only [encodeInstruction, hentry, if_neg harity, Logged.outcome_fail] at h
        cases h
        exact .arity hentry harity
  · intro h
    cases h with
    | unknownMnemonic hunknown => rw [encodeInstruction, hunknown, Logged.outcome_fail]
    | arity hentry harity =>
      simp only [encodeInstruction, hentry, if_neg harity, Logged.outcome_fail]
    | operand hentry harity hleftmost =>
      rw [outcome_encodeInstruction hentry harity,
        (encodeOperands_eq_error_iff harity hlabels).mpr hleftmost, Except.bind]
    | @size _ _ entry hentry harity hoperands hstrict hsize =>
      have hclean : ∀ other, ¬ Leftmost (OperandFaultAt machine.registers isLabel mnemonic
          entry.mode.slots operands) other := by
        intro other ⟨position, hfault, _⟩
        exact hoperands position other hfault
      obtain ⟨body, hbody⟩ := (exists_ok_iff_of_error_iff fun other ↦
        encodeOperands_eq_error_iff harity hlabels).mpr hclean
      rw [outcome_encodeInstruction hentry harity, hbody, Except.bind, if_pos ⟨hstrict, hsize⟩]

end Machine

end TwoPass
