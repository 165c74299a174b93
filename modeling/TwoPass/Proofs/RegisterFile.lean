import TwoPass.RegisterFile

/-!
# Register indices

The index of a register fits in one byte and leads back to its name: a register file has at most
256 names, and no two of them are equal.
-/

namespace TwoPass.RegisterFile

variable {registers : RegisterFile} {name : String}

theorem idxOf?_names_eq_some_iff {position : Nat} :
    registers.names.idxOf? name = some position ↔ registers.names[position]? = some name := by
  rw [List.idxOf?_eq_some_iff, List.getElem?_eq_some_iff]
  refine ⟨fun ⟨hlt, hname, _⟩ ↦ ⟨hlt, hname⟩, fun ⟨hlt, hname⟩ ↦ ⟨hlt, hname, ?_⟩⟩
  intro other hother hsame
  have heq : other = position := (List.getElem_inj registers.nodup).mp (hsame.trans hname.symm)
  omega

theorem position_lt_limit {position : Nat} (h : registers.names[position]? = some name) :
    position < registerLimit := by
  have hlt : position < registers.names.length := (List.getElem?_eq_some_iff.mp h).1
  exact Nat.lt_of_lt_of_le hlt registers.length_le

/-- The index of a register is its position, without a wrap even at 256 names. -/
theorem indexOf?_eq_some_iff {index : UInt8} :
    registers.indexOf? name = some index ↔ registers.names[index.toNat]? = some name := by
  rw [indexOf?, Option.map_eq_some_iff]
  refine ⟨?_, ?_⟩
  · intro ⟨position, hposition, hindex⟩
    rw [idxOf?_names_eq_some_iff] at hposition
    have hlt := position_lt_limit hposition
    rw [registerLimit] at hlt
    rw [← hindex, UInt8.toNat_ofNat', Nat.mod_eq_of_lt (by omega)]
    exact hposition
  · intro h
    exact ⟨index.toNat, idxOf?_names_eq_some_iff.mpr h, UInt8.ofNat_toNat⟩

theorem indexOf?_eq_none_iff : registers.indexOf? name = none ↔ name ∉ registers.names := by
  rw [indexOf?, Option.map_eq_none_iff, List.idxOf?_eq_none_iff]

end TwoPass.RegisterFile
