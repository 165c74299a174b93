import Mathlib.Data.List.Forall2
import Mathlib.Data.List.Nodup
import Mathlib.Order.Lattice

/-!
# General facts

What the other modules need about outcomes, about lists that are worked through item by item, and
about sorting.  Nothing here depends on programs or tables.
-/

namespace TwoPass

/-! ## Outcomes -/

section

variable {ε φ α β : Type} {outcome : Except ε α} {change : α → β}

theorem map_eq_ok_iff {value : β} :
    outcome.map change = .ok value ↔ ∃ middle, outcome = .ok middle ∧ change middle = value := by
  cases outcome <;> simp [Except.map]

theorem map_eq_error_iff {failure : ε} :
    outcome.map change = .error failure ↔ outcome = .error failure := by
  cases outcome <;> simp [Except.map]

theorem mapError_eq_ok_iff {reword : ε → φ} {value : α} :
    outcome.mapError reword = .ok value ↔ outcome = .ok value := by
  cases outcome <;> simp [Except.mapError]

theorem mapError_bind (outcome : Except ε α) (next : α → Except ε β) (reword : ε → φ) :
    (outcome.bind next).mapError reword =
      (outcome.mapError reword).bind fun value ↦ (next value).mapError reword := by
  cases outcome <;> rfl

theorem mapError_map (outcome : Except ε α) (change : α → β) (reword : ε → φ) :
    (outcome.map change).mapError reword = (outcome.mapError reword).map change := by
  cases outcome <;> rfl

/-- A run succeeds if none of its possible failures has happened. -/
theorem exists_ok_iff_of_error_iff {fault : ε → Prop}
    (h : ∀ failure, outcome = .error failure ↔ fault failure) :
    (∃ value, outcome = .ok value) ↔ ∀ failure, ¬ fault failure := by
  cases outcome with
  | error failure =>
    have hfault : fault failure := (h failure).mp rfl
    refine ⟨fun ⟨_, hok⟩ ↦ (by cases hok), fun hnone ↦ absurd hfault (hnone failure)⟩
  | ok value =>
    refine ⟨fun _ failure hfault ↦ ?_, fun _ ↦ ⟨value, rfl⟩⟩
    have herror := (h failure).mpr hfault
    cases herror

end

theorem none_or_some_of_rel {Left Right : Type} {related : Left → Right → Prop}
    {left : Option Left} {right : Option Right} (h : Option.Rel related left right) :
    (left = none ∧ right = none) ∨
      ∃ first second, left = some first ∧ right = some second ∧ related first second := by
  cases h with
  | none => exact .inl ⟨rfl, rfl⟩
  | some hrelated => exact .inr ⟨_, _, rfl, rfl, hrelated⟩

/-! ## Item by item -/

/-- A list is read item by item. -/
theorem mapM_eq_some_iff {Source Value : Type} {read? : Source → Option Value}
    {sources : List Source} {values : List Value} :
    sources.mapM read? = some values ↔
      List.Forall₂ (fun source value ↦ read? source = some value) sources values := by
  induction sources generalizing values with
  | nil => simp [eq_comm]
  | cons source sources ih =>
    simp only [List.mapM_cons, Option.pure_def, Option.bind_eq_bind, Option.bind_eq_some_iff,
      Option.some.injEq, List.forall₂_cons_left_iff, ih]
    grind

/-- Working through a list fails exactly if one of its items fails. -/
theorem exists_mapM_eq_error_iff {ε α β : Type} {run : α → Except ε β} {items : List α} :
    (∃ failure, items.mapM run = .error failure) ↔
      ∃ item ∈ items, ∃ failure, run item = .error failure := by
  induction items with
  | nil => simp [pure, Except.pure]
  | cons item rest ih =>
    simp only [List.mapM_cons, List.mem_cons, exists_eq_or_imp, ← ih]
    cases run item with
    | error failure => simp [bind, Except.bind]
    | ok value => cases rest.mapM run <;> simp [bind, Except.bind, pure, Except.pure]

/-! ## Sorting -/

section

variable {Item Key : Type} [LinearOrder Key]

/-- Sorts items by their keys. -/
def sortByKey (key : Item → Key) (items : List Item) : List Item :=
  items.mergeSort fun first second ↦ key first ≤ key second

theorem sortByKey_perm (key : Item → Key) (items : List Item) : (sortByKey key items).Perm items :=
  List.mergeSort_perm _ _

theorem pairwise_sortByKey (key : Item → Key) (items : List Item) :
    (sortByKey key items).Pairwise fun first second ↦ key first ≤ key second := by
  have hsorted : (sortByKey key items).Pairwise fun first second ↦
      decide (key first ≤ key second) = true := by
    apply List.pairwise_mergeSort
    · intro first second third hfirst hsecond
      exact decide_eq_true (le_trans (of_decide_eq_true hfirst) (of_decide_eq_true hsecond))
    · intro first second
      simpa using le_total (key first) (key second)
  exact hsorted.imp of_decide_eq_true

/-- A list holds the items with a property in some order, each of them once. -/
structure Enumerates (isItem : Item → Prop) (listed : List Item) : Prop where
  nodup : listed.Nodup
  mem_iff : ∀ item, item ∈ listed ↔ isItem item

namespace Enumerates

variable {isItem : Item → Prop} {listed others : List Item}

/-- Two enumerations of the same items differ in their order only. -/
theorem perm (h : Enumerates isItem listed) (hother : Enumerates isItem others) :
    listed.Perm others := by
  apply (List.perm_ext_iff_of_nodup h.nodup hother.nodup).mpr
  intro item
  rw [h.mem_iff, hother.mem_iff]

theorem of_perm (h : Enumerates isItem listed) (hperm : others.Perm listed) :
    Enumerates isItem others where
  nodup := hperm.nodup_iff.mpr h.nodup
  mem_iff item := hperm.mem_iff.trans (h.mem_iff item)

theorem filter (h : Enumerates isItem listed) (keep : Item → Bool) :
    Enumerates (fun item ↦ isItem item ∧ keep item = true) (listed.filter keep) where
  nodup := h.nodup.filter keep
  mem_iff item := by rw [List.mem_filter, h.mem_iff]

/-- Items with different keys have only one sorted order, whatever the order is in which they are
enumerated. -/
theorem sortByKey_eq {key : Item → Key}
    (hkey : ∀ first second, isItem first → isItem second → key first = key second →
      first = second)
    (h : Enumerates isItem listed) (hother : Enumerates isItem others)
    (hsorted : others.Pairwise fun first second ↦ key first ≤ key second) :
    sortByKey key listed = others := by
  have hperm : (sortByKey key listed).Perm others :=
    (sortByKey_perm key listed).trans (h.perm hother)
  refine hperm.eq_of_pairwise ?_ (pairwise_sortByKey key listed) hsorted
  intro first second hfirst hsecond hle hge
  apply hkey first second _ _ (le_antisymm hle hge)
  · exact (h.of_perm (sortByKey_perm key listed)).mem_iff first |>.mp hfirst
  · exact (hother.mem_iff second).mp hsecond

end Enumerates

end

end TwoPass
