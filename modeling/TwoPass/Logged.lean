import TwoPass.Event

/-!
# Logged computations

A logged computation ends in a value or a failure, and the events up to that end are kept in either
case.
-/

namespace TwoPass

/-- The events of a computation and its outcome. -/
@[ext]
structure Logged (ε α : Type) where
  events : List Event
  outcome : Except ε α

namespace Logged

variable {ε φ α β : Type}

/-- Ends without an event. -/
def ofExcept (outcome : Except ε α) : Logged ε α :=
  ⟨[], outcome⟩

def fail (failure : ε) : Logged ε α :=
  ⟨[], .error failure⟩

/-- Reports some events. -/
def emit (events : List Event) : Logged ε Unit :=
  ⟨events, .ok ()⟩

/-- Runs a second computation on the value of a first one. -/
protected def bind (first : Logged ε α) (next : α → Logged ε β) : Logged ε β :=
  match first.outcome with
  | .error failure => ⟨first.events, .error failure⟩
  | .ok value =>
    let second := next value
    ⟨first.events ++ second.events, second.outcome⟩

instance : Monad (Logged ε) where
  pure value := ⟨[], .ok value⟩
  bind := Logged.bind

/-- Rewords the failure of a computation. -/
def mapFailure (reword : ε → φ) (run : Logged ε α) : Logged φ α :=
  ⟨run.events, run.outcome.mapError reword⟩

@[simp]
theorem outcome_pure (value : α) : (pure value : Logged ε α).outcome = .ok value := rfl

@[simp]
theorem outcome_ofExcept (outcome : Except ε α) : (ofExcept outcome).outcome = outcome := rfl

@[simp]
theorem outcome_fail (failure : ε) : (fail failure : Logged ε α).outcome = .error failure := rfl

@[simp]
theorem events_fail (failure : ε) : (fail failure : Logged ε α).events = [] := rfl

@[simp]
theorem outcome_emit (events : List Event) : (emit events : Logged ε Unit).outcome = .ok () := rfl

@[simp]
theorem outcome_bind (first : Logged ε α) (next : α → Logged ε β) :
    (first >>= next).outcome = first.outcome.bind fun value ↦ (next value).outcome := by
  change (first.bind next).outcome = _
  unfold Logged.bind
  cases first.outcome <;> rfl

@[simp]
theorem outcome_mapFailure (reword : ε → φ) (run : Logged ε α) :
    (run.mapFailure reword).outcome = run.outcome.mapError reword := rfl

end Logged

end TwoPass
