/-!
# Failures

A failure says what went wrong: the cause, and around it what was attempted, from the whole to the
part.
-/

namespace DeclOrder

/-- Why something failed. -/
structure Failure where
  /-- What was attempted, from the whole to the part. -/
  attempts : List String := []
  /-- What went wrong. -/
  cause : String
  deriving DecidableEq, Repr

namespace Failure

/-- The failure as part of a larger attempt. -/
def within (attempt : String) (failure : Failure) : Failure :=
  { failure with attempts := attempt :: failure.attempts }

/-- The wording of a failure, from the whole to the cause. -/
def message (failure : Failure) : String :=
  ": ".intercalate (failure.attempts ++ [failure.cause])

end Failure

/-- The result, where a failure is part of a larger attempt. -/
def attempting {α : Type} (attempt : String) (result : Except Failure α) : Except Failure α :=
  result.mapError (·.within attempt)

end DeclOrder
