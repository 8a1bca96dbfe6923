/-!
# Faults

A fault is a use outside the contract of an operation, on which no answer is defined. The operations
that can meet one have a checked form, whose name ends in a question mark.
-/

namespace AccessSampling

/-- A use outside the contract of an operation. -/
inductive Fault where
  | divisionByZero
  /-- More classes were listed than there are. -/
  | tooManyClasses
  /-- A position is past the end of its array. -/
  | positionOutOfRange
  /-- A number without a sign would have fallen below zero. -/
  | belowZero
  deriving DecidableEq, Repr

end AccessSampling
