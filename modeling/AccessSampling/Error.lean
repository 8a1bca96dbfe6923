import AccessSampling.EventClass
import AccessSampling.Options.Validation

/-!
# Errors

An error is an answer: the options or the event source do not permit what was asked. Here are the
causes and the texts in which they are told.
-/

namespace AccessSampling

/-- What an event source can be asked to do with a class. -/
inductive SourceOp where
  | openRing
  | enable
  | disable
  | setPeriod
  | period
  deriving DecidableEq, Repr

/-- The name by which messages call an operation. -/
def SourceOp.name : SourceOp → String
  | openRing => "open"
  | enable => "enable"
  | disable => "disable"
  | setPeriod => "set_period"
  | period => "period"

/-- An operation that the event source refused for a class. -/
structure Refusal where
  cls : EventClass
  op : SourceOp
  deriving DecidableEq, Repr

/-- The reason that a refusing source gives. -/
def Refusal.reason (_ : Refusal) : String := "mock failure"

/-- Why the controller cannot do what it was asked. -/
inductive Error where
  | invalidOptions (fault : OptionFault)
  | eventSource (refusal : Refusal)
  deriving DecidableEq, Repr

namespace Error

def message : Error → String
  | invalidOptions fault => "invalid option: " ++ fault.message
  | eventSource r => "event source rejected `" ++ r.op.name ++ "` for " ++ r.cls.name

/-- The text of the error behind an error, if there is one. -/
def cause? : Error → Option String
  | invalidOptions _ => none
  | eventSource r => some r.reason

end Error

end AccessSampling
