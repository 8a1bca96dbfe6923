import AccessSampling.Error
import AccessSampling.PerClass
import AccessSampling.Ring

/-!
# Event sources

An event source programs one hardware event per class on every CPU and hands out a ring for each of
them. It is a value here: what each class is programmed with, which rings it offers, which calls it
refuses, and a log of the calls it received. A refused call changes nothing but the log.
-/

namespace AccessSampling

inductive SourceCall where
  | openRing (cpu : Nat) (c : EventClass)
  | enable (c : EventClass)
  | disable (c : EventClass)
  | setPeriod (c : EventClass) (period : Nat)
  | period (c : EventClass)
  deriving DecidableEq, Repr

namespace SourceCall

def cls : SourceCall → EventClass
  | openRing _ c | enable c | disable c | setPeriod c _ | period c => c

def op : SourceCall → SourceOp
  | openRing _ _ => .openRing
  | enable _ => .enable
  | disable _ => .disable
  | setPeriod _ _ => .setPeriod
  | period _ => .period

end SourceCall

/-- A call with the answer it got. -/
structure LoggedCall where
  call : SourceCall
  granted : Bool
  deriving DecidableEq, Repr

structure EventSource where
  cpus : List Nat
  /-- The size of the rings it hands out. -/
  ringSize : UInt64
  /-- Which classes are available on which CPU. -/
  offers : Nat → EventClass → Bool := fun _ _ => true
  /-- Which calls it refuses. -/
  refuses : EventClass → SourceOp → Bool := fun _ _ => false
  enabled : PerClass Bool := .replicate false
  periods : PerClass Nat := .replicate 0
  /-- The calls it received, oldest first. -/
  calls : Array LoggedCall := #[]

namespace EventSource

/-! ## Calls -/

/-- Logs a call and tells whether it is granted. -/
def receive (s : EventSource) (call : SourceCall) : Except Refusal Unit × EventSource :=
  let refused := s.refuses call.cls call.op
  (if refused then .error { cls := call.cls, op := call.op } else .ok (),
    { s with calls := s.calls.push { call, granted := !refused } })

/-- Opens the ring of a class on a CPU; there is none if the class is not available there. -/
def openRing (s : EventSource) (cpu : Nat) (c : EventClass) :
    Except Refusal (Option RingId) × EventSource :=
  match s.receive (.openRing cpu c) with
  | (.error r, s) => (.error r, s)
  | (.ok (), s) => (.ok (if s.offers cpu c then some (.hardware cpu c) else none), s)

def enable (s : EventSource) (c : EventClass) : Except Refusal Unit × EventSource :=
  match s.receive (.enable c) with
  | (.error r, s) => (.error r, s)
  | (.ok (), s) => (.ok (), { s with enabled := s.enabled.set c true })

def disable (s : EventSource) (c : EventClass) : Except Refusal Unit × EventSource :=
  match s.receive (.disable c) with
  | (.error r, s) => (.error r, s)
  | (.ok (), s) => (.ok (), { s with enabled := s.enabled.set c false })

def setPeriod (s : EventSource) (c : EventClass) (period : Nat) :
    Except Refusal Unit × EventSource :=
  match s.receive (.setPeriod c period) with
  | (.error r, s) => (.error r, s)
  | (.ok (), s) => (.ok (), { s with periods := s.periods.set c period })

def period (s : EventSource) (c : EventClass) : Except Refusal Nat × EventSource :=
  match s.receive (.period c) with
  | (.error r, s) => (.error r, s)
  | (.ok (), s) => (.ok (s.periods.get c), s)

/-! ## Changes from outside -/

/-- The source with its answer to one operation on one class chosen. -/
def setRefusal (s : EventSource) (c : EventClass) (op : SourceOp) (refuse : Bool) : EventSource :=
  { s with
    refuses := fun c' op' => if c' = c ∧ op' = op then refuse else s.refuses c' op' }

/-- The source with a class unavailable on every CPU. -/
def withdraw (s : EventSource) (c : EventClass) : EventSource :=
  { s with offers := fun cpu c' => c' ≠ c && s.offers cpu c' }

/-- The source with the period of a class changed without a call. -/
def overridePeriod (s : EventSource) (c : EventClass) (period : Nat) : EventSource :=
  { s with periods := s.periods.set c period }

/-- The source with a class enabled without a call. -/
def overrideEnabled (s : EventSource) (c : EventClass) : EventSource :=
  { s with enabled := s.enabled.set c true }

/-- The periods that were written, oldest first. -/
def writes (s : EventSource) : List (EventClass × Nat) :=
  s.calls.toList.filterMap fun
    | { call := .setPeriod c p, granted := true } => some (c, p)
    | _ => none

def clearLog (s : EventSource) : EventSource := { s with calls := #[] }

end EventSource

end AccessSampling
