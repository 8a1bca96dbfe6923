import AccessSampling.RingBuffer
import AccessSampling.Table

/-!
# Sample rings

The hardware writes to a ring and the drain worker visits it, so a ring is not part of either: it is
kept in a store, and both know it by its identity. A CPU that is listed twice gives the worker two
entries for one ring, each with a pressure of its own, and the later visit finds what the earlier
one has left.
-/

namespace AccessSampling

/-! ## Stores -/

/-- Which ring it is. -/
inductive RingId where
  /-- The ring into which the event of a class is sampled on a CPU. -/
  | hardware (cpu : Nat) (c : EventClass)
  /-- A ring that no event is sampled into. -/
  | detached (number : Nat)
  deriving DecidableEq, Repr

/-- The contents of all rings. A ring is empty until something is written to it. -/
abbrev RingStore := Table RingId RingBuffer

/-- The store of empty rings of one size. -/
def RingStore.ofSize (size : UInt64) : RingStore := { fallback := .new size }

/-! ## Entries of the drain worker -/

/-- A ring as the drain worker knows it, with the state of its pressure. -/
structure Ring where
  cpu : Nat
  /-- The class for which the worker counts the samples of the ring. -/
  cls : EventClass
  id : RingId
  pressure : Backpressure := {}
  deriving DecidableEq, Repr

namespace Ring

/-- Visits a ring with the given contents. -/
def visit (r : Ring) (o : DrainOptions) (b : RingBuffer) : Visit :=
  .run o b.cursor r.pressure b.queue

def leave (r : Ring) (v : Visit) : Ring := { r with pressure := v.pressure }

end Ring

end AccessSampling
