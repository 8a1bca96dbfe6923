/-!
# Records

What the hardware leaves in a sample ring. Only the kinds that the intake acts on carry their
fields; any other record is known by its number alone.
-/

namespace AccessSampling

/-- The process and thread that were running. -/
structure Task where
  pid : UInt32
  tid : UInt32
  deriving DecidableEq, Repr

/-- One precise sample of a memory access. -/
structure Sample where
  ip : UInt64
  task : Task
  time : UInt64
  addr : UInt64
  deriving DecidableEq, Repr

/-- A change of the hardware's throttling. -/
structure Throttle where
  time : UInt64
  id : UInt64
  streamId : UInt64
  deriving DecidableEq, Repr

inductive Record where
  | sample (s : Sample)
  | throttle (t : Throttle)
  | unthrottle (t : Throttle)
  /-- Samples were dropped because the ring had no room or was paused. -/
  | lostSamples (count : UInt64)
  /-- A record of another kind, with the number of its kind. -/
  | other (kind : UInt32)
  deriving DecidableEq, Repr

namespace Record

/-- The bytes of the header: the kind, a word of flags and the size. -/
def headerSize : Nat := 8

/-- The bytes a record takes up in its ring, the header included. Every field has eight bytes. -/
def size : Record → Nat
  | sample _ => headerSize + 32
  | throttle _ | unthrottle _ => headerSize + 24
  | lostSamples _ => headerSize + 8
  | other _ => headerSize

theorem size_pos (r : Record) : 0 < r.size := by
  cases r <;> simp [size, headerSize]

end Record

end AccessSampling
