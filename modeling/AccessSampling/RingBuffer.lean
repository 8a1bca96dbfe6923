import AccessSampling.Options
import AccessSampling.Record

/-!
# Ring buffers

A ring is described by two free-running byte positions: the hardware writes at `head`, the drain
worker consumes at `tail`. The positions wrap, and only their difference counts, so it does not
matter where they start.

A visit takes one record from a ring that is not under pressure. A ring that filled past its high
watermark is drained in a tight loop until it falls below the low one, so that it does not overflow
and lose records. How many records a visit takes depends on the ring alone.
-/

namespace AccessSampling

/-! ## Positions -/

structure Cursor where
  head : UInt64
  tail : UInt64
  /-- The bytes the ring has room for. -/
  size : UInt64
  deriving DecidableEq, Repr

namespace Cursor

/-- The bytes that wait to be consumed. -/
def pending (c : Cursor) : UInt64 := c.head - c.tail

def isEmpty (c : Cursor) : Bool := c.head == c.tail

def produce (c : Cursor) (bytes : Nat) : Cursor := { c with head := c.head + UInt64.ofNat bytes }

def consume (c : Cursor) (bytes : Nat) : Cursor := { c with tail := c.tail + UInt64.ofNat bytes }

theorem isEmpty_iff (c : Cursor) : c.isEmpty = true ↔ c.pending.toNat = 0 := by
  rw [isEmpty, beq_iff_eq, pending, ← UInt64.toNat_zero, UInt64.toNat_inj,
    UInt64.sub_eq_iff_eq_add, UInt64.zero_add]

end Cursor

/-! ## Pressure -/

/-- The hysteresis between the two watermarks: between them the last decision stands. -/
structure Backpressure where
  draining : Bool := false
  deriving DecidableEq, Repr

/-- The decision after a look at the fill. -/
def Backpressure.update (b : Backpressure) (c : Cursor) (high low : Nat) : Backpressure :=
  if c.size.toNat * high < c.pending.toNat * 100 then ⟨true⟩
  else if c.pending.toNat * 100 < c.size.toNat * low then ⟨false⟩
  else b

/-! ## Contents -/

/-- The positions of a ring and the records that are queued in it. -/
structure RingBuffer where
  cursor : Cursor
  queue : List Record := []
  deriving DecidableEq, Repr

namespace RingBuffer

/-- The empty ring of some size, its positions at `start`. -/
def new (size : UInt64) (start : UInt64 := 0) : RingBuffer :=
  { cursor := { head := start, tail := start, size } }

def push (b : RingBuffer) (rs : List Record) : RingBuffer :=
  { cursor := b.cursor.produce ((rs.map Record.size).foldr (· + ·) 0)
    queue := b.queue ++ rs }

/-- Advances the head past bytes that hold no record. -/
def skip (b : RingBuffer) (bytes : Nat) : RingBuffer :=
  { b with cursor := b.cursor.produce bytes }

def pop (b : RingBuffer) : Option Record × RingBuffer :=
  match b.queue with
  | [] => (none, b)
  | r :: rest => (some r, { cursor := b.cursor.consume r.size, queue := rest })

def queuedBytes (b : RingBuffer) : Nat := (b.queue.map Record.size).foldr (· + ·) 0

end RingBuffer

/-! ## Visits -/

/-- What one visit took and left. -/
structure Visit where
  taken : List Record
  buffer : RingBuffer
  pressure : Backpressure
  /-- Whether the visit ended because it found nothing. -/
  foundEmpty : Bool
  deriving DecidableEq, Repr

/-- Visits a ring with the given positions, pressure and queue. The watermarks are looked at before
each record; a ring that holds bytes but no record ends the visit, too. -/
def Visit.run (o : DrainOptions) (c : Cursor) (b : Backpressure) : List Record → Visit
  | [] =>
    if c.isEmpty then
      { taken := [], buffer := ⟨c, []⟩, pressure := b, foundEmpty := true }
    else
      { taken := [], buffer := ⟨c, []⟩, pressure := b.update c o.highWatermark o.lowWatermark,
        foundEmpty := false }
  | r :: rest =>
    if c.isEmpty then
      { taken := [], buffer := ⟨c, r :: rest⟩, pressure := b, foundEmpty := true }
    else
      let b := b.update c o.highWatermark o.lowWatermark
      let c := c.consume r.size
      if b.draining then
        let v := Visit.run o c b rest
        { v with taken := r :: v.taken }
      else { taken := [r], buffer := ⟨c, rest⟩, pressure := b, foundEmpty := false }

/-- A visit takes the front of the queue and leaves the rest. -/
theorem Visit.taken_append_queue (o : DrainOptions) (c : Cursor) (b : Backpressure)
    (q : List Record) : (Visit.run o c b q).taken ++ (Visit.run o c b q).buffer.queue = q := by
  induction q generalizing c b with
  | nil =>
    unfold run
    split <;> rfl
  | cons r rest ih =>
    unfold run
    split
    · rfl
    · simp only
      split
      · simpa using ih _ _
      · rfl

end AccessSampling
