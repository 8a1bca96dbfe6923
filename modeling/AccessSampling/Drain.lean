import AccessSampling.Intake
import AccessSampling.Ring

/-!
# Draining

One pass visits every ring of the worker in order, and the intake consumes what each visit took
before the next ring is visited. Nothing is written to the rings during a pass, so what a ring gives
up does not depend on the others.
-/

namespace AccessSampling

structure Pass where
  records : Nat := 0
  /-- The visits that ended with nothing to consume. -/
  empty : Nat := 0
  deriving DecidableEq, Repr

/-- The rings that the drain worker visits, what they hold, and the intake that they feed. -/
structure Drain (ρ ι : Type) where
  store : RingStore
  rings : List Ring
  intake : Intake ρ ι

namespace Drain

variable {ρ ι : Type}

/-- The drain of some rings, each with contents of its own: for every ring its CPU, its class and
what it holds. -/
def ofBuffers (rings : List (Nat × EventClass × RingBuffer)) (intake : Intake ρ ι) : Drain ρ ι :=
  { store :=
      { fallback := .new 0
        entries := rings.zipIdx.map fun (r, n) => (.detached n, r.2.2) }
    rings := rings.zipIdx.map fun (r, n) => { cpu := r.1, cls := r.2.1, id := .detached n }
    intake }

def buffer (d : Drain ρ ι) (id : RingId) : RingBuffer := d.store.get id

def push (d : Drain ρ ι) (id : RingId) (rs : List Record) : Drain ρ ι :=
  { d with store := d.store.modify id (·.push rs) }

/-- Advances the head of a ring past bytes that hold no record. -/
def skip (d : Drain ρ ι) (id : RingId) (bytes : Nat) : Drain ρ ι :=
  { d with store := d.store.modify id (·.skip bytes) }

/-- The records that are queued in the rings of the worker. -/
def queued (d : Drain ρ ι) : Nat :=
  (d.rings.map fun r => (d.buffer r.id).queue.length).foldr (· + ·) 0

def report (d : Drain ρ ι) (samplePeriod cpuPermil : Option Nat) : Drain ρ ι :=
  { d with intake := d.intake.report samplePeriod cpuPermil }

theorem buffer_push (d : Drain ρ ι) (id id' : RingId) (rs : List Record) :
    (d.push id rs).buffer id' = if id' = id then (d.buffer id).push rs else d.buffer id' :=
  Table.get_modify _ _ _ _

theorem buffer_skip (d : Drain ρ ι) (id id' : RingId) (bytes : Nat) :
    (d.skip id bytes).buffer id' = if id' = id then (d.buffer id).skip bytes else d.buffer id' :=
  Table.get_modify _ _ _ _

variable [Resolver ρ ι] [DecidableEq ι]

/-- Visits some rings in order. Two of them may be one, so each is looked up when its turn comes. -/
def visitAll (o : DrainOptions) : List Ring → RingStore → Intake ρ ι →
    Pass × List Ring × RingStore × Intake ρ ι
  | [], s, i => ({}, [], s, i)
  | r :: rest, s, i =>
    let v := r.visit o (s.get r.id)
    let (p, rings, s, i) :=
      visitAll o rest (s.set r.id v.buffer) (i.consumeVisit o.milestone r.cls v)
    ({ records := v.taken.length + p.records, empty := countIf (v.foundEmpty = true) + p.empty },
      r.leave v :: rings, s, i)

def pass (d : Drain ρ ι) (o : DrainOptions) : Pass × Drain ρ ι :=
  let (p, rings, store, intake) := visitAll o d.rings d.store d.intake
  (p, { store, rings, intake })

/-- Runs passes until one consumes nothing, at most as many as the first argument says. -/
def passes (o : DrainOptions) : Nat → Drain ρ ι → List Pass × Drain ρ ι
  | 0, d => ([], d)
  | n + 1, d =>
    let (p, d) := d.pass o
    if p.records = 0 then ([p], d)
    else
      let (ps, d) := passes o n d
      (p :: ps, d)

/-- Runs passes until one consumes nothing. Every pass before the last consumes a record, so there
is at most one pass more than there are queued records. -/
def drainAll (d : Drain ρ ι) (o : DrainOptions) : List Pass × Drain ρ ι :=
  passes o (d.queued + 1) d

end Drain

end AccessSampling
