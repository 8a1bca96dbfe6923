/-!
# Durations

A duration is a whole number of nanoseconds. Its seconds and the nanoseconds beyond them are views,
so a count of nanoseconds past a full second carries by itself.
-/

namespace AccessSampling

structure Duration where
  nanoseconds : Nat
  deriving DecidableEq, Repr

namespace Duration

def nanosPerSecond : Nat := 1000000000

/-- The duration of some seconds and some nanoseconds, which may pass a second. -/
def ofParts (seconds nanos : Nat) : Duration := ⟨seconds * nanosPerSecond + nanos⟩

def ofMillis (millis : Nat) : Duration := ⟨millis * 1000000⟩

def seconds (d : Duration) : Nat := d.nanoseconds / nanosPerSecond

/-- The nanoseconds beyond the full seconds. -/
def subsecNanos (d : Duration) : Nat := d.nanoseconds % nanosPerSecond

def microseconds (d : Duration) : Nat := d.nanoseconds / 1000

@[simp] theorem ofParts_seconds_subsecNanos (d : Duration) :
    ofParts d.seconds d.subsecNanos = d := by
  simp only [ofParts, seconds, subsecNanos, Nat.div_add_mod']

end Duration

end AccessSampling
