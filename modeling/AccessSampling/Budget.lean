import AccessSampling.EventClass

/-!
# The sample budget

The adaptive classes share a budget of samples per interval. If the proposed periods would take
more, they are scaled up by one common factor. A class that would pass the ceiling is pinned there
instead, and what it leaves of the budget is shared among the others, so the scaling goes on in
rounds until no further class is pinned. No class is ever lowered, not even one that is already
above the ceiling.
-/

namespace AccessSampling

/-- What the budget knows of a class. -/
structure Projection where
  cls : EventClass
  /-- The hardware events of the last interval: samples times the period that was in effect. -/
  events : Nat
  period : Nat
  deriving DecidableEq, Repr

namespace Projection

/-- The samples that the class takes in an interval at its period. -/
def volume (p : Projection) : Nat := p.events / max p.period 1

/-- The projection with its period at the ceiling, unless it is above already. -/
def raise (ceiling : Nat) (p : Projection) : Projection :=
  { p with period := max ceiling p.period }

@[simp] theorem raise_cls (ceiling : Nat) (p : Projection) : (p.raise ceiling).cls = p.cls := rfl

@[simp] theorem raise_events (ceiling : Nat) (p : Projection) :
    (p.raise ceiling).events = p.events := rfl

end Projection

/-- The samples of all classes in an interval. -/
def totalVolume (ps : List Projection) : Nat := (ps.map Projection.volume).foldr (· + ·) 0

/-- How the proposed periods met the budget. -/
inductive BudgetOutcome where
  | within (volume : Nat)
  | scaled (before after : Nat)
  /-- Not even periods at the ceiling fit, and all were raised to it. -/
  | infeasible (before after : Nat)
  deriving DecidableEq, Repr

/-! ## Rounds -/

/-- The least integer that is not below a quotient. -/
def ceilDiv (n d : Nat) : Nat := (n + d - 1) / d

/-- A class in the course of the scaling. -/
structure Load where
  proposed : Projection
  /-- Whether an earlier round put the class at the ceiling. -/
  pinned : Bool := false
  deriving DecidableEq, Repr

namespace Load

/-- The period of a class that is not pinned, when `free` samples have to fit into `room`. Without
room there is none. Rounding up keeps the class within its share. -/
def scaledPeriod? (free room : Nat) (l : Load) : Option Nat :=
  if room = 0 then none else some (ceilDiv (l.proposed.period * free) room)

/-- Whether a class that is not pinned would pass the ceiling. -/
def overflows (ceiling free room : Nat) (l : Load) : Bool :=
  !l.pinned && match l.scaledPeriod? free room with
    | none => true
    | some p => decide (ceiling < p)

/-- The class, pinned if it would pass the ceiling. -/
def pinIf (ceiling free room : Nat) (l : Load) : Load :=
  { l with pinned := l.pinned || l.overflows ceiling free room }

/-- The class with its proposal, or at the ceiling if it is pinned. -/
def unscaled (ceiling : Nat) (l : Load) : Projection :=
  if l.pinned then l.proposed.raise ceiling else l.proposed

/-- The class with its scaled period, or at the ceiling if it is pinned. -/
def scaled (ceiling free room : Nat) (l : Load) : Projection :=
  if l.pinned then l.proposed.raise ceiling
  else { l.proposed with period := (l.scaledPeriod? free room).getD ceiling }

end Load

def pinnedVolume (ceiling : Nat) (ls : List Load) : Nat :=
  totalVolume ((ls.filter fun l => l.pinned).map fun l => l.proposed.raise ceiling)

/-- The samples of the other classes at their proposed periods. -/
def freeVolume (ls : List Load) : Nat :=
  totalVolume ((ls.filter fun l => !l.pinned).map fun l => l.proposed)

inductive Round where
  | settled (ps : List Projection)
  | pinned (ls : List Load)
  deriving DecidableEq, Repr

def scalingRound (budget ceiling : Nat) (ls : List Load) : Round :=
  let free := freeVolume ls
  let room := budget - pinnedVolume ceiling ls
  if free ≤ room then .settled (ls.map (Load.unscaled ceiling))
  else if ls.any (Load.overflows ceiling free room) then
    .pinned (ls.map (Load.pinIf ceiling free room))
  else .settled (ls.map (Load.scaled ceiling free room))

def unpinned (ls : List Load) : Nat := ls.countP fun l => !l.pinned

theorem Load.unpinned_map_pinIf_le (ceiling free room : Nat) (ls : List Load) :
    unpinned (ls.map (Load.pinIf ceiling free room)) ≤ unpinned ls := by
  rw [unpinned, unpinned, List.countP_map]
  refine List.countP_mono_left fun l _ h => ?_
  simp only [Function.comp_apply, Load.pinIf, Bool.not_or, Bool.and_eq_true] at h
  exact h.1

theorem Load.pinned_of_overflows {ceiling free room : Nat} {l : Load}
    (h : l.overflows ceiling free room = true) : l.pinned = false := by
  simp only [Load.overflows, Bool.and_eq_true, Bool.not_eq_true'] at h
  exact h.1

theorem Load.unpinned_map_pinIf_lt {ceiling free room : Nat} {ls : List Load}
    (h : ls.any (Load.overflows ceiling free room) = true) :
    unpinned (ls.map (Load.pinIf ceiling free room)) < unpinned ls := by
  induction ls with
  | nil => simp at h
  | cons l rest ih =>
    have hle := Load.unpinned_map_pinIf_le ceiling free room rest
    by_cases hl : l.overflows ceiling free room = true
    · have hp := Load.pinned_of_overflows hl
      simp only [unpinned, List.map_cons, List.countP_cons, Load.pinIf, hp, hl] at hle ⊢
      simp only [Bool.or_true, Bool.not_true, Bool.not_false, Bool.false_eq_true, if_true,
        if_false]
      omega
    · have hlt := ih (by simpa [hl] using h)
      simp only [Bool.not_eq_true] at hl
      simp only [unpinned, List.map_cons, List.countP_cons, Load.pinIf, hl, Bool.or_false] at hlt ⊢
      omega

/-- A round that pins leaves fewer classes to scale, so the rounds come to an end. -/
theorem unpinned_lt_of_scalingRound {budget ceiling : Nat} {ls ls' : List Load}
    (h : scalingRound budget ceiling ls = .pinned ls') : unpinned ls' < unpinned ls := by
  simp only [scalingRound] at h
  split at h
  · cases h
  · split at h
    · next hany =>
      cases h
      exact Load.unpinned_map_pinIf_lt hany
    · cases h

/-- Runs rounds until the periods are final. -/
def settle (budget ceiling : Nat) (ls : List Load) : List Projection :=
  match _h : scalingRound budget ceiling ls with
  | .settled ps => ps
  | .pinned ls' => settle budget ceiling ls'
termination_by unpinned ls
decreasing_by exact unpinned_lt_of_scalingRound _h

/-- Fits proposed periods into a budget; periods are raised up to the ceiling and no further. -/
def enforceBudget (budget ceiling : Nat) (ps : List Projection) :
    BudgetOutcome × List Projection :=
  let raised := ps.map (Projection.raise ceiling)
  if totalVolume ps ≤ budget then (.within (totalVolume ps), ps)
  else if budget < totalVolume raised then
    (.infeasible (totalVolume ps) (totalVolume raised), raised)
  else
    let settled := settle budget ceiling (ps.map fun proposed => { proposed })
    (.scaled (totalVolume ps) (totalVolume settled), settled)

end AccessSampling
