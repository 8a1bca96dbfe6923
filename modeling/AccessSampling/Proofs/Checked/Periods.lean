import AccessSampling.Budget
import AccessSampling.Options.Validation
import AccessSampling.Period
import AccessSampling.Proofs.Checked.Operations
import AccessSampling.QuotaLoop

/-!
# Periods with checked operations

The mapping of scores to periods and the smoothing are where the check of the options is needed: the
shortest period has to be below the longest, and the share of the target at most one. The budget
divides only by periods that are raised to one, and by a room that is not empty.
-/

namespace AccessSampling.Checked

/-! ## Targets -/

def target (o : PeriodOptions) (score : Nat) : Except Fault Nat :=
  if fullScore ≤ score then return o.min
  else if score = 0 then return o.max
  else do
    let range ← sub o.max o.min
    let share ← div (score * range) fullScore
    sub o.max share

def smooth (r : Ratio) (current target : Nat) : Except Fault Nat := do
  let rest ← sub r.den r.num
  let half ← div r.den 2
  div (r.num * target + rest * current + half) r.den

theorem target_eq {o : PeriodOptions} (h : o.min ≤ o.max) (score : Nat) :
    target o score = .ok (o.target score) := by
  unfold target PeriodOptions.target
  split
  · rfl
  · split
    · rfl
    · rename_i hfull _
      -- a share of the range is not above the range
      have hshare : score * (o.max - o.min) / fullScore ≤ o.max :=
        calc score * (o.max - o.min) / fullScore
            ≤ o.max - o.min :=
              Nat.div_le_of_le_mul (Nat.mul_le_mul_right _ (Nat.le_of_not_le hfull))
          _ ≤ o.max := Nat.sub_le ..
      rw [sub_of_le h, ok_bind, div_of_ne_zero (by decide), ok_bind, sub_of_le hshare]

/-- A range that the check of the options refuses. -/
example : target { min := 9, max := 3 } 500 = .error .belowZero := rfl

theorem smooth_eq {r : Ratio} (hden : 0 < r.den) (hnum : r.num ≤ r.den) (current target : Nat) :
    smooth r current target = .ok (r.smooth current target) := by
  rw [smooth, sub_of_le hnum, ok_bind, div_of_ne_zero (by decide), ok_bind,
    div_of_ne_zero (Nat.ne_of_gt hden)]
  rfl

/-- A share above one, which the check of the options refuses. -/
example : smooth { num := 3, den := 2 } 10 20 = .error .belowZero := rfl

/-! ## The budget -/

section Budget

def volume (p : Projection) : Except Fault Nat := div p.events (max p.period 1)

def totalVolume (ps : List Projection) : Except Fault Nat := do
  let volumes ← ps.mapM volume
  return volumes.foldr (· + ·) 0

/-- The least integer that is not below a quotient. -/
def ceilDiv (n d : Nat) : Except Fault Nat :=
  if d = 0 then .error .divisionByZero else .ok (AccessSampling.ceilDiv n d)

def scaledPeriod? (free room : Nat) (l : Load) : Except Fault (Option Nat) :=
  if room = 0 then return none
  else do
    let period ← ceilDiv (l.proposed.period * free) room
    return some period

def overflows (ceiling free room : Nat) (l : Load) : Except Fault Bool :=
  if l.pinned then return false
  else do
    match ← scaledPeriod? free room l with
    | none => return true
    | some p => return decide (ceiling < p)

def pinIf (ceiling free room : Nat) (l : Load) : Except Fault Load := do
  let exceeds ← overflows ceiling free room l
  return { l with pinned := l.pinned || exceeds }

def scaled (ceiling free room : Nat) (l : Load) : Except Fault Projection :=
  if l.pinned then return l.proposed.raise ceiling
  else do
    let period? ← scaledPeriod? free room l
    return { l.proposed with period := period?.getD ceiling }

/-- One round. The room is a saturating difference. -/
def scalingRound (budget ceiling : Nat) (ls : List Load) : Except Fault Round := do
  let fixed ← totalVolume ((ls.filter fun l => l.pinned).map fun l => l.proposed.raise ceiling)
  let free ← totalVolume ((ls.filter fun l => !l.pinned).map fun l => l.proposed)
  let room := budget - fixed
  if free ≤ room then return .settled (ls.map (Load.unscaled ceiling))
  else if ← ls.anyM (overflows ceiling free room) then
    return .pinned (← ls.mapM (pinIf ceiling free room))
  else return .settled (← ls.mapM (scaled ceiling free room))

theorem volume_eq (p : Projection) : volume p = .ok p.volume :=
  div_of_ne_zero (by omega) _

theorem totalVolume_eq (ps : List Projection) :
    totalVolume ps = .ok (AccessSampling.totalVolume ps) := by
  have hvolume : volume = fun p => .ok p.volume := funext volume_eq
  rw [totalVolume, hvolume, mapM_ok]
  rfl

variable (ceiling free room : Nat) (l : Load)

theorem scaledPeriod?_eq : scaledPeriod? free room l = .ok (l.scaledPeriod? free room) := by
  unfold scaledPeriod? Load.scaledPeriod?
  split
  · rfl
  · rename_i hroom
    rw [ceilDiv, if_neg hroom]
    rfl

theorem overflows_eq : overflows ceiling free room l = .ok (l.overflows ceiling free room) := by
  unfold overflows Load.overflows
  cases l.pinned with
  | true => rfl
  | false =>
      rw [scaledPeriod?_eq]
      cases l.scaledPeriod? free room with
      | none | some => rfl

theorem pinIf_eq : pinIf ceiling free room l = .ok (l.pinIf ceiling free room) := by
  rw [pinIf, overflows_eq]
  rfl

theorem scaled_eq : scaled ceiling free room l = .ok (l.scaled ceiling free room) := by
  unfold scaled Load.scaled
  split
  · rfl
  · rw [scaledPeriod?_eq]
    rfl

theorem scalingRound_eq (budget : Nat) (ls : List Load) :
    scalingRound budget ceiling ls = .ok (AccessSampling.scalingRound budget ceiling ls) := by
  have hover := fun free room => funext (overflows_eq ceiling free room)
  have hpin := fun free room => funext (pinIf_eq ceiling free room)
  have hscaled := fun free room => funext (scaled_eq ceiling free room)
  simp only [scalingRound, totalVolume_eq, hover, hpin, hscaled, anyM_ok, mapM_ok, ok_bind]
  rw [AccessSampling.scalingRound, freeVolume, pinnedVolume]
  split
  · rfl
  · split
    · rfl
    · rfl

/-- Runs rounds until the periods are final; a round that pins leaves fewer classes to scale. -/
def settle (budget ceiling : Nat) (ls : List Load) : Except Fault (List Projection) :=
  match _h : scalingRound budget ceiling ls with
  | .error f => .error f
  | .ok (.settled ps) => return ps
  | .ok (.pinned ls') => settle budget ceiling ls'
termination_by unpinned ls
decreasing_by
  rw [scalingRound_eq, Except.ok.injEq] at _h
  exact unpinned_lt_of_scalingRound _h

def enforceBudget (budget ceiling : Nat) (ps : List Projection) :
    Except Fault (BudgetOutcome × List Projection) := do
  let before ← totalVolume ps
  if before ≤ budget then return (.within before, ps)
  else
    let raised := ps.map (Projection.raise ceiling)
    let least ← totalVolume raised
    if budget < least then return (.infeasible before least, raised)
    else
      let settled ← settle budget ceiling (ps.map fun proposed => { proposed })
      let after ← totalVolume settled
      return (.scaled before after, settled)

theorem settle_eq (budget : Nat) (ls : List Load) :
    settle budget ceiling ls = .ok (AccessSampling.settle budget ceiling ls) := by
  fun_induction AccessSampling.settle budget ceiling ls with
  | case1 ls ps h =>
      have hround := (scalingRound_eq ceiling budget ls).trans (congrArg Except.ok h)
      unfold settle
      split
      · rename_i f hf
        cases hf.symm.trans hround
      · rename_i ps' hps
        cases hps.symm.trans hround
        rfl
      · rename_i ls' hls
        cases hls.symm.trans hround
  | case2 ls ls' h ih =>
      have hround := (scalingRound_eq ceiling budget ls).trans (congrArg Except.ok h)
      unfold settle
      split
      · rename_i f hf
        cases hf.symm.trans hround
      · rename_i ps hps
        cases hps.symm.trans hround
      · rename_i ls'' hls
        cases hls.symm.trans hround
        exact ih

theorem enforceBudget_eq (budget : Nat) (ps : List Projection) :
    enforceBudget budget ceiling ps = .ok (AccessSampling.enforceBudget budget ceiling ps) := by
  simp only [enforceBudget, totalVolume_eq, settle_eq, ok_bind]
  unfold AccessSampling.enforceBudget
  simp only
  split
  · rfl
  · split
    · rfl
    · rfl

end Budget

/-! ## The quota loop -/

section Quota

/-- The use of a CPU in permil; nanoseconds over microseconds, of which there is at least one. -/
def permil (u : Usage) : Except Fault Nat := do
  let ratio ← div u.spent.nanoseconds (max u.elapsed.microseconds 1)
  return ratio % UInt64.size

def estimate (q : QuotaLoop) (current : Nat) : Except Fault Nat :=
  if q.usage = 0 then div (current * 8) 10 else return current

def observeUsage (q : QuotaLoop) (u : Usage) (o : QuotaOptions) :
    Except Fault (QuotaStep × QuotaLoop) := do
  let current ← permil u
  let usage ← estimate q current
  if o.cpuPermil + o.tolerancePermil < usage ∧ q.index < o.steps - 1 then
    let index := q.index + 1
    return (.up index, { index, usage })
  else if usage + o.tolerancePermil < o.cpuPermil ∧ 0 < q.index then
    let index ← sub q.index 1
    return (.down index, { index, usage })
  else return (.hold, { q with usage })

/-- The coarse period of a tier; a table has to have an entry at the step. -/
def coarsePeriod? (o : QuotaOptions) (t : Tier) (step : Nat) : Except Fault (Option Nat) :=
  match t with
  | .base => do
    let period ← elem o.basePeriods.toArray step
    return some period
  | .instr => do
    let period ← elem o.instrPeriods.toArray step
    return some period
  | .fixed => return none

theorem permil_eq (u : Usage) : permil u = .ok u.permil := by
  rw [permil, div_of_ne_zero (by omega)]
  rfl

theorem estimate_eq (q : QuotaLoop) (current : Nat) :
    estimate q current = .ok (q.estimate current) := by
  unfold estimate QuotaLoop.estimate
  split
  · exact div_of_ne_zero (by decide) _
  · rfl

theorem observeUsage_eq (q : QuotaLoop) (u : Usage) (o : QuotaOptions) :
    observeUsage q u o = .ok (q.observe u o) := by
  rw [observeUsage, permil_eq, ok_bind, estimate_eq, ok_bind, QuotaLoop.observe]
  simp only
  split
  · rfl
  · split
    · rename_i hdown
      rw [sub_of_le hdown.2]
      rfl
    · rfl

theorem coarsePeriod?_eq {o : Options} (ho : o.Valid) {step : Nat} (h : step < o.quota.steps)
    (t : Tier) : coarsePeriod? o.quota t step = .ok (o.quota.period? t step) := by
  have hbase : step < o.quota.basePeriods.length := h
  have hinstr : step < o.quota.instrPeriods.length := ho.length_eq ▸ hbase
  cases t with
  | base =>
      rw [coarsePeriod?, elem_of_lt (by simpa using hbase), QuotaOptions.period?,
        List.getElem?_eq_getElem hbase]
      rfl
  | instr =>
      rw [coarsePeriod?, elem_of_lt (by simpa using hinstr), QuotaOptions.period?,
        List.getElem?_eq_getElem hinstr]
      rfl
  | fixed => rfl

end Quota

end AccessSampling.Checked
