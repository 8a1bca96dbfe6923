import AccessSampling.IntervalStats
import AccessSampling.Json.Fields

/-!
# The written form of interval statistics

Statistics are written as an object with a member for every field.
-/

namespace AccessSampling.IntervalStats

def toJson (s : IntervalStats) : Json :=
  .ofFields [("last_sample_time", .ofWord64 s.lastTime), ("sample_count", .ofNat s.count.toNat),
    ("running_mean", .ofWord64 s.mean), ("running_m2", .ofWord64 s.m2)]

def ofJson? (j : Json) : Option IntervalStats := do
  let [lastTime, count, mean, m2] ←
    j.fields? ["last_sample_time", "sample_count", "running_mean", "running_m2"] | none
  return {
    lastTime := .ofNat (← lastTime.word64?)
    count := .ofNat (← count.word32?)
    mean := .ofNat (← mean.word64?)
    m2 := .ofNat (← m2.word64?) }

theorem ofJson?_of_fields {j lastTime count mean m2 : Json} {s : IntervalStats}
    (hfields : j.fields? ["last_sample_time", "sample_count", "running_mean", "running_m2"] =
      some [lastTime, count, mean, m2])
    (hlast : lastTime.word64? = some s.lastTime.toNat) (hcount : count.word32? = some s.count.toNat)
    (hmean : mean.word64? = some s.mean.toNat) (hm2 : m2.word64? = some s.m2.toNat) :
    ofJson? j = some s := by
  simp [ofJson?, hfields, hlast, hcount, hmean, hm2]

end AccessSampling.IntervalStats
