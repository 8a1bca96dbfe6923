import AccessSampling.IntervalStats
import AccessSampling.Table

/-!
# Statistics by item

Every item has its interval statistics. Those of an item that was never sampled are empty.
-/

namespace AccessSampling

abbrev ItemTable (ι : Type) := Table ι IntervalStats

namespace ItemTable

variable {ι : Type}

/-- The table in which no item was ever sampled. -/
def empty : ItemTable ι := { fallback := {} }

variable [DecidableEq ι]

def observe (t : ItemTable ι) (i : ι) (now : UInt64) : Observation × ItemTable ι :=
  let (seen, s) := (t.get i).observe now
  (seen, t.set i s)

@[simp] theorem get_empty (i : ι) : (empty : ItemTable ι).get i = {} := rfl

theorem get_observe (t : ItemTable ι) (i j : ι) (now : UInt64) :
    (t.observe i now).2.get j = if j = i then ((t.get i).observe now).2 else t.get j :=
  Table.get_set _ _ _ _

end ItemTable

end AccessSampling
