import AccessSampling.Json.Fields
import AccessSampling.Json.Reader
import AccessSampling.Record

/-!
# The written form of records

A record is written as an object with one member, whose key names the kind of the record.
-/

namespace AccessSampling

def Sample.toJson (s : Sample) : Json :=
  .ofFields [("ip", .ofWord64 s.ip),
    ("task", .ofFields [("pid", .ofNat s.task.pid.toNat), ("tid", .ofNat s.task.tid.toNat)]),
    ("time", .ofWord64 s.time), ("addr", .ofWord64 s.addr)]

/-- Reads the process and thread of a sample. -/
def Task.ofJson? (j : Json) : Option Task := do
  let [pid, tid] ← j.fields? ["pid", "tid"] | none
  return { pid := .ofNat (← pid.word32?), tid := .ofNat (← tid.word32?) }

theorem Task.ofJson?_of_fields {j pid tid : Json} {t : Task}
    (hfields : j.fields? ["pid", "tid"] = some [pid, tid]) (hpid : pid.word32? = some t.pid.toNat)
    (htid : tid.word32? = some t.tid.toNat) : ofJson? j = some t := by
  simp [ofJson?, hfields, hpid, htid]

def Sample.ofJson? (j : Json) : Option Sample := do
  let [ip, task, time, addr] ← j.fields? ["ip", "task", "time", "addr"] | none
  return {
    ip := .ofNat (← ip.word64?)
    task := ← Task.ofJson? task
    time := .ofNat (← time.word64?)
    addr := .ofNat (← addr.word64?) }

theorem Sample.ofJson?_of_fields {j ip task time addr : Json} {s : Sample}
    (hfields : j.fields? ["ip", "task", "time", "addr"] = some [ip, task, time, addr])
    (hip : ip.word64? = some s.ip.toNat) (htask : Task.ofJson? task = some s.task)
    (htime : time.word64? = some s.time.toNat) (haddr : addr.word64? = some s.addr.toNat) :
    ofJson? j = some s := by
  simp [ofJson?, hfields, hip, htask, htime, haddr]

def Throttle.toJson (t : Throttle) : Json :=
  .ofFields [("time", .ofWord64 t.time), ("id", .ofWord64 t.id),
    ("stream_id", .ofWord64 t.streamId)]

def Throttle.ofJson? (j : Json) : Option Throttle := do
  let [time, id, streamId] ← j.fields? ["time", "id", "stream_id"] | none
  return {
    time := .ofNat (← time.word64?)
    id := .ofNat (← id.word64?)
    streamId := .ofNat (← streamId.word64?) }

theorem Throttle.ofJson?_of_fields {j time id streamId : Json} {t : Throttle}
    (hfields : j.fields? ["time", "id", "stream_id"] = some [time, id, streamId])
    (htime : time.word64? = some t.time.toNat) (hid : id.word64? = some t.id.toNat)
    (hstream : streamId.word64? = some t.streamId.toNat) : ofJson? j = some t := by
  simp [ofJson?, hfields, htime, hid, hstream]

namespace Record

def toJson : Record → Json
  | sample s => .ofFields [("Sample", s.toJson)]
  | throttle t => .ofFields [("Throttle", t.toJson)]
  | unthrottle t => .ofFields [("Unthrottle", t.toJson)]
  | lostSamples n => .ofFields [("LostSamples", .ofFields [("lost_samples", .ofWord64 n)])]
  | other kind => .ofFields [("Other", .ofNat kind.toNat)]

/-- Reads the contents of a record of a named kind. -/
def ofKind? (kind : String) (j : Json) : Option Record :=
  match kind with
  | "Sample" => (Sample.ofJson? j).map sample
  | "Throttle" => (Throttle.ofJson? j).map throttle
  | "Unthrottle" => (Throttle.ofJson? j).map unthrottle
  | "LostSamples" => do
    let [n] ← j.fields? ["lost_samples"] | none
    return lostSamples (.ofNat (← n.word64?))
  | "Other" => j.word32?.map fun n => other (.ofNat n)
  | _ => none

theorem ofKind?_lostSamples {j count : Json} {n : UInt64}
    (hfields : j.fields? ["lost_samples"] = some [count])
    (hcount : count.word64? = some n.toNat) :
    ofKind? "LostSamples" j = some (lostSamples n) := by
  simp [ofKind?, hfields, hcount]

def ofJson? : Json → Option Record
  | .object [(some kind, j)] => ofKind? kind j
  | _ => none

theorem ofJson?_ofFields (kind : String) (j : Json) :
    ofJson? (.ofFields [(kind, j)]) = ofKind? kind j := rfl

def parse? (text : String) : Option Record := do
  let j ← Json.parse? text
  ofJson? j

end Record

end AccessSampling
