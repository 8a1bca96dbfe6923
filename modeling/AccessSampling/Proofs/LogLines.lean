import AccessSampling.Proofs.DrainHistory
import Mathlib.Data.List.DropRight

/-!
# The log of the drain worker

Two windows count the same accepted samples: a milestone closes the one and a report the other, and
neither closing touches the other window. So a milestone tells of a block of the accepted samples,
whatever reports fall into it, and a report tells of the samples since the previous report, whatever
milestones fall in between.

What the log depends on is a list of notes, one for each event that matters. The windows and the
lines are written down as functions of this list, and the intake keeps to them note by note.
-/

namespace AccessSampling

/-! ## Notes -/

/-- What an event means to the log. -/
inductive Note where
  /-- A sample of a class was accepted. -/
  | sample (c : EventClass)
  /-- A throttle record or an unthrottle record was consumed. -/
  | throttling
  | report (samplePeriod cpuPermil : Option Nat)
  deriving DecidableEq, Repr

namespace Note

def sample? : Note → Option EventClass
  | sample c => some c
  | _ => none

def isReport : Note → Bool
  | report .. => true
  | _ => false

/-- The classes of the accepted samples, in order. -/
def samples (ns : List Note) : List EventClass := ns.filterMap sample?

/-- The notes since the last report. -/
def sinceReport (ns : List Note) : List Note := ns.rtakeWhile (!·.isReport)

/-- The throttlings before the accepted sample at a place. -/
def throttledBefore : Nat → List Note → Nat
  | _, [] => 0
  | 0, .sample _ :: _ => 0
  | n + 1, .sample _ :: ns => throttledBefore n ns
  | n, .throttling :: ns => throttledBefore n ns + 1
  | n, .report .. :: ns => throttledBefore n ns

theorem samples_append (ns ns' : List Note) : samples (ns ++ ns') = samples ns ++ samples ns' :=
  List.filterMap_append

@[simp] theorem samples_sample (ns : List Note) (c : EventClass) :
    samples (ns ++ [.sample c]) = samples ns ++ [c] :=
  samples_append ..

@[simp] theorem samples_throttling (ns : List Note) :
    samples (ns ++ [.throttling]) = samples ns :=
  (samples_append ..).trans (List.append_nil _)

@[simp] theorem samples_report (ns : List Note) (p q : Option Nat) :
    samples (ns ++ [.report p q]) = samples ns :=
  (samples_append ..).trans (List.append_nil _)

@[simp] theorem sinceReport_sample (ns : List Note) (c : EventClass) :
    sinceReport (ns ++ [.sample c]) = sinceReport ns ++ [.sample c] :=
  List.rtakeWhile_concat_pos _ _ _ rfl

@[simp] theorem sinceReport_throttling (ns : List Note) :
    sinceReport (ns ++ [.throttling]) = sinceReport ns ++ [.throttling] :=
  List.rtakeWhile_concat_pos _ _ _ rfl

@[simp] theorem sinceReport_report (ns : List Note) (p q : Option Nat) :
    sinceReport (ns ++ [.report p q]) = [] :=
  List.rtakeWhile_concat_neg _ _ _ Bool.false_ne_true

/-- What comes after a sample does not count. -/
theorem throttledBefore_append {n : Nat} {ns : List Note} (h : n < (samples ns).length)
    (ns' : List Note) : throttledBefore n (ns ++ ns') = throttledBefore n ns := by
  induction ns generalizing n with
  | nil => exact absurd h (Nat.not_lt_zero n)
  | cons note ns ih =>
      cases note with
      | sample c =>
          cases n with
          | zero => rfl
          | succ n => exact ih (Nat.lt_of_succ_lt_succ h)
      | throttling => exact congrArg (· + 1) (ih h)
      | report => exact ih h

/-- Before the next sample there are all throttlings so far. -/
theorem throttledBefore_length (ns : List Note) (c : EventClass) :
    throttledBefore (samples ns).length (ns ++ [.sample c]) = ns.count .throttling := by
  induction ns with
  | nil => rfl
  | cons note ns ih =>
      cases note with
      | sample c' =>
          rw [List.count_cons_of_ne Note.noConfusion, ← ih]
          rfl
      | throttling =>
          rw [List.count_cons_self, ← ih]
          rfl
      | report =>
          rw [List.count_cons_of_ne Note.noConfusion, ← ih]
          rfl

end Note

open Note

/-! ## The window -/

/-- The window after some notes: the milestone counts are those of the block that is still open, the
report counts those of the samples since the last report. -/
def ReadWindow.ofNotes (m : Nat) (ns : List Note) : ReadWindow :=
  let block := (samples ns).drop ((samples ns).length / m * m)
  let current := samples (sinceReport ns)
  { dram := block.count .dramRead
    nvm := block.count .nvmRead
    write := block.count .memWrite
    reportDram := current.count .dramRead
    reportNvm := current.count .nvmRead }

namespace ReadWindow

theorem ofNotes_throttling (m : Nat) (ns : List Note) :
    ofNotes m (ns ++ [.throttling]) = ofNotes m ns := by
  simp only [ofNotes, sinceReport_throttling, samples_throttling]

theorem ofNotes_report (m : Nat) (ns : List Note) (p q : Option Nat) :
    ofNotes m (ns ++ [.report p q]) = (ofNotes m ns).passReport := by
  simp only [ofNotes, sinceReport_report, samples_report]
  rfl

/-- The next sample joins the open block. -/
theorem drop_block (m : Nat) (cs : List EventClass) (c : EventClass) :
    (cs ++ [c]).drop (cs.length / m * m) = cs.drop (cs.length / m * m) ++ [c] :=
  List.drop_append_of_le_length (Nat.div_mul_le_self ..)

theorem count_concat (cs : List EventClass) (c c' : EventClass) :
    (cs ++ [c]).count c' = cs.count c' + countIf (c = c') := by
  rw [List.count_append, List.count_singleton, countIf]
  simp only [beq_iff_eq]

/-- A sample that does not fill the block counts in both windows. -/
theorem ofNotes_sample {m : Nat} {ns : List Note} (c : EventClass)
    (h : ¬ m ∣ (samples ns).length + 1) :
    ofNotes m (ns ++ [.sample c]) = (ofNotes m ns).count c := by
  have hdiv : ((samples ns).length + 1) / m = (samples ns).length / m :=
    Nat.succ_div_of_not_dvd h
  simp only [ofNotes, sinceReport_sample, samples_sample, List.length_append,
    List.length_singleton, hdiv, drop_block, count_concat]
  rfl

/-- A sample that fills the block counts in both windows, and then the next block is open. -/
theorem ofNotes_sample_of_dvd {m : Nat} {ns : List Note} (c : EventClass)
    (h : m ∣ (samples ns).length + 1) :
    ofNotes m (ns ++ [.sample c]) = ((ofNotes m ns).count c).passMilestone := by
  have hfull : (samples ns ++ [c]).drop ((samples ns).length + 1) = [] := by
    simp
  simp only [ofNotes, sinceReport_sample, samples_sample, List.length_append,
    List.length_singleton, Nat.div_mul_cancel h, hfull, count_concat]
  rfl

end ReadWindow

/-! ## Milestones -/

/-- The milestone at a place: the reads and writes among the accepted samples of its block, and the
throttlings before the last of them. -/
def Milestone.ofNotes (m : Nat) (ns : List Note) (j : Nat) : Milestone :=
  let block := ((samples ns).drop (j * m)).take m
  { sampled := (j + 1) * m
    dram := block.count .dramRead
    nvm := block.count .nvmRead
    write := block.count .memWrite
    throttled := throttledBefore ((j + 1) * m - 1) ns }

namespace Milestone

/-- The milestone of a full block does not depend on what comes after the block. -/
theorem ofNotes_append {m j : Nat} {ns : List Note} (h : (j + 1) * m ≤ (samples ns).length)
    (hm : 0 < m) (ns' : List Note) : ofNotes m (ns ++ ns') j = ofNotes m ns j := by
  have hnext : (j + 1) * m = j * m + m := Nat.succ_mul j m
  have hblock : ((samples ns ++ samples ns').drop (j * m)).take m =
      ((samples ns).drop (j * m)).take m := by
    rw [List.drop_append_of_le_length (by omega), List.take_append_of_le_length]
    rw [List.length_drop]
    omega
  have hthrottled : throttledBefore ((j + 1) * m - 1) (ns ++ ns') =
      throttledBefore ((j + 1) * m - 1) ns :=
    throttledBefore_append (by omega) ns'
  simp only [ofNotes, samples_append, hblock, hthrottled]

/-- The milestones that were passed. -/
def passed (m : Nat) (ns : List Note) : List Milestone :=
  (List.range ((samples ns).length / m)).map (ofNotes m ns)

theorem map_ofNotes_append (m : Nat) (ns ns' : List Note) :
    (List.range ((samples ns).length / m)).map (ofNotes m (ns ++ ns')) = passed m ns := by
  refine List.map_congr_left fun j hj => ?_
  have hlt : j < (samples ns).length / m := List.mem_range.1 hj
  have hm : 0 < m := Nat.pos_of_ne_zero fun hzero => by
    rw [hzero, Nat.div_zero] at hlt
    exact Nat.not_lt_zero j hlt
  exact ofNotes_append ((Nat.le_div_iff_mul_le hm).1 hlt) hm ns'

/-- A note that fills no block leaves the milestones as they are. -/
theorem passed_append {m : Nat} {ns ns' : List Note}
    (h : (samples (ns ++ ns')).length / m = (samples ns).length / m) :
    passed m (ns ++ ns') = passed m ns := by
  rw [passed, h, map_ofNotes_append]

/-- The milestone of the block that a sample fills tells of the window with the sample counted. -/
theorem ofNotes_sample_of_dvd {m : Nat} {ns : List Note} (c : EventClass)
    (h : m ∣ (samples ns).length + 1) :
    ofNotes m (ns ++ [.sample c]) ((samples ns).length / m) =
      { sampled := (samples ns).length + 1
        dram := ((ReadWindow.ofNotes m ns).count c).dram
        nvm := ((ReadWindow.ofNotes m ns).count c).nvm
        write := ((ReadWindow.ofNotes m ns).count c).write
        throttled := ns.count .throttling } := by
  have hend : ((samples ns).length / m + 1) * m = (samples ns).length + 1 := by
    rw [← Nat.succ_div_of_dvd h, Nat.div_mul_cancel h]
  have hblock : ((samples ns ++ [c]).drop ((samples ns).length / m * m)).take m =
      (samples ns).drop ((samples ns).length / m * m) ++ [c] := by
    have hsize : (samples ns).length / m * m + m = (samples ns).length + 1 :=
      (Nat.succ_mul ..).symm.trans hend
    have hfirst := Nat.div_mul_le_self (samples ns).length m
    rw [ReadWindow.drop_block, List.take_of_length_le]
    rw [List.length_append, List.length_drop, List.length_singleton]
    omega
  simp only [ofNotes, samples_sample, hblock, hend, Nat.add_sub_cancel, throttledBefore_length,
    ReadWindow.count_concat]
  rfl

/-- A sample that fills its block passes one more milestone. -/
theorem passed_sample_of_dvd {m : Nat} {ns : List Note} (c : EventClass)
    (h : m ∣ (samples ns).length + 1) :
    passed m (ns ++ [.sample c]) =
      passed m ns ++ [ofNotes m (ns ++ [.sample c]) ((samples ns).length / m)] := by
  have hdiv : ((samples ns).length + 1) / m = (samples ns).length / m + 1 :=
    Nat.succ_div_of_dvd h
  rw [passed, samples_sample, List.length_append, List.length_singleton, hdiv, List.range_succ,
    List.map_append, map_ofNotes_append, List.map_singleton]

end Milestone

/-! ## Reports -/

/-- The share of fast reads among the reads of some samples, in ten-thousandths; zero without
reads. -/
def hitRatioOf (cs : List EventClass) : Nat :=
  let dram := cs.count .dramRead
  let nvm := cs.count .nvmRead
  if dram + nvm = 0 then 0 else 10000 * dram / (dram + nvm)

theorem ReadWindow.hitRatio_ofNotes (m : Nat) (ns : List Note) :
    (ReadWindow.ofNotes m ns).hitRatio = hitRatioOf (samples (sinceReport ns)) := by
  unfold ReadWindow.hitRatio hitRatioOf ReadWindow.ofNotes
  simp only
  split
  · rename_i hnone
    rw [hnone, Nat.div_zero]
  · rw [Nat.mul_comm]

/-- The reports of some notes that follow others: each tells of the samples since the previous
one. -/
def Report.ofNotes (past : List Note) : List Note → List Report
  | [] => []
  | .report samplePeriod cpuPermil :: ns =>
    { sampled := (samples past).length, samplePeriod, cpuPermil
      hitRatio := hitRatioOf (samples (sinceReport past)) } ::
      ofNotes (past ++ [.report samplePeriod cpuPermil]) ns
  | n :: ns => ofNotes (past ++ [n]) ns

theorem Report.ofNotes_append (past ns ns' : List Note) :
    ofNotes past (ns ++ ns') = ofNotes past ns ++ ofNotes (past ++ ns) ns' := by
  induction ns generalizing past with
  | nil => rw [List.append_nil]; rfl
  | cons n ns ih =>
      have hrest := ih (past ++ [n])
      rw [List.append_assoc, List.singleton_append] at hrest
      cases n with
      | sample | throttling => exact hrest
      | report => exact congrArg (_ :: ·) hrest

/-! ## The intake and the log -/

namespace LogLine

def milestone? : LogLine → Option Milestone
  | milestone m => some m
  | report _ => none

def report? : LogLine → Option Report
  | milestone _ => none
  | report r => some r

end LogLine

namespace Intake

variable {ρ ι : Type}

/-- The intake counted what some notes tell, and logged their milestones and their reports. -/
structure Logged (m : Nat) (i : Intake ρ ι) (ns : List Note) : Prop where
  sampled : i.counters.sampled = (samples ns).length
  throttled : i.counters.throttled = ns.count .throttling
  window : i.window = .ofNotes m ns
  milestones : i.log.toList.filterMap LogLine.milestone? = Milestone.passed m ns
  reports : i.log.toList.filterMap LogLine.report? = Report.ofNotes [] ns

namespace Logged

variable {m : Nat} {i j : Intake ρ ι} {ns : List Note}

/-- Nothing is noted before the first event. -/
theorem empty (hcounters : i.counters = {}) (hwindow : i.window = {}) (hlog : i.log = #[]) :
    i.Logged m [] where
  sampled := by
    rw [hcounters]
    rfl
  throttled := by
    rw [hcounters]
    rfl
  window := by simp [hwindow, ReadWindow.ofNotes, samples, sinceReport]
  milestones := by simp [hlog, Milestone.passed, samples]
  reports := by
    rw [hlog]
    rfl

/-- What changes neither the window nor the log nor the two counters that a line tells is not
noted. -/
theorem quiet (h : i.Logged m ns) (hwindow : j.window = i.window) (hlog : j.log = i.log)
    (hsampled : j.counters.sampled = i.counters.sampled)
    (hthrottled : j.counters.throttled = i.counters.throttled) : j.Logged m ns where
  sampled := hsampled.trans h.sampled
  throttled := hthrottled.trans h.throttled
  window := hwindow.trans h.window
  milestones := hlog ▸ h.milestones
  reports := hlog ▸ h.reports

theorem throttling (h : i.Logged m ns) (hwindow : j.window = i.window) (hlog : j.log = i.log)
    (hsampled : j.counters.sampled = i.counters.sampled)
    (hthrottled : j.counters.throttled = i.counters.throttled + 1) :
    j.Logged m (ns ++ [.throttling]) where
  sampled := by
    rw [hsampled, h.sampled, samples_throttling]
  throttled := by
    rw [hthrottled, h.throttled, List.count_append]
    rfl
  window := by rw [hwindow, h.window, ReadWindow.ofNotes_throttling]
  milestones := by
    rw [Milestone.passed_append (by rw [samples_throttling]), hlog, h.milestones]
  reports := by
    rw [hlog, h.reports, Report.ofNotes_append]
    exact (List.append_nil _).symm

theorem report (h : i.Logged m ns) (p q : Option Nat) :
    (i.report p q).Logged m (ns ++ [.report p q]) where
  sampled := by
    rw [samples_report]
    exact h.sampled
  throttled := by
    rw [List.count_append]
    exact h.throttled
  window := by
    rw [ReadWindow.ofNotes_report, ← h.window]
    rfl
  milestones := by
    rw [Milestone.passed_append (by rw [samples_report]), ← h.milestones, Intake.report,
      Array.toList_push, List.filterMap_append]
    exact List.append_nil _
  reports := by
    rw [Report.ofNotes_append, ← h.reports, Intake.report, Array.toList_push,
      List.filterMap_append, h.sampled, h.window, ReadWindow.hitRatio_ofNotes]
    rfl

/-- An accepted sample is counted, and then the milestone is checked. -/
theorem sample (h : i.Logged m ns) (c : EventClass) (hwindow : j.window = i.window.count c)
    (hlog : j.log = i.log) (hsampled : j.counters.sampled = i.counters.sampled + 1)
    (hthrottled : j.counters.throttled = i.counters.throttled) :
    (j.checkMilestone m).Logged m (ns ++ [.sample c]) := by
  have hlen : j.counters.sampled = (samples ns).length + 1 := by
    rw [hsampled, h.sampled]
  have hwin : j.window = (ReadWindow.ofNotes m ns).count c := by
    rw [hwindow, h.window]
  have hreports : Report.ofNotes [] (ns ++ [.sample c]) = Report.ofNotes [] ns := by
    rw [Report.ofNotes_append]
    exact List.append_nil _
  have hcount : (j.checkMilestone m).counters.sampled = (samples (ns ++ [.sample c])).length := by
    rw [checkMilestone_counters, hlen, samples_sample, List.length_append, List.length_singleton]
  have hthrottlings :
      (j.checkMilestone m).counters.throttled = (ns ++ [Note.sample c]).count .throttling := by
    rw [checkMilestone_counters, hthrottled, h.throttled, List.count_append]
    rfl
  -- The check asks whether the sample fills its block, and the next window depends on the same.
  by_cases hfull : m ∣ (samples ns).length + 1
  · have hdue : 0 < m ∧ j.counters.sampled % m = 0 := by
      rw [hlen]
      exact ⟨Nat.pos_of_dvd_of_pos hfull (Nat.succ_pos _), Nat.mod_eq_zero_of_dvd hfull⟩
    refine ⟨hcount, hthrottlings, ?_, ?_, ?_⟩ <;> rw [checkMilestone, if_pos hdue]
    · rw [ReadWindow.ofNotes_sample_of_dvd c hfull, hwin]
    · rw [Milestone.passed_sample_of_dvd c hfull, Milestone.ofNotes_sample_of_dvd c hfull,
        ← h.milestones, Array.toList_push, List.filterMap_append, hlog, hlen, hwin, hthrottled,
        h.throttled]
      rfl
    · rw [hreports, ← h.reports, Array.toList_push, List.filterMap_append, hlog]
      exact List.append_nil _
  · have hnot : ¬ (0 < m ∧ j.counters.sampled % m = 0) := by
      rw [hlen]
      exact fun hdue => hfull (Nat.dvd_of_mod_eq_zero hdue.2)
    have hopen : (samples (ns ++ [.sample c])).length / m = (samples ns).length / m := by
      rw [samples_sample, List.length_append, List.length_singleton, Nat.succ_div_of_not_dvd hfull]
    refine ⟨hcount, hthrottlings, ?_, ?_, ?_⟩ <;> rw [checkMilestone, if_neg hnot]
    · rw [ReadWindow.ofNotes_sample c hfull, hwin]
    · rw [Milestone.passed_append hopen, hlog, h.milestones]
    · rw [hreports, hlog, h.reports]

end Logged

/-! ### Events -/

section Events

variable [Resolver ρ ι]

/-- What an event means to the log. -/
def note? (i : Intake ρ ι) : Event → Option Note
  | .took _ c r =>
    match Verdict.ofRecord i.resolver r with
    | .accepted .. => some (.sample c)
    | .excluded .throttling => some .throttling
    | .excluded _ => none
  | .foundEmpty _ => none
  | .reported samplePeriod cpuPermil => some (.report samplePeriod cpuPermil)

variable [DecidableEq ι]

/-- The notes of some events, each taken at its turn. -/
def notes (m : Nat) : Intake ρ ι → List Event → List Note
  | _, [] => []
  | i, e :: es => (i.note? e).toList ++ notes m (i.step m e) es

theorem samples_note? (m : Nat) (i : Intake ρ ι) (e : Event) :
    samples (i.note? e).toList = (i.accesses m [e]).map Access.cls := by
  cases e with
  | took id c r =>
      cases hv : Verdict.ofRecord i.resolver r with
      | accepted => simp [note?, accesses, verdicts, hv, Verdict.access?, samples, sample?]
      | excluded why =>
          cases why <;> simp [note?, accesses, verdicts, hv, Verdict.access?, samples, sample?]
  | foundEmpty | reported => rfl

/-- The samples that are noted are those that are accepted. -/
theorem samples_notes (m : Nat) (i : Intake ρ ι) (es : List Event) :
    samples (i.notes m es) = (i.accesses m es).map Access.cls := by
  induction es generalizing i with
  | nil => rfl
  | cons e es ih =>
      have hsplit : i.accesses m (e :: es) = i.accesses m [e] ++ (i.step m e).accesses m es :=
        accesses_append m i [e] es
      rw [notes, samples_append, samples_note? m, ih, hsplit, List.map_append]

/-- The intake keeps to the notes with every event. -/
theorem Logged.step {m : Nat} {i : Intake ρ ι} {ns : List Note} (h : i.Logged m ns) (e : Event) :
    (i.step m e).Logged m (ns ++ (i.note? e).toList) := by
  cases e with
  | took id c r =>
      cases hv : Verdict.ofRecord i.resolver r with
      | accepted item time =>
          obtain ⟨res, haccept⟩ := consume_eq_accept (c := c) m hv
          have hnote : i.note? (.took id c r) = some (.sample c) := by
            rw [note?, hv]
          rw [Intake.step, haccept, accept, hnote]
          exact h.sample c rfl rfl rfl rfl
      | excluded why =>
          obtain ⟨res, hexclude⟩ := consume_eq_exclude m c hv
          rw [Intake.step, hexclude, note?, hv]
          cases why with
          | throttling => exact h.throttling rfl rfl rfl rfl
          | unreportable | unresolved | loss | unknownKind =>
              rw [Option.toList_none, List.append_nil]
              exact h.quiet rfl rfl rfl rfl
  | foundEmpty id =>
      rw [note?, Option.toList_none, List.append_nil]
      exact h.quiet rfl rfl rfl rfl
  | reported p q => exact h.report p q

theorem Logged.run {m : Nat} {i : Intake ρ ι} {ns : List Note} (h : i.Logged m ns)
    (es : List Event) : (es.foldl (Intake.step m) i).Logged m (ns ++ i.notes m es) := by
  induction es generalizing i ns with
  | nil => rwa [notes, List.append_nil]
  | cons e es ih =>
      rw [notes, ← List.append_assoc]
      exact ih (h.step e)

end Events

end Intake

/-! ## Runs of the worker -/

/-- Whatever was pushed, drained and reported, the log tells the history of the worker. There is one
milestone for each full block of accepted samples, in order; it tells the reads and writes of its
block, whatever reports fell into it, and the throttlings up to its last sample. Each report tells
the share of fast reads among the samples since the previous report, whatever milestones fell in
between. Without a milestone in the options none is logged. -/
theorem Drain.log_tells_history {ρ ι : Type} [Resolver ρ ι] [DecidableEq ι] (o : DrainOptions)
    {d : Drain ρ ι} (hcounters : d.intake.counters = {}) (hwindow : d.intake.window = {})
    (hlog : d.intake.log = #[]) (ops : List Op) :
    let es := d.history o ops
    let ns := d.intake.notes o.milestone es
    let i := (d.run o ops).intake
    let milestones := i.log.toList.filterMap LogLine.milestone?
    (samples ns = (d.intake.accesses o.milestone es).map Access.cls ∧
      i.counters.sampled = (samples ns).length ∧ i.counters.throttled = ns.count .throttling) ∧
    milestones =
      (List.range (i.counters.sampled / o.milestone)).map (Milestone.ofNotes o.milestone ns) ∧
    (o.milestone = 0 → milestones = []) ∧
    i.log.toList.filterMap LogLine.report? = Report.ofNotes [] ns := by
  intro es ns i milestones
  have hlogged : i.Logged o.milestone ns := by
    show (d.run o ops).intake.Logged o.milestone ns
    rw [intake_run]
    exact (Intake.Logged.empty hcounters hwindow hlog).run es
  have hmilestones : milestones = (List.range (i.counters.sampled / o.milestone)).map
      (Milestone.ofNotes o.milestone ns) := by
    rw [hlogged.sampled]
    exact hlogged.milestones
  refine ⟨⟨Intake.samples_notes .., hlogged.sampled, hlogged.throttled⟩, hmilestones,
    fun hzero => ?_, hlogged.reports⟩
  rw [hmilestones, hzero, Nat.div_zero]
  rfl

/-- A worker with a ring of fast reads, one of slow reads and one of writes. -/
def memoryDrain : Drain PageDirectory UInt64 where
  store := .ofSize 4096
  rings := [{ cpu := 0, cls := .dramRead, id := .hardware 0 .dramRead },
    { cpu := 0, cls := .nvmRead, id := .hardware 0 .nvmRead },
    { cpu := 0, cls := .memWrite, id := .hardware 0 .memWrite }]
  intake := { resolver := {}, tally := .empty 4 }

/-- A report falls between two samples of one block. -/
def reportWithinBlock : List Drain.Op :=
  [.push (.hardware 0 .dramRead)
      [.sample ⟨1, ⟨1, 1⟩, 10, 0x1000⟩, .throttle ⟨11, 1, 1⟩, .sample ⟨1, ⟨1, 1⟩, 12, 0x1000⟩],
    .push (.hardware 0 .nvmRead) [.sample ⟨1, ⟨1, 1⟩, 10, 0x2000⟩],
    .push (.hardware 0 .memWrite) [.sample ⟨1, ⟨1, 1⟩, 10, 0x3000⟩],
    .pass, .report (some 5000) none, .pass, .pass, .report (some 5000) (some 12)]

set_option maxRecDepth 4000 in
/-- The second milestone tells a write from before the report and a read from after it, and each
report has the samples of its own window. -/
theorem Drain.log_of_reportWithinBlock :
    let o : DrainOptions := { milestone := 2 }
    let log := (memoryDrain.run o reportWithinBlock).intake.log.toList
    let silent := (memoryDrain.run { milestone := 0 } reportWithinBlock).intake.log.toList
    memoryDrain.intake.notes 2 (memoryDrain.history o reportWithinBlock) =
      [.sample .dramRead, .sample .nvmRead, .sample .memWrite, .report (some 5000) none,
        .throttling, .sample .dramRead, .report (some 5000) (some 12)] ∧
    log.filterMap LogLine.milestone? =
      [{ sampled := 2, dram := 1, nvm := 1, write := 0, throttled := 0 },
        { sampled := 4, dram := 1, nvm := 0, write := 1, throttled := 1 }] ∧
    log.filterMap LogLine.report? =
      [{ sampled := 3, samplePeriod := some 5000, cpuPermil := none, hitRatio := 5000 },
        { sampled := 4, samplePeriod := some 5000, cpuPermil := some 12, hitRatio := 10000 }] ∧
    silent.filterMap LogLine.milestone? = [] := by
  intro o log silent
  have hnotes : memoryDrain.intake.notes 2 (memoryDrain.history o reportWithinBlock) =
      [.sample .dramRead, .sample .nvmRead, .sample .memWrite, .report (some 5000) none,
        .throttling, .sample .dramRead, .report (some 5000) (some 12)] := by decide
  obtain ⟨⟨-, hsampled, -⟩, hmilestones, -, hreports⟩ :=
    Drain.log_tells_history o (d := memoryDrain) rfl rfl rfl reportWithinBlock
  obtain ⟨-, -, hnone, -⟩ := Drain.log_tells_history { milestone := 0 } (d := memoryDrain)
    rfl rfl rfl reportWithinBlock
  rw [hsampled, hnotes] at hmilestones
  rw [hnotes] at hreports
  exact ⟨hnotes, hmilestones.trans (by decide), hreports.trans (by decide), hnone rfl⟩

end AccessSampling
