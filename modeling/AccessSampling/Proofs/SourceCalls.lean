import AccessSampling.PeriodWriter

/-!
# Calls to the event source

Every operation of the source is one call: it adds an entry to the log and, if it is granted, it
takes effect. So what the classes are programmed with and which of them are enabled can be read off
the log: it is what the last granted call about a class has said.
-/

namespace AccessSampling

namespace SourceCall

/-- What a source answers when it refuses the call. -/
def refusal (call : SourceCall) : Refusal := { cls := call.cls, op := call.op }

/-- The classes that are enabled after the call has taken effect. -/
def switch : SourceCall → PerClass Bool → PerClass Bool
  | enable c, t => t.set c true
  | disable c, t => t.set c false
  | openRing .., t | setPeriod .., t | period _, t => t

/-- The periods after the call has taken effect. -/
def program : SourceCall → PerClass Nat → PerClass Nat
  | setPeriod c p, t => t.set c p
  | openRing .., t | enable _, t | disable _, t | period _, t => t

end SourceCall

namespace EventSource

/-! ## One call -/

def grants (s : EventSource) (call : SourceCall) : Bool := !s.refuses call.cls call.op

def answer (s : EventSource) (call : SourceCall) : Except Refusal Unit :=
  if s.grants call then .ok () else .error call.refusal

/-- The log entry of a call. -/
def entry (s : EventSource) (call : SourceCall) : LoggedCall :=
  { call, granted := !s.refuses call.cls call.op }

/-- The source with a call in its log. -/
def logged (s : EventSource) (call : SourceCall) : EventSource :=
  { s with calls := s.calls.push (s.entry call) }

/-- The source after a call. -/
def perform (s : EventSource) (call : SourceCall) : EventSource :=
  { s.logged call with
    enabled := if s.grants call then call.switch s.enabled else s.enabled
    periods := if s.grants call then call.program s.periods else s.periods }

section Perform

variable (s : EventSource) (call : SourceCall)

@[simp] theorem refuses_perform : (s.perform call).refuses = s.refuses := rfl

@[simp] theorem calls_perform : (s.perform call).calls = s.calls.push (s.entry call) := rfl

end Perform

section Answers

variable {s : EventSource} {call : SourceCall}

theorem grants_eq_true : s.grants call = true ↔ s.refuses call.cls call.op = false := by
  simp [grants]

theorem grants_eq_false : s.grants call = false ↔ s.refuses call.cls call.op = true := by
  simp [grants]

theorem answer_of_refused (h : s.refuses call.cls call.op = true) :
    s.answer call = .error call.refusal := by
  simp [answer, grants, h]

theorem answer_of_granted (h : s.refuses call.cls call.op = false) : s.answer call = .ok () := by
  simp [answer, grants, h]

theorem calls_logged_of_refused (h : s.refuses call.cls call.op = true) :
    (s.logged call).calls = s.calls.push { call, granted := false } := by
  simp [logged, entry, h]

theorem calls_logged_of_granted (h : s.refuses call.cls call.op = false) :
    (s.logged call).calls = s.calls.push { call, granted := true } := by
  simp [logged, entry, h]

/-- A refused call changes nothing but the log. -/
theorem perform_of_refused (h : s.refuses call.cls call.op = true) :
    s.perform call = s.logged call := by
  simp only [perform, grants, h, Bool.not_true, Bool.false_eq_true, if_false]
  rfl

theorem perform_of_granted (h : s.refuses call.cls call.op = false) :
    s.perform call =
      { s.logged call with
        enabled := call.switch s.enabled
        periods := call.program s.periods } := by
  simp only [perform, grants, h, Bool.not_false, if_true]

end Answers

/-- Receiving a call answers and logs it; what else it does comes after that. -/
theorem receive_eq (s : EventSource) (call : SourceCall) :
    s.receive call = (s.answer call, s.logged call) := by
  cases h : s.refuses call.cls call.op with
  | true =>
      rw [answer_of_refused h]
      simp [receive, logged, entry, h, SourceCall.refusal]
  | false =>
      rw [answer_of_granted h]
      simp [receive, logged, entry, h]

theorem enable_eq (s : EventSource) (c : EventClass) :
    s.enable c = (s.answer (.enable c), s.perform (.enable c)) := by
  rw [enable, receive_eq, answer, perform]
  cases s.grants (.enable c) with
  | true | false => rfl

theorem disable_eq (s : EventSource) (c : EventClass) :
    s.disable c = (s.answer (.disable c), s.perform (.disable c)) := by
  rw [disable, receive_eq, answer, perform]
  cases s.grants (.disable c) with
  | true | false => rfl

theorem openRing_of_refused {s : EventSource} {cpu : Nat} {c : EventClass}
    (h : s.refuses c .openRing = true) :
    s.openRing cpu c =
      (.error (SourceCall.openRing cpu c).refusal, s.perform (.openRing cpu c)) := by
  rw [openRing, receive_eq, answer_of_refused h, perform_of_refused h]

theorem openRing_of_granted {s : EventSource} {cpu : Nat} {c : EventClass}
    (h : s.refuses c .openRing = false) :
    s.openRing cpu c =
      (.ok (if s.offers cpu c then some (.hardware cpu c) else none),
        s.perform (.openRing cpu c)) := by
  rw [openRing, receive_eq, answer_of_granted h, perform_of_granted h]
  rfl

/-! ## Many calls -/

/-- The source after some calls. -/
def performAll (s : EventSource) (calls : List SourceCall) : EventSource := calls.foldl perform s

theorem performAll_append (s : EventSource) (calls more : List SourceCall) :
    s.performAll (calls ++ more) = (s.performAll calls).performAll more :=
  List.foldl_append

theorem performAll_cons (s : EventSource) (call : SourceCall) (calls : List SourceCall) :
    s.performAll (call :: calls) = (s.perform call).performAll calls := rfl

@[simp] theorem refuses_performAll (s : EventSource) (calls : List SourceCall) :
    (s.performAll calls).refuses = s.refuses := by
  induction calls generalizing s with
  | nil => rfl
  | cons call calls ih => exact ih (s.perform call)

theorem ringSize_performAll (s : EventSource) (calls : List SourceCall) :
    (s.performAll calls).ringSize = s.ringSize := by
  induction calls generalizing s with
  | nil => rfl
  | cons call calls ih => exact ih (s.perform call)

theorem calls_performAll (s : EventSource) (calls : List SourceCall) :
    (s.performAll calls).calls = s.calls ++ (calls.map s.entry).toArray := by
  induction calls generalizing s with
  | nil => simp [performAll]
  | cons call calls ih =>
      rw [performAll_cons, ih, calls_perform, List.map_cons, List.toArray_cons]
      simp only [Array.push_eq_append, Array.append_assoc]
      rfl

/-- Some calls are all granted, or there is a first one among them that is refused. -/
theorem exists_first_refused (s : EventSource) (calls : List SourceCall) :
    (∀ x ∈ calls, s.grants x = true) ∨
      ∃ done call rest, calls = done ++ call :: rest ∧ (∀ x ∈ done, s.grants x = true) ∧
        s.grants call = false := by
  induction calls with
  | nil => exact .inl (by simp)
  | cons call calls ih =>
      cases h : s.grants call with
      | false => exact .inr ⟨[], call, calls, rfl, by simp, h⟩
      | true =>
          rcases ih with hall | ⟨done, call', rest, rfl, hdone, hcall⟩
          · exact .inl (by simpa [h] using hall)
          · exact .inr ⟨call :: done, call', rest, rfl, by simpa [h] using hdone, hcall⟩

/-- Granted calls that disable nothing leave enabled what was enabled, and what they enable. -/
theorem enabled_performAll {s : EventSource} {calls : List SourceCall}
    (hgranted : ∀ x ∈ calls, s.grants x = true) (hop : ∀ x ∈ calls, x.op ≠ .disable)
    (c : EventClass) :
    (s.performAll calls).enabled.get c = true ↔
      s.enabled.get c = true ∨ .enable c ∈ calls := by
  induction calls generalizing s with
  | nil => simp [performAll]
  | cons call calls ih =>
      have hrest := ih (s := s.perform call) (fun x hx => hgranted x (by simp [hx]))
        (fun x hx => hop x (by simp [hx]))
      rw [performAll_cons, hrest, perform_of_granted (grants_eq_true.1 (hgranted call (by simp)))]
      cases call with
      | enable c' =>
          show (s.enabled.set c' true).get c = true ∨ _ ↔ _
          rw [PerClass.get_set]
          by_cases hc : c = c'
          · simp [hc]
          · simp [hc]
      | disable c' => exact absurd rfl (hop (.disable c') (by simp))
      | openRing | setPeriod | period => simp [SourceCall.switch]

/-- Disabling some classes leaves enabled the others, and those whose call is refused. -/
theorem enabled_performAll_disable (s : EventSource) (cs : List EventClass) (c : EventClass) :
    (s.performAll (cs.map .disable)).enabled.get c = true ↔
      s.enabled.get c = true ∧ (c ∈ cs → s.refuses c .disable = true) := by
  induction cs generalizing s with
  | nil => simp [performAll]
  | cons d cs ih =>
      rw [List.map_cons, performAll_cons, ih, refuses_perform]
      cases h : s.refuses d .disable with
      | true =>
          rw [perform_of_refused h]
          by_cases hc : c = d
          · simp [hc, h, logged]
          · simp [hc, logged]
      | false =>
          rw [perform_of_granted h]
          show (s.enabled.set d false).get c = true ∧ _ ↔ _
          rw [PerClass.get_set]
          by_cases hc : c = d
          · simp [hc, h]
          · simp [hc]

end EventSource

/-! ## Reading the log -/

namespace LoggedCall

/-- The period that an entry programs a class with, if it does. -/
def programmed? (c : EventClass) : LoggedCall → Option Nat
  | { call := .setPeriod c' p, granted := true } => if c' = c then some p else none
  | _ => none

end LoggedCall

/-- The period that the last entry about it programs a class with. -/
def lastProgrammed? (c : EventClass) (es : List LoggedCall) : Option Nat :=
  (es.filterMap (LoggedCall.programmed? c)).getLast?

theorem lastProgrammed?_append_singleton (c : EventClass) (es : List LoggedCall) (e : LoggedCall) :
    lastProgrammed? c (es ++ [e]) = (e.programmed? c).or (lastProgrammed? c es) := by
  rw [lastProgrammed?, lastProgrammed?, List.filterMap_append, List.getLast?_append]
  cases h : e.programmed? c with
  | none => simp [h]
  | some p => simp [h]

namespace EventSource

theorem periods_perform (s : EventSource) (call : SourceCall) (c : EventClass) :
    (s.perform call).periods.get c =
      ((s.entry call).programmed? c).getD (s.periods.get c) := by
  cases call with
  | setPeriod c' p =>
      cases h : s.refuses c' .setPeriod with
      | true =>
          rw [perform_of_refused h]
          simp [entry, SourceCall.cls, SourceCall.op, h, LoggedCall.programmed?, logged]
      | false =>
          rw [perform_of_granted h]
          simp only [entry, SourceCall.cls, SourceCall.op, h, Bool.not_false,
            LoggedCall.programmed?, SourceCall.program, PerClass.get_set]
          by_cases hc : c = c'
          · rw [if_pos hc, if_pos hc.symm, Option.getD_some]
          · rw [if_neg hc, if_neg (Ne.symm hc), Option.getD_none]
  | openRing | enable | disable | period =>
      show (if _ then s.periods else s.periods).get c = s.periods.get c
      rw [ite_self]

/-- Only a write of its own changes the period of a class. -/
theorem periods_perform_of_ne {s : EventSource} {call : SourceCall} {c : EventClass}
    (h : ∀ p, call ≠ .setPeriod c p) : (s.perform call).periods.get c = s.periods.get c := by
  rw [periods_perform]
  cases call with
  | setPeriod c' p =>
      have hc : c' ≠ c := fun heq => h p (heq ▸ rfl)
      cases hrefused : s.refuses c' .setPeriod with
      | true => simp [entry, SourceCall.cls, SourceCall.op, hrefused, LoggedCall.programmed?]
      | false => simp [entry, SourceCall.cls, SourceCall.op, hrefused, LoggedCall.programmed?, hc]
  | openRing | enable | disable | period => rfl

/-- Calls that write no period leave all of them as they were. -/
theorem periods_performAll {s : EventSource} {calls : List SourceCall}
    (h : ∀ x ∈ calls, x.op ≠ .setPeriod) : (s.performAll calls).periods = s.periods := by
  induction calls generalizing s with
  | nil => rfl
  | cons call calls ih =>
      rw [performAll_cons, ih fun x hx => h x (List.mem_cons_of_mem _ hx)]
      cases call with
      | setPeriod => exact absurd rfl (h _ List.mem_cons_self)
      | openRing | enable | disable | period => exact ite_self _

end EventSource

/-! ## The writer -/

namespace PeriodWriter

variable {w : PeriodWriter} {c : EventClass}

theorem get_of_refused (h : w.source.refuses c .period = true) :
    w.get c = (.error { cls := c, op := .period },
      { w with source := w.source.logged (.period c) }) := by
  rw [get, EventSource.period, EventSource.receive_eq, EventSource.answer_of_refused h]
  rfl

theorem get_of_granted (h : w.source.refuses c .period = false) :
    w.get c = (.ok (w.source.periods.get c),
      { source := w.source.logged (.period c)
        known := w.known.set c (w.source.periods.get c) }) := by
  rw [get, EventSource.period, EventSource.receive_eq, EventSource.answer_of_granted h]
  rfl

theorem set_of_refused {period : Nat} (h : w.source.refuses c .setPeriod = true) :
    w.set c period = (.error { cls := c, op := .setPeriod },
      { w with source := w.source.logged (.setPeriod c period) }) := by
  rw [set, EventSource.setPeriod, EventSource.receive_eq, EventSource.answer_of_refused h]
  rfl

theorem set_of_granted {period : Nat} (h : w.source.refuses c .setPeriod = false) :
    w.set c period = (.ok (),
      { source :=
          { w.source.logged (.setPeriod c period) with
            periods := w.source.periods.set c period }
        known := w.known.set c period }) := by
  rw [set, EventSource.setPeriod, EventSource.receive_eq, EventSource.answer_of_granted h]
  rfl

/-- A write is one call, and the known period changes with that of the source. -/
theorem set_eq (w : PeriodWriter) (c : EventClass) (period : Nat) :
    w.set c period = (w.source.answer (.setPeriod c period),
      { source := w.source.perform (.setPeriod c period)
        known :=
          if w.source.grants (.setPeriod c period) then w.known.set c period else w.known }) := by
  rw [set, EventSource.setPeriod, EventSource.receive_eq, EventSource.answer, EventSource.perform]
  cases w.source.grants (.setPeriod c period) with
  | true | false => rfl

/-- A read is one call, and it makes the period of the source known. -/
theorem get_eq (w : PeriodWriter) (c : EventClass) :
    w.get c = ((w.source.answer (.period c)).map fun _ => w.source.periods.get c,
      { source := w.source.perform (.period c)
        known :=
          if w.source.grants (.period c) then w.known.set c (w.source.periods.get c)
          else w.known }) := by
  rw [get, EventSource.period, EventSource.receive_eq, EventSource.answer, EventSource.perform]
  cases w.source.grants (.period c) with
  | true | false => rfl

@[simp] theorem source_set (w : PeriodWriter) (c : EventClass) (period : Nat) :
    (w.set c period).2.source = w.source.perform (.setPeriod c period) := by
  rw [set_eq]

@[simp] theorem source_get (w : PeriodWriter) (c : EventClass) :
    (w.get c).2.source = w.source.perform (.period c) := by
  rw [get_eq]

end PeriodWriter

end AccessSampling
