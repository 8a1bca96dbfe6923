import AccessSampling.Proofs.Takes

/-!
# Verdicts of a page directory

A closed directory never changes, and an open one lists a page when it is first asked for and has a
page for every address anyway. So what a directory makes of a record does not depend on the records
before it, and the samples that it accepts can be told from the records alone.
-/

namespace AccessSampling

namespace PageDirectory

/-! ## One record -/

/-- Whether an address has a page: in an open directory every one has. -/
def Resolves (p : PageDirectory) (addr : UInt64) : Prop := p.closed = false ∨ pageOf addr ∈ p.pages

instance (p : PageDirectory) (addr : UInt64) : Decidable (p.Resolves addr) :=
  inferInstanceAs (Decidable (_ ∨ _))

/-- The sample of a record, if it counts for a page. -/
def accept? (p : PageDirectory) : Record → Option Sample
  | .sample s => if isUserSpace s.addr ∧ p.Resolves s.addr then some s else none
  | .throttle _ | .unthrottle _ | .lostSamples _ | .other _ => none

/-- Why a record counts for no page. -/
def exclusion? (p : PageDirectory) : Record → Option Exclusion
  | .sample s =>
    if isUserSpace s.addr then if p.Resolves s.addr then none else some .unresolved
    else some .unreportable
  | .throttle _ | .unthrottle _ => some .throttling
  | .lostSamples _ => some .loss
  | .other _ => some .unknownKind

theorem resolve_fst (p : PageDirectory) (addr : UInt64) (pid : UInt32) (time : UInt64) :
    (Resolver.resolve p addr pid time).1 =
      if p.Resolves addr then some (pageOf addr) else none := by
  show (if p.closed then (p.find? addr, p) else (some (pageOf addr), p.insert addr)).1 = _
  cases h : p.closed with
  | false => rw [if_neg Bool.false_ne_true, if_pos (.inl h)]
  | true =>
      have hiff : p.Resolves addr ↔ pageOf addr ∈ p.pages := by simp [Resolves, h]
      simp only [if_true, find?, hiff]

/-- What a directory remembers changes none of its answers. -/
theorem resolves_resolve (p : PageDirectory) (addr : UInt64) (pid : UInt32) (time a : UInt64) :
    (Resolver.resolve p addr pid time).2.Resolves a ↔ p.Resolves a := by
  show (if p.closed then (p.find? addr, p) else (_, p.insert addr)).2.Resolves a ↔ _
  cases h : p.closed with
  | false =>
      rw [if_neg Bool.false_ne_true]
      exact iff_of_true (.inl ((p.insert_closed addr).trans h)) (.inl h)
  | true => rw [if_pos rfl]

/-- What becomes of a sample: its address must be reported and have a page. -/
theorem ofRecord_sample (p : PageDirectory) (s : Sample) :
    Verdict.ofRecord p (.sample s) =
      if isUserSpace s.addr then
        if p.Resolves s.addr then .accepted (pageOf s.addr) s.time else .excluded .unresolved
      else .excluded .unreportable := by
  have hreportable : Resolver.isReportable p s.addr = isUserSpace s.addr := rfl
  rw [Verdict.ofRecord, hreportable, resolve_fst]
  by_cases hr : p.Resolves s.addr
  · rw [if_pos hr, if_pos hr]
  · rw [if_neg hr, if_neg hr]

theorem ofRecord_congr {p q : PageDirectory} (h : ∀ a, p.Resolves a ↔ q.Resolves a) (r : Record) :
    Verdict.ofRecord p r = Verdict.ofRecord q r := by
  cases r with
  | sample s => simp only [ofRecord_sample, h]
  | throttle | unthrottle | lostSamples | other => rfl

theorem access?_ofRecord (p : PageDirectory) (c : EventClass) (r : Record) :
    (Verdict.ofRecord p r).access? c =
      (p.accept? r).map fun s => ⟨c, pageOf s.addr, s.time⟩ := by
  cases r with
  | sample s =>
      rw [ofRecord_sample, accept?]
      by_cases hu : isUserSpace s.addr = true
      · by_cases hr : p.Resolves s.addr <;> simp [hu, hr, Verdict.access?]
      · simp [hu, Verdict.access?]
  | throttle | unthrottle | lostSamples | other => rfl

theorem exclusion?_ofRecord (p : PageDirectory) (r : Record) :
    (Verdict.ofRecord p r).exclusion? = p.exclusion? r := by
  cases r with
  | sample s =>
      rw [ofRecord_sample, exclusion?]
      by_cases hu : isUserSpace s.addr = true
      · by_cases hr : p.Resolves s.addr <;> simp [hu, hr, Verdict.exclusion?]
      · simp [hu, Verdict.exclusion?]
  | throttle | unthrottle | lostSamples | other => rfl

/-! ## Runs of records -/

/-- The pages that some records count for, in order. -/
def hits (p : PageDirectory) (rs : List Record) : List UInt64 :=
  (rs.filterMap p.accept?).map fun s => pageOf s.addr

/-- The times at which some records count for a page, in order. -/
def times (p : PageDirectory) (page : UInt64) (rs : List Record) : List UInt64 :=
  ((rs.filterMap p.accept?).filter fun s => pageOf s.addr = page).map Sample.time

end PageDirectory

namespace Intake

open PageDirectory

/-- No event changes an answer of the directory. -/
theorem resolves_step (m : Nat) (i : Intake PageDirectory UInt64) (e : Event) (a : UInt64) :
    (i.step m e).resolver.Resolves a ↔ i.resolver.Resolves a := by
  cases e with
  | took id c r =>
      cases r with
      | sample s =>
          have hresolve := i.resolver.resolves_resolve s.addr s.task.pid s.time a
          rw [step, consume, consumeSample]
          split
          · split
            · rename_i heq
              rw [heq] at hresolve
              rw [accept, checkMilestone_resolver]
              exact hresolve
            · rename_i heq
              rw [heq] at hresolve
              exact hresolve
          · rfl
      | throttle | unthrottle | lostSamples | other => rfl
  | foundEmpty | reported => rfl

/-- The verdicts on some events are those of the directory at the start. -/
theorem verdicts_eq (m : Nat) (i : Intake PageDirectory UInt64) (es : List Event) :
    i.verdicts m es =
      (takes es).map fun k => (k.cls, Verdict.ofRecord i.resolver k.record) := by
  induction es generalizing i with
  | nil => rfl
  | cons e es ih =>
      have hrest : i.verdicts m (e :: es) = i.verdicts m [e] ++ (i.step m e).verdicts m es :=
        verdicts_append m i [e] es
      have hsame : ∀ k : Take, Verdict.ofRecord (i.step m e).resolver k.record =
          Verdict.ofRecord i.resolver k.record :=
        fun k => ofRecord_congr (i.resolves_step m e) k.record
      rw [hrest, ih]
      simp only [hsame]
      cases e with
      | took | foundEmpty | reported => rfl

theorem accesses_eq (m : Nat) (i : Intake PageDirectory UInt64) (es : List Event) :
    i.accesses m es = (takes es).filterMap fun k =>
      (i.resolver.accept? k.record).map fun s => ⟨k.cls, pageOf s.addr, s.time⟩ := by
  rw [accesses, verdicts_eq, List.filterMap_map]
  exact List.filterMap_congr fun k _ => access?_ofRecord ..

/-- The accepted samples of a class are hits of pages. -/
theorem itemsOf_accesses (m : Nat) (i : Intake PageDirectory UInt64) (es : List Event)
    (c : EventClass) :
    Access.itemsOf c (i.accesses m es) = i.resolver.hits (Take.recordsOf c (takes es)) := by
  rw [accesses_eq]
  induction takes es with
  | nil => rfl
  | cons k ks ih =>
      rw [hits, Take.recordsOf] at ih ⊢
      cases ha : i.resolver.accept? k.record <;> by_cases hc : k.cls = c <;>
        simp [ha, hc, Access.itemsOf_cons, ih]

/-- The accepted samples of a page come at its times. -/
theorem timesOf_accesses (m : Nat) (i : Intake PageDirectory UInt64) (es : List Event)
    (page : UInt64) :
    Access.timesOf page (i.accesses m es) =
      i.resolver.times page ((takes es).map Take.record) := by
  rw [accesses_eq]
  induction takes es with
  | nil => rfl
  | cons k ks ih =>
      rw [times] at ih ⊢
      cases ha : i.resolver.accept? k.record with
      | none => simp [ha, ih]
      | some s => by_cases hs : pageOf s.addr = page <;> simp [ha, hs, Access.timesOf_cons, ih]

theorem length_accesses_eq (m : Nat) (i : Intake PageDirectory UInt64) (es : List Event) :
    (i.accesses m es).length = (i.resolver.hits ((takes es).map Take.record)).length := by
  rw [accesses_eq, hits, List.length_map, List.filterMap_map]
  induction takes es with
  | nil => rfl
  | cons k ks ih => cases ha : i.resolver.accept? k.record <;> simp [ha, ih]

theorem exclusions_eq (m : Nat) (i : Intake PageDirectory UInt64) (es : List Event) :
    i.exclusions m es = ((takes es).map Take.record).filterMap i.resolver.exclusion? := by
  rw [exclusions, verdicts_eq, List.filterMap_map, List.filterMap_map]
  exact List.filterMap_congr fun k _ => exclusion?_ofRecord ..

end Intake

end AccessSampling
