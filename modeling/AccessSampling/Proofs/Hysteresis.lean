import AccessSampling.Proofs.DrainRun
import Mathlib.Data.List.Induction

/-!
# Hysteresis

By the rule of the watermarks a ring is in tight-loop mode when the last fill strictly outside them
was above the high one. The worker follows this rule for the fills of a ring that holds something. A
look that finds the ring empty ends the visit before the fill is weighed, although an empty ring is
below every positive watermark. So a ring that was drained to empty without a look strictly below
the low watermark is still in tight-loop mode when it fills again.
-/

namespace AccessSampling

/-! ## The rule of the watermarks -/

namespace DrainOptions

/-- Whether a fill of a ring of some size is strictly above the high watermark. -/
def isAbove (o : DrainOptions) (size fill : Nat) : Bool :=
  decide (size * o.highWatermark < fill * 100)

/-- Whether a fill of a ring of some size is strictly below the low watermark. -/
def isBelow (o : DrainOptions) (size fill : Nat) : Bool :=
  decide (fill * 100 < size * o.lowWatermark)

/-- Whether a fill of a ring of some size is strictly outside the watermarks. -/
def isDecisive (o : DrainOptions) (size fill : Nat) : Bool :=
  o.isAbove size fill || o.isBelow size fill

/-- The last fill that is strictly outside the watermarks. -/
def lastDecisive? (o : DrainOptions) (size : Nat) (fills : List Nat) : Option Nat :=
  (fills.filter (o.isDecisive size)).getLast?

/-- Whether the last fill strictly outside the watermarks was above the high one. -/
def filledUp (o : DrainOptions) (size : Nat) (fills : List Nat) : Bool :=
  (o.lastDecisive? size fills).any (o.isAbove size)

theorem lastDecisive?_append_singleton (o : DrainOptions) (size : Nat) (fills : List Nat)
    (fill : Nat) :
    o.lastDecisive? size (fills ++ [fill]) =
      if o.isDecisive size fill then some fill else o.lastDecisive? size fills := by
  rw [lastDecisive?, List.filter_append]
  split
  · rename_i h
    rw [List.filter_cons_of_pos h, List.filter_nil, List.getLast?_concat]
  · rename_i h
    rw [List.filter_cons_of_neg h, List.filter_nil, List.append_nil, lastDecisive?]

theorem filledUp_append_singleton (o : DrainOptions) (size : Nat) (fills : List Nat) (fill : Nat) :
    o.filledUp size (fills ++ [fill]) =
      if o.isAbove size fill then true
      else if o.isBelow size fill then false
      else o.filledUp size fills := by
  rw [filledUp, lastDecisive?_append_singleton, isDecisive]
  cases habove : o.isAbove size fill with
  | true => simp [habove]
  | false =>
      cases hbelow : o.isBelow size fill with
      | true => simp [habove]
      | false => rfl

/-- An empty ring of positive size is below every positive watermark, and not above any. -/
theorem isBelow_zero {o : DrainOptions} {size : Nat} (hlow : 0 < o.lowWatermark)
    (hsize : 0 < size) : o.isAbove size 0 = false ∧ o.isBelow size 0 = true := by
  refine ⟨by simp [isAbove], ?_⟩
  rw [isBelow, Nat.zero_mul, decide_eq_true_eq]
  exact Nat.mul_pos hsize hlow

/-- If the watermarks are in order, no fill is above the high one and below the low one. -/
theorem isBelow_of_isAbove {o : DrainOptions} {size fill : Nat}
    (hmarks : o.lowWatermark ≤ o.highWatermark) (h : o.isAbove size fill = true) :
    o.isBelow size fill = false := by
  rw [isAbove, decide_eq_true_eq] at h
  have hle := Nat.mul_le_mul_left size hmarks
  rw [isBelow, decide_eq_false_iff_not]
  omega

/-- A fill that is less than one below the low watermark is below it, too. -/
theorem isBelow_mono {o : DrainOptions} {size fill fill' : Nat} (hle : fill' ≤ fill)
    (h : o.isBelow size fill = true) : o.isBelow size fill' = true := by
  rw [isBelow, decide_eq_true_eq] at h ⊢
  omega

/-- Leaving out the empty fills changes what the rule says exactly when the last decisive fill is
empty and the last decisive one among the others is above the high watermark. -/
theorem filledUp_nonempty_ne_iff {o : DrainOptions} {size : Nat} (hlow : 0 < o.lowWatermark)
    (hsize : 0 < size) (fills : List Nat) :
    o.filledUp size (fills.filter (· ≠ 0)) ≠ o.filledUp size fills ↔
      o.filledUp size (fills.filter (· ≠ 0)) = true ∧ o.lastDecisive? size fills = some 0 := by
  obtain ⟨habove, hbelow⟩ := isBelow_zero hlow hsize
  induction fills using List.reverseRecOn with
  | nil => simp [lastDecisive?]
  | append_singleton fills fill ih =>
      rw [List.filter_append, lastDecisive?_append_singleton, isDecisive]
      by_cases hfill : fill = 0
      · -- an empty ring decides the rule for all fills and is left out of the other
        subst hfill
        rw [filledUp_append_singleton o size fills, habove, hbelow]
        simp
      · rw [List.filter_cons_of_pos (by simpa using hfill), List.filter_nil,
          filledUp_append_singleton, filledUp_append_singleton]
        cases o.isAbove size fill with
        | true => simp [hfill]
        | false =>
            cases o.isBelow size fill with
            | true => simp
            | false => simpa using ih

end DrainOptions

/-- A look at a ring decides by the rule: outside the watermarks by the fill, between them as
before. -/
theorem Backpressure.draining_update (b : Backpressure) (c : Cursor) (o : DrainOptions) :
    (b.update c o.highWatermark o.lowWatermark).draining =
      if o.isAbove c.size.toNat c.pending.toNat then true
      else if o.isBelow c.size.toNat c.pending.toNat then false
      else b.draining := by
  simp only [update, DrainOptions.isAbove, DrainOptions.isBelow, decide_eq_true_eq]
  split
  · rfl
  · split <;> rfl

/-! ## Looks -/

/-- One look of a visit at its ring. -/
structure Look where
  /-- The bytes that waited. -/
  fill : Nat
  /-- The record that was taken, if there was one. -/
  record : Option Record
  /-- Whether the ring was in tight-loop mode after the look. -/
  draining : Bool
  deriving DecidableEq, Repr

namespace Visit

/-- The looks of a visit with the given positions, pressure and queue. -/
def looks (o : DrainOptions) (c : Cursor) (b : Backpressure) : List Record → List Look
  | [] =>
    let b := if c.isEmpty then b else b.update c o.highWatermark o.lowWatermark
    [{ fill := c.pending.toNat, record := none, draining := b.draining }]
  | r :: rest =>
    if c.isEmpty then [{ fill := c.pending.toNat, record := none, draining := b.draining }]
    else
      let b := b.update c o.highWatermark o.lowWatermark
      { fill := c.pending.toNat, record := some r, draining := b.draining } ::
        if b.draining then looks o (c.consume r.size) b rest else []

/-- A visit takes what its looks took. -/
theorem taken_run (o : DrainOptions) (c : Cursor) (b : Backpressure) (q : List Record) :
    (Visit.run o c b q).taken = (looks o c b q).filterMap Look.record := by
  induction q generalizing c b with
  | nil =>
      unfold Visit.run looks
      split <;> rfl
  | cons r rest ih =>
      unfold Visit.run looks
      split
      · rfl
      · simp only
        split
        · exact congrArg (r :: ·) (ih _ _)
        · rfl

theorem looks_ne_nil (o : DrainOptions) (c : Cursor) (b : Backpressure) (q : List Record) :
    looks o c b q ≠ [] := by
  cases q with
  | nil => simp [looks]
  | cons r rest =>
      unfold looks
      split <;> simp

/-- After a look that took a record, a visit goes on exactly in tight-loop mode. -/
theorem eq_nil_iff_of_looks {o : DrainOptions} {c : Cursor} {b : Backpressure} {q : List Record}
    {before after : List Look} {l : Look} (h : looks o c b q = before ++ l :: after)
    (hl : l.record.isSome) : after = [] ↔ l.draining = false := by
  induction q generalizing c b before with
  | nil =>
      have hmem : l ∈ looks o c b [] := by simp [h]
      rw [looks, List.mem_singleton] at hmem
      rw [hmem] at hl
      simp at hl
  | cons r rest ih =>
      unfold looks at h
      split at h
      · have hmem : l ∈ before ++ l :: after := by simp
        rw [← h, List.mem_singleton] at hmem
        rw [hmem] at hl
        simp at hl
      · simp only at h
        cases before with
        | nil =>
            rw [List.nil_append, List.cons.injEq] at h
            obtain ⟨rfl, rfl⟩ := h
            split
            · rename_i hdraining
              simp [hdraining, looks_ne_nil]
            · rename_i hdraining
              simpa using hdraining
        | cons first before =>
            rw [List.cons_append, List.cons.injEq] at h
            split at h
            · exact ih h.2
            · simp at h

end Visit

/-- The looks of a visit of a ring with the given contents. -/
def Ring.looks (r : Ring) (o : DrainOptions) (b : RingBuffer) : List Look :=
  Visit.looks o b.cursor r.pressure b.queue

/-! ## The worker follows the rule where the ring holds something -/

/-- After fills seen before, every look is in tight-loop mode as the rule says, empty fills left
out. -/
def FollowsRule (o : DrainOptions) (size : Nat) : List Nat → List Look → Prop
  | _, [] => True
  | seen, l :: ls =>
    l.draining = o.filledUp size ((seen ++ [l.fill]).filter (· ≠ 0)) ∧
      FollowsRule o size (seen ++ [l.fill]) ls

theorem FollowsRule.append {o : DrainOptions} {size : Nat} {seen : List Nat}
    {before after : List Look} (h : FollowsRule o size seen before)
    (h' : FollowsRule o size (seen ++ before.map Look.fill) after) :
    FollowsRule o size seen (before ++ after) := by
  induction before generalizing seen with
  | nil => simpa using h'
  | cons l before ih =>
      refine ⟨h.1, ih h.2 ?_⟩
      simpa using h'

theorem FollowsRule.draining_eq {o : DrainOptions} {size : Nat} {seen : List Nat}
    {before after : List Look} {l : Look} (h : FollowsRule o size seen (before ++ l :: after)) :
    l.draining = o.filledUp size ((seen ++ (before ++ [l]).map Look.fill).filter (· ≠ 0)) := by
  induction before generalizing seen with
  | nil => exact h.1
  | cons first before ih => simpa using ih h.2

theorem filledUp_nonempty_append {o : DrainOptions} {size : Nat} {seen : List Nat} {c : Cursor}
    {b : Backpressure} (hsize : c.size.toNat = size)
    (hb : b.draining = o.filledUp size (seen.filter (· ≠ 0))) :
    (if c.isEmpty then b else b.update c o.highWatermark o.lowWatermark).draining =
      o.filledUp size ((seen ++ [c.pending.toNat]).filter (· ≠ 0)) := by
  rw [List.filter_append]
  split
  · rename_i h
    rw [List.filter_cons_of_neg (by simpa using c.isEmpty_iff.1 h), List.filter_nil,
      List.append_nil, hb]
  · rename_i h
    rw [List.filter_cons_of_pos (by simpa using mt c.isEmpty_iff.2 h), List.filter_nil,
      DrainOptions.filledUp_append_singleton, Backpressure.draining_update, hsize, hb]

theorem Visit.followsRule {o : DrainOptions} {size : Nat} {seen : List Nat} {c : Cursor}
    {b : Backpressure} {q : List Record} (hsize : c.size.toNat = size)
    (hb : b.draining = o.filledUp size (seen.filter (· ≠ 0))) :
    FollowsRule o size seen (Visit.looks o c b q) ∧
      (Visit.run o c b q).pressure.draining =
        o.filledUp size ((seen ++ (Visit.looks o c b q).map Look.fill).filter (· ≠ 0)) := by
  have hnext := filledUp_nonempty_append hsize hb
  induction q generalizing c b seen with
  | nil =>
      refine ⟨⟨hnext, trivial⟩, ?_⟩
      rw [looks, List.map_singleton, ← hnext]
      unfold Visit.run
      split <;> rfl
  | cons r rest ih =>
      unfold Visit.run looks
      split
      · -- the ring is empty, and the visit leaves it with the pressure that it had
        rename_i hempty
        rw [if_pos hempty] at hnext
        exact ⟨⟨hnext, trivial⟩, hnext⟩
      · rename_i hempty
        rw [if_neg hempty] at hnext
        simp only
        split
        · have hrest := ih (c := c.consume r.size) hsize hnext
            (filledUp_nonempty_append (c := c.consume r.size) hsize hnext)
          refine ⟨⟨hnext, hrest.1⟩, ?_⟩
          rw [hrest.2]
          simp
        · exact ⟨⟨hnext, trivial⟩, hnext⟩

section Run

variable {ρ ι : Type} [Resolver ρ ι] [DecidableEq ι]

/-- What the visits of one ring see in the course of some operations follows the rule, if the
pressure of the ring did so before. -/
theorem Drain.followsRule {o : DrainOptions} {k : Nat} {d : Drain ρ ι} {r : Ring} {size : Nat}
    {seen : List Nat} (ops : List Op) (hr : d.rings[k]? = some r)
    (hsize : (d.buffer r.id).cursor.size.toNat = size)
    (hseen : r.pressure.draining = o.filledUp size (seen.filter (· ≠ 0))) :
    FollowsRule o size seen ((d.visitsAt o k ops).flatMap fun v => v.1.looks o v.2) := by
  induction ops generalizing d r seen with
  | nil => trivial
  | cons op ops ih =>
      have hsize' : ((d.apply o op).buffer r.id).cursor.size.toNat = size := by
        rw [size_apply, hsize]
      cases op with
      | pass =>
          -- an entry earlier in the list may share the ring; it changes what the visit finds, but
          -- neither the size of the ring nor the pressure of this entry
          obtain ⟨b, hvisit, hb⟩ := visits_getElem? (o := o) (s := d.store) hr
          have hvisited := Visit.followsRule (q := b.queue) ((congrArg UInt64.toNat hb).trans hsize)
            hseen
          have hleft : (d.apply o .pass).rings[k]? = some (r.leave (r.visit o b)) := by
            rw [rings_pass, List.getElem?_map, hvisit]
            rfl
          rw [visitsAt, hvisit, List.flatMap_append]
          refine FollowsRule.append (by simpa [Ring.looks] using hvisited.1) ?_
          exact ih hleft hsize' (by simpa [Ring.looks, Ring.leave, Ring.visit] using hvisited.2)
      | push | skip | report =>
          exact ih (by rw [rings_apply (by simp), hr]) hsize' hseen

/-- At every look of the worker at a ring that started without pressure, the ring is in tight-loop
mode as the rule of the watermarks says, applied to the fills seen so far at looks that found
something. The rule applied to all fills is broken exactly where the ring is still in tight-loop
mode although the last decisive fill was that of an empty ring. After a look that took a record the
visit goes on exactly in tight-loop mode, so otherwise that record is the last one it takes. -/
theorem Drain.draining_of_looks {o : DrainOptions} (hlow : 0 < o.lowWatermark) {d : Drain ρ ι}
    {k : Nat} {r : Ring} (hr : d.rings[k]? = some r) (hnew : r.pressure = {})
    (hsize : 0 < (d.buffer r.id).cursor.size.toNat) (ops : List Op)
    {past future : List (Ring × RingBuffer)} {v : Ring × RingBuffer}
    (hv : d.visitsAt o k ops = past ++ v :: future) {before after : List Look} {l : Look}
    (hl : v.1.looks o v.2 = before ++ l :: after) :
    let size := (d.buffer r.id).cursor.size.toNat
    let seen := ((past.flatMap fun v => v.1.looks o v.2) ++ before ++ [l]).map Look.fill
    l.draining = o.filledUp size (seen.filter (· ≠ 0)) ∧
      (l.draining ≠ o.filledUp size seen ↔
        l.draining = true ∧ o.lastDecisive? size seen = some 0) ∧
      (l.record.isSome → (after = [] ↔ l.draining = false)) ∧
      (v.1.visit o v.2).taken = (v.1.looks o v.2).filterMap Look.record := by
  intro size seen
  have hrule :
      FollowsRule o size [] ((d.visitsAt o k ops).flatMap fun v => v.1.looks o v.2) :=
    Drain.followsRule ops hr rfl (by rw [hnew]; rfl)
  rw [hv, List.flatMap_append, List.flatMap_cons, hl, List.append_assoc, List.cons_append,
    ← List.append_assoc] at hrule
  have hdraining : l.draining = o.filledUp size (seen.filter (· ≠ 0)) := hrule.draining_eq
  refine ⟨hdraining, ?_, ?_, ?_⟩
  · rw [hdraining]
    exact DrainOptions.filledUp_nonempty_ne_iff hlow hsize seen
  · exact fun hrecord => Visit.eq_nil_iff_of_looks hl hrecord
  · exact Visit.taken_run ..

end Run

/-! ## A ring that fills again -/

/-- The worker with one ring of a hundred bytes. -/
def smallDrain : Drain PageDirectory UInt64 :=
  .ofBuffers [(0, .dramRead, .new 100)] { resolver := {}, tally := .empty 4 }

/-- The ring fills to 80 bytes and is drained by halves, then it fills again to 32 bytes. -/
def refill : List Drain.Op :=
  [.push (.detached 0) [.sample ⟨1, ⟨1, 1⟩, 5, 4096⟩, .sample ⟨1, ⟨1, 1⟩, 9, 4096⟩], .pass,
    .push (.detached 0) [.lostSamples 1, .lostSamples 1], .pass]

/-- The ring as the two visits find it. -/
theorem Drain.visitsAt_refill :
    smallDrain.visitsAt {} 0 refill =
      [({ cpu := 0, cls := .dramRead, id := .detached 0 },
          { cursor := { head := 80, tail := 0, size := 100 }
            queue := [.sample ⟨1, ⟨1, 1⟩, 5, 4096⟩, .sample ⟨1, ⟨1, 1⟩, 9, 4096⟩] })] ++
        ({ cpu := 0, cls := .dramRead, id := .detached 0, pressure := ⟨true⟩ },
          { cursor := { head := 112, tail := 80, size := 100 }
            queue := [.lostSamples 1, .lostSamples 1] }) :: [] := by
  decide

/-- The first look after the refill is between the watermarks and still in tight-loop mode. -/
theorem Drain.looks_refill :
    ({ cpu := 0, cls := .dramRead, id := .detached 0, pressure := ⟨true⟩ } : Ring).looks {}
        { cursor := { head := 112, tail := 80, size := 100 }
          queue := [.lostSamples 1, .lostSamples 1] } =
      [] ++ { fill := 32, record := some (.lostSamples 1), draining := true } ::
        [{ fill := 16, record := some (.lostSamples 1), draining := true },
          { fill := 0, record := none, draining := true }] := by
  decide

/-- The rule for all fills is broken at that look, and the visit takes both records. -/
theorem Drain.draining_of_refill :
    let o : DrainOptions := {}
    let r : Ring := { cpu := 0, cls := .dramRead, id := .detached 0 }
    let l : Look := { fill := 32, record := some (.lostSamples 1), draining := true }
    (0 < o.lowWatermark ∧ smallDrain.rings[0]? = some r ∧ r.pressure = {} ∧
      0 < (smallDrain.buffer r.id).cursor.size.toNat) ∧
    l.draining = o.filledUp 100 [80, 40, 32] ∧
      (l.draining ≠ o.filledUp 100 [80, 40, 0, 32] ↔
        l.draining = true ∧ o.lastDecisive? 100 [80, 40, 0, 32] = some 0) := by
  intro o r l
  have hlow : 0 < o.lowWatermark := by decide
  have hr : smallDrain.rings[0]? = some r := by decide
  have hsize : 0 < (smallDrain.buffer r.id).cursor.size.toNat := by decide
  obtain ⟨hdraining, hbroken, -, -⟩ := Drain.draining_of_looks hlow hr rfl hsize refill
    Drain.visitsAt_refill Drain.looks_refill
  exact ⟨⟨hlow, hr, rfl, hsize⟩, hdraining, hbroken⟩

/-- The rule of the watermarks does not hold for all fills: the ring was found empty before it
filled again, and still it is in tight-loop mode between the watermarks. -/
theorem Drain.not_draining_eq_filledUp :
    ¬ ∀ (o : DrainOptions) (d : Drain PageDirectory UInt64) (k : Nat) (r : Ring) (ops : List Op)
        (past future : List (Ring × RingBuffer)) (v : Ring × RingBuffer)
        (before after : List Look) (l : Look),
      0 < o.lowWatermark → o.lowWatermark ≤ o.highWatermark → o.highWatermark ≤ 100 →
      d.rings[k]? = some r → r.pressure = {} → 0 < (d.buffer r.id).cursor.size.toNat →
      d.visitsAt o k ops = past ++ v :: future → v.1.looks o v.2 = before ++ l :: after →
      l.record.isSome →
      l.draining = o.filledUp (d.buffer r.id).cursor.size.toNat
        (((past.flatMap fun v => v.1.looks o v.2) ++ before ++ [l]).map Look.fill) := by
  intro h
  have hrefill := h {} smallDrain 0 { cpu := 0, cls := .dramRead, id := .detached 0 } refill
    _ _ _ _ _ _ (by decide) (by decide) (by decide) (by decide) rfl (by decide)
    Drain.visitsAt_refill Drain.looks_refill rfl
  exact absurd hrefill (by decide)

end AccessSampling
