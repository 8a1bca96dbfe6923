import AccessSampling.Proofs.WaitingBytes

/-!
# Bookkeeping

The worker keeps many books: positions of rings, totals of passes, counters, numbers of samples, hit
counts. In every state that it can reach they balance. The bytes that wait in a ring are those of
its queue, what the passes took is what the counters counted, and every sample of a class is a hit
in its heap or was discarded by it.
-/

namespace AccessSampling

/-! ## Hits of a heap -/

namespace HotHeap

variable {ι : Type}

theorem hitSum_split (h : HotHeap ι) {i : Nat} (hi : i < h.entries.size) :
    h.hitSum = hitKey h.entries[i] + ((h.entries.toList.eraseIdx i).map hitKey).sum := by
  have hperm := List.getElem_cons_eraseIdx_perm (l := h.entries.toList) (n := i) (by simpa using hi)
  rw [hitSum_of_perm hperm.symm, List.map_cons, List.sum_cons, Array.getElem_toList]

variable [DecidableEq ι]

/-- A hit adds one to the hits of a heap or is discarded, as long as no hit count is full. -/
theorem hitSum_recordHit {h : HotHeap ι} {x : ι}
    (hroom : ∀ e ∈ h.entries, e.item = x → e.hits.toNat < maxHits) :
    (h.recordHit x).2.hitSum + countIf ((h.recordHit x).1 = .discarded) = h.hitSum + 1 := by
  rcases recordHit_cases h x with ⟨i, hi, hitem, heq⟩ | ⟨-, -, heq⟩ | ⟨-, -, heq⟩
  · have hlt : h.entries[i].hits.toNat < maxHits := hroom _ (Array.getElem_mem hi) hitem
    have hsucc : (saturatingSucc h.entries[i].hits).toNat = h.entries[i].hits.toNat + 1 := by
      rw [toNat_saturatingSucc]
      rw [maxHits] at hlt
      omega
    have hsplit : h.hitSum = h.entries[i].hits.toNat + _ := hitSum_split h hi
    rw [heq, hitSum_of_perm (bump_perm h hi), List.map_cons, List.sum_cons, hitKey, hsucc, hsplit]
    simp only [bump, countIf, reduceCtorEq, if_false]
    omega
  · rw [heq, hitSum_of_perm (insert_perm h x), List.map_append, List.sum_append]
    rfl
  · by_cases hcold : h.RootIsCold
    · obtain ⟨hs, hroot, hreplaced⟩ := challenge_of_cold hcold x
      have hsplit : h.hitSum = h.entries[0].hits.toNat + _ := hitSum_split h hs
      rw [hroot, UInt32.toNat_zero, Nat.zero_add] at hsplit
      have hfirst : hitKey ({ item := x, hits := 1 } : HeapEntry ι) = 1 := rfl
      rw [heq, hreplaced, hitSum_of_perm (replace_perm h hs x), List.map_cons, List.sum_cons,
        hsplit, hfirst]
      simp only [countIf, reduceCtorEq, if_false]
      omega
    · rw [heq, challenge_of_not_cold hcold]
      rfl

/-- What a heap answers to some hits. -/
def admissions : HotHeap ι → List ι → List Admission
  | _, [] => []
  | h, x :: xs => (h.recordHit x).1 :: admissions (h.recordHit x).2 xs

/-- Every one of some hits adds one to the hits of a heap or is discarded, as long as no held item
has more hits than a hit count can tell. -/
theorem Tabulates.hitSum_hitAll {h : HotHeap ι} {xs : List ι} (ht : h.Tabulates xs) (ys : List ι)
    (hroom : ∀ x ∈ firstComers h.capacity (xs ++ ys), (xs ++ ys).count x ≤ maxHits) :
    (h.hitAll ys).hitSum + (h.admissions ys).count .discarded = h.hitSum + ys.length := by
  induction ys generalizing h xs with
  | nil => rfl
  | cons y ys ih =>
      obtain ⟨-, hnext, -⟩ := ht.recordHit y
      have hone : (h.recordHit y).2.hitSum + countIf ((h.recordHit y).1 = .discarded) =
          h.hitSum + 1 := by
        refine hitSum_recordHit fun e he hitem => ?_
        obtain ⟨hheld, hentry⟩ := ht.mem_iff.1 he
        rw [hitem] at hheld hentry
        -- the hits of the entry do not include the hit that is about to be counted
        have hcount := hroom y (mem_firstComers_append hheld _)
        rw [List.count_append, List.count_cons_self] at hcount
        rw [hentry, toNat_hits_entryOf]
        omega
      have hrest := ih hnext (by rwa [recordHit_capacity, ← List.append_cons])
      rw [admissions, List.count_cons, List.length_cons]
      simp only [beq_iff_eq]
      change (((h.recordHit y).2.hitAll ys).hitSum + _) = _
      rw [countIf] at hone
      omega

end HotHeap

/-- The hits that the heap of a class discarded. -/
def discardedHits {ι : Type} (c : EventClass) (answers : List (Answer ι)) : Nat :=
  answers.countP fun a => a.access.cls = c ∧ a.admission = .discarded

namespace Tally

variable {ι : Type} [DecidableEq ι]

/-- The heap of a class answers to the hits of its class. -/
theorem discardedHits_answers (t : Tally ι) (as : List (Access ι)) (c : EventClass) :
    discardedHits c (t.answers as) =
      ((t.heaps.get c).admissions (Access.itemsOf c as)).count .discarded := by
  induction as generalizing t with
  | nil => rfl
  | cons a as ih =>
      have hrest := ih (t.record a.cls a.item a.time).2
      rw [discardedHits] at hrest ⊢
      rw [answers, List.countP_cons, hrest, get_heaps_record, Access.itemsOf_cons]
      by_cases h : a.cls = c
      · simp [h, answer, HotHeap.admissions, List.count_cons]
      · simp [h, answer]

/-- Every sample of a class is a hit in its heap or was discarded by it, unless a held item was hit
more often than a hit count can tell. -/
theorem Fresh.hits_balance {t : Tally ι} (h : t.Fresh) (as : List (Access ι)) (c : EventClass)
    (hroom : ∀ e ∈ ((t.recordAll as).heaps.get c).entries,
      (Access.itemsOf c as).count e.item ≤ HotHeap.maxHits) :
    ((t.recordAll as).heaps.get c).hitSum + discardedHits c (t.answers as) =
      (t.recordAll as).samples.get c := by
  have hnone : (t.heaps.get c).hitSum = 0 := by
    rw [HotHeap.hitSum, h.heaps]
    rfl
  have hheld : ∀ x ∈ HotHeap.firstComers (t.heaps.get c).capacity (Access.itemsOf c as),
      (Access.itemsOf c as).count x ≤ HotHeap.maxHits := by
    intro x hx
    refine hroom (HotHeap.entryOf (Access.itemsOf c as) x)
      ((h.tabulates as c).mem_iff.2 ⟨?_, rfl⟩)
    rwa [capacity_recordAll]
  have hall := (HotHeap.tabulates_nil (h.heaps c)).hitSum_hitAll (Access.itemsOf c as) hheld
  rw [hnone, Nat.zero_add] at hall
  rw [discardedHits_answers, get_heaps_recordAll, h.samples_eq, hall]

end Tally

/-! ## The books of the worker -/

namespace Drain

variable {ρ ι : Type}

/-- The worker before its first pass: nothing was written to its rings, and nothing was counted. -/
structure Fresh (d : Drain ρ ι) [DecidableEq ι] : Prop where
  queue : ∀ id, (d.buffer id).queue = []
  pending : ∀ id, (d.buffer id).cursor.pending = 0
  tally : d.intake.tally.Fresh
  counters : d.intake.counters = {}

variable [DecidableEq ι]

theorem Fresh.isTight {d : Drain ρ ι} (h : d.Fresh) (id : RingId) : (d.buffer id).IsTight := by
  rw [RingBuffer.IsTight, h.pending, RingBuffer.queuedBytes, h.queue]
  rfl

variable [Resolver ρ ι]

/-- In every state that the worker reaches by pushes, passes and reports, its books balance. What
was written to a ring is what was taken from it and what is queued, and the waiting bytes are those
of the queue. The passes took as many records as the counters tell and found as many rings empty.
The samples of all classes are those that were accepted, three counters are those of their classes,
and no more samples were out of order than there are. The hits of a class's heap and those that it
discarded are the samples of the class, unless a held item was hit more often than a hit count can
tell. -/
theorem books_balance {o : DrainOptions} {d : Drain ρ ι} (hfresh : d.Fresh) {ops : List Op}
    (hops : ∀ id bytes, Op.skip id bytes ∉ ops) :
    let es := d.history o ops
    let as := d.intake.accesses o.milestone es
    let k := (d.run o ops).intake.counters
    let t := (d.run o ops).intake.tally
    (∀ id, pushed id ops = popped id es ++ ((d.run o ops).buffer id).queue ∧
      ((d.run o ops).buffer id).cursor.pending.toNat =
        ((d.run o ops).buffer id).queuedBytes % 2 ^ 64) ∧
    ((d.passResults o ops).map Pass.records).sum =
      k.sampled + k.unreportable + k.unresolved + k.throttled + k.lost + k.unknown ∧
    ((d.passResults o ops).map Pass.empty).sum = k.skipped ∧
    t.samples.toList.sum = k.sampled ∧
    (k.dram = t.samples.get .dramRead ∧ k.nvm = t.samples.get .nvmRead ∧
      k.write = t.samples.get .memWrite) ∧
    k.outOfOrder ≤ k.sampled ∧
    ∀ c, (∀ e ∈ (t.heaps.get c).entries, (Access.itemsOf c as).count e.item ≤ HotHeap.maxHits) →
      ((t.heaps.get c).entries.toList.map fun e => e.hits.toNat).sum +
        discardedHits c (d.intake.tally.answers as) = t.samples.get c := by
  intro es as k t
  obtain ⟨htally, hgrown⟩ := d.intake_run_spec o ops
  change t = d.intake.tally.recordAll as at htally
  change Counters.Grown d.intake.counters k _ _ _ at hgrown
  rw [hfresh.counters] at hgrown
  obtain ⟨hsampled, hdram, hnvm, hwrite, -, hskipped, hlate⟩ := hgrown.of_zero
  rw [Tally.length_answers] at hsampled
  obtain ⟨hrecords, hempty⟩ := d.sum_passResults o ops
  have hsamples : ∀ c, t.samples.get c = (Access.itemsOf c as).length := fun c => by
    rw [htally, hfresh.tally.samples_eq]
  refine ⟨fun id => ⟨?_, ?_⟩, ?_, ?_, ?_, ⟨?_, ?_, ?_⟩, ?_, fun c hroom => ?_⟩
  · rw [← d.queue_append_pushed o ops id, hfresh.queue, List.nil_append]
  · exact (isTight_run (hops id) (hfresh.isTight id)).toNat_pending
  · have hall : k.records = 0 + _ + _ := hgrown.records_eq
    rw [Tally.length_answers, Nat.zero_add, Intake.length_accesses_add_exclusions] at hall
    rw [hrecords, ← hall]
    rfl
  · rw [hempty, hskipped]
  · rw [PerClass.toList, List.map_congr_left fun c _ => hsamples c, Access.sum_length_itemsOf,
      hsampled]
  · rw [hdram, Tally.countP_cls_answers, hsamples]
  · rw [hnvm, Tally.countP_cls_answers, hsamples]
  · rw [hwrite, Tally.countP_cls_answers, hsamples]
  · rw [hlate, hsampled, ← Tally.length_answers]
    exact List.countP_le_length
  · rw [htally] at hroom ⊢
    exact hfresh.tally.hits_balance as c hroom

end Drain

set_option maxRecDepth 4000 in
/-- Six records were taken and three of them accepted; one hit of the three was discarded. -/
theorem Drain.books_of_mixed_records :
    let d := mixedDrain.run {} mixedRecords
    let as := mixedDrain.intake.accesses 500000 (mixedDrain.history {} mixedRecords)
    let t := d.intake.tally
    (mixedDrain.Fresh ∧ ∀ id bytes, Op.skip id bytes ∉ mixedRecords) ∧
    as = [⟨.dramRead, 1, 5⟩, ⟨.dramRead, 1, 4⟩, ⟨.dramRead, 3, 6⟩] ∧
    ((mixedDrain.passResults {} mixedRecords).map Pass.records).sum = 6 ∧
    d.intake.counters =
      { sampled := 3, dram := 3, unknown := 1, skipped := 4, unreportable := 1, unresolved := 1,
        outOfOrder := 1 } ∧
    t.samples.toList.sum = d.intake.counters.sampled ∧
    (d.buffer (.hardware 0 .memWrite)).cursor.pending = 48 ∧
    ((t.heaps.get .dramRead).entries.toList.map fun e => e.hits.toNat).sum +
      discardedHits .dramRead (mixedDrain.intake.tally.answers as) = 3 := by
  intro d as t
  have hfresh : mixedDrain.Fresh :=
    { queue := fun _ => rfl
      pending := fun _ => UInt64.sub_self 0
      tally := Tally.fresh_empty 1
      counters := rfl }
  have hops : ∀ id bytes, Op.skip id bytes ∉ mixedRecords := by
    simp [mixedRecords]
  have has : as = [⟨.dramRead, 1, 5⟩, ⟨.dramRead, 1, 4⟩, ⟨.dramRead, 3, 6⟩] := by decide
  have hitems : Access.itemsOf .dramRead as = [1, 1, 3] := by
    rw [has]
    rfl
  obtain ⟨-, -, -, hsum, -, -, hhits⟩ := Drain.books_balance (o := {}) hfresh hops
  refine ⟨⟨hfresh, hops⟩, has, by decide, by decide, hsum, by decide, ?_⟩
  refine (hhits .dramRead fun e _ => ?_).trans (by decide)
  rw [hitems]
  exact Nat.le_trans List.count_le_length (by decide)

end AccessSampling
