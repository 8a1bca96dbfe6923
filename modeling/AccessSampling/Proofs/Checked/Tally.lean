import AccessSampling.Drain
import AccessSampling.Proofs.Checked.Operations

/-!
# Draining with checked operations

The way of a record through the sampler, from the ring that gives it up to the heap of its class,
with every operation checked. A position in a heap is always one of its entries, a sampled item has
a count of at least one, a new interval ends after the last one, and the remainder by the milestone
is taken only if there is one.
-/

namespace AccessSampling.Checked

variable {α ι ρ : Type}

/-! ## Sifts -/

section Sifts

/-- The position above `i`. -/
def parent {i : Nat} (_h : 0 < i) : Except Fault { p : Nat // p < i } :=
  match h : sub i 1 with
  | .error f => .error f
  | .ok before => .ok ⟨before / 2, by have := add_of_sub_eq_ok h; omega⟩

def siftUp (key : α → Nat) (xs : Array α) (i : Nat) : Except Fault (Array α) :=
  if h : 0 < i then do
    let p ← parent h
    let a ← elem xs i
    let b ← elem xs p
    if key a < key b then siftUp key (← swap xs i p) p else return xs
  else return xs
termination_by i
decreasing_by exact p.property

/-- The child of `i` with the smaller key; the left one has to be there. -/
def lesserChild (key : α → Nat) (len : Nat) (xs : Array α) (i : Nat) :
    Except Fault { c : Nat // i < c } := do
  let left := 2 * i + 1
  let right := left + 1
  if right < len then
    let r ← elem xs right
    let l ← elem xs left
    if key r < key l then return ⟨right, by omega⟩ else return ⟨left, by omega⟩
  else return ⟨left, by omega⟩

def siftDown (key : α → Nat) (len : Nat) (xs : Array α) (i : Nat) : Except Fault (Array α) :=
  if 2 * i + 1 < len then do
    let c ← lesserChild key len xs i
    let a ← elem xs i
    let b ← elem xs c
    if key a ≤ key b then return xs else siftDown key len (← swap xs i c) c
  else return xs
termination_by len - i
decreasing_by
  have : i < c := c.property
  omega

variable {key : α → Nat} {xs : Array α} {i : Nat}

theorem parent_eq (h : 0 < i) : parent h = .ok ⟨MinHeap.parent i, MinHeap.parent_lt h⟩ := by
  unfold parent
  split
  · rename_i f hsub
    rw [sub_of_le h] at hsub
    cases hsub
  · rename_i d hsub
    rw [sub_of_le h] at hsub
    cases hsub
    rfl

theorem siftUp_eq (hi : i < xs.size) :
    siftUp key xs i = .ok (MinHeap.siftUp key xs i) := by
  fun_induction MinHeap.siftUp key xs i with
  | case1 xs i h hp hlt ih =>
      rw [siftUp, dif_pos h.1, parent_eq, ok_bind, elem_of_lt h.2, ok_bind, elem_of_lt hp, ok_bind,
        if_pos hlt, swap_of_lt h.2 hp, ok_bind, ih (by simpa using hp)]
  | case2 xs i h hp hlt =>
      rw [siftUp, dif_pos h.1, parent_eq, ok_bind, elem_of_lt h.2, ok_bind, elem_of_lt hp, ok_bind,
        if_neg hlt]
      rfl
  | case3 xs i h =>
      rw [siftUp, dif_neg (by omega)]
      rfl

theorem lesserChild_eq (h : 2 * i + 1 < xs.size) :
    lesserChild key xs.size xs i =
      .ok ⟨MinHeap.lesserChild key xs i, MinHeap.lt_lesserChild key xs i⟩ := by
  by_cases hr : 2 * i + 1 + 1 < xs.size
  · simp only [lesserChild, MinHeap.lesserChild, if_pos hr, dif_pos hr, elem_of_lt hr, elem_of_lt h,
      ok_bind]
    split
    · rfl
    · rfl
  · simp only [lesserChild, MinHeap.lesserChild, if_neg hr, dif_neg hr]
    rfl

theorem siftDown_eq (key : α → Nat) (xs : Array α) (i : Nat) :
    siftDown key xs.size xs i = .ok (MinHeap.siftDown key xs i) := by
  fun_induction MinHeap.siftDown key xs i with
  | case1 xs i c h hi hlt ih =>
      have hleft := (MinHeap.lesserChild_lt_iff key xs i).1 h
      rw [Array.size_swap] at ih
      rw [siftDown, if_pos hleft, lesserChild_eq hleft, ok_bind, elem_of_lt hi, ok_bind,
        elem_of_lt h, ok_bind, if_neg (Nat.not_le.2 hlt), swap_of_lt hi h, ok_bind, ih]
  | case2 xs i c h hi hlt =>
      have hleft := (MinHeap.lesserChild_lt_iff key xs i).1 h
      rw [siftDown, if_pos hleft, lesserChild_eq hleft, ok_bind, elem_of_lt hi, ok_bind,
        elem_of_lt h, ok_bind, if_pos (Nat.le_of_not_lt hlt)]
      rfl
  | case3 xs i c h =>
      rw [siftDown, if_neg fun hleft => h ((MinHeap.lesserChild_lt_iff key xs i).2 hleft)]
      rfl

end Sifts

/-! ## Hits -/

section Hits

open HotHeap (hitKey)

/-- Counts one more hit of the entry at `i`. -/
def bump (h : HotHeap ι) (i : Nat) : Except Fault (Admission × HotHeap ι) := do
  let e ← elem h.entries i
  let hits := saturatingSucc e.hits
  let entries ← put h.entries i { e with hits }
  let entries ← siftUp hitKey entries i
  return (.updated hits, { h with entries })

/-- Appends an item and sifts it up from the last position. -/
def insert (h : HotHeap ι) (item : ι) : Except Fault (HotHeap ι) := do
  let entries := h.entries.push { item, hits := 1 }
  let last ← sub entries.size 1
  let entries ← siftUp hitKey entries last
  return { h with entries }

def challenge (h : HotHeap ι) (item : ι) : Except Fault (Admission × HotHeap ι) :=
  match h.entries[0]? with
  | none => return (.discarded, h)
  | some root =>
    if root.hits < 1 then do
      let entries ← put h.entries 0 { item, hits := 1 }
      let entries ← siftDown hitKey entries.size entries 0
      return (.replaced, { h with entries })
    else return (.discarded, h)

def recordHit [DecidableEq ι] (h : HotHeap ι) (item : ι) :
    Except Fault (Admission × HotHeap ι) :=
  match h.entries.findIdx? fun e => decide (e.item = item) with
  | some i => bump h i
  | none =>
    if h.size < h.capacity then do return (.inserted, ← insert h item)
    else challenge h item

theorem bump_eq (h : HotHeap ι) (i : Fin h.entries.size) : bump h i = .ok (h.bump i) := by
  simp only [bump, elem_of_lt i.isLt, put_of_lt i.isLt, ok_bind]
  rw [siftUp_eq (by simp)]
  rfl

theorem insert_eq (h : HotHeap ι) (item : ι) : insert h item = .ok (h.insert item) := by
  rw [insert, sub_of_le (by simp), ok_bind, Array.size_push, Nat.add_sub_cancel,
    siftUp_eq (by simp), ok_bind]
  rfl

theorem challenge_eq (h : HotHeap ι) (item : ι) : challenge h item = .ok (h.challenge item) := by
  by_cases hs : 0 < h.entries.size
  · simp only [challenge, HotHeap.challenge, Array.getElem?_eq_getElem hs, dif_pos hs,
      UInt32.lt_one_iff]
    split
    · rw [put_of_lt hs, ok_bind, siftDown_eq]
      rfl
    · rfl
  · have hempty : h.entries[0]? = none := Array.getElem?_eq_none (Nat.le_of_not_lt hs)
    simp only [challenge, HotHeap.challenge, hempty, dif_neg hs]
    rfl

theorem recordHit_eq [DecidableEq ι] (h : HotHeap ι) (item : ι) :
    recordHit h item = .ok (h.recordHit item) := by
  rw [recordHit, HotHeap.recordHit, Array.findIdx?_eq_map_findFinIdx?_val]
  cases h.entries.findFinIdx? fun e => decide (e.item = item) with
  | some i => exact bump_eq h i
  | none =>
      simp only [Option.map_none, insert_eq, challenge_eq, ok_bind]
      split
      · rfl
      · rfl

end Hits

/-! ## Sample times -/

/-- The statistics after an interval that ends at `now`, with the count that the deviation is
divided by. -/
def extend (s : IntervalStats) (now interval : UInt64) : Except Fault IntervalStats := do
  let count := saturatingSucc s.count
  let before := IntervalStats.deviation interval s.mean
  let share ← quot before count.toNat
  let mean := UInt64.ofInt (s.mean.toNat + share)
  let after := IntervalStats.deviation interval mean
  return {
    lastTime := now
    count
    mean
    m2 := saturatingAdd s.m2 (clampSigned 64 (before * after / IntervalStats.scale)) }

def observe (s : IntervalStats) (now : UInt64) : Except Fault (Observation × IntervalStats) :=
  if s.lastTime = 0 then return (.coldStart, { lastTime := now, count := 1 })
  else if now ≤ s.lastTime then return (.outOfOrder, s)
  else do
    let interval ← sub now.toNat s.lastTime.toNat
    let s ← extend s now (.ofNat interval)
    return (.accepted (.ofNat interval), s)

theorem extend_eq (s : IntervalStats) (now interval : UInt64) :
    extend s now interval = .ok (s.extend now interval) := by
  have hcount : ((saturatingSucc s.count).toNat : Int) ≠ 0 := by
    have hpos := saturatingSucc_pos s.count
    omega
  rw [extend, quot_of_ne_zero hcount]
  rfl

theorem observe_eq (s : IntervalStats) (now : UInt64) : observe s now = .ok (s.observe now) := by
  unfold observe IntervalStats.observe
  split
  · rfl
  · split
    · rfl
    · rename_i h
      have hle : s.lastTime.toNat ≤ now.toNat :=
        UInt64.le_iff_toNat_le.1 (UInt64.le_of_lt (UInt64.not_le.1 h))
      rw [sub_of_le hle, ok_bind, UInt64.ofNat_sub hle, UInt64.ofNat_toNat, UInt64.ofNat_toNat,
        extend_eq]
      rfl

/-! ## Records -/

section Records

variable [DecidableEq ι]

def observeItem (t : ItemTable ι) (item : ι) (now : UInt64) :
    Except Fault (Observation × ItemTable ι) := do
  let (seen, s) ← observe (t.get item) now
  return (seen, t.set item s)

def record (t : Tally ι) (c : EventClass) (item : ι) (time : UInt64) :
    Except Fault (Observation × Tally ι) := do
  let (seen, stats) ← observeItem t.stats item time
  let n ← entry t.samples c
  let samples ← putEntry t.samples c (n + 1)
  let heap ← entry t.heaps c
  let (_, heap) ← recordHit heap item
  let heaps ← putEntry t.heaps c heap
  return (seen, { heaps, samples, stats })

def checkMilestone (i : Intake ρ ι) (milestone : Nat) : Except Fault (Intake ρ ι) :=
  if 0 < milestone then do
    let r ← mod i.counters.sampled milestone
    if r = 0 then
      return { i with
        window := i.window.passMilestone
        log := i.log.push (.milestone
          { sampled := i.counters.sampled
            dram := i.window.dram
            nvm := i.window.nvm
            write := i.window.write
            throttled := i.counters.throttled }) }
    else return i
  else return i

def accept (i : Intake ρ ι) (milestone : Nat) (c : EventClass) (item : ι) (time : UInt64) :
    Except Fault (Intake ρ ι) := do
  let (seen, tally) ← record i.tally c item time
  checkMilestone
    { i with
      tally
      window := i.window.count c
      counters := i.counters.countSample c seen }
    milestone

/-- Consumes a record; only an accepted sample takes any operation that is checked. -/
def consume [Resolver ρ ι] (i : Intake ρ ι) (milestone : Nat) (c : EventClass) :
    Record → Except Fault (Intake ρ ι)
  | .sample s =>
    if Resolver.isReportable i.resolver s.addr then
      match Resolver.resolve i.resolver s.addr s.task.pid s.time with
      | (some item, resolver) => accept { i with resolver } milestone c item s.time
      | (none, resolver) =>
        return { i with
          resolver
          counters := { i.counters with unresolved := i.counters.unresolved + 1 } }
    else
      return { i with counters := { i.counters with unreportable := i.counters.unreportable + 1 } }
  | r => return i.consume milestone c r

theorem observeItem_eq (t : ItemTable ι) (item : ι) (now : UInt64) :
    observeItem t item now = .ok (t.observe item now) := by
  rw [observeItem, observe_eq]
  rfl

theorem record_eq (t : Tally ι) (c : EventClass) (item : ι) (time : UInt64) :
    record t c item time = .ok (t.record c item time) := by
  simp only [record, observeItem_eq, recordHit_eq, entry_eq, putEntry_eq, ok_bind]
  rfl

omit [DecidableEq ι] in
theorem checkMilestone_eq (i : Intake ρ ι) (milestone : Nat) :
    checkMilestone i milestone = .ok (i.checkMilestone milestone) := by
  by_cases hm : 0 < milestone
  · simp only [checkMilestone, Intake.checkMilestone, mod_of_ne_zero (Nat.ne_of_gt hm), ok_bind,
      hm, true_and, if_true]
    split
    · rfl
    · rfl
  · simp only [checkMilestone, Intake.checkMilestone, hm, false_and, if_false]
    rfl

theorem accept_eq (i : Intake ρ ι) (milestone : Nat) (c : EventClass) (item : ι) (time : UInt64) :
    accept i milestone c item time = .ok (i.accept milestone c item time) := by
  simp only [accept, record_eq, ok_bind, checkMilestone_eq]
  rfl

theorem consume_eq [Resolver ρ ι] (i : Intake ρ ι) (milestone : Nat) (c : EventClass)
    (r : Record) : consume i milestone c r = .ok (i.consume milestone c r) := by
  cases r with
  | sample s =>
      rcases hresolve : Resolver.resolve i.resolver s.addr s.task.pid s.time with ⟨found, resolver⟩
      cases found with
      | none | some =>
          simp only [consume, Intake.consume, Intake.consumeSample, hresolve, accept_eq]
          split
          · rfl
          · rfl
  | throttle | unthrottle | lostSamples | other => rfl

end Records

/-! ## Passes -/

section Passes

def hitRatio (w : ReadWindow) : Except Fault Nat :=
  let total := w.reportDram + w.reportNvm
  if total = 0 then return 0 else div (w.reportDram * 10000) total

def report (d : Drain ρ ι) (samplePeriod cpuPermil : Option Nat) :
    Except Fault (Drain ρ ι) := do
  let ratio ← hitRatio d.intake.window
  return { d with
    intake :=
      { d.intake with
        window := d.intake.window.passReport
        log := d.intake.log.push (.report
          { sampled := d.intake.counters.sampled, samplePeriod, cpuPermil, hitRatio := ratio }) } }

theorem hitRatio_eq (w : ReadWindow) : hitRatio w = .ok w.hitRatio := by
  by_cases htotal : w.reportDram + w.reportNvm = 0
  · simp only [hitRatio, ReadWindow.hitRatio, htotal, if_true, Nat.div_zero]
    rfl
  · simp only [hitRatio, ReadWindow.hitRatio, htotal, if_false, div_of_ne_zero htotal]

theorem report_eq (d : Drain ρ ι) (samplePeriod cpuPermil : Option Nat) :
    report d samplePeriod cpuPermil = .ok (d.report samplePeriod cpuPermil) := by
  rw [report, hitRatio_eq]
  rfl

variable [Resolver ρ ι] [DecidableEq ι]

/-- Consumes what a visit took from a ring. The fill of the ring is the wrapping difference of its
positions, so the visit itself has nothing to check. -/
def consumeVisit (i : Intake ρ ι) (milestone : Nat) (c : EventClass) (v : Visit) :
    Except Fault (Intake ρ ι) := do
  let i ← v.taken.foldlM (fun i r => consume i milestone c r) i
  return if v.foundEmpty then i.countSkip else i

def visitAll (o : DrainOptions) : List Ring → RingStore → Intake ρ ι →
    Except Fault (Pass × List Ring × RingStore × Intake ρ ι)
  | [], s, i => return ({}, [], s, i)
  | r :: rest, s, i => do
    let v := r.visit o (s.get r.id)
    let i ← consumeVisit i o.milestone r.cls v
    let (p, rings, s, i) ← visitAll o rest (s.set r.id v.buffer) i
    return ({
        records := v.taken.length + p.records
        empty := countIf (v.foundEmpty = true) + p.empty },
      r.leave v :: rings, s, i)

def pass (d : Drain ρ ι) (o : DrainOptions) : Except Fault (Pass × Drain ρ ι) := do
  let (p, rings, store, intake) ← visitAll o d.rings d.store d.intake
  return (p, { store, rings, intake })

theorem consumeVisit_eq (i : Intake ρ ι) (milestone : Nat) (c : EventClass) (v : Visit) :
    consumeVisit i milestone c v = .ok (i.consumeVisit milestone c v) := by
  simp only [consumeVisit, consume_eq, foldlM_ok, ok_bind]
  rfl

theorem visitAll_eq (o : DrainOptions) (rings : List Ring) (s : RingStore) (i : Intake ρ ι) :
    visitAll o rings s i = .ok (Drain.visitAll o rings s i) := by
  induction rings generalizing s i with
  | nil => rfl
  | cons r rest ih =>
      simp only [visitAll, consumeVisit_eq, ih, ok_bind]
      rfl

theorem pass_eq (d : Drain ρ ι) (o : DrainOptions) : pass d o = .ok (d.pass o) := by
  rw [pass, visitAll_eq]
  rfl

end Passes

end AccessSampling.Checked
