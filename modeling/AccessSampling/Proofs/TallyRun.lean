import AccessSampling.Proofs.FirstCome
import AccessSampling.Tally

/-!
# Runs of accepted samples

A tally keeps its parts apart: the heap of a class sees the items of the samples of that class, its
counter their number, and the statistics of an item see the times of the samples of that item,
whatever their class. So each part of the tally after a run of accepted samples is a run of its own.
-/

namespace AccessSampling

/-- An accepted sample: the class that it counts for, its item and its time. -/
structure Access (ι : Type) where
  cls : EventClass
  item : ι
  time : UInt64
  deriving DecidableEq, Repr

namespace Access

variable {ι : Type}

/-- The items of the samples of a class, in order. -/
def itemsOf (c : EventClass) (as : List (Access ι)) : List ι :=
  (as.filter (·.cls = c)).map Access.item

/-- The times of the samples of an item, in order. -/
def timesOf [DecidableEq ι] (x : ι) (as : List (Access ι)) : List UInt64 :=
  (as.filter (·.item = x)).map Access.time

theorem itemsOf_cons (c : EventClass) (a : Access ι) (as : List (Access ι)) :
    itemsOf c (a :: as) = if a.cls = c then a.item :: itemsOf c as else itemsOf c as := by
  by_cases h : a.cls = c <;> simp [itemsOf, h]

/-- Every sample counts for one class. -/
theorem sum_length_itemsOf (as : List (Access ι)) :
    (EventClass.all.map fun c => (itemsOf c as).length).sum = as.length := by
  induction as with
  | nil => rfl
  | cons a as ih =>
      have hone : ∀ f : EventClass → Nat,
          (EventClass.all.map fun c => f c + if a.cls = c then 1 else 0).sum =
            (EventClass.all.map f).sum + 1 := by
        intro f
        cases a.cls <;> simp [EventClass.all] <;> omega
      rw [List.length_cons, ← ih, ← hone]
      congr 1
      refine List.map_congr_left fun c _ => ?_
      rw [itemsOf_cons]
      split <;> rfl

variable [DecidableEq ι]

theorem timesOf_cons (x : ι) (a : Access ι) (as : List (Access ι)) :
    timesOf x (a :: as) = if a.item = x then a.time :: timesOf x as else timesOf x as := by
  by_cases h : a.item = x <;> simp [timesOf, h]

end Access

namespace Tally

variable {ι : Type} [DecidableEq ι]

/-- The tally after some accepted samples. -/
def recordAll (t : Tally ι) (as : List (Access ι)) : Tally ι :=
  as.foldl (fun t a => (t.record a.cls a.item a.time).2) t

theorem recordAll_cons (t : Tally ι) (a : Access ι) (as : List (Access ι)) :
    t.recordAll (a :: as) = (t.record a.cls a.item a.time).2.recordAll as := rfl

theorem recordAll_append (t : Tally ι) (as bs : List (Access ι)) :
    t.recordAll (as ++ bs) = (t.recordAll as).recordAll bs :=
  List.foldl_append

/-- A sample is a hit for the heap of its class and for no other. -/
theorem get_heaps_record (t : Tally ι) (a : Access ι) (c : EventClass) :
    (t.record a.cls a.item a.time).2.heaps.get c =
      if a.cls = c then ((t.heaps.get c).recordHit a.item).2 else t.heaps.get c := by
  refine (PerClass.get_modify ..).trans ?_
  by_cases h : a.cls = c
  · rw [h, if_pos rfl]
  · rw [if_neg h, if_neg (Ne.symm h)]

theorem get_samples_record (t : Tally ι) (a : Access ι) (c : EventClass) :
    (t.record a.cls a.item a.time).2.samples.get c =
      if a.cls = c then t.samples.get c + 1 else t.samples.get c := by
  refine (PerClass.get_modify ..).trans ?_
  by_cases h : a.cls = c
  · rw [h, if_pos rfl]
  · rw [if_neg h, if_neg (Ne.symm h)]

theorem get_stats_record (t : Tally ι) (a : Access ι) (x : ι) :
    (t.record a.cls a.item a.time).2.stats.get x =
      if a.item = x then ((t.stats.get x).observe a.time).2 else t.stats.get x := by
  refine (ItemTable.get_observe ..).trans ?_
  by_cases h : a.item = x
  · rw [h, if_pos rfl]
  · rw [if_neg h, if_neg (Ne.symm h)]

/-- The heap of a class after some samples: it took the hits of its class. -/
theorem get_heaps_recordAll (t : Tally ι) (as : List (Access ι)) (c : EventClass) :
    (t.recordAll as).heaps.get c = (t.heaps.get c).hitAll (Access.itemsOf c as) := by
  induction as generalizing t with
  | nil => rfl
  | cons a as ih =>
      rw [recordAll_cons, ih, get_heaps_record, Access.itemsOf_cons]
      split <;> rfl

theorem capacity_recordAll (t : Tally ι) (as : List (Access ι)) (c : EventClass) :
    ((t.recordAll as).heaps.get c).capacity = (t.heaps.get c).capacity := by
  rw [get_heaps_recordAll, HotHeap.hitAll_capacity]

/-- The counter of a class after some samples: it grew by those of its class. -/
theorem get_samples_recordAll (t : Tally ι) (as : List (Access ι)) (c : EventClass) :
    (t.recordAll as).samples.get c = t.samples.get c + (Access.itemsOf c as).length := by
  induction as generalizing t with
  | nil => rfl
  | cons a as ih =>
      rw [recordAll_cons, ih, get_samples_record, Access.itemsOf_cons]
      split
      · rw [List.length_cons]
        omega
      · rfl

/-- The statistics of an item after some samples: they saw the times of the item. -/
theorem get_stats_recordAll (t : Tally ι) (as : List (Access ι)) (x : ι) :
    (t.recordAll as).stats.get x = (t.stats.get x).observeAll (Access.timesOf x as) := by
  induction as generalizing t with
  | nil => rfl
  | cons a as ih =>
      rw [recordAll_cons, ih, get_stats_record, Access.timesOf_cons]
      split <;> rfl

/-! ## A fresh tally -/

/-- A tally before its first sample: no heap holds anything, no class has a sample, and no item was
ever sampled. -/
structure Fresh (t : Tally ι) : Prop where
  heaps : ∀ c, (t.heaps.get c).entries = #[]
  samples : ∀ c, t.samples.get c = 0
  stats : ∀ x, t.stats.get x = {}

theorem fresh_empty (capacity : Nat) : (empty capacity : Tally ι).Fresh where
  heaps := fun c => by rw [empty, PerClass.get_replicate]
  samples := fun c => PerClass.get_replicate 0 c
  stats := fun _ => rfl

namespace Fresh

variable {t : Tally ι}

/-- Every heap is the table of the first items of its class. -/
theorem tabulates (h : t.Fresh) (as : List (Access ι)) (c : EventClass) :
    ((t.recordAll as).heaps.get c).Tabulates (Access.itemsOf c as) := by
  rw [get_heaps_recordAll]
  exact (HotHeap.tabulates_nil (h.heaps c)).hitAll _

theorem samples_eq (h : t.Fresh) (as : List (Access ι)) (c : EventClass) :
    (t.recordAll as).samples.get c = (Access.itemsOf c as).length := by
  rw [get_samples_recordAll, h.samples, Nat.zero_add]

theorem stats_eq (h : t.Fresh) (as : List (Access ι)) (x : ι) :
    (t.recordAll as).stats.get x = ({} : IntervalStats).observeAll (Access.timesOf x as) := by
  rw [get_stats_recordAll, h.stats]

end Fresh

end Tally

end AccessSampling
