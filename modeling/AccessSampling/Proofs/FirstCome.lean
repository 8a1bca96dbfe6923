import AccessSampling.HotHeap
import Mathlib.Algebra.Order.BigOperators.Group.List
import Mathlib.Algebra.Order.Ring.Nat
import Mathlib.Data.List.Induction
import Mathlib.Data.List.Nodup
import Mathlib.Data.List.Perm.Basic

/-!
# First come, first held

Up to the order of its array, a hot item heap is the table of the first distinct items that were hit
since it was last cleared, each with its number of hits. Every entry starts with one hit and never
loses any, so a full heap never finds a root without hits: what it holds then stays until it is
cleared.
-/

namespace AccessSampling

namespace HotHeap

variable {ι : Type} [DecidableEq ι]

/-! ## The table of first comers -/

/-- The largest hit count. -/
def maxHits : Nat := 0xffffffff

/-- The items that find a place in a table after some hits: the first distinct ones. -/
def firstComers (capacity : Nat) (xs : List ι) : List ι := xs.eraseDups.take capacity

/-- The entry of an item after some hits. -/
def entryOf (xs : List ι) (x : ι) : HeapEntry ι :=
  { item := x, hits := UInt32.ofNat (min (xs.count x) maxHits) }

/-- The table of the first comers after some hits. -/
def table (capacity : Nat) (xs : List ι) : List (HeapEntry ι) :=
  (firstComers capacity xs).map (entryOf xs)

theorem eraseDups_append_singleton (xs : List ι) (x : ι) :
    (xs ++ [x]).eraseDups = if x ∈ xs then xs.eraseDups else xs.eraseDups ++ [x] := by
  rw [List.eraseDups_append]
  split
  · rename_i h
    simp [List.removeAll, h]
  · rename_i h
    simp [List.removeAll, h, List.eraseDups_cons]

theorem nodup_eraseDups (xs : List ι) : xs.eraseDups.Nodup := by
  induction xs using List.reverseRecOn with
  | nil => simp
  | append_singleton xs x ih =>
      rw [eraseDups_append_singleton]
      split
      · exact ih
      · rename_i h
        rw [← List.concat_eq_append]
        exact ih.concat (by simpa using h)

theorem nodup_firstComers (capacity : Nat) (xs : List ι) : (firstComers capacity xs).Nodup :=
  (nodup_eraseDups xs).sublist (List.take_sublist _ _)

theorem mem_of_mem_firstComers {capacity : Nat} {xs : List ι} {x : ι}
    (h : x ∈ firstComers capacity xs) : x ∈ xs :=
  List.mem_eraseDups.1 (List.mem_of_mem_take h)

theorem length_firstComers (capacity : Nat) (xs : List ι) :
    (firstComers capacity xs).length = min capacity xs.eraseDups.length :=
  List.length_take

/-- While there is room, every item that was hit has its place. -/
theorem mem_firstComers_of_room {capacity : Nat} {xs : List ι} {x : ι}
    (hroom : (firstComers capacity xs).length < capacity) :
    x ∈ firstComers capacity xs ↔ x ∈ xs := by
  rw [length_firstComers] at hroom
  rw [firstComers, List.take_of_length_le (by omega), List.mem_eraseDups]

/-- Once there is no room, no further hit gives a place to anyone. -/
theorem firstComers_append_of_full {capacity : Nat} {xs : List ι}
    (hfull : (firstComers capacity xs).length = capacity) (ys : List ι) :
    firstComers capacity (xs ++ ys) = firstComers capacity xs := by
  rw [length_firstComers] at hfull
  rw [firstComers, firstComers, List.eraseDups_append, List.take_append_of_le_length (by omega)]

/-- A place once found is never lost. -/
theorem mem_firstComers_append {capacity : Nat} {xs : List ι} {x : ι}
    (h : x ∈ firstComers capacity xs) (ys : List ι) : x ∈ firstComers capacity (xs ++ ys) := by
  rw [firstComers, List.eraseDups_append, List.take_append]
  exact List.mem_append_left _ h

theorem firstComers_append_of_mem {capacity : Nat} {xs : List ι} {x : ι} (h : x ∈ xs) :
    firstComers capacity (xs ++ [x]) = firstComers capacity xs := by
  rw [firstComers, firstComers, eraseDups_append_singleton, if_pos h]

theorem firstComers_append_of_new {capacity : Nat} {xs : List ι} {x : ι} (h : x ∉ xs)
    (hroom : (firstComers capacity xs).length < capacity) :
    firstComers capacity (xs ++ [x]) = firstComers capacity xs ++ [x] := by
  rw [length_firstComers] at hroom
  rw [firstComers, firstComers, eraseDups_append_singleton, if_neg h,
    List.take_of_length_le (by rw [List.length_append, List.length_singleton]; omega),
    List.take_of_length_le (by omega)]

/-! ## Entries -/

theorem toNat_hits_entryOf (xs : List ι) (x : ι) :
    (entryOf xs x).hits.toNat = min (xs.count x) maxHits := by
  rw [entryOf, UInt32.toNat_ofNat', maxHits]
  omega

theorem hits_entryOf_ne_zero {xs : List ι} {x : ι} (h : x ∈ xs) : (entryOf xs x).hits ≠ 0 := by
  intro hzero
  have hcount := toNat_hits_entryOf xs x
  have hpos : 0 < xs.count x := List.count_pos_iff.2 h
  rw [hzero, UInt32.toNat_zero, maxHits] at hcount
  omega

theorem entryOf_append_of_ne {xs : List ι} {x y : ι} (h : y ≠ x) :
    entryOf (xs ++ [x]) y = entryOf xs y := by
  rw [entryOf, entryOf, List.count_append, List.count_singleton, if_neg (by simpa using h.symm),
    Nat.add_zero]

/-- One more hit counts for its item, as far as there is a larger count. -/
theorem entryOf_append_self (xs : List ι) (x : ι) :
    entryOf (xs ++ [x]) x = { item := x, hits := saturatingSucc (entryOf xs x).hits } := by
  rw [entryOf, HeapEntry.mk.injEq]
  refine ⟨rfl, UInt32.toNat_inj.1 ?_⟩
  rw [toNat_saturatingSucc, toNat_hits_entryOf, UInt32.toNat_ofNat', List.count_append,
    List.count_singleton_self, maxHits]
  omega

/-- The first hit of an item. -/
theorem entryOf_of_new {xs : List ι} {x : ι} (h : x ∉ xs) :
    entryOf (xs ++ [x]) x = { item := x, hits := 1 } := by
  rw [entryOf, List.count_append, List.count_eq_zero.2 h, List.count_singleton_self]
  rfl

/-- A hit of a held item changes its entry and no other. -/
theorem table_append_of_held {capacity : Nat} {xs : List ι} {x : ι}
    (h : x ∈ firstComers capacity xs) :
    ∃ rest, (table capacity xs).Perm (entryOf xs x :: rest) ∧
      (table capacity (xs ++ [x])).Perm (entryOf (xs ++ [x]) x :: rest) := by
  have hperm := List.perm_cons_erase h
  refine ⟨((firstComers capacity xs).erase x).map (entryOf xs), hperm.map _, ?_⟩
  rw [table, firstComers_append_of_mem (mem_of_mem_firstComers h)]
  refine (hperm.map _).trans (List.Perm.of_eq ?_)
  rw [List.map_cons, List.cons_inj_right]
  refine List.map_congr_left fun y hy => entryOf_append_of_ne ?_
  rintro rfl
  exact (nodup_firstComers capacity xs).not_mem_erase hy

/-- The first hit of an item for which there is room adds its entry. -/
theorem table_append_of_new {capacity : Nat} {xs : List ι} {x : ι} (h : x ∉ xs)
    (hroom : (firstComers capacity xs).length < capacity) :
    table capacity (xs ++ [x]) = table capacity xs ++ [{ item := x, hits := 1 }] := by
  rw [table, firstComers_append_of_new h hroom, List.map_append, List.map_singleton,
    entryOf_of_new h, table, List.append_left_inj]
  refine List.map_congr_left fun y hy => entryOf_append_of_ne ?_
  rintro rfl
  exact h (mem_of_mem_firstComers hy)

/-- A hit of any other item changes nothing. -/
theorem table_append_of_full {capacity : Nat} {xs : List ι} {x : ι}
    (h : x ∉ firstComers capacity xs) (hfull : (firstComers capacity xs).length = capacity) :
    table capacity (xs ++ [x]) = table capacity xs := by
  rw [table, firstComers_append_of_full hfull, table]
  refine List.map_congr_left fun y hy => entryOf_append_of_ne ?_
  rintro rfl
  exact h hy

/-! ## One hit -/

omit [DecidableEq ι] in
/-- Counting one more hit changes the entry at its position and permutes the array. -/
theorem bump_perm (h : HotHeap ι) {i : Nat} (hi : i < h.entries.size) :
    ((h.bump ⟨i, hi⟩).2.entries.toList).Perm
      ({ h.entries[i] with hits := saturatingSucc h.entries[i].hits } ::
        h.entries.toList.eraseIdx i) := by
  refine (MinHeap.siftUp_perm _ _ _).toList.trans ?_
  rw [Array.toList_set]
  exact List.set_perm_cons_eraseIdx (by simpa using hi) _

omit [DecidableEq ι] in
theorem insert_perm (h : HotHeap ι) (x : ι) :
    (h.insert x).entries.toList.Perm (h.entries.toList ++ [{ item := x, hits := 1 }]) := by
  refine (MinHeap.siftUp_perm _ _ _).toList.trans ?_
  rw [Array.toList_push]

omit [DecidableEq ι] in
theorem replace_perm (h : HotHeap ι) (hs : 0 < h.entries.size) (x : ι) :
    (MinHeap.siftDown hitKey (h.entries.set 0 { item := x, hits := 1 }) 0).toList.Perm
      ({ item := x, hits := 1 } :: h.entries.toList.eraseIdx 0) := by
  refine (MinHeap.siftDown_perm _ _ _).toList.trans ?_
  rw [Array.toList_set]
  exact List.set_perm_cons_eraseIdx (by simpa using hs) _

/-- The three things that a hit can do: it counts for an entry of its item, it adds an entry or it
challenges the root. -/
theorem recordHit_cases (h : HotHeap ι) (x : ι) :
    (∃ (i : Nat) (hi : i < h.entries.size),
      h.entries[i].item = x ∧ h.recordHit x = h.bump ⟨i, hi⟩) ∨
    ((∀ e ∈ h.entries, e.item ≠ x) ∧ h.size < h.capacity ∧
      h.recordHit x = (.inserted, h.insert x)) ∨
    ((∀ e ∈ h.entries, e.item ≠ x) ∧ h.capacity ≤ h.size ∧ h.recordHit x = h.challenge x) := by
  unfold recordHit
  split
  · rename_i i hfind
    rw [Array.findFinIdx?_eq_some_iff] at hfind
    exact .inl ⟨i, i.isLt, by simpa using hfind.1, rfl⟩
  · rename_i hfind
    rw [Array.findFinIdx?_eq_none_iff] at hfind
    have hnone : ∀ e ∈ h.entries, e.item ≠ x := fun e he => by simpa using hfind e he
    split
    · rename_i hroom
      exact .inr (.inl ⟨hnone, hroom, rfl⟩)
    · rename_i hroom
      exact .inr (.inr ⟨hnone, Nat.le_of_not_lt hroom, rfl⟩)

theorem recordHit_of_full {h : HotHeap ι} {x : ι} (hfull : h.capacity ≤ h.size)
    (hx : ∀ e ∈ h.entries, e.item ≠ x) : h.recordHit x = h.challenge x := by
  rcases recordHit_cases h x with ⟨i, hi, hitem, -⟩ | ⟨-, hroom, -⟩ | ⟨-, -, heq⟩
  · exact absurd hitem (hx _ (Array.getElem_mem hi))
  · exact absurd hroom (Nat.not_lt.2 hfull)
  · exact heq

omit [DecidableEq ι] in
/-- There is a root, and it has no hits. -/
def RootIsCold (h : HotHeap ι) : Prop := ∃ root ∈ h.entries[0]?, root.hits = 0

omit [DecidableEq ι] in
instance (h : HotHeap ι) : Decidable h.RootIsCold :=
  inferInstanceAs (Decidable (∃ root ∈ h.entries[0]?, root.hits = 0))

omit [DecidableEq ι] in
/-- A root without hits gives way. -/
theorem challenge_of_cold {h : HotHeap ι} (hcold : h.RootIsCold) (x : ι) :
    ∃ hs : 0 < h.entries.size, h.entries[0].hits = 0 ∧ h.challenge x =
      (.replaced,
        { h with entries :=
            MinHeap.siftDown hitKey (h.entries.set 0 { item := x, hits := 1 }) 0 }) := by
  obtain ⟨root, hroot, hzero⟩ := hcold
  obtain ⟨hs, rfl⟩ := Array.getElem?_eq_some_iff.1 hroot
  refine ⟨hs, hzero, ?_⟩
  rw [challenge, dif_pos hs, if_pos hzero]

omit [DecidableEq ι] in
theorem challenge_of_not_cold {h : HotHeap ι} (hcold : ¬h.RootIsCold) (x : ι) :
    h.challenge x = (.discarded, h) := by
  unfold challenge
  split
  · rename_i hs
    exact if_neg fun hzero => hcold ⟨_, Array.getElem?_eq_getElem hs, hzero⟩
  · rfl

omit [DecidableEq ι] in
/-- A root with hits does not give way. -/
theorem challenge_of_hits {h : HotHeap ι} (hits : ∀ e ∈ h.entries, e.hits ≠ 0) (x : ι) :
    h.challenge x = (.discarded, h) := by
  refine challenge_of_not_cold ?_ x
  rintro ⟨root, hroot, hzero⟩
  exact hits root (Array.mem_of_getElem? hroot) hzero

/-! ## The heap is the table -/

omit [DecidableEq ι] in
/-- No two entries are of one item. -/
def Distinct (h : HotHeap ι) : Prop := (h.entries.toList.map HeapEntry.item).Nodup

/-- Up to order, the heap is the table of some hits. -/
def Tabulates (h : HotHeap ι) (xs : List ι) : Prop := h.entries.toList.Perm (table h.capacity xs)

/-- What a table of first comers answers to a hit after some others. -/
def tableAnswer (capacity : Nat) (xs : List ι) (x : ι) : Admission :=
  if x ∈ firstComers capacity (xs ++ [x]) then
    if x ∈ xs then .updated (entryOf (xs ++ [x]) x).hits else .inserted
  else .discarded

theorem tabulates_nil {h : HotHeap ι} (hempty : h.entries = #[]) : h.Tabulates [] := by
  rw [Tabulates, hempty, table, firstComers, List.eraseDups_nil, List.take_nil, List.map_nil]

namespace Tabulates

variable {h : HotHeap ι} {xs : List ι}

theorem mem_iff (ht : h.Tabulates xs) {e : HeapEntry ι} :
    e ∈ h.entries ↔ e.item ∈ firstComers h.capacity xs ∧ e = entryOf xs e.item := by
  rw [← Array.mem_toList_iff, List.Perm.mem_iff ht, table, List.mem_map]
  constructor
  · rintro ⟨x, hx, rfl⟩
    exact ⟨hx, rfl⟩
  · rintro ⟨hx, he⟩
    exact ⟨e.item, hx, he.symm⟩

theorem size_eq (ht : h.Tabulates xs) : h.size = (firstComers h.capacity xs).length := by
  rw [size, ← Array.length_toList, List.Perm.length_eq ht, table, List.length_map]

theorem size_le (ht : h.Tabulates xs) : h.size ≤ h.capacity := by
  rw [ht.size_eq, length_firstComers]
  exact Nat.min_le_left ..

theorem items_perm (ht : h.Tabulates xs) :
    (h.entries.toList.map HeapEntry.item).Perm (firstComers h.capacity xs) := by
  refine (List.Perm.map _ ht).trans (List.Perm.of_eq ?_)
  rw [table, List.map_map]
  exact List.map_id _

theorem distinct (ht : h.Tabulates xs) : h.Distinct :=
  ht.items_perm.nodup_iff.2 (nodup_firstComers ..)

theorem not_mem_firstComers (ht : h.Tabulates xs) {x : ι} (hx : ∀ e ∈ h.entries, e.item ≠ x) :
    x ∉ firstComers h.capacity xs :=
  fun hmem => hx (entryOf xs x) (ht.mem_iff.2 ⟨hmem, rfl⟩) rfl

theorem hits_ne_zero (ht : h.Tabulates xs) : ∀ e ∈ h.entries, e.hits ≠ 0 := by
  intro e he
  obtain ⟨hmem, heq⟩ := ht.mem_iff.1 he
  rw [heq]
  exact hits_entryOf_ne_zero (mem_of_mem_firstComers hmem)

/-- One more hit: the heap answers as the table does and is the table again. -/
theorem recordHit (ht : h.Tabulates xs) (x : ι) :
    (h.recordHit x).1 = tableAnswer h.capacity xs x ∧ (h.recordHit x).2.Tabulates (xs ++ [x]) ∧
      (x ∉ firstComers h.capacity (xs ++ [x]) → h.recordHit x = (.discarded, h)) := by
  rw [Tabulates, recordHit_capacity]
  rcases recordHit_cases h x with ⟨i, hi, hitem, heq⟩ | ⟨hnone, hroom, heq⟩ | ⟨hnone, hfull, heq⟩
  · -- the item is held
    obtain ⟨hheld, hentry⟩ := ht.mem_iff.1 (Array.getElem_mem hi)
    rw [hitem] at hheld hentry
    have hxs : x ∈ xs := mem_of_mem_firstComers hheld
    have hheld' : x ∈ firstComers h.capacity (xs ++ [x]) := by
      rwa [firstComers_append_of_mem hxs]
    obtain ⟨rest, hold, hnew⟩ := table_append_of_held hheld
    refine ⟨?_, ?_, fun hx => absurd hheld' hx⟩
    · rw [tableAnswer, if_pos hheld', if_pos hxs, entryOf_append_self, ← hentry, heq]
      rfl
    · have hrest : (h.entries.toList.eraseIdx i).Perm rest := by
        have hsplit := List.getElem_cons_eraseIdx_perm (l := h.entries.toList) (n := i)
          (by simpa using hi)
        rw [Array.getElem_toList, hentry] at hsplit
        exact ((hsplit.trans ht).trans hold).cons_inv
      rw [heq]
      refine (bump_perm h hi).trans (List.Perm.trans ?_ hnew.symm)
      rw [hentry, entryOf_append_self]
      exact hrest.cons _
  · -- there is room, so the item was never hit
    have hout := ht.not_mem_firstComers hnone
    rw [ht.size_eq] at hroom
    have hxs : x ∉ xs := fun hx => hout ((mem_firstComers_of_room hroom).2 hx)
    have hheld' : x ∈ firstComers h.capacity (xs ++ [x]) := by
      rw [firstComers_append_of_new hxs hroom]
      simp
    refine ⟨?_, ?_, fun hx => absurd hheld' hx⟩
    · rw [heq, tableAnswer, if_pos hheld', if_neg hxs]
    · rw [heq, table_append_of_new hxs hroom]
      exact (insert_perm h x).trans (List.Perm.append_right _ ht)
  · -- every place is taken, and each by an item with hits
    have hout := ht.not_mem_firstComers hnone
    have hlen : (firstComers h.capacity xs).length = h.capacity := by
      rw [← ht.size_eq]
      exact Nat.le_antisymm ht.size_le hfull
    rw [heq, challenge_of_hits ht.hits_ne_zero, tableAnswer, firstComers_append_of_full hlen,
      if_neg hout, table_append_of_full hout hlen]
    exact ⟨rfl, ht, fun _ => rfl⟩

end Tabulates

/-! ## Runs of hits -/

/-- The heap after some hits. -/
def hitAll (h : HotHeap ι) (xs : List ι) : HotHeap ι := xs.foldl (fun h x => (h.recordHit x).2) h

@[simp] theorem hitAll_capacity (h : HotHeap ι) (xs : List ι) :
    (h.hitAll xs).capacity = h.capacity := by
  induction xs generalizing h with
  | nil => rfl
  | cons x xs ih => exact (ih _).trans (recordHit_capacity h x)

theorem Tabulates.hitAll {h : HotHeap ι} {xs : List ι} (ht : h.Tabulates xs) (ys : List ι) :
    (h.hitAll ys).Tabulates (xs ++ ys) := by
  induction ys generalizing h xs with
  | nil => rwa [List.append_nil]
  | cons y ys ih =>
      rw [List.append_cons]
      exact ih (ht.recordHit y).2.1

omit [DecidableEq ι] in
/-- Every place is taken. -/
def IsFull (h : HotHeap ι) : Prop := h.size = h.capacity

/-- A full heap holds the same items after any further hits. -/
theorem Tabulates.items_hitAll_of_full {h : HotHeap ι} {xs : List ι} (ht : h.Tabulates xs)
    (hfull : h.IsFull) (ys : List ι) :
    ((h.hitAll ys).entries.toList.map HeapEntry.item).Perm
      (h.entries.toList.map HeapEntry.item) := by
  have hitems := (ht.hitAll ys).items_perm
  rw [IsFull, ht.size_eq] at hfull
  rw [hitAll_capacity, firstComers_append_of_full hfull] at hitems
  exact hitems.trans ht.items_perm.symm

/-! ## Room for every item -/

theorem eraseDups_perm {xs ys : List ι} (h : xs.Perm ys) : xs.eraseDups.Perm ys.eraseDups := by
  rw [List.perm_ext_iff_of_nodup (nodup_eraseDups xs) (nodup_eraseDups ys)]
  intro x
  rw [List.mem_eraseDups, List.mem_eraseDups, h.mem_iff]

/-- If there is a place for every item, the order of the hits does not matter. -/
theorem Tabulates.entries_perm_of_room {h : HotHeap ι} {xs ys : List ι} (ht : h.Tabulates xs)
    (hperm : xs.Perm ys) (hroom : ys.eraseDups.length ≤ h.capacity) :
    h.entries.toList.Perm (ys.eraseDups.map (entryOf ys)) := by
  have hdups := eraseDups_perm hperm
  have hentry : entryOf xs = entryOf ys := funext fun x => by rw [entryOf, entryOf, hperm.count_eq]
  have htable : table h.capacity xs = xs.eraseDups.map (entryOf ys) := by
    rw [table, firstComers, List.take_of_length_le (by rwa [hdups.length_eq]), hentry]
  refine List.Perm.trans ht ?_
  rw [htable]
  exact hdups.map _

/-! ## All hits -/

omit [DecidableEq ι] in
/-- The hits of all entries. -/
def hitSum (h : HotHeap ι) : Nat := (h.entries.toList.map hitKey).sum

omit [DecidableEq ι] in
theorem hitSum_of_perm {h : HotHeap ι} {es : List (HeapEntry ι)}
    (hperm : h.entries.toList.Perm es) : h.hitSum = (es.map hitKey).sum :=
  (hperm.map _).sum_nat

/-- What happens to a heap. -/
inductive Op (ι : Type) where
  | hit (x : ι)
  | clear
  deriving DecidableEq, Repr

/-- The heap after an operation, and the answer if it is a hit. -/
def apply (h : HotHeap ι) : Op ι → Option Admission × HotHeap ι
  | .hit x => (some (h.recordHit x).1, (h.recordHit x).2)
  | .clear => (none, h.clear)

/-- The heap after some operations, and the answers. -/
def run (h : HotHeap ι) : List (Op ι) → List (Option Admission) × HotHeap ι
  | [] => ([], h)
  | op :: ops => ((h.apply op).1 :: (run (h.apply op).2 ops).1, (run (h.apply op).2 ops).2)

/-- The items hit since the last clear, or since `xs` if there was none. -/
def recentHits : List ι → List (Op ι) → List ι
  | xs, [] => xs
  | xs, .hit x :: ops => recentHits (xs ++ [x]) ops
  | _, .clear :: ops => recentHits [] ops

/-- What a table of first comers answers to some operations after the hits `xs`. -/
def tableAnswers (capacity : Nat) : List ι → List (Op ι) → List (Option Admission)
  | _, [] => []
  | xs, .hit x :: ops => some (tableAnswer capacity xs x) :: tableAnswers capacity (xs ++ [x]) ops
  | _, .clear :: ops => none :: tableAnswers capacity [] ops

theorem Tabulates.run {h : HotHeap ι} {xs : List ι} (ht : h.Tabulates xs) (ops : List (Op ι)) :
    (h.run ops).1 = tableAnswers h.capacity xs ops ∧
      (h.run ops).2.capacity = h.capacity ∧ (h.run ops).2.Tabulates (recentHits xs ops) := by
  induction ops generalizing h xs with
  | nil => exact ⟨rfl, rfl, ht⟩
  | cons op ops ih =>
      cases op with
      | hit x =>
          obtain ⟨hanswer, hnext, -⟩ := ht.recordHit x
          have hcap := recordHit_capacity h x
          obtain ⟨hanswers, hcap', htab⟩ := ih hnext
          refine ⟨?_, hcap'.trans hcap, htab⟩
          rw [hcap] at hanswers
          exact congrArg₂ (some · :: ·) hanswer hanswers
      | clear =>
          obtain ⟨hanswers, hcap, htab⟩ := ih (tabulates_nil (h := h.clear) rfl)
          exact ⟨congrArg (none :: ·) hanswers, hcap, htab⟩

/-- A table never replaces an item. -/
theorem replaced_not_mem_tableAnswers (capacity : Nat) (xs : List ι) (ops : List (Op ι)) :
    some .replaced ∉ tableAnswers capacity xs ops := by
  induction ops generalizing xs with
  | nil => exact List.not_mem_nil
  | cons op ops ih =>
      cases op with
      | hit x =>
          rw [tableAnswers, List.mem_cons, not_or]
          refine ⟨?_, ih _⟩
          unfold tableAnswer
          split
          · split <;> simp
          · simp
      | clear =>
          rw [tableAnswers, List.mem_cons, not_or]
          exact ⟨by simp, ih _⟩

/-- After any hits and clears a new heap is the table of first comers since the last clear: it holds
the first distinct items, as many as have room, each in one entry with its number of hits. It has
answered as the table does: the first hit of a held item inserts it and any later one tells its
number of hits, a hit of any other item is discarded and changes nothing, and nothing is ever
replaced. So a full heap holds the same items until it is cleared. -/
theorem run_firstComers (capacity : Nat) (ops : List (Op ι)) :
    let answers := (({ capacity } : HotHeap ι).run ops).1
    let h := (({ capacity } : HotHeap ι).run ops).2
    let xs := recentHits [] ops
    h.entries.toList.Perm (table capacity xs) ∧
      (h.entries.toList.map HeapEntry.item).Nodup ∧
      h.size = min capacity xs.eraseDups.length ∧
      answers = tableAnswers capacity [] ops ∧
      some .replaced ∉ answers ∧
      (∀ x, x ∉ firstComers capacity (xs ++ [x]) → h.recordHit x = (.discarded, h)) ∧
      (h.size = capacity → ∀ ys, ((h.hitAll ys).entries.toList.map HeapEntry.item).Perm
        (h.entries.toList.map HeapEntry.item)) := by
  intro answers h xs
  obtain ⟨hanswers, hcap, ht⟩ := (tabulates_nil (h := ({ capacity } : HotHeap ι)) rfl).run ops
  change answers = tableAnswers capacity [] ops at hanswers
  change h.capacity = capacity at hcap
  change h.Tabulates xs at ht
  refine ⟨?_, ?_, ?_, hanswers, ?_, ?_, ?_⟩
  · rw [← hcap]
    exact ht
  · exact ht.items_perm.nodup_iff.2 (nodup_firstComers ..)
  · rw [ht.size_eq, hcap, length_firstComers]
  · rw [hanswers]
    exact replaced_not_mem_tableAnswers capacity [] ops
  · rw [← hcap]
    exact fun x => (ht.recordHit x).2.2
  · rw [← hcap]
    exact ht.items_hitAll_of_full

/-- A heap with one place, cleared in between: the first item since then has it. -/
theorem run_one_place :
    let ops : List (Op Nat) := [.hit 7, .hit 8, .clear, .hit 8, .hit 7, .hit 8]
    let answers := (({ capacity := 1 } : HotHeap Nat).run ops).1
    let h := (({ capacity := 1 } : HotHeap Nat).run ops).2
    answers = [some .inserted, some .discarded, none, some .inserted, some .discarded,
        some (.updated 2)] ∧
      7 ∉ firstComers 1 [8, 7, 8, 7] ∧ h.recordHit 7 = (.discarded, h) ∧ h.size = 1 ∧
      ((h.hitAll [9]).entries.toList.map HeapEntry.item).Perm
        (h.entries.toList.map HeapEntry.item) := by
  obtain ⟨-, -, hsize, hanswers, -, hdiscarded, hstays⟩ :=
    run_firstComers 1 [.hit 7, .hit 8, .clear, .hit 8, .hit 7, .hit 8]
  have hsize' := hsize.trans (by decide : _ = 1)
  exact ⟨hanswers.trans (by decide), by decide, hdiscarded 7 (by decide), hsize', hstays hsize' [9]⟩

end HotHeap

end AccessSampling
