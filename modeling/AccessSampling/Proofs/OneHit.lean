import AccessSampling.Proofs.HeapOrder

/-!
# One hit

What a hit does to any array of entries, be it out of order, longer than the capacity or with
entries without hits. It changes one entry at most, and the answer tells which. Of an array in order
only the hit of a held item can put edges out of order: those down to the children that it passes.
-/

namespace AccessSampling

namespace HotHeap

variable {ι : Type}

/-- There is an entry of the item. -/
def Holds (h : HotHeap ι) (x : ι) : Prop := ∃ e ∈ h.entries, e.item = x

theorem Distinct.eq_of_item_eq {h : HotHeap ι} (hdistinct : h.Distinct) {e e' : HeapEntry ι}
    (he : e ∈ h.entries) (he' : e' ∈ h.entries) (heq : e.item = e'.item) : e = e' :=
  List.inj_on_of_nodup_map hdistinct (Array.mem_toList_iff.2 he) (Array.mem_toList_iff.2 he') heq

end HotHeap

/-! ## Answers -/

namespace Admission

variable {ι : Type} {h h' : HotHeap ι} {x : ι}

/-- A hit of `x` gets this answer. -/
def Due (h : HotHeap ι) (x : ι) : Admission → Prop
  | .updated hits =>
      ∃ e ∈ h.entries, e.item = x ∧ hits.toNat = min (e.hits.toNat + 1) HotHeap.maxHits
  | .inserted => ¬h.Holds x ∧ h.size < h.capacity
  | .replaced => ¬h.Holds x ∧ h.capacity ≤ h.size ∧ h.RootIsCold
  | .discarded => ¬h.Holds x ∧ h.capacity ≤ h.size ∧ ¬h.RootIsCold

/-- What the answer to a hit of `x` says of the entries before and after it. -/
def Changes (h h' : HotHeap ι) (x : ι) : Admission → Prop
  | .updated hits => ∃ e rest, e.item = x ∧ h.entries.toList.Perm (e :: rest) ∧
      h'.entries.toList.Perm ({ e with hits } :: rest)
  | .inserted => h'.entries.toList.Perm ({ item := x, hits := 1 } :: h.entries.toList)
  | .replaced => ∃ root rest, h.entries.toList = root :: rest ∧
      h'.entries.toList.Perm ({ item := x, hits := 1 } :: rest)
  | .discarded => h' = h

/-- What the answer to a hit of `x` says of the order, if the entries were in order before it. -/
def LeavesOrder (h h' : HotHeap ι) (x : ι) : Admission → Prop
  | .updated hits => ∃ (i : Nat) (hi : i < h.entries.size), h.entries[i].item = x ∧
      h'.entries = h.entries.set i { h.entries[i] with hits } ∧
      ∀ c, h'.Violated c ↔
        0 < c ∧ c < h.size ∧ MinHeap.parent c = i ∧ h.hitsAt c < hits.toNat
  | .inserted | .replaced | .discarded => h'.IsOrdered

theorem Due.holds {hits : UInt32} (hdue : (updated hits).Due h x) : h.Holds x := by
  obtain ⟨e, he, hitem, -⟩ := hdue
  exact ⟨e, he, hitem⟩

/-- No hit gets two answers. -/
theorem Due.unique (hdistinct : h.Distinct) {a b : Admission} (ha : a.Due h x) (hb : b.Due h x) :
    a = b := by
  cases a with
  | updated hits =>
      cases b with
      | updated hits' =>
          -- both tell the count of the one entry of the item
          obtain ⟨e, he, hitem, hhits⟩ := ha
          obtain ⟨e', he', hitem', hhits'⟩ := hb
          obtain rfl := hdistinct.eq_of_item_eq he he' (hitem.trans hitem'.symm)
          rw [UInt32.toNat_inj.1 (hhits.trans hhits'.symm)]
      | inserted | replaced | discarded => exact absurd ha.holds hb.1
  | inserted =>
      cases b with
      | updated => exact absurd hb.holds ha.1
      | inserted => rfl
      | replaced | discarded => exact absurd ha.2 (Nat.not_lt.2 hb.2.1)
  | replaced =>
      cases b with
      | updated => exact absurd hb.holds ha.1
      | inserted => exact absurd hb.2 (Nat.not_lt.2 ha.2.1)
      | replaced => rfl
      | discarded => exact absurd ha.2.2 hb.2.2
  | discarded =>
      cases b with
      | updated => exact absurd hb.holds ha.1
      | inserted => exact absurd hb.2 (Nat.not_lt.2 ha.2.1)
      | replaced => exact absurd hb.2.2 ha.2.2
      | discarded => rfl

/-- The items stay distinct, since an item gets a new entry only if it has none. -/
theorem Changes.distinct {a : Admission} (hchange : a.Changes h h' x) (hdue : a.Due h x)
    (hdistinct : h.Distinct) : h'.Distinct := by
  have hnew (hunheld : ¬h.Holds x) : x ∉ h.entries.toList.map HeapEntry.item := by
    rw [List.mem_map]
    rintro ⟨e, he, hitem⟩
    exact hunheld ⟨e, Array.mem_toList_iff.1 he, hitem⟩
  rw [HotHeap.Distinct] at hdistinct ⊢
  cases a with
  | updated hits =>
      obtain ⟨e, rest, -, hbefore, hafter⟩ := hchange
      exact (hafter.map _).nodup_iff.2 ((hbefore.map HeapEntry.item).nodup_iff.1 hdistinct)
  | inserted =>
      rw [(hchange.map HeapEntry.item).nodup_iff]
      exact List.nodup_cons.2 ⟨hnew hdue.1, hdistinct⟩
  | replaced =>
      -- the root is gone, and the new item is none of the others
      obtain ⟨root, rest, hbefore, hafter⟩ := hchange
      have hout := hnew hdue.1
      rw [hbefore, List.map_cons] at hdistinct hout
      rw [(hafter.map HeapEntry.item).nodup_iff]
      exact List.nodup_cons.2
        ⟨fun hmem => hout (List.mem_cons_of_mem _ hmem), (List.nodup_cons.1 hdistinct).2⟩
  | discarded =>
      rw [show h' = h from hchange]
      exact hdistinct

/-- The array gets longer only while there is room. -/
theorem Changes.size_le {a : Admission} (hchange : a.Changes h h' x) (hdue : a.Due h x) :
    h'.size ≤ max h.capacity h.size := by
  cases a with
  | updated hits =>
      obtain ⟨e, rest, -, hbefore, hafter⟩ := hchange
      have hsize : h'.size = h.size := hafter.length_eq.trans hbefore.length_eq.symm
      rw [hsize]
      exact Nat.le_max_right _ _
  | inserted =>
      have hsize : h'.size = h.size + 1 := hchange.length_eq
      have hroom : h.size < h.capacity := hdue.2
      rw [hsize]
      exact Nat.le_trans hroom (Nat.le_max_left _ _)
  | replaced =>
      obtain ⟨root, rest, hbefore, hafter⟩ := hchange
      have hsize : h'.size = h.size :=
        hafter.length_eq.trans (congrArg List.length hbefore).symm
      rw [hsize]
      exact Nat.le_max_right _ _
  | discarded =>
      rw [show h' = h from hchange]
      exact Nat.le_max_right _ _

end Admission

/-! ## Entries -/

namespace HotHeap

variable {ι : Type} [DecidableEq ι] {h : HotHeap ι}

omit [DecidableEq ι] in
theorem toList_entries (hs : 0 < h.entries.size) :
    h.entries.toList = h.entries[0] :: h.entries.toList.eraseIdx 0 := by
  rw [List.eraseIdx_zero, ← List.drop_one, ← Array.getElem_toList, List.getElem_cons_drop,
    List.drop_zero]

/-- The answer to a hit is the one that is due, and the entries change as it says. -/
theorem due_and_changes_recordHit (h : HotHeap ι) (x : ι) :
    (h.recordHit x).1.Due h x ∧ (h.recordHit x).1.Changes h (h.recordHit x).2 x := by
  have hunheld (hnone : ∀ e ∈ h.entries, e.item ≠ x) : ¬h.Holds x := by
    rintro ⟨e, he, hitem⟩
    exact hnone e he hitem
  rcases recordHit_cases h x with
    ⟨i, hi, hitem, heq⟩ | ⟨hnone, hroom, heq⟩ | ⟨hnone, hfull, heq⟩
  · have hsplit := List.getElem_cons_eraseIdx_perm (l := h.entries.toList) (n := i)
      (by simpa using hi)
    rw [Array.getElem_toList] at hsplit
    rw [heq]
    exact ⟨⟨_, Array.getElem_mem hi, hitem, toNat_saturatingSucc _⟩,
      ⟨_, _, hitem, hsplit.symm, bump_perm h hi⟩⟩
  · rw [heq]
    exact ⟨⟨hunheld hnone, hroom⟩, (insert_perm h x).trans (List.perm_append_singleton _ _)⟩
  · by_cases hcold : h.RootIsCold
    · obtain ⟨hs, -, hreplaced⟩ := challenge_of_cold hcold x
      rw [heq, hreplaced]
      exact ⟨⟨hunheld hnone, hfull, hcold⟩, _, _, toList_entries hs, replace_perm h hs x⟩
    · rw [heq, challenge_of_not_cold hcold]
      exact ⟨⟨hunheld hnone, hfull, hcold⟩, rfl⟩

/-- A hit gets the answer that is due and no other, and changes the entries in that one way: a held
item has one hit more, as far as there is a larger count; an item that is not held gets an entry if
there is room, or else the place of the root if the root has no hits; otherwise nothing changes. The
items stay distinct, and the array gets no longer than it was or than the capacity. -/
theorem recordHit_changes {h : HotHeap ι} (hdistinct : h.Distinct) (x : ι) :
    (∀ a, (h.recordHit x).1 = a ↔ a.Due h x) ∧
      (h.recordHit x).1.Changes h (h.recordHit x).2 x ∧
      (h.recordHit x).2.Distinct ∧
      (h.recordHit x).2.size ≤ max h.capacity h.size := by
  obtain ⟨hdue, hchange⟩ := due_and_changes_recordHit h x
  refine ⟨fun a => ⟨?_, hdue.unique hdistinct⟩, hchange, hchange.distinct hdue hdistinct,
    hchange.size_le hdue⟩
  rintro rfl
  exact hdue

/-- An array out of order and longer than its capacity: an unknown item takes the place of the root,
and a count that is full already stays as it is. -/
theorem recordHit_changes_overfull :
    let h : HotHeap Nat :=
      { capacity := 2, entries := #[⟨0, 0⟩, ⟨1, 0xffffffff⟩, ⟨2, 3⟩, ⟨3, 0⟩] }
    h.Distinct ∧ ¬h.IsOrdered ∧
      (h.recordHit 9).1 = .replaced ∧ Admission.replaced.Changes h (h.recordHit 9).2 9 ∧
      (h.recordHit 9).2.Distinct ∧ (h.recordHit 9).2.size ≤ max 2 4 ∧
      (h.recordHit 1).1 = .updated 0xffffffff := by
  intro h
  have hdistinct : h.Distinct := by
    unfold Distinct
    decide
  obtain ⟨-, hchange, hstays, hsize⟩ := recordHit_changes hdistinct 9
  obtain ⟨hanswer, -⟩ := recordHit_changes hdistinct 1
  have hreplaced : (h.recordHit 9).1 = .replaced := by decide +kernel
  rw [hreplaced] at hchange
  refine ⟨hdistinct, by decide, hreplaced, hchange, hstays, hsize, (hanswer _).2 ?_⟩
  exact ⟨⟨1, 0xffffffff⟩, by simp [h], rfl, by decide⟩

/-! ## Order -/

/-- A heap in order is in order after a hit unless the item was held. Then every entry is in its
place still, and the edges out of order are those from the entry of the item down to its children
with fewer hits. -/
theorem recordHit_leavesOrder {h : HotHeap ι} (ho : h.IsOrdered) (x : ι) :
    (h.recordHit x).1.LeavesOrder h (h.recordHit x).2 x := by
  rcases recordHit_cases h x with ⟨i, hi, hitem, heq⟩ | ⟨-, -, heq⟩ | ⟨-, -, heq⟩
  · -- in order, the entry that is hit is not below the one above it, so the sift stops at once
    rw [heq]
    exact ⟨i, hi, hitem, entries_bump ho hi, violated_bump ho hi⟩
  · rw [heq]
    exact isOrdered_insert ho x
  · by_cases hcold : h.RootIsCold
    · obtain ⟨hs, -, hreplaced⟩ := challenge_of_cold hcold x
      rw [heq, hreplaced]
      exact isOrdered_replace ho hs _
    · rw [heq, challenge_of_not_cold hcold]
      exact ho

/-- A hit passes one child of its entry and not the other. An unknown item sinks from the root. -/
theorem recordHit_leavesOrder_passedChild :
    let h : HotHeap Nat := { capacity := 3, entries := #[⟨0, 0⟩, ⟨1, 1⟩, ⟨2, 0⟩, ⟨3, 1⟩, ⟨4, 3⟩] }
    h.IsOrdered ∧
      (h.recordHit 1).1 = .updated 2 ∧ (∀ c, (h.recordHit 1).2.Violated c ↔ c = 3) ∧
      (h.recordHit 9).1 = .replaced ∧ (h.recordHit 9).2.IsOrdered := by
  intro h
  have ho : h.IsOrdered := by decide
  have hupdated : (h.recordHit 1).1 = .updated 2 := by decide +kernel
  have hreplaced : (h.recordHit 9).1 = .replaced := by decide +kernel
  have hupdate := recordHit_leavesOrder ho 1
  have hreplace := recordHit_leavesOrder ho 9
  rw [hupdated] at hupdate
  rw [hreplaced] at hreplace
  obtain ⟨i, hi, hitem, -, hviolated⟩ := hupdate
  obtain rfl : i = 1 :=
    (by decide : ∀ i (hi : i < h.entries.size), h.entries[i].item = 1 → i = 1) i hi hitem
  refine ⟨ho, hupdated, fun c => (hviolated c).trans ⟨?_, ?_⟩, hreplaced, hreplace⟩
  · rintro ⟨-, hc, hparent, hlt⟩
    exact (by decide : ∀ c < h.size, MinHeap.parent c = 1 → h.hitsAt c < 2 → c = 3) c hc hparent hlt
  · rintro rfl
    decide

end HotHeap

end AccessSampling
