import AccessSampling.Proofs.HeapOrder
import AccessSampling.Proofs.Rounds
import Mathlib.Data.Nat.Log

/-!
# Sifting, swap by swap

A sift is a loop that swaps an element with a neighbour in the tree until it fits. Every swap brings
it one level further, so there are at most as many swaps as there are levels on its way: up to the
root from its position, or from there down to the last position. On that way it stays above its
first position or under it, so no element elsewhere is moved.
-/

namespace AccessSampling.MinHeap

variable {α : Type} {key : α → Nat} {xs : Array α} {i c k : Nat}

/-! ## Levels -/

/-- The level of a position; the root is on level 0. -/
def depth (i : Nat) : Nat := Nat.log2 (i + 1)

theorem depth_parent (h : 0 < i) : depth (parent i) + 1 = depth i := by
  have hhalf : parent i + 1 = (i + 1) / 2 := by
    unfold parent
    omega
  rw [depth, depth, hhalf, Nat.log2_def (i + 1), if_pos (by omega)]

theorem depth_le (h : i ≤ c) : depth i ≤ depth c := by
  unfold depth
  rw [Nat.log2_eq_log_two, Nat.log2_eq_log_two]
  exact Nat.log_mono_right (Nat.add_le_add_right h 1)

/-! ## Subtrees -/

/-- A position is in the subtree of `i`; in other words, `i` is on the path from it to the root. -/
inductive InSubtree (i : Nat) : Nat → Prop where
  | top : InSubtree i i
  | under {k : Nat} (hpos : 0 < k) (h : InSubtree i (parent k)) : InSubtree i k

theorem InSubtree.le (h : InSubtree i k) : i ≤ k := by
  induction h with
  | top => exact Nat.le_refl _
  | under _ _ ih => exact ih.trans (parent_le _)

theorem InSubtree.of_parent (hpos : 0 < c) (h : InSubtree c k) : InSubtree (parent c) k := by
  induction h with
  | top => exact .under hpos .top
  | under hk _ ih => exact .under hk ih

theorem getElem?_swap_of_ne (hi : i < xs.size) (hc : c < xs.size) (hik : i ≠ k) (hck : c ≠ k) :
    (xs.swap i c)[k]? = xs[k]? := by
  rw [Array.getElem?_swap, if_neg hck, if_neg hik]

/-- Sifting up moves elements on the path to the root only. -/
theorem getElem?_siftUp (hk : ¬InSubtree k i) : (siftUp key xs i)[k]? = xs[k]? := by
  fun_induction siftUp key xs i with
  | case1 xs i h hp hlt ih =>
      have hparent : ¬InSubtree k (parent i) := fun hsub => hk (.under h.1 hsub)
      rw [ih hparent]
      exact getElem?_swap_of_ne h.2 hp (fun heq => hk (heq ▸ .top))
        fun heq => hparent (heq ▸ .top)
  | case2 => rfl
  | case3 => rfl

theorem lesserChild_pos (key : α → Nat) (xs : Array α) (i : Nat) : 0 < lesserChild key xs i :=
  Nat.zero_lt_of_lt (lt_lesserChild key xs i)

/-- Sifting down moves elements of the subtree only. -/
theorem getElem?_siftDown (hk : ¬InSubtree i k) : (siftDown key xs i)[k]? = xs[k]? := by
  fun_induction siftDown key xs i with
  | case1 xs i c h hi hlt ih =>
      have hchild : ¬InSubtree c k := fun hsub =>
        hk (parent_lesserChild key xs i ▸ hsub.of_parent (lesserChild_pos key xs i))
      rw [ih hchild]
      exact getElem?_swap_of_ne hi h (fun heq => hk (heq ▸ .top)) fun heq => hchild (heq ▸ .top)
  | case2 => rfl
  | case3 => rfl

/-! ## Swaps -/

/-- A swap upwards, with the position of the element after it. There is none if the element fits. -/
def climb? (key : α → Nat) (xs : Array α) (i : Nat) : Option (Array α × Nat) :=
  if 0 < i ∧ i < xs.size ∧ keyAt key xs i < keyAt key xs (parent i) then
    some (xs.swapIfInBounds i (parent i), parent i)
  else none

/-- A swap downwards, with the position of the element after it. There is none if the element
fits. -/
def sink? (key : α → Nat) (xs : Array α) (i : Nat) : Option (Array α × Nat) :=
  let c := lesserChild key xs i
  if c < xs.size ∧ keyAt key xs c < keyAt key xs i then some (xs.swapIfInBounds i c, c) else none

theorem swapIfInBounds_of_lt (hi : i < xs.size) (hc : c < xs.size) :
    xs.swapIfInBounds i c = xs.swap i c := by
  rw [Array.swapIfInBounds_def, dif_pos hi, dif_pos hc]

theorem siftUp_eq_climb? (key : α → Nat) (xs : Array α) (i : Nat) :
    siftUp key xs i = (climb? key xs i).elim xs fun s => siftUp key s.1 s.2 := by
  conv_lhs => unfold siftUp
  unfold climb?
  by_cases h : 0 < i ∧ i < xs.size
  · have hp : parent i < xs.size := (parent_lt h.1).trans h.2
    rw [dif_pos h, keyAt_of_lt h.2, keyAt_of_lt hp, swapIfInBounds_of_lt h.2 hp]
    by_cases hlt : key xs[i] < key xs[parent i]
    · rw [if_pos hlt, if_pos ⟨h.1, h.2, hlt⟩, Option.elim_some]
    · rw [if_neg hlt, if_neg fun hand => hlt hand.2.2, Option.elim_none]
  · rw [dif_neg h, if_neg fun hand => h ⟨hand.1, hand.2.1⟩, Option.elim_none]

theorem siftDown_eq_sink? (key : α → Nat) (xs : Array α) (i : Nat) :
    siftDown key xs i = (sink? key xs i).elim xs fun s => siftDown key s.1 s.2 := by
  conv_lhs => unfold siftDown
  simp only [sink?]
  by_cases hc : lesserChild key xs i < xs.size
  · have hi : i < xs.size := (lt_lesserChild key xs i).trans hc
    rw [dif_pos hc, keyAt_of_lt hc, keyAt_of_lt hi, swapIfInBounds_of_lt hi hc]
    by_cases hlt : key xs[lesserChild key xs i] < key xs[i]
    · rw [if_pos hlt, if_pos ⟨hc, hlt⟩, Option.elim_some]
    · rw [if_neg hlt, if_neg fun hand => hlt hand.2, Option.elim_none]
  · rw [dif_neg hc, if_neg fun hand => hc hand.1, Option.elim_none]

/-! ## Loops of swaps -/

/-- The array and the position after some swaps, or after fewer if the element fits before. -/
def afterSwaps (swap? : Array α → Nat → Option (Array α × Nat)) (n : Nat) (xs : Array α) (i : Nat) :
    Array α × Nat :=
  Rounds.after (fun s => swap? s.1 s.2) n (xs, i)

/-- A sift that makes of an array what it makes of it after a swap, and leaves it as it is if there
is none, is what the swaps come to. -/
theorem exists_swaps {swap? : Array α → Nat → Option (Array α × Nat)}
    {sift : Array α → Nat → Array α} {levels : Array α × Nat → Nat}
    (hlt : ∀ {xs i s}, swap? xs i = some s → levels s < levels (xs, i))
    (hsift : ∀ xs i, sift xs i = (swap? xs i).elim xs fun s => sift s.1 s.2)
    (xs : Array α) (i : Nat) :
    ∃ n ≤ levels (xs, i), ∃ j, afterSwaps swap? n xs i = (sift xs i, j) ∧
      swap? (sift xs i) j = none := by
  have hsome {s s' : Array α × Nat} (h : swap? s.1 s.2 = some s') :
      sift s'.1 s'.2 = sift s.1 s.2 := by
    rw [hsift s.1 s.2, h, Option.elim_some]
  obtain ⟨n, hn, hend, -⟩ := Rounds.exists_end (fun h => hlt h) (xs, i)
  have hkept : sift (afterSwaps swap? n xs i).1 (afterSwaps swap? n xs i).2 = sift xs i :=
    Rounds.after_keeps (P := fun s => sift s.1 s.2 = sift xs i) (fun h => (hsome h).trans) rfl n
  have harray : (afterSwaps swap? n xs i).1 = sift xs i := by
    rw [← hkept, hsift, afterSwaps, hend, Option.elim_none]
  refine ⟨n, hn, (afterSwaps swap? n xs i).2, Prod.ext harray rfl, ?_⟩
  rw [← harray]
  exact hend

/-- How many levels are left above a position. -/
def levelsAbove (s : Array α × Nat) : Nat := depth s.2

/-- How many levels are left below a position. -/
def levelsBelow (s : Array α × Nat) : Nat := depth (s.1.size - 1) - depth s.2

theorem levelsAbove_climb? {s : Array α × Nat} (h : climb? key xs i = some s) :
    levelsAbove s < levelsAbove (xs, i) := by
  simp only [climb?, Option.ite_none_right_eq_some, Option.some.injEq] at h
  obtain ⟨⟨hpos, -, -⟩, rfl⟩ := h
  exact Nat.lt_of_succ_le (Nat.le_of_eq (depth_parent hpos))

theorem levelsBelow_sink? {s : Array α × Nat} (h : sink? key xs i = some s) :
    levelsBelow s < levelsBelow (xs, i) := by
  simp only [sink?, Option.ite_none_right_eq_some, Option.some.injEq] at h
  obtain ⟨⟨hc, -⟩, rfl⟩ := h
  have hlevel := depth_parent (lesserChild_pos key xs i)
  have hlast : depth (lesserChild key xs i) ≤ depth (xs.size - 1) := depth_le (by omega)
  rw [parent_lesserChild] at hlevel
  simp only [levelsBelow, Array.size_swapIfInBounds]
  omega

/-! ## Both sifts -/

/-- The array `ys` is what a loop of swaps makes of `xs`, starting at `i`: the loop is over after at
most `limit` swaps, `ys` holds what `xs` holds, and the same elements outside the way of the loop.
An array that is ready for the loop is in order after it. -/
structure Sifts (key : α → Nat) (swap? : Array α → Nat → Option (Array α × Nat)) (limit : Nat)
    (Way : Nat → Prop) (Ready : Prop) (xs : Array α) (i : Nat) (ys : Array α) : Prop where
  ends : ∃ n ≤ limit, ∃ j, afterSwaps swap? n xs i = (ys, j) ∧ swap? ys j = none
  perm : ys.Perm xs
  stays : ∀ k, ¬Way k → ys[k]? = xs[k]?
  ordered : Ready → Ordered key ys

/-- Sifting up moves elements on the path to the root alone, by no more swaps than the path has
edges, and sifting down elements of the subtree alone, by no more swaps than there are levels below.
Both restore the order if it is broken only above the position, or only below it, and no child of
the position is below the position above. -/
theorem sifts_along_tree (key : α → Nat) {xs : Array α} {i : Nat} (hi : i < xs.size) :
    siftUp? key xs i = .ok (siftUp key xs i) ∧
      Sifts key (climb? key) (depth i) (fun k => InSubtree k i) (ReadyUp key xs i) xs i
        (siftUp key xs i) ∧
      Sifts key (sink? key) (depth (xs.size - 1) - depth i) (InSubtree i) (ReadyDown key xs i) xs i
        (siftDown key xs i) := by
  refine ⟨siftUp?_eq_ok hi, ⟨?_, siftUp_perm key xs i, fun k => getElem?_siftUp, ?_⟩,
    ⟨?_, siftDown_perm key xs i, fun k => getElem?_siftDown, ordered_siftDown⟩⟩
  · exact exists_swaps levelsAbove_climb? (siftUp_eq_climb? key) xs i
  · exact fun hready => ordered_siftUp hready hi
  · exact exists_swaps levelsBelow_sink? (siftDown_eq_sink? key) xs i

/-- A cold entry climbs from position 4 to the root. A hot one sinks from position 1, past the
colder of two children and then past an only child. -/
theorem sifts_cold_and_hot_entry :
    let cold : Array (HeapEntry Nat) := #[⟨0, 2⟩, ⟨1, 5⟩, ⟨2, 4⟩, ⟨3, 6⟩, ⟨4, 1⟩, ⟨5, 4⟩, ⟨6, 7⟩,
      ⟨7, 8⟩, ⟨8, 6⟩, ⟨9, 5⟩, ⟨10, 9⟩]
    let hot : Array (HeapEntry Nat) := #[⟨0, 2⟩, ⟨1, 9⟩, ⟨2, 4⟩, ⟨3, 6⟩, ⟨4, 5⟩, ⟨5, 4⟩, ⟨6, 7⟩,
      ⟨7, 8⟩, ⟨8, 6⟩, ⟨9, 6⟩]
    let up := siftUp HotHeap.hitKey cold 4
    let down := siftDown HotHeap.hitKey hot 1
    (4 < cold.size ∧ ReadyUp HotHeap.hitKey cold 4 ∧ ¬Ordered HotHeap.hitKey cold) ∧
      up[0]? = some ⟨4, 1⟩ ∧ up[5]? = cold[5]? ∧ Ordered HotHeap.hitKey up ∧
      (∃ n ≤ 2, ∃ j, afterSwaps (climb? HotHeap.hitKey) n cold 4 = (up, j)) ∧
      (1 < hot.size ∧ ReadyDown HotHeap.hitKey hot 1 ∧ ¬Ordered HotHeap.hitKey hot) ∧
      down[9]? = some ⟨1, 9⟩ ∧ down[0]? = hot[0]? ∧ Ordered HotHeap.hitKey down ∧
      ∃ n ≤ 2, ∃ j, afterSwaps (sink? HotHeap.hitKey) n hot 1 = (down, j) := by
  intro cold hot up down
  have hcold : 4 < cold.size := by decide
  have hhot : 1 < hot.size := by decide
  have hreadyUp : ReadyUp HotHeap.hitKey cold 4 := ⟨by decide, by decide⟩
  have hreadyDown : ReadyDown HotHeap.hitKey hot 1 := ⟨by decide, by decide⟩
  obtain ⟨-, hup, -⟩ := sifts_along_tree HotHeap.hitKey hcold
  obtain ⟨-, -, hdown⟩ := sifts_along_tree HotHeap.hitKey hhot
  obtain ⟨n, hn, j, hafter, -⟩ := hup.ends
  obtain ⟨n', hn', j', hafter', -⟩ := hdown.ends
  refine ⟨⟨hcold, hreadyUp, by decide⟩, by decide +kernel, hup.stays 5 ?_, hup.ordered hreadyUp,
    ⟨n, hn.trans (by decide), j, hafter⟩, ⟨hhot, hreadyDown, by decide⟩, by decide +kernel,
    hdown.stays 0 ?_, hdown.ordered hreadyDown, n', hn'.trans (by decide), j', hafter'⟩
  · exact fun hsub => absurd hsub.le (by decide)
  · exact fun hsub => absurd hsub.le (by decide)

end AccessSampling.MinHeap
