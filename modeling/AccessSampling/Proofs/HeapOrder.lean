import AccessSampling.Proofs.FirstCome

/-!
# The order of a hot item heap

Both sifts restore the order when one entry alone is out of place. A heap is ordered as long as no
hit raises the count of an entry above that of one of its children. The sift of a hit goes upwards
only, so such an entry stays where it is, and the edges down to those children are then the ones out
of order. The root of an ordered heap is a coldest entry; the root of one out of order may be the
hottest, but as it has hits all the same, a full heap still turns every newcomer away.
-/

namespace AccessSampling

namespace MinHeap

variable {α : Type} {key : α → Nat} {xs : Array α} {i c : Nat}

/-! ## Order -/

theorem parent_le (i : Nat) : parent i ≤ i := by
  unfold parent
  omega

/-- The position above a position; the root is above itself. -/
def above {n : Nat} (c : Fin n) : Fin n := ⟨parent c, Nat.lt_of_le_of_lt (parent_le c) c.isLt⟩

/-- No key is below the one above it. -/
def Ordered (key : α → Nat) (xs : Array α) : Prop :=
  ∀ c : Fin xs.size, 0 < c.val → key xs[above c] ≤ key xs[c]

instance (key : α → Nat) (xs : Array α) : Decidable (Ordered key xs) :=
  inferInstanceAs (Decidable (∀ c : Fin xs.size, 0 < c.val → key xs[above c] ≤ key xs[c]))

/-- The key at a position of the array. -/
def keyAt (key : α → Nat) (xs : Array α) (i : Nat) : Nat := (xs[i]?.map key).getD 0

theorem keyAt_of_lt (h : i < xs.size) : keyAt key xs i = key xs[i] := by
  rw [keyAt, Array.getElem?_eq_getElem h, Option.map_some, Option.getD_some]

theorem keyAt_swap {j : Nat} (hi : i < xs.size) (hj : j < xs.size) (k : Nat) :
    keyAt key (xs.swap i j) k =
      if j = k then keyAt key xs i else if i = k then keyAt key xs j else keyAt key xs k := by
  rw [keyAt_of_lt hi, keyAt_of_lt hj, keyAt, Array.getElem?_swap]
  split
  · rfl
  · split <;> rfl

theorem keyAt_set (hi : i < xs.size) (a : α) (k : Nat) :
    keyAt key (xs.set i a) k = if i = k then key a else keyAt key xs k := by
  rw [keyAt, Array.getElem?_set]
  split <;> rfl

theorem keyAt_push_of_lt (hi : i < xs.size) (a : α) : keyAt key (xs.push a) i = keyAt key xs i := by
  rw [keyAt, Array.getElem?_push, if_neg (Nat.ne_of_lt hi), keyAt]

theorem ordered_iff : Ordered key xs ↔
    ∀ c < xs.size, 0 < c → keyAt key xs (parent c) ≤ keyAt key xs c := by
  constructor
  · intro h c hc hpos
    rw [keyAt_of_lt hc, keyAt_of_lt (Nat.lt_of_le_of_lt (parent_le c) hc)]
    exact h ⟨c, hc⟩ hpos
  · intro h c hpos
    have hkeys := h c c.isLt hpos
    rw [keyAt_of_lt c.isLt, keyAt_of_lt (Nat.lt_of_le_of_lt (parent_le c) c.isLt)] at hkeys
    exact hkeys

/-- The root of an ordered array has a least key. -/
theorem Ordered.root_le (h : Ordered key xs) (hi : i < xs.size) :
    keyAt key xs 0 ≤ keyAt key xs i := by
  induction i using Nat.strongRecOn with
  | ind i ih =>
      rcases Nat.eq_zero_or_pos i with rfl | hpos
      · exact Nat.le_refl _
      · have hparent := parent_lt hpos
        exact (ih _ hparent (hparent.trans hi)).trans (ordered_iff.1 h i hi hpos)

/-! ## Sifting upwards -/

/-- An element that is not below the one above it stays where it is. -/
theorem siftUp_of_le (h : keyAt key xs (parent i) ≤ keyAt key xs i) : siftUp key xs i = xs := by
  unfold siftUp
  split
  · rename_i hi
    rw [keyAt_of_lt hi.2, keyAt_of_lt (Nat.lt_of_le_of_lt (parent_le i) hi.2)] at h
    exact if_neg (Nat.not_lt.2 h)
  · rfl

/-- All edges are in order but the one above `i`, and no child of `i` is below the position above
`i`. -/
structure ReadyUp (key : α → Nat) (xs : Array α) (i : Nat) : Prop where
  edges : ∀ c < xs.size, 0 < c → c ≠ i → keyAt key xs (parent c) ≤ keyAt key xs c
  children : 0 < i → ∀ c < xs.size, 0 < c → parent c = i →
    keyAt key xs (parent i) ≤ keyAt key xs c

/-- The element at `i` changes places with the one above it. -/
theorem ReadyUp.swap (h : ReadyUp key xs i) (hpos : 0 < i) (hi : i < xs.size)
    (hp : parent i < xs.size) (hlt : keyAt key xs i < keyAt key xs (parent i)) :
    ReadyUp key (xs.swap i (parent i)) (parent i) := by
  have hparent := parent_lt hpos
  constructor
  · intro c hc hcpos hne
    rw [Array.size_swap] at hc
    have hbelow := parent_lt hcpos
    rw [keyAt_swap, keyAt_swap]
    by_cases hci : c = i
    · subst hci
      rw [if_pos rfl, if_neg (Ne.symm hne), if_pos rfl]
      exact Nat.le_of_lt hlt
    · have hedge := h.edges c hc hcpos hci
      rw [if_neg (Ne.symm hne), if_neg (Ne.symm hci)]
      split
      · rename_i heq
        rw [← heq] at hedge
        exact (Nat.le_of_lt hlt).trans hedge
      · split
        · rename_i heq
          exact h.children hpos c hc hcpos heq.symm
        · exact hedge
  · intro hpos' c hc hcpos heq
    rw [Array.size_swap] at hc
    have hgrand := parent_lt hpos'
    have hbelow := parent_lt hcpos
    have hedge := h.edges (parent i) hp hpos' (Nat.ne_of_lt hparent)
    rw [keyAt_swap, keyAt_swap, if_neg (Nat.ne_of_gt hgrand), if_neg (by omega),
      if_neg (by omega)]
    split
    · exact hedge
    · rename_i hci
      have hsibling := h.edges c hc hcpos (Ne.symm hci)
      rw [heq] at hsibling
      exact hedge.trans hsibling

/-- Sifting up restores the order. -/
theorem ordered_siftUp (h : ReadyUp key xs i) (hi : i < xs.size) :
    Ordered key (siftUp key xs i) := by
  fun_induction siftUp key xs i with
  | case1 xs i hpos hp hlt ih =>
      have hbelow : keyAt key xs i < keyAt key xs (parent i) := by
        rwa [keyAt_of_lt hpos.2, keyAt_of_lt hp]
      exact ih (h.swap hpos.1 hpos.2 hp hbelow) (by simpa using hp)
  | case2 xs i hpos hp hle =>
      refine ordered_iff.2 fun c hc hcpos => ?_
      by_cases hci : c = i
      · rw [hci, keyAt_of_lt hpos.2, keyAt_of_lt hp]
        exact Nat.le_of_not_lt hle
      · exact h.edges c hc hcpos hci
  | case3 xs i hroot =>
      have hzero : i = 0 := by omega
      exact ordered_iff.2 fun c hc hcpos => h.edges c hc hcpos (by omega)

/-! ## Sifting downwards -/

theorem lesserChild_eq_ite (key : α → Nat) (xs : Array α) (i : Nat) :
    lesserChild key xs i =
      if 2 * i + 2 < xs.size ∧ keyAt key xs (2 * i + 2) < keyAt key xs (2 * i + 1) then 2 * i + 2
      else 2 * i + 1 := by
  unfold lesserChild
  split
  · rename_i hright
    have hleft : 2 * i + 1 < xs.size := by omega
    simp only [keyAt_of_lt hright, keyAt_of_lt hleft, hright, true_and]
  · rename_i hright
    rw [if_neg fun h => hright h.1]

theorem parent_lesserChild (key : α → Nat) (xs : Array α) (i : Nat) :
    parent (lesserChild key xs i) = i := by
  rw [lesserChild_eq_ite]
  unfold parent
  split <;> omega

/-- No child is below the lesser one. -/
theorem keyAt_lesserChild_le (hc : c < xs.size) (hpos : 0 < c) (hparent : parent c = i) :
    keyAt key xs (lesserChild key xs i) ≤ keyAt key xs c := by
  have hchild : c = 2 * i + 1 ∨ c = 2 * i + 2 := by
    unfold parent at hparent
    omega
  rw [lesserChild_eq_ite]
  split
  · rename_i hright
    rcases hchild with rfl | rfl
    · exact Nat.le_of_lt hright.2
    · exact Nat.le_refl _
  · rename_i hright
    rcases hchild with rfl | rfl
    · exact Nat.le_refl _
    · exact Nat.le_of_not_lt fun hlt => hright ⟨hc, hlt⟩

/-- All edges are in order but those below `i`, and no child of `i` is below the position above
`i`. -/
structure ReadyDown (key : α → Nat) (xs : Array α) (i : Nat) : Prop where
  edges : ∀ c < xs.size, 0 < c → parent c ≠ i → keyAt key xs (parent c) ≤ keyAt key xs c
  children : 0 < i → ∀ c < xs.size, 0 < c → parent c = i →
    keyAt key xs (parent i) ≤ keyAt key xs c

/-- The element at `i` changes places with its lesser child. -/
theorem ReadyDown.swap (h : ReadyDown key xs i) (hc : c < xs.size) (hi : i < xs.size)
    (hchild : c = lesserChild key xs i) (hlt : keyAt key xs c < keyAt key xs i) :
    ReadyDown key (xs.swap i c) c := by
  have hbelow : i < c := hchild ▸ lt_lesserChild key xs i
  have hparent : parent c = i := hchild ▸ parent_lesserChild key xs i
  constructor
  · intro d hd hpos hne
    rw [Array.size_swap] at hd
    have habove := parent_lt hpos
    rw [keyAt_swap, keyAt_swap, if_neg (Ne.symm hne)]
    by_cases hdi : parent d = i
    · -- the lesser child is above the element that it passed, and above its sibling
      rw [if_pos hdi.symm]
      split
      · exact Nat.le_of_lt hlt
      · rw [if_neg (by omega), hchild]
        exact keyAt_lesserChild_le hd hpos hdi
    · rw [if_neg (Ne.symm hdi), if_neg (by rintro rfl; exact hdi hparent)]
      split
      · rename_i heq
        subst heq
        exact h.children hpos c hc (by omega) hparent
      · exact h.edges d hd hpos hdi
  · intro hpos d hd hdpos hdc
    rw [Array.size_swap] at hd
    have habove := parent_lt hdpos
    have hedge := h.edges d hd hdpos (by omega)
    rw [hdc] at hedge
    rw [hparent, keyAt_swap, keyAt_swap, if_neg (by omega), if_pos rfl, if_neg (by omega),
      if_neg (by omega)]
    exact hedge

/-- Sifting down restores the order. -/
theorem ordered_siftDown (h : ReadyDown key xs i) : Ordered key (siftDown key xs i) := by
  fun_induction siftDown key xs i with
  | case1 xs i c hc hi hlt ih =>
      refine ih (h.swap hc hi rfl ?_)
      rwa [keyAt_of_lt hc, keyAt_of_lt hi]
  | case2 xs i c hc hi hle =>
      refine ordered_iff.2 fun d hd hpos => ?_
      by_cases hdi : parent d = i
      · have hleast : keyAt key xs c ≤ keyAt key xs d := keyAt_lesserChild_le hd hpos hdi
        rw [keyAt_of_lt hc] at hleast
        rw [hdi, keyAt_of_lt hi]
        exact (Nat.le_of_not_lt hle).trans hleast
      · exact h.edges d hd hpos hdi
  | case3 xs i c hc =>
      refine ordered_iff.2 fun d hd hpos => h.edges d hd hpos ?_
      rintro rfl
      rw [lesserChild_lt_iff] at hc
      unfold parent at hc
      omega

end MinHeap

namespace HotHeap

variable {ι : Type} {h : HotHeap ι} {i : Nat}

/-! ## One hit -/

/-- No entry has fewer hits than the one above it. -/
def IsOrdered (h : HotHeap ι) : Prop := MinHeap.Ordered hitKey h.entries

/-- The number of hits of the entry at a position. -/
def hitsAt (h : HotHeap ι) (i : Nat) : Nat := MinHeap.keyAt hitKey h.entries i

/-- The edge down to position `c` is out of order. -/
def Violated (h : HotHeap ι) (c : Nat) : Prop :=
  0 < c ∧ c < h.size ∧ h.hitsAt c < h.hitsAt (MinHeap.parent c)

instance (h : HotHeap ι) : Decidable h.IsOrdered :=
  inferInstanceAs (Decidable (MinHeap.Ordered hitKey h.entries))

/-- A hit of the item would raise its entry above a child of that entry. -/
def Overtakes (h : HotHeap ι) (x : ι) : Prop :=
  ∃ c : Fin h.entries.size, 0 < c.val ∧ h.entries[MinHeap.above c].item = x ∧
    h.hitsAt c < (saturatingSucc h.entries[MinHeap.above c].hits).toNat

theorem le_saturatingSucc (n : UInt32) : n.toNat ≤ (saturatingSucc n).toNat := by
  have hn := n.toNat_lt
  rw [toNat_saturatingSucc]
  omega

theorem hitsAt_of_lt (hi : i < h.entries.size) : h.hitsAt i = h.entries[i].hits.toNat :=
  MinHeap.keyAt_of_lt hi

theorem isOrdered_iff : h.IsOrdered ↔ ∀ c, ¬h.Violated c := by
  rw [IsOrdered, MinHeap.ordered_iff]
  refine forall_congr' fun c => ?_
  rw [Violated, not_and, not_and, Nat.not_lt]
  exact forall_comm

section Ordered

variable (ho : h.IsOrdered)
include ho

theorem hitsAt_parent_le (hi : i < h.entries.size) : h.hitsAt (MinHeap.parent i) ≤ h.hitsAt i := by
  rcases Nat.eq_zero_or_pos i with rfl | hpos
  · exact Nat.le_refl _
  · exact MinHeap.ordered_iff.1 ho i hi hpos

/-- The entry of an ordered heap that is hit stays where it is. -/
theorem entries_bump (hi : i < h.entries.size) :
    (h.bump ⟨i, hi⟩).2.entries =
      h.entries.set i { h.entries[i] with hits := saturatingSucc h.entries[i].hits } := by
  refine MinHeap.siftUp_of_le ?_
  have habove := hitsAt_parent_le ho hi
  have hraised := le_saturatingSucc h.entries[i].hits
  rw [hitsAt_of_lt hi] at habove
  rw [MinHeap.keyAt_set hi, MinHeap.keyAt_set hi, if_pos rfl]
  split
  · exact Nat.le_refl _
  · exact habove.trans hraised

/-- After a hit of an ordered heap, the edges out of order are those from the entry that was hit
down to its children with fewer hits. -/
theorem violated_bump (hi : i < h.entries.size) (c : Nat) : (h.bump ⟨i, hi⟩).2.Violated c ↔
    0 < c ∧ c < h.size ∧ MinHeap.parent c = i ∧
      h.hitsAt c < (saturatingSucc h.entries[i].hits).toNat := by
  rw [Violated, size, hitsAt, hitsAt, entries_bump ho hi, Array.size_set]
  refine and_congr_right fun hpos => and_congr_right fun hc => ?_
  have hne : MinHeap.parent c ≠ c := Nat.ne_of_lt (MinHeap.parent_lt hpos)
  have hraised := le_saturatingSucc h.entries[i].hits
  have hedge := hitsAt_parent_le ho hc
  rw [MinHeap.keyAt_set hi, MinHeap.keyAt_set hi]
  by_cases hparent : MinHeap.parent c = i
  · rw [if_pos hparent.symm, if_neg (hparent ▸ hne)]
    exact (and_iff_right hparent).symm
  · rw [if_neg (Ne.symm hparent)]
    refine iff_of_false (Nat.not_lt.2 ?_) fun hand => hparent hand.1
    split
    · rename_i hci
      subst hci
      rw [hitsAt_of_lt hc] at hedge
      exact hedge.trans hraised
    · exact hedge

/-- A hit keeps the order unless the count of its entry passes that of a child. -/
theorem isOrdered_bump (hi : i < h.entries.size) : (h.bump ⟨i, hi⟩).2.IsOrdered ↔
    ∀ c < h.entries.size, 0 < c → MinHeap.parent c = i →
      (saturatingSucc h.entries[i].hits).toNat ≤ h.hitsAt c := by
  rw [isOrdered_iff]
  refine forall_congr' fun c => ?_
  rw [violated_bump ho hi, size]
  simp only [not_and, Nat.not_lt]
  exact forall_comm

theorem isOrdered_insert (x : ι) : (h.insert x).IsOrdered := by
  refine MinHeap.ordered_siftUp ⟨?_, ?_⟩ (by simp)
  · intro c hc hpos hne
    rw [Array.size_push] at hc
    have hold : c < h.entries.size := by omega
    rw [MinHeap.keyAt_push_of_lt hold,
      MinHeap.keyAt_push_of_lt (Nat.lt_of_le_of_lt (MinHeap.parent_le c) hold)]
    exact hitsAt_parent_le ho hold
  · -- the last position has no children
    intro _ c hc hpos heq
    rw [Array.size_push] at hc
    have hbelow := MinHeap.parent_lt hpos
    omega

/-- A new root sinks to where it is in order. -/
theorem isOrdered_replace (hs : 0 < h.entries.size) (e : HeapEntry ι) :
    MinHeap.Ordered hitKey (MinHeap.siftDown hitKey (h.entries.set 0 e) 0) := by
  refine MinHeap.ordered_siftDown ⟨?_, fun hpos => absurd hpos (Nat.lt_irrefl 0)⟩
  intro c hc hpos hroot
  rw [Array.size_set] at hc
  rw [MinHeap.keyAt_set hs, MinHeap.keyAt_set hs, if_neg (Ne.symm hroot),
    if_neg (Nat.ne_of_lt hpos)]
  exact hitsAt_parent_le ho hc

/-- The root of an ordered heap is a coldest entry. -/
theorem root_coldest {root : HeapEntry ι} (hroot : h.entries[0]? = some root) :
    ∀ e ∈ h.entries, root.hits ≤ e.hits := by
  intro e he
  obtain ⟨i, hi, rfl⟩ := Array.getElem_of_mem he
  obtain ⟨hpos, rfl⟩ := Array.getElem?_eq_some_iff.1 hroot
  have hle : h.hitsAt 0 ≤ h.hitsAt i := MinHeap.Ordered.root_le ho hi
  rw [hitsAt_of_lt hpos, hitsAt_of_lt hi] at hle
  exact UInt32.le_iff_toNat_le.2 hle

end Ordered

variable [DecidableEq ι]

/-- No two entries are of one item. -/
theorem Tabulates.item_inj {xs : List ι} (ht : h.Tabulates xs) {i j : Nat}
    (hi : i < h.entries.size) (hj : j < h.entries.size)
    (heq : h.entries[i].item = h.entries[j].item) : i = j := by
  have hinj := List.nodup_iff_injective_getElem.1 ht.distinct
  exact Fin.val_eq_of_eq
    (@hinj ⟨i, by simpa using hi⟩ ⟨j, by simpa using hj⟩ (by simpa using heq))

/-- A hit keeps an ordered heap ordered exactly if its entry overtakes none of its children. -/
theorem Tabulates.isOrdered_recordHit {xs : List ι} (ht : h.Tabulates xs) (ho : h.IsOrdered)
    (x : ι) : (h.recordHit x).2.IsOrdered ↔ ¬h.Overtakes x := by
  have hunheld (hnone : ∀ e ∈ h.entries, e.item ≠ x) : ¬h.Overtakes x := by
    rintro ⟨c, -, hitem, -⟩
    exact hnone _ (Array.getElem_mem _) hitem
  rcases recordHit_cases h x with ⟨i, hi, hitem, heq⟩ | ⟨hnone, -, heq⟩ | ⟨hnone, -, heq⟩
  · rw [heq, isOrdered_bump ho hi]
    constructor
    · rintro hle ⟨c, hpos, habove, hlt⟩
      have hparent : MinHeap.parent c = i :=
        ht.item_inj (MinHeap.above c).isLt hi (habove.trans hitem.symm)
      subst hparent
      exact absurd hlt (Nat.not_lt.2 (hle c c.isLt hpos rfl))
    · intro hnot c hc hpos hparent
      subst hparent
      exact Nat.le_of_not_lt fun hlt => hnot ⟨⟨c, hc⟩, hpos, hitem, hlt⟩
  · rw [heq]
    exact iff_of_true (isOrdered_insert ho x) (hunheld hnone)
  · rw [heq, challenge_of_hits ht.hits_ne_zero]
    exact iff_of_true ho (hunheld hnone)

/-! ## Runs of hits -/

/-- From an ordered heap: the order holds after every hit exactly if none overtakes. -/
theorem Tabulates.forall_isOrdered_hitAll {past : List ι} (ht : h.Tabulates past)
    (ho : h.IsOrdered) (xs : List ι) :
    (∀ k < xs.length + 1, (h.hitAll (xs.take k)).IsOrdered) ↔
      ∀ (k : Nat) (hk : k < xs.length), ¬(h.hitAll (xs.take k)).Overtakes xs[k] := by
  induction xs generalizing h past with
  | nil =>
      refine iff_of_true (fun k _ => ?_) fun k hk => absurd hk (Nat.not_lt_zero k)
      rw [List.take_nil]
      exact ho
  | cons x xs ih =>
      rw [Nat.forall_lt_succ_left]
      constructor
      · rintro ⟨-, hall⟩ k hk
        have hnext : (h.recordHit x).2.IsOrdered := hall 0 (by simp)
        cases k with
        | zero => exact (ht.isOrdered_recordHit ho x).1 hnext
        | succ k => exact (ih (ht.recordHit x).2.1 hnext).1 hall k (by simpa using hk)
      · intro hnone
        have hnext := (ht.isOrdered_recordHit ho x).2 (hnone 0 (by simp))
        exact ⟨ho, (ih (ht.recordHit x).2.1 hnext).2 fun k hk => hnone (k + 1) (by simpa using hk)⟩

/-- A new heap after the first `k` of some hits. -/
def afterHits (capacity : Nat) (xs : List ι) (k : Nat) : HotHeap ι :=
  hitAll { capacity } (xs.take k)

/-- A new heap is ordered after every one of some hits exactly if no hit raises the count of an
entry above that of one of its children. Whenever it is ordered, its root is a coldest entry.
Ordered or not, its root has hits, so when it is full, the hit of an item that it does not hold is
discarded. -/
theorem ordered_until_overtaken (capacity : Nat) (xs : List ι) :
    ((∀ k ≤ xs.length, (afterHits capacity xs k).IsOrdered) ↔
      ∀ (k : Nat) (hk : k < xs.length), ¬(afterHits capacity xs k).Overtakes xs[k]) ∧
    ∀ k,
      (∀ root, (afterHits capacity xs k).entries[0]? = some root →
        root.hits ≠ 0 ∧
          ((afterHits capacity xs k).IsOrdered →
            ∀ e ∈ (afterHits capacity xs k).entries, root.hits ≤ e.hits)) ∧
      ((afterHits capacity xs k).IsFull →
        ∀ x, (∀ e ∈ (afterHits capacity xs k).entries, e.item ≠ x) →
          (afterHits capacity xs k).recordHit x = (.discarded, afterHits capacity xs k)) := by
  have ht : ({ capacity } : HotHeap ι).Tabulates [] := tabulates_nil rfl
  refine ⟨?_, fun k => ?_⟩
  · have ho : ({ capacity } : HotHeap ι).IsOrdered := by
      intro c
      exact absurd c.isLt (Nat.not_lt_zero _)
    simp only [← Nat.lt_succ_iff]
    exact ht.forall_isOrdered_hitAll ho xs
  · have hits : ∀ e ∈ (afterHits capacity xs k).entries, e.hits ≠ 0 := (ht.hitAll _).hits_ne_zero
    refine ⟨fun root hroot => ?_, fun hfull x hx => ?_⟩
    · exact ⟨hits root (Array.mem_of_getElem? hroot), fun ho => root_coldest ho hroot⟩
    · rw [recordHit_of_full hfull.ge hx, challenge_of_hits hits]

/-- With two places, the second hit of the root raises it above its child, and it stays the root. -/
theorem root_overtakes :
    (afterHits 2 [0, 1, 0] 3).entries = #[⟨0, 2⟩, ⟨1, 1⟩] ∧
      ¬(afterHits 2 [0, 1, 0] 3).IsOrdered := by
  decide +kernel

end HotHeap

end AccessSampling
