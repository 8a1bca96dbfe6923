import AccessSampling.Fault

/-!
# Arrays as binary trees

The children of position `i` are the positions `2 * i + 1` and `2 * i + 2`, so an array is a binary
tree with its root in front. The two sifts move one element along a path of that tree, up or down,
until its key fits; both only swap elements, so they keep what the array holds.
-/

namespace AccessSampling.MinHeap

variable {α : Type}

/-- The position above `i`; the root is above itself. -/
def parent (i : Nat) : Nat := (i - 1) / 2

theorem parent_lt {i : Nat} (h : 0 < i) : parent i < i := by
  unfold parent
  omega

/-! ## Upwards -/

/-- Moves the element at `i` towards the root past every larger key. -/
def siftUp (key : α → Nat) (xs : Array α) (i : Nat) : Array α :=
  if h : 0 < i ∧ i < xs.size then
    have hp : parent i < xs.size := Nat.lt_trans (parent_lt h.1) h.2
    if key xs[i] < key xs[parent i] then
      siftUp key (xs.swap i (parent i)) (parent i)
    else xs
  else xs
termination_by i
decreasing_by exact parent_lt h.1

/-- `siftUp` with a position past the end refused. The root has nothing above it to be compared
with, so its position is never refused. -/
def siftUp? (key : α → Nat) (xs : Array α) (i : Nat) : Except Fault (Array α) :=
  if 0 < i ∧ xs.size ≤ i then .error .positionOutOfRange else .ok (siftUp key xs i)

theorem siftUp?_eq_ok {key : α → Nat} {xs : Array α} {i : Nat} (h : i < xs.size) :
    siftUp? key xs i = .ok (siftUp key xs i) :=
  if_neg fun hi => Nat.not_le.2 h hi.2

theorem siftUp_perm (key : α → Nat) (xs : Array α) (i : Nat) : (siftUp key xs i).Perm xs := by
  fun_induction siftUp key xs i with
  | case1 xs i h hp hlt ih => exact ih.trans (Array.swap_perm h.2 hp)
  | case2 => exact .refl _
  | case3 => exact .refl _

@[simp] theorem size_siftUp (key : α → Nat) (xs : Array α) (i : Nat) :
    (siftUp key xs i).size = xs.size :=
  (siftUp_perm key xs i).size_eq

/-! ## Downwards -/

/-- The child of `i` with the smaller key, the left one if the keys are equal. A position past the
end stands for "no child". -/
def lesserChild (key : α → Nat) (xs : Array α) (i : Nat) : Nat :=
  if h : 2 * i + 2 < xs.size then
    if key xs[2 * i + 2] < key xs[2 * i + 1] then 2 * i + 2 else 2 * i + 1
  else 2 * i + 1

theorem lt_lesserChild (key : α → Nat) (xs : Array α) (i : Nat) : i < lesserChild key xs i := by
  unfold lesserChild
  split
  · split <;> omega
  · omega

/-- There is a lesser child if there is a left one. -/
theorem lesserChild_lt_iff (key : α → Nat) (xs : Array α) (i : Nat) :
    lesserChild key xs i < xs.size ↔ 2 * i + 1 < xs.size := by
  unfold lesserChild
  split
  · split <;> omega
  · rfl

/-- Moves the element at `i` towards the leaves past every smaller key. -/
def siftDown (key : α → Nat) (xs : Array α) (i : Nat) : Array α :=
  let c := lesserChild key xs i
  if h : c < xs.size then
    have hi : i < xs.size := Nat.lt_trans (lt_lesserChild key xs i) h
    if key xs[c] < key xs[i] then siftDown key (xs.swap i c) c else xs
  else xs
termination_by xs.size - i
decreasing_by
  have := lt_lesserChild key xs i
  simp only [Array.size_swap]
  omega

theorem siftDown_perm (key : α → Nat) (xs : Array α) (i : Nat) :
    (siftDown key xs i).Perm xs := by
  fun_induction siftDown key xs i with
  | case1 xs i c h hi hlt ih => exact ih.trans (Array.swap_perm hi h)
  | case2 => exact .refl _
  | case3 => exact .refl _

@[simp] theorem size_siftDown (key : α → Nat) (xs : Array α) (i : Nat) :
    (siftDown key xs i).size = xs.size :=
  (siftDown_perm key xs i).size_eq

end AccessSampling.MinHeap
