import AccessSampling.EventClass

/-!
# Tables with one entry per event class

A `PerClass α` holds exactly nine values, so a lookup never fails and needs no bound. Reading and
writing are the two operations, and `get_set` says all there is about how they meet.
-/

namespace AccessSampling

/-- One value for each event class. -/
structure PerClass (α : Type) where
  l1Hit : α
  l1Miss : α
  l2Hit : α
  l2Miss : α
  l3Hit : α
  l3Miss : α
  dramRead : α
  nvmRead : α
  memWrite : α
  deriving DecidableEq, Repr

namespace PerClass

variable {α β : Type}

def get (t : PerClass α) : EventClass → α
  | .l1Hit => t.l1Hit
  | .l1Miss => t.l1Miss
  | .l2Hit => t.l2Hit
  | .l2Miss => t.l2Miss
  | .l3Hit => t.l3Hit
  | .l3Miss => t.l3Miss
  | .dramRead => t.dramRead
  | .nvmRead => t.nvmRead
  | .memWrite => t.memWrite

def set (t : PerClass α) (c : EventClass) (a : α) : PerClass α :=
  match c with
  | .l1Hit => { t with l1Hit := a }
  | .l1Miss => { t with l1Miss := a }
  | .l2Hit => { t with l2Hit := a }
  | .l2Miss => { t with l2Miss := a }
  | .l3Hit => { t with l3Hit := a }
  | .l3Miss => { t with l3Miss := a }
  | .dramRead => { t with dramRead := a }
  | .nvmRead => { t with nvmRead := a }
  | .memWrite => { t with memWrite := a }

def ofFn (f : EventClass → α) : PerClass α where
  l1Hit := f .l1Hit
  l1Miss := f .l1Miss
  l2Hit := f .l2Hit
  l2Miss := f .l2Miss
  l3Hit := f .l3Hit
  l3Miss := f .l3Miss
  dramRead := f .dramRead
  nvmRead := f .nvmRead
  memWrite := f .memWrite

def replicate (a : α) : PerClass α := ofFn fun _ => a

def modify (t : PerClass α) (c : EventClass) (f : α → α) : PerClass α :=
  t.set c (f (t.get c))

def map (f : α → β) (t : PerClass α) : PerClass β := ofFn fun c => f (t.get c)

/-- The values in the order of `EventClass.all`. -/
def toList (t : PerClass α) : List α := EventClass.all.map t.get

/-- The table of a list of exactly nine values. -/
def ofList? : List α → Option (PerClass α)
  | [a, b, c, d, e, f, g, h, i] => some ⟨a, b, c, d, e, f, g, h, i⟩
  | _ => none

theorem ext_get {s t : PerClass α} (h : ∀ c, s.get c = t.get c) : s = t := by
  have h1 := h .l1Hit
  have h2 := h .l1Miss
  have h3 := h .l2Hit
  have h4 := h .l2Miss
  have h5 := h .l3Hit
  have h6 := h .l3Miss
  have h7 := h .dramRead
  have h8 := h .nvmRead
  have h9 := h .memWrite
  cases s
  cases t
  simp only [get] at h1 h2 h3 h4 h5 h6 h7 h8 h9
  simp [h1, h2, h3, h4, h5, h6, h7, h8, h9]

@[simp] theorem get_ofFn (f : EventClass → α) (c : EventClass) : (ofFn f).get c = f c := by
  cases c <;> rfl

@[simp] theorem get_replicate (a : α) (c : EventClass) : (replicate a).get c = a := by
  simp [replicate]

/-- A write changes the value of its class and of no other. -/
theorem get_set (t : PerClass α) (c d : EventClass) (a : α) :
    (t.set c a).get d = if d = c then a else t.get d := by
  cases c <;> cases d <;> rfl

@[simp] theorem get_set_self (t : PerClass α) (c : EventClass) (a : α) :
    (t.set c a).get c = a := by
  simp [get_set]

theorem get_set_of_ne (t : PerClass α) {c d : EventClass} (a : α) (h : d ≠ c) :
    (t.set c a).get d = t.get d := by
  simp [get_set, h]

@[simp] theorem set_get_self (t : PerClass α) (c : EventClass) : t.set c (t.get c) = t := by
  refine ext_get fun d => ?_
  rw [get_set]
  split
  · rename_i h
    rw [h]
  · rfl

theorem get_modify (t : PerClass α) (c d : EventClass) (f : α → α) :
    (t.modify c f).get d = if d = c then f (t.get c) else t.get d := by
  simp [modify, get_set]

@[simp] theorem get_map (f : α → β) (t : PerClass α) (c : EventClass) :
    (t.map f).get c = f (t.get c) := by
  simp [map]

@[simp] theorem ofList?_toList (t : PerClass α) : ofList? t.toList = some t := rfl

theorem eq_toList_of_ofList? {xs : List α} {t : PerClass α} (h : ofList? xs = some t) :
    xs = t.toList := by
  unfold ofList? at h
  split at h
  · cases h
    rfl
  · cases h

end PerClass

end AccessSampling
