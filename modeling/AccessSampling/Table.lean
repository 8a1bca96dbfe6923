/-!
# Tables with a fallback

A table gives every key a value. Only finitely many keys were ever written; all others have the
fallback, so a lookup never fails. Reading and writing are the two operations, and `get_set` says
all there is about how they meet.
-/

namespace AccessSampling

/-- A value for every key. -/
structure Table (κ α : Type) where
  /-- The value of a key that was never written. -/
  fallback : α
  entries : List (κ × α) := []
  deriving Repr

namespace Table

variable {κ α : Type} [DecidableEq κ]

def find (fallback : α) : List (κ × α) → κ → α
  | [], _ => fallback
  | (l, a) :: rest, k => if l = k then a else find fallback rest k

/-- The list with the value of one key replaced, at its place or else at the end. -/
def put : List (κ × α) → κ → α → List (κ × α)
  | [], k, a => [(k, a)]
  | (l, b) :: rest, k, a => if l = k then (k, a) :: rest else (l, b) :: put rest k a

def get (t : Table κ α) (k : κ) : α := find t.fallback t.entries k

def set (t : Table κ α) (k : κ) (a : α) : Table κ α := { t with entries := put t.entries k a }

def modify (t : Table κ α) (k : κ) (f : α → α) : Table κ α := t.set k (f (t.get k))

theorem find_put (fallback : α) (entries : List (κ × α)) (k l : κ) (a : α) :
    find fallback (put entries k a) l = if l = k then a else find fallback entries l := by
  induction entries with
  | nil => grind [find, put]
  | cons p rest ih => grind [find, put]

theorem put_put (entries : List (κ × α)) (k : κ) (a b : α) :
    put (put entries k a) k b = put entries k b := by
  induction entries with
  | nil => simp [put]
  | cons p rest ih => grind [put]

@[simp] theorem get_fallback (a : α) (k : κ) : ({ fallback := a } : Table κ α).get k = a := rfl

/-- A write changes the value of its key and of no other. -/
theorem get_set (t : Table κ α) (k l : κ) (a : α) :
    (t.set k a).get l = if l = k then a else t.get l :=
  find_put _ _ _ _ _

theorem get_set_self (t : Table κ α) (k : κ) (a : α) : (t.set k a).get k = a :=
  (t.get_set k k a).trans (if_pos rfl)

theorem get_set_of_ne (t : Table κ α) {k l : κ} (h : l ≠ k) (a : α) :
    (t.set k a).get l = t.get l :=
  (t.get_set k l a).trans (if_neg h)

/-- Of two writes to one key the later one stands. -/
theorem set_set (t : Table κ α) (k : κ) (a b : α) : (t.set k a).set k b = t.set k b := by
  rw [set, set, set, put_put]

theorem get_modify (t : Table κ α) (k l : κ) (f : α → α) :
    (t.modify k f).get l = if l = k then f (t.get k) else t.get l :=
  get_set _ _ _ _

end Table

end AccessSampling
