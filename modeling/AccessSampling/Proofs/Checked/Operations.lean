import AccessSampling.Fault
import AccessSampling.PerClass

/-!
# Checked operations

The operations of the sampler that have no answer for some operands: a difference of unsigned
numbers, a quotient, an access to an array and an addition to a list with nine places. Each has a
form here that refuses such operands, so a computation made of these forms comes to a value only if
every one of its operations has an answer. Sums and products are exact and need no such form.
-/

namespace AccessSampling.Checked

variable {α β : Type}

@[simp] theorem ok_bind (a : α) (f : α → Except Fault β) : (Except.ok a >>= f) = f a := rfl

@[simp] theorem pure_eq_ok (a : α) : (pure a : Except Fault α) = .ok a := rfl

/-! ## Numbers -/

def sub (a b : Nat) : Except Fault Nat := if b ≤ a then .ok (a - b) else .error .belowZero

def div (a b : Nat) : Except Fault Nat := if b = 0 then .error .divisionByZero else .ok (a / b)

def mod (a b : Nat) : Except Fault Nat := if b = 0 then .error .divisionByZero else .ok (a % b)

/-- The quotient of signed numbers, rounded towards zero. -/
def quot (a b : Int) : Except Fault Int :=
  if b = 0 then .error .divisionByZero else .ok (a.tdiv b)

section Numbers

variable {a b : Nat}

theorem sub_of_le (h : b ≤ a) : sub a b = .ok (a - b) := if_pos h

theorem add_of_sub_eq_ok {d : Nat} (h : sub a b = .ok d) : d + b = a := by
  unfold sub at h
  split at h
  · cases h
    omega
  · cases h

theorem div_of_ne_zero (h : b ≠ 0) (a : Nat) : div a b = .ok (a / b) := if_neg h

theorem mod_of_ne_zero (h : b ≠ 0) (a : Nat) : mod a b = .ok (a % b) := if_neg h

theorem quot_of_ne_zero {b : Int} (h : b ≠ 0) (a : Int) : quot a b = .ok (a.tdiv b) := if_neg h

end Numbers

/-! ## Arrays -/

/-- The element at a position. -/
def elem (xs : Array α) (i : Nat) : Except Fault α :=
  if h : i < xs.size then .ok xs[i] else .error .positionOutOfRange

/-- The array with the element at a position replaced. -/
def put (xs : Array α) (i : Nat) (a : α) : Except Fault (Array α) :=
  if h : i < xs.size then .ok (xs.set i a) else .error .positionOutOfRange

/-- The array with two elements exchanged. -/
def swap (xs : Array α) (i j : Nat) : Except Fault (Array α) :=
  if h : i < xs.size ∧ j < xs.size then .ok (xs.swap i j h.1 h.2) else .error .positionOutOfRange

theorem elem_of_lt {xs : Array α} {i : Nat} (h : i < xs.size) : elem xs i = .ok xs[i] := dif_pos h

theorem put_of_lt {xs : Array α} {i : Nat} (h : i < xs.size) (a : α) :
    put xs i a = .ok (xs.set i a) :=
  dif_pos h

theorem swap_of_lt {xs : Array α} {i j : Nat} (hi : i < xs.size) (hj : j < xs.size) :
    swap xs i j = .ok (xs.swap i j) :=
  dif_pos ⟨hi, hj⟩

/-! ## Tables by class -/

/-- The value of a class, looked up by the place of the class in the table. -/
def entry (t : PerClass α) (c : EventClass) : Except Fault α := elem t.toList.toArray c.index

/-- The table with the value of a class replaced. -/
def putEntry (t : PerClass α) (c : EventClass) (a : α) : Except Fault (PerClass α) := do
  let xs ← put t.toList.toArray c.index a
  match PerClass.ofList? xs.toList with
  | none => .error .positionOutOfRange
  | some t => return t

@[simp] theorem entry_eq (t : PerClass α) (c : EventClass) : entry t c = .ok (t.get c) := by
  cases c with
  | _ => rfl

@[simp] theorem putEntry_eq (t : PerClass α) (c : EventClass) (a : α) :
    putEntry t c a = .ok (t.set c a) := by
  cases c with
  | _ => rfl

/-! ## Lists with nine places -/

/-- Appends to a list that has a place for each class. -/
def push (xs : List α) (a : α) : Except Fault (List α) :=
  if xs.length < EventClass.all.length then .ok (xs ++ [a]) else .error .tooManyClasses

/-- The list of some elements, which it has to have places for. -/
def collect (xs : List α) : Except Fault (List α) := xs.foldlM push []

/-- The table of a value for each class, filled in the order of the classes. -/
def tabulate (f : EventClass → Except Fault α) : Except Fault (PerClass α) := do
  let xs ← EventClass.all.foldlM (fun xs c => do push xs (← f c)) []
  match PerClass.ofList? xs with
  | none => .error .positionOutOfRange
  | some t => return t

theorem push_of_lt {xs : List α} (h : xs.length < EventClass.all.length) (a : α) :
    push xs a = .ok (xs ++ [a]) :=
  if_pos h

/-- If there are places for some elements, there is one for the first, and then for the others. -/
theorem places_of_cons {xs ys : List α} {y : α} {n : Nat} (h : xs.length + (y :: ys).length ≤ n) :
    xs.length < n ∧ (xs ++ [y]).length + ys.length ≤ n := by
  rw [List.length_cons] at h
  rw [List.length_append, List.length_singleton]
  omega

theorem foldlM_push {xs ys : List α} (h : xs.length + ys.length ≤ EventClass.all.length) :
    ys.foldlM push xs = .ok (xs ++ ys) := by
  induction ys generalizing xs with
  | nil => rw [List.append_nil, List.foldlM_nil, pure_eq_ok]
  | cons y ys ih =>
      obtain ⟨hplace, hrest⟩ := places_of_cons h
      rw [List.foldlM_cons, push_of_lt hplace, ok_bind, ih hrest, List.append_assoc,
        List.singleton_append]

theorem collect_of_le {xs : List α} (h : xs.length ≤ EventClass.all.length) :
    collect xs = .ok xs :=
  foldlM_push (by simpa using h)

theorem tabulate_eq {f : EventClass → Except Fault α} {g : EventClass → α}
    (h : ∀ c, f c = .ok (g c)) : tabulate f = .ok (.ofFn g) := by
  simp only [tabulate, h]
  rfl

/-! ## Lists of computations -/

theorem mapM_ok (g : α → β) (xs : List α) :
    xs.mapM (fun x => (Except.ok (g x) : Except Fault β)) = .ok (xs.map g) :=
  List.mapM_pure

theorem anyM_ok (p : α → Bool) (xs : List α) :
    xs.anyM (fun x => (Except.ok (p x) : Except Fault Bool)) = .ok (xs.any p) :=
  List.anyM_pure

theorem foldlM_ok (g : β → α → β) (b : β) (xs : List α) :
    xs.foldlM (fun b x => (Except.ok (g b x) : Except Fault β)) b = .ok (xs.foldl g b) :=
  List.foldlM_pure

end AccessSampling.Checked
