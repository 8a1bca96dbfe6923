import AccessSampling.Json

/-!
# Reading fields

How typed values are read from JSON values. A record of fields is written as an object or, shorter,
as an array of the values in their order. In an object every field has to be there once; keys that
name no field are passed over, unless the record admits no others.
-/

namespace AccessSampling.Json

def natBelow? (bound : Nat) : Json → Option Nat
  | .integer z => if 0 ≤ z ∧ z < bound then some z.toNat else none
  | _ => none

def word8? : Json → Option Nat := natBelow? UInt8.size

def word32? : Json → Option Nat := natBelow? UInt32.size

def word64? : Json → Option Nat := natBelow? UInt64.size

def signed32? : Json → Option Int
  | .integer z => if -0x80000000 ≤ z ∧ z < 0x80000000 then some z else none
  | _ => none

def bool? : Json → Option Bool
  | .bool b => some b
  | _ => none

def list? {α : Type} (read : Json → Option α) : Json → Option (List α)
  | .array items => items.mapM read
  | _ => none

/-- The value of a key that comes exactly once. -/
def member? (members : List (Option String × Json)) (key : String) : Option Json :=
  match members.filter fun m => m.1 == some key with
  | [(_, v)] => some v
  | _ => none

/-- The values of some fields, in the order of their names. A record that is `closed` admits no
other keys. -/
def fields? (names : List String) (closed : Bool := false) : Json → Option (List Json)
  | .array items => if items.length = names.length then some items else none
  | .object members =>
    let keys := members.map (·.1)
    if keys.any fun k => k.isNone || closed && !(k.any names.contains) then none
    else names.mapM (member? members)
  | _ => none

/-! ## Reading what was written -/

theorem mapM_map_eq_some {α β γ : Type} {f : α → β} {g : β → Option γ} {h : α → γ} {xs : List α}
    (hxs : ∀ x ∈ xs, g (f x) = some (h x)) : (xs.map f).mapM g = some (xs.map h) := by
  induction xs with
  | nil => rfl
  | cons x xs ih =>
      rw [List.map_cons, List.mapM_cons, hxs x List.mem_cons_self,
        ih fun y hy => hxs y (List.mem_cons_of_mem _ hy)]
      rfl

theorem exists_of_mapM_eq_some {α β : Type} {f : α → Option β} {xs : List α} {ys : List β}
    (h : xs.mapM f = some ys) : ∀ y ∈ ys, ∃ x, f x = some y := by
  induction xs generalizing ys with
  | nil =>
      cases h
      simp
  | cons x xs ih =>
      simp only [List.mapM_cons, Option.bind_eq_bind, Option.bind_eq_some_iff, Option.pure_def,
        Option.some.injEq] at h
      obtain ⟨y, hy, ys, hys, rfl⟩ := h
      intro z hz
      rcases List.mem_cons.1 hz with rfl | hz
      · exact ⟨x, hy⟩
      · exact ih hys z hz

/-- The numbers that are read are those below the bound, and they are written as they are. -/
theorem natBelow?_eq_some_iff {bound n : Nat} {j : Json} :
    natBelow? bound j = some n ↔ j = .ofNat n ∧ n < bound := by
  cases j with
  | integer z =>
      simp only [natBelow?, ofNat, Json.integer.injEq, Option.ite_none_right_eq_some,
        Option.some.injEq]
      omega
  | null | bool | real | string | array | object => simp [natBelow?, ofNat]

theorem natBelow?_ofNat {bound n : Nat} (h : n < bound) :
    natBelow? bound (.ofNat n) = some n :=
  natBelow?_eq_some_iff.2 ⟨rfl, h⟩

theorem word64?_ofWord64 (n : UInt64) : (ofWord64 n).word64? = some n.toNat :=
  natBelow?_ofNat n.toNat_lt_size

theorem lt_of_natBelow? {bound n : Nat} {j : Json} (h : natBelow? bound j = some n) : n < bound :=
  (natBelow?_eq_some_iff.1 h).2

theorem signed32?_eq_some_iff {z : Int} {j : Json} :
    signed32? j = some z ↔ j = .integer z ∧ -0x80000000 ≤ z ∧ z < 0x80000000 := by
  cases j with
  | integer z' =>
      simp only [signed32?, Json.integer.injEq, Option.ite_none_right_eq_some, Option.some.injEq]
      omega
  | null | bool | real | string | array | object => simp [signed32?]

theorem list?_map {α : Type} {read : Json → Option α} {write : α → Json} {xs : List α}
    (h : ∀ x ∈ xs, read (write x) = some x) : list? read (.array (xs.map write)) = some xs := by
  rw [list?, mapM_map_eq_some h, List.map_id']

theorem exists_of_list? {α : Type} {read : Json → Option α} {j : Json} {xs : List α}
    (h : list? read j = some xs) : ∀ x ∈ xs, ∃ j', read j' = some x := by
  cases j with
  | array items => exact exists_of_mapM_eq_some h
  | null | bool | integer | real | string | object => cases h

/-- Among fields of different names only one has a given name. -/
theorem filter_name_eq_singleton {fields : List (String × Json)} (h : (fields.map (·.1)).Nodup)
    {f : String × Json} (hf : f ∈ fields) : fields.filter (fun g => g.1 == f.1) = [f] := by
  induction fields with
  | nil => cases hf
  | cons g fields ih =>
      rw [List.map_cons, List.nodup_cons] at h
      rcases List.mem_cons.1 hf with rfl | hf
      · rw [List.filter_cons_of_pos (by simp), List.filter_eq_nil_iff.2]
        intro g hg heq
        exact h.1 (List.mem_map.2 ⟨g, hg, beq_iff_eq.1 heq⟩)
      · rw [List.filter_cons_of_neg, ih h.2 hf]
        intro heq
        exact h.1 (List.mem_map.2 ⟨f, hf, (beq_iff_eq.1 heq).symm⟩)

theorem member?_of_mem {fields : List (String × Json)} (h : (fields.map (·.1)).Nodup)
    {f : String × Json} (hf : f ∈ fields) :
    member? (fields.map fun f => (some f.1, f.2)) f.1 = some f.2 := by
  have hmembers : (fields.map fun f => (some f.1, f.2)).filter (fun m => m.1 == some f.1) =
      [(some f.1, f.2)] := by
    rw [List.filter_map]
    exact congrArg (List.map _) (filter_name_eq_singleton h hf)
  rw [member?, hmembers]

/-- The fields of a record are read as they were written, if no two have one name. -/
theorem fields?_ofFields {fields : List (String × Json)} {names : List String}
    (hnames : fields.map (·.1) = names) (h : names.Nodup) (closed : Bool) :
    (ofFields fields).fields? names closed = some (fields.map (·.2)) := by
  subst hnames
  have hkeys : ((fields.map fun f => (some f.1, f.2)).map (·.1)).any
      (fun k => k.isNone || closed && !(k.any (fields.map (·.1)).contains)) = false := by
    rw [List.any_eq_false]
    intro k hk
    simp only [List.map_map, List.mem_map, Function.comp_apply] at hk
    obtain ⟨f, hf, rfl⟩ := hk
    have hname : f.1 ∈ fields.map (·.1) := List.mem_map_of_mem hf
    simp [hname]
  rw [ofFields, fields?]
  simp only [hkeys]
  exact mapM_map_eq_some fun f hf => member?_of_mem h hf

end AccessSampling.Json
