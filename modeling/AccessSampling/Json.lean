/-!
# JSON values

The values in which options and records are written. A number is kept only if it is written as a
plain integer, and then exactly, whatever its size; of any other number nothing is ever read.
-/

namespace AccessSampling

inductive Json where
  | null
  | bool (b : Bool)
  | integer (z : Int)
  /-- A number with a fraction, an exponent or a negative zero. -/
  | real
  /-- A string. None stands for one that names half of a surrogate pair, which no text contains. -/
  | string (s : Option String)
  | array (items : List Json)
  /-- The members in the order in which they are written; a key may come twice. -/
  | object (members : List (Option String × Json))
  deriving Inhabited

namespace Json

def ofNat (n : Nat) : Json := .integer n

def ofWord64 (n : UInt64) : Json := .ofNat n.toNat

def ofString (s : String) : Json := .string (some s)

def ofFields (fields : List (String × Json)) : Json :=
  .object (fields.map fun f => (some f.1, f.2))

end Json

end AccessSampling
