import AccessSampling.Json.Token

/-!
# Reading JSON

The reader takes one token at a time. It remembers what may come next and the arrays and objects
that are still open, so it needs no recursion and no bound on how deep values are nested.
-/

namespace AccessSampling.Json

/-- An array or object that is still open, its contents in reverse. -/
inductive Frame where
  | items (done : List Json)
  /-- The object waits for the value of a key. -/
  | member (done : List (Option String × Json)) (key : Option String)

/-- What may come next. -/
inductive Expect where
  | value
  /-- A value or the end of an array that has just begun. -/
  | valueOrEnd
  /-- A key of an object with some members. -/
  | key (done : List (Option String × Json))
  /-- A key or the end of an object that has just begun. -/
  | keyOrEnd
  | colon (done : List (Option String × Json)) (key : Option String)
  /-- A value is complete; a separator or an end follows. -/
  | done (value : Json)

/-- Takes a token that begins a value. -/
def beginValue (frames : List Frame) : Token → Option (Expect × List Frame)
  | .openBracket => some (.valueOrEnd, frames)
  | .openBrace => some (.keyOrEnd, frames)
  | .scalar v => some (.done v, frames)
  | _ => none

/-- Takes a token after a complete value. -/
def afterValue (v : Json) : List Frame → Token → Option (Expect × List Frame)
  | .items vs :: frames, .comma => some (.value, .items (v :: vs) :: frames)
  | .items vs :: frames, .closeBracket => some (.done (.array (v :: vs).reverse), frames)
  | .member ms k :: frames, .comma => some (.key ((k, v) :: ms), frames)
  | .member ms k :: frames, .closeBrace => some (.done (.object ((k, v) :: ms).reverse), frames)
  | _, _ => none

def step (state : Expect × List Frame) (t : Token) : Option (Expect × List Frame) :=
  match state.1, t with
  | .value, t => beginValue state.2 t
  | .valueOrEnd, .closeBracket => some (.done (.array []), state.2)
  | .valueOrEnd, t => beginValue (.items [] :: state.2) t
  | .key ms, .scalar (.string k) => some (.colon ms k, state.2)
  | .keyOrEnd, .closeBrace => some (.done (.object []), state.2)
  | .keyOrEnd, .scalar (.string k) => some (.colon [] k, state.2)
  | .colon ms k, .colon => some (.value, .member ms k :: state.2)
  | .done v, t => afterValue v state.2 t
  | _, _ => none

/-- The value that some tokens write. -/
def ofTokens? (ts : List Token) : Option Json :=
  match ts.foldlM step (.value, []) with
  | some (.done v, []) => some v
  | _ => none

/-- The value that a text writes, if it writes exactly one. -/
def parse? (s : String) : Option Json := do
  let ts ← tokens? s.toList
  ofTokens? ts

end AccessSampling.Json
