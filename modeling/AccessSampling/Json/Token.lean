import AccessSampling.Json

/-!
# The tokens of a JSON text

A text is cut into brackets, separators and scalars, with blanks between them. Strings are read in
two steps, since an escape may name one half of a surrogate pair: first the characters and the
numbers of the escapes, then the pairs.
-/

namespace AccessSampling.Json

inductive Token where
  | openBrace
  | closeBrace
  | openBracket
  | closeBracket
  | comma
  | colon
  /-- A value that is no array and no object. -/
  | scalar (value : Json)

/-- Whether a character may stand between tokens. -/
def isBlank (c : Char) : Bool := c == ' ' || c == '\n' || c == '\t' || c == '\r'

/-! ## Strings -/

/-- A part of a string as it is written. -/
inductive Piece where
  | char (c : Char)
  /-- The number of an escape with four hexadecimal digits. -/
  | unit (n : Nat)
  deriving DecidableEq, Repr

def hexDigit? (c : Char) : Option Nat :=
  if '0' ≤ c ∧ c ≤ '9' then some (c.toNat - '0'.toNat)
  else if 'a' ≤ c ∧ c ≤ 'f' then some (c.toNat - 'a'.toNat + 10)
  else if 'A' ≤ c ∧ c ≤ 'F' then some (c.toNat - 'A'.toNat + 10)
  else none

def hexUnit? (a b c d : Char) : Option Nat := do
  let a ← hexDigit? a
  let b ← hexDigit? b
  let c ← hexDigit? c
  let d ← hexDigit? d
  return ((a * 16 + b) * 16 + c) * 16 + d

/-- The character that a short escape stands for. -/
def escaped? : Char → Option Char
  | '"' => some '"'
  | '\\' => some '\\'
  | '/' => some '/'
  | 'b' => some '\x08'
  | 'f' => some '\x0c'
  | 'n' => some '\n'
  | 'r' => some '\r'
  | 't' => some '\t'
  | _ => none

/-- The pieces of a string up to its closing quote, and what follows it. A control character has to
be escaped. -/
def pieces? : List Char → Option (List Piece × List Char)
  | [] => none
  | '"' :: rest => some ([], rest)
  | '\\' :: 'u' :: a :: b :: c :: d :: rest =>
    match hexUnit? a b c d, pieces? rest with
    | some n, some (ps, rest) => some (.unit n :: ps, rest)
    | _, _ => none
  | '\\' :: c :: rest =>
    match escaped? c, pieces? rest with
    | some e, some (ps, rest) => some (.char e :: ps, rest)
    | _, _ => none
  | c :: rest =>
    if c < ' ' then none
    else
      match pieces? rest with
      | some (ps, rest) => some (.char c :: ps, rest)
      | none => none

/-- The characters of some pieces. A number in the upper half of the surrogates has to follow one in
the lower half, and the two make one character. -/
def joinPieces : List Piece → Option (List Char)
  | [] => some []
  | .char c :: rest => (joinPieces rest).map (c :: ·)
  | .unit high :: .unit low :: rest =>
    if 0xd800 ≤ high ∧ high < 0xdc00 then
      if 0xdc00 ≤ low ∧ low < 0xe000 then
        (joinPieces rest).map (Char.ofNat (0x10000 + (high - 0xd800) * 0x400 + (low - 0xdc00)) :: ·)
      else none
    else if 0xdc00 ≤ high ∧ high < 0xe000 then none
    else (joinPieces (.unit low :: rest)).map (Char.ofNat high :: ·)
  | .unit n :: rest =>
    if 0xd800 ≤ n ∧ n < 0xe000 then none else (joinPieces rest).map (Char.ofNat n :: ·)

/-! ## Numbers -/

/-- What follows a run of at least one digit. -/
def afterDigits? (cs : List Char) : Option (List Char) :=
  let rest := cs.dropWhile Char.isDigit
  if rest.length < cs.length then some rest else none

/-- What follows an optional fraction, and whether there was one. -/
def afterFraction? : List Char → Option (Bool × List Char)
  | '.' :: rest => (afterDigits? rest).map (true, ·)
  | cs => some (false, cs)

/-- The characters after an optional sign. -/
def dropSign : List Char → List Char
  | '+' :: rest | '-' :: rest => rest
  | cs => cs

/-- What follows an optional exponent, and whether there was one. -/
def afterExponent? : List Char → Option (Bool × List Char)
  | 'e' :: rest | 'E' :: rest => (afterDigits? (dropSign rest)).map (true, ·)
  | cs => some (false, cs)

def digitsValue (cs : List Char) : Nat :=
  cs.foldl (fun n c => n * 10 + (c.toNat - '0'.toNat)) 0

/-- Reads a number without its sign. A zero in front of other digits is refused. -/
def unsigned? (negative : Bool) (cs : List Char) : Option (Json × List Char) :=
  let digits := cs.takeWhile Char.isDigit
  if digits.head? = some '0' ∧ 1 < digits.length then none
  else
    match afterDigits? cs with
    | none => none
    | some rest =>
      match afterFraction? rest with
      | none => none
      | some (fraction, rest) =>
        match afterExponent? rest with
        | none => none
        | some (exponent, rest) =>
          let n := digitsValue digits
          if fraction || exponent || negative && n == 0 then some (.real, rest)
          else some (.integer (if negative then -n else n), rest)

/-! ## Tokens -/

/-- Reads the token at the front of a text. -/
def next? : List Char → Option (Token × List Char)
  | '{' :: rest => some (.openBrace, rest)
  | '}' :: rest => some (.closeBrace, rest)
  | '[' :: rest => some (.openBracket, rest)
  | ']' :: rest => some (.closeBracket, rest)
  | ',' :: rest => some (.comma, rest)
  | ':' :: rest => some (.colon, rest)
  | '"' :: rest =>
    (pieces? rest).map fun p => (.scalar (.string ((joinPieces p.1).map String.ofList)), p.2)
  | 'n' :: 'u' :: 'l' :: 'l' :: rest => some (.scalar .null, rest)
  | 't' :: 'r' :: 'u' :: 'e' :: rest => some (.scalar (.bool true), rest)
  | 'f' :: 'a' :: 'l' :: 's' :: 'e' :: rest => some (.scalar (.bool false), rest)
  | '-' :: rest => (unsigned? true rest).map fun p => (.scalar p.1, p.2)
  | cs => (unsigned? false cs).map fun p => (.scalar p.1, p.2)

/-! ## Progress

Every token takes at least one character, so a text has finitely many. -/

theorem length_of_pieces? {cs rest : List Char} {ps : List Piece}
    (h : pieces? cs = some (ps, rest)) : rest.length < cs.length := by
  fun_induction pieces? cs generalizing ps rest with
  | case1 => simp at h
  | case2 r => cases h; simp
  | case3 a b c d r n ps' r' hr _ ih =>
    cases h
    have := ih hr
    simp only [List.length_cons]
    omega
  | case4 => simp at h
  | case5 c r _ e ps' r' hr _ ih =>
    cases h
    have := ih hr
    simp only [List.length_cons]
    omega
  | case6 => simp at h
  | case7 => simp at h
  | case8 c r _ _ _ _ ps' r' hr ih =>
    cases h
    have := ih hr
    simp only [List.length_cons]
    omega
  | case9 => simp at h

theorem length_of_afterDigits? {cs rest : List Char} (h : afterDigits? cs = some rest) :
    rest.length < cs.length := by
  simp only [afterDigits?] at h
  split at h
  · cases h
    assumption
  · simp at h

theorem length_of_afterFraction? {cs rest : List Char} {b : Bool}
    (h : afterFraction? cs = some (b, rest)) : rest.length ≤ cs.length := by
  unfold afterFraction? at h
  split at h
  · simp only [Option.map_eq_some_iff, Prod.mk.injEq] at h
    obtain ⟨r, hr, -, rfl⟩ := h
    have := length_of_afterDigits? hr
    simp only [List.length_cons]
    omega
  · cases h
    exact Nat.le_refl _

theorem length_dropSign_le (cs : List Char) : (dropSign cs).length ≤ cs.length := by
  unfold dropSign
  split <;> simp

theorem length_of_afterExponent? {cs rest : List Char} {b : Bool}
    (h : afterExponent? cs = some (b, rest)) : rest.length ≤ cs.length := by
  unfold afterExponent? at h
  split at h
  · next cs =>
    simp only [Option.map_eq_some_iff, Prod.mk.injEq] at h
    obtain ⟨r, hr, -, rfl⟩ := h
    have := length_of_afterDigits? hr
    have := length_dropSign_le cs
    simp only [List.length_cons]
    omega
  · next cs =>
    simp only [Option.map_eq_some_iff, Prod.mk.injEq] at h
    obtain ⟨r, hr, -, rfl⟩ := h
    have := length_of_afterDigits? hr
    have := length_dropSign_le cs
    simp only [List.length_cons]
    omega
  · cases h
    exact Nat.le_refl _

theorem length_of_unsigned? {cs rest : List Char} {b : Bool} {j : Json}
    (h : unsigned? b cs = some (j, rest)) : rest.length < cs.length := by
  simp only [unsigned?] at h
  split at h
  · simp at h
  · split at h
    · simp at h
    · next r1 h1 =>
      split at h
      · simp at h
      · next f r2 h2 =>
        split at h
        · simp at h
        · next e r3 h3 =>
          have := length_of_afterDigits? h1
          have := length_of_afterFraction? h2
          have := length_of_afterExponent? h3
          split at h <;> cases h <;> omega

theorem length_of_next? {cs rest : List Char} {t : Token} (h : next? cs = some (t, rest)) :
    rest.length < cs.length := by
  unfold next? at h
  split at h
  case h_7 =>
    simp only [Option.map_eq_some_iff, Prod.mk.injEq] at h
    obtain ⟨p, hp, -, rfl⟩ := h
    have := length_of_pieces? hp
    simp only [List.length_cons]
    omega
  case h_11 =>
    simp only [Option.map_eq_some_iff, Prod.mk.injEq] at h
    obtain ⟨p, hp, -, rfl⟩ := h
    have := length_of_unsigned? hp
    simp only [List.length_cons]
    omega
  case h_12 =>
    simp only [Option.map_eq_some_iff, Prod.mk.injEq] at h
    obtain ⟨p, hp, -, rfl⟩ := h
    exact length_of_unsigned? hp
  all_goals
    cases h
    simp only [List.length_cons]
    omega

def tokens? (cs : List Char) : Option (List Token) :=
  match _h : cs.dropWhile isBlank with
  | [] => some []
  | c :: rest =>
    match _h' : next? (c :: rest) with
    | none => none
    | some (t, rest') => (tokens? rest').map (t :: ·)
termination_by cs.length
decreasing_by
  have h1 := length_of_next? _h'
  have h2 := (List.dropWhile_sublist isBlank (l := cs)).length_le
  rw [_h] at h2
  omega

end AccessSampling.Json
