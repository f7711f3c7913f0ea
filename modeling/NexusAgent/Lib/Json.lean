import Mathlib.Algebra.Group.Nat.Defs
import NexusAgent.Lib.Dict
import NexusAgent.Lib.PyStr

/-!
# JSON values, their writer and their reader

`Json.dumps` writes a value the way `json.dumps` does with its default arguments
(`", "` and `": "` as separators, every character outside printable ASCII escaped),
and `Json.loads` reads a text the way `json.loads` does: white space around tokens,
strict strings, `NaN` and the infinities, the last of several items with one key.
A number with a fraction or an exponent is kept as its source text (`Json.float`); whether it
is zero is read off that text (`isZeroText`).

`Json.load` is the same reader in an interpreter that converts no integer of very many digits and
opens no more than so many brackets inside each other.
-/

namespace Lib

/-- A JSON value. An object is its items in order. -/
inductive Json
  | null
  | bool (b : Bool)
  | int (n : ℤ)
  | float (text : String)
  | str (s : String)
  | arr (xs : List Json)
  | obj (fields : List (String × Json))
  deriving Repr

namespace Json

/-! ### Equality -/

mutual

/-- Boolean equality of values. -/
def beq : Json → Json → Bool
  | .null, .null => true
  | .bool a, .bool b => a = b
  | .int a, .int b => a = b
  | .float a, .float b => a = b
  | .str a, .str b => a = b
  | .arr xs, .arr ys => beqAll xs ys
  | .obj fs, .obj gs => beqFields fs gs
  | _, _ => false

/-- Boolean equality of arrays. -/
def beqAll : List Json → List Json → Bool
  | [], [] => true
  | x :: xs, y :: ys => beq x y && beqAll xs ys
  | _, _ => false

/-- Boolean equality of the items of two objects. -/
def beqFields : List (String × Json) → List (String × Json) → Bool
  | [], [] => true
  | (k, v) :: fs, (l, w) :: gs => k = l && beq v w && beqFields fs gs
  | _, _ => false

end

mutual

theorem beq_iff : ∀ a b : Json, beq a b = true ↔ a = b := by
  intro a b
  cases a <;> cases b <;> simp [beq, beqAll_iff, beqFields_iff]

theorem beqAll_iff : ∀ xs ys : List Json, beqAll xs ys = true ↔ xs = ys := by
  intro xs ys
  cases xs <;> cases ys <;> simp [beqAll, beq_iff, beqAll_iff]

theorem beqFields_iff : ∀ fs gs : List (String × Json), beqFields fs gs = true ↔ fs = gs := by
  intro fs gs
  rcases fs with _ | ⟨⟨k, v⟩, fs⟩ <;> rcases gs with _ | ⟨⟨l, w⟩, gs⟩ <;>
    simp [beqFields, beq_iff, beqFields_iff]

end

instance : DecidableEq Json := fun a b => decidable_of_iff _ (beq_iff a b)

/-! ### Writing -/

/-- The four lower-case hexadecimal digits of a code unit. -/
def hex4 (n : ℕ) : List Char :=
  [n / 4096 % 16, n / 256 % 16, n / 16 % 16, n % 16].map Nat.digitChar

/-- The escape of one character inside a string literal. -/
def escape (c : Char) : List Char :=
  let n := c.toNat
  if c = '"' then ['\\', '"']
  else if c = '\\' then ['\\', '\\']
  else if c = '\n' then ['\\', 'n']
  else if c = '\r' then ['\\', 'r']
  else if c = '\t' then ['\\', 't']
  else if n = 8 then ['\\', 'b']
  else if n = 12 then ['\\', 'f']
  else if 32 ≤ n ∧ n ≤ 126 then [c]
  else if n < 0x10000 then ['\\', 'u'] ++ hex4 n
  else ['\\', 'u'] ++ hex4 (0xd800 + (n - 0x10000) / 1024) ++
    ['\\', 'u'] ++ hex4 (0xdc00 + (n - 0x10000) % 1024)

/-- A string literal. -/
def quote (s : String) : String :=
  "\"" ++ String.ofList (s.toList.flatMap escape) ++ "\""

mutual

/-- `json.dumps(v)`. -/
def dumps : Json → String
  | .null => "null"
  | .bool b => if b then "true" else "false"
  | .int n => toString n
  | .float t => t
  | .str s => quote s
  | .arr xs => "[" ++ PyStr.join ", " (dumpsAll xs) ++ "]"
  | .obj fs => "\x7b" ++ PyStr.join ", " (dumpsFields fs) ++ "\x7d"

/-- The items of an array. -/
def dumpsAll : List Json → List String
  | [] => []
  | x :: xs => dumps x :: dumpsAll xs

/-- The items of an object. -/
def dumpsFields : List (String × Json) → List String
  | [] => []
  | (k, v) :: fs => (quote k ++ ": " ++ dumps v) :: dumpsFields fs

end

/-! ### Reading -/

/-- Skip the white space JSON allows between tokens. -/
def skipWs (cs : List Char) : List Char :=
  cs.dropWhile fun c => c = ' ' || c = '\t' || c = '\n' || c = '\r'

/-- The value of a hexadecimal digit. -/
def hexVal (c : Char) : Option ℕ :=
  if '0' ≤ c ∧ c ≤ '9' then some (c.toNat - 48)
  else if 'a' ≤ c ∧ c ≤ 'f' then some (c.toNat - 87)
  else if 'A' ≤ c ∧ c ≤ 'F' then some (c.toNat - 55)
  else none

/-- The character a one-letter escape stands for. -/
def unescape (c : Char) : Option ℕ :=
  if c = '"' ∨ c = '\\' ∨ c = '/' then some c.toNat
  else if c = 'b' then some 8
  else if c = 'f' then some 12
  else if c = 'n' then some 10
  else if c = 'r' then some 13
  else if c = 't' then some 9
  else none

/-- The code units of a string literal up to its closing quote, and what follows. A
control character ends the reading: string literals are strict. -/
def stringUnits : List Char → Option (List ℕ × List Char)
  | [] => none
  | '"' :: cs => some ([], cs)
  -- surrogates are put together when all units are read
  | '\\' :: 'u' :: a :: b :: c :: d :: cs => do
    let n := (← hexVal a) * 4096 + (← hexVal b) * 256 + (← hexVal c) * 16 + (← hexVal d)
    let (us, r) ← stringUnits cs
    return (n :: us, r)
  | '\\' :: c :: cs => do
    let n ← unescape c
    let (us, r) ← stringUnits cs
    return (n :: us, r)
  | c :: cs =>
    if c.toNat < 32 then none
    else do
      let (us, r) ← stringUnits cs
      return (c.toNat :: us, r)

/-- Join escaped surrogate pairs; a lone surrogate has no `Char` and becomes the
replacement character. -/
def joinUnits : List ℕ → List Char
  | [] => []
  | [n] => [if n.isValidChar then Char.ofNat n else '\ufffd']
  | h :: l :: us =>
    if 0xd800 ≤ h ∧ h < 0xdc00 ∧ 0xdc00 ≤ l ∧ l < 0xe000 then
      Char.ofNat (0x10000 + (h - 0xd800) * 1024 + (l - 0xdc00)) :: joinUnits us
    else (if h.isValidChar then Char.ofNat h else '\ufffd') :: joinUnits (l :: us)

/-- A string literal after its opening quote. -/
def stringBody (cs : List Char) : Option (String × List Char) :=
  (stringUnits cs).map fun p => (String.ofList (joinUnits p.1), p.2)

/-- The digits at the front, and what follows. -/
def spanDigits (cs : List Char) : List Char × List Char := cs.span Char.isDigit

/-- `(\.[0-9]+)?` at the front. -/
def fraction (cs : List Char) : List Char × List Char :=
  match cs with
  | '.' :: r => match spanDigits r with
    | ([], _) => ([], cs)
    | (ds, r') => ('.' :: ds, r')
  | _ => ([], cs)

/-- `([eE][-+]?[0-9]+)?` at the front. -/
def exponent (cs : List Char) : List Char × List Char :=
  match cs with
  | e :: r =>
    if e = 'e' ∨ e = 'E' then
      let (sgn, r') := match r with
        | '-' :: r' => (['-'], r')
        | '+' :: r' => (['+'], r')
        | _ => ([], r)
      match spanDigits r' with
      | ([], _) => ([], cs)
      | (ds, r'') => (e :: (sgn ++ ds), r'')
    else ([], cs)
  | [] => ([], cs)

/-- The natural number a list of digits writes. -/
def natOfDigits (ds : List Char) : ℕ := ds.foldl (fun n d => n * 10 + (d.toNat - 48)) 0

/-- A number: `-?(0|[1-9][0-9]*)`, a fraction, an exponent. -/
def number (cs : List Char) : Option (Json × List Char) :=
  let (neg, cs') := match cs with
    | '-' :: r => (true, r)
    | _ => (false, cs)
  let intPart := match cs' with
    -- a zero is not followed by another digit
    | '0' :: r => (['0'], r)
    | _ => spanDigits cs'
  match intPart with
  | ([], _) => none
  | (ds, r) =>
    let (f, r) := fraction r
    let (e, r) := exponent r
    if f = [] ∧ e = [] then
      some (.int (if neg then -(natOfDigits ds) else natOfDigits ds), r)
    else some (.float (String.ofList ((if neg then ['-'] else []) ++ ds ++ f ++ e)), r)

mutual

/-- One value at the front of the text. The fuel bounds the tokens read. -/
def value : ℕ → List Char → Option (Json × List Char)
  | 0, _ => none
  | n + 1, cs =>
    match cs with
    | '"' :: r => (stringBody r).map fun p => (.str p.1, p.2)
    | '\x7b' :: r =>
      match skipWs r with
      | '\x7d' :: r' => some (.obj [], r')
      | r' => (members n r').map fun p => (.obj (Dict.update [] p.1), p.2)
    | '[' :: r =>
      match skipWs r with
      | ']' :: r' => some (.arr [], r')
      | r' => (elements n r').map fun p => (.arr p.1, p.2)
    | 'n' :: 'u' :: 'l' :: 'l' :: r => some (.null, r)
    | 't' :: 'r' :: 'u' :: 'e' :: r => some (.bool true, r)
    | 'f' :: 'a' :: 'l' :: 's' :: 'e' :: r => some (.bool false, r)
    -- constants that are no JSON, which `json.loads` reads all the same
    | 'N' :: 'a' :: 'N' :: r => some (.float "NaN", r)
    | 'I' :: 'n' :: 'f' :: 'i' :: 'n' :: 'i' :: 't' :: 'y' :: r => some (.float "Infinity", r)
    | '-' :: 'I' :: 'n' :: 'f' :: 'i' :: 'n' :: 'i' :: 't' :: 'y' :: r =>
      some (.float "-Infinity", r)
    | _ => number cs

/-- The items of an array after its opening bracket. -/
def elements : ℕ → List Char → Option (List Json × List Char)
  | 0, _ => none
  | n + 1, cs => do
    let (v, r) ← value n cs
    match skipWs r with
    | ']' :: r' => return ([v], r')
    | ',' :: r' =>
      let (vs, r'') ← elements n (skipWs r')
      return (v :: vs, r'')
    | _ => none

/-- The items of an object after its opening brace. -/
def members : ℕ → List Char → Option (List (String × Json) × List Char)
  | 0, _ => none
  | n + 1, cs =>
    match cs with
    | '"' :: r => do
      let (k, r) ← stringBody r
      match skipWs r with
      | ':' :: r =>
        let (v, r) ← value n (skipWs r)
        match skipWs r with
        | '\x7d' :: r => return ([(k, v)], r)
        | ',' :: r =>
          let (fs, r) ← members n (skipWs r)
          return ((k, v) :: fs, r)
        | _ => none
      | _ => none
    | _ => none

end

/-- What `json.loads(s)` reads where nothing is too long or too deep; `none` is
`json.JSONDecodeError`. -/
def loads (s : String) : Option Json :=
  let cs := s.toList
  match value (cs.length + 1) (skipWs cs) with
  | some (v, r) => if skipWs r = [] then some v else none
  | none => none

/-! ### The limits of an interpreter -/

theorem eight_le_nesting : 8 ≤ 900 := by decide

/-- The digits of an integer that an interpreter converts, and the brackets that its reader opens
inside each other. -/
structure Limits where
  digits : ℕ := 4300
  nesting : ℕ := 900
  /-- A few brackets are never too many. -/
  shallow : 8 ≤ nesting := by exact Lib.Json.eight_le_nesting
  deriving Repr

mutual

/-- The value at the front of the text, inside `depth` brackets, is beyond the limits: the reader
comes to a bracket or an integer that is too much before it has come to a mistake. -/
def exceedsValue (limits : Limits) : ℕ → ℕ → List Char → Bool
  | 0, _, _ => false
  | n + 1, depth, cs =>
    match cs with
    | '\x7b' :: r =>
      -- the bracket counts as soon as it is opened
      limits.nesting ≤ depth ||
        match skipWs r with
        | '\x7d' :: _ => false
        | r' => exceedsMembers limits n (depth + 1) r'
    | '[' :: r =>
      limits.nesting ≤ depth ||
        match skipWs r with
        | ']' :: _ => false
        | r' => exceedsElements limits n (depth + 1) r'
    | _ =>
      match value (n + 1) cs with
      | some (.int m, _) => limits.digits < (Nat.toDigits 10 m.natAbs).length
      | _ => false

/-- Some item of an array after its opening bracket is. -/
def exceedsElements (limits : Limits) : ℕ → ℕ → List Char → Bool
  | 0, _, _ => false
  | n + 1, depth, cs =>
    exceedsValue limits n depth cs ||
      match value n cs with
      | some (_, r) =>
        match skipWs r with
        | ',' :: r' => exceedsElements limits n depth (skipWs r')
        | _ => false
      | none => false

/-- Some item of an object after its opening brace is. -/
def exceedsMembers (limits : Limits) : ℕ → ℕ → List Char → Bool
  | 0, _, _ => false
  | n + 1, depth, cs =>
    match cs with
    | '"' :: r =>
      match stringBody r with
      | some (_, r) =>
        match skipWs r with
        | ':' :: r =>
          -- the first value that is too much ends the reading
          exceedsValue limits n depth (skipWs r) ||
            match value n (skipWs r) with
            | some (_, r) =>
              match skipWs r with
              | ',' :: r => exceedsMembers limits n depth (skipWs r)
              | _ => false
            | none => false
        | _ => false
      | none => false
    | _ => false

end

/-- Reading the text comes to an integer of too many digits, or too many brackets. -/
def exceeds (limits : Limits) (s : String) : Bool :=
  exceedsValue limits (s.toList.length + 1) 0 (skipWs s.toList)

/-- What `json.loads` raises: a `JSONDecodeError`; or a `ValueError` for an integer of too many
digits, or a `RecursionError`. -/
inductive LoadError
  | decode
  | limit
  deriving DecidableEq, Repr

/-- `json.loads(s)` in an interpreter with limits. -/
def load (limits : Limits) (s : String) : Except LoadError Json :=
  if exceeds limits s then .error .limit
  else
    match loads s with
    | some v => .ok v
    | none => .error .decode

/-! ### Floats that are zero -/

/-- A text of digits, an optional point and digits, and an optional exponent: its digits without the
point as a natural number, and the power of ten that they are multiplied with. -/
def scaled (cs : List Char) : ℕ × ℤ :=
  let (ds, r) := spanDigits cs
  let (f, r) := fraction r
  let digits := f.drop 1
  let (e, _) := exponent r
  let power : ℤ :=
    match e.drop 1 with
    | '-' :: ds => -(natOfDigits ds)
    | '+' :: ds => natOfDigits ds
    | ds => natOfDigits ds
  (natOfDigits (ds ++ digits), power - digits.length)

/-- The number of a float text rounds to zero: its absolute value is at most 2 to the power -1075,
half of the least float. -/
def isZeroText (text : String) : Bool :=
  let cs := match text.toList with
    | '-' :: r => r
    | cs => cs
  if cs.head?.any Char.isDigit then
    let (m, e) := scaled cs
    match e with
    | .ofNat _ => m = 0
    | .negSucc k => m * 2 ^ 1075 ≤ 10 ^ (k + 1)
  else false

example : isZeroText "-0.0e5" = true ∧ isZeroText "1e-400" = true ∧ isZeroText "2.5e-3" = false ∧
    isZeroText "NaN" = false := by decide +kernel

example : load { digits := 2 } "[12, 345" = .error .limit := by decide +kernel

example : loads "\x7b\"a\": [1, -2.5e3], \"a\": \"\\u00e9\"\x7d" =
    some (.obj [("a", .str "\u00e9")]) := by decide +kernel

example : dumps (.obj [("q", .str "\u00e9\n"), ("n", .arr [.int (-3), .null])]) =
    "\x7b\"q\": \"\\u00e9\\n\", \"n\": [-3, null]\x7d" := by decide +kernel

end Json
end Lib
