import WireSchema.TypeExpr.Builtin

/-
  Reading type expressions.

  Key definitions include:
    * `TypeExpr.FaultCause`, `TypeExprFault`
    * `TypeExpr.readExpr`
    * `TypeExpr.parse`

  Blanks may stand before every token except the bracket
  that opens type arguments.  A fault is placed by the bytes
  in front of it.
-/

namespace WireSchema

------------------------------------------------------------
-- Faults
------------------------------------------------------------

/- What is missing from an expression. -/
inductive TypeExpr.FaultCause where
  | length
  | lengthClose
  | keyClose
  | name
  | argsClose
  | trailing
  deriving DecidableEq, Repr, Inhabited

def TypeExpr.FaultCause.message :
    TypeExpr.FaultCause → String
  | .length => "expected array length"
  | .lengthClose => "expected ']'"
  | .keyClose => "expected ']' after map key"
  | .name => "expected a type name"
  | .argsClose => "expected ',' or ']' in type arguments"
  | .trailing => "unexpected trailing input"

/- Why a text is not a type expression. -/
structure TypeExprFault where
  input : String
  cause : TypeExpr.FaultCause
  offset : Nat
  deriving DecidableEq, Repr

def TypeExprFault.message (e : TypeExprFault) : String :=
  "invalid type reference " ++ Text.shown e.input ++ ": "
    ++ e.cause.message ++ " at offset " ++ toString e.offset

namespace TypeExpr

------------------------------------------------------------
-- Tokens
------------------------------------------------------------

/- A cause with the text in front of which it arose. -/
abbrev Fault := FaultCause × List Char

/- The text behind a token, blanks in front of it skipped. -/
def afterToken?
    (token : String)
    (s : List Char) : Option (List Char) :=
  Text.afterHead? token.toList (Text.trimStart s)

/- The characters that end a name. -/
def endsName (c : Char) : Bool :=
  c == '[' || c == ']' || c == ',' || c == ' '

/- The types that are written with braces, and their names. -/
def bracedTypes : List (String × String) :=
  [("struct \x7b\x7d", "struct\x7b\x7d"),
    ("struct\x7b\x7d", "struct\x7b\x7d"),
    ("interface \x7b\x7d", "interface\x7b\x7d"),
    ("interface\x7b\x7d", "interface\x7b\x7d")]

/- A braced type at the start of a text. -/
def readBraced? (s : List Char) :
    Option (TypeExpr × List Char) :=
  bracedTypes.findSome? fun p =>
    (afterToken? p.1 s).map fun rest => (.builtin p.2, rest)

/- The length of an array: digits that fit a word. -/
def readLength? (s : List Char) : Option (Nat × List Char) :=
  let digits := s.takeWhile Char.isDigit
  let n := Binary64.digitsValue digits
  if digits.isEmpty then none
  else if n ≤ maxWord then
    some (n, s.dropWhile Char.isDigit)
  else none

/-
  The expression that a name with arguments stands for.  A
  predeclared name without arguments is a built-in type.
-/
def ofName (name : List Char) (args : List TypeExpr) :
    TypeExpr :=
  match splitQualified (String.ofList name) with
  | some id => .named id.space id.name args
  | none =>
      let name := String.ofList name
      if args.isEmpty && (builtinType? name).isSome then
        .builtin name
      else .named "" name args

------------------------------------------------------------
-- Expressions
------------------------------------------------------------

mutual

/-
  Read an expression at the start of a text.  The first
  argument bounds the number of steps.
-/
def readExpr :
    Nat → List Char → Except Fault (TypeExpr × List Char)
  | 0, s => .error (.name, s)
  | fuel + 1, s =>
      if let some rest := afterToken? "*" s then do
        let (elem, rest) ← readExpr fuel rest
        .ok (.pointer elem, rest)
      else if let some rest := afterToken? "[]" s then do
        let (elem, rest) ← readExpr fuel rest
        .ok (.slice elem, rest)
      else if let some rest := afterToken? "[" s then
        match readLength? rest with
        | none => .error (.length, rest)
        | some (len, rest) =>
            match afterToken? "]" rest with
            | none => .error (.lengthClose, Text.trimStart rest)
            | some rest => do
                let (elem, rest) ← readExpr fuel rest
                .ok (.array len elem, rest)
      else if let some rest := afterToken? "map[" s then do
        let (key, rest) ← readExpr fuel rest
        match afterToken? "]" rest with
        | none => .error (.keyClose, Text.trimStart rest)
        | some rest => do
            let (value, rest) ← readExpr fuel rest
            .ok (.map key value, rest)
      else if let some found := readBraced? s then .ok found
      else
        let s := Text.trimStart s
        let name := s.takeWhile fun c => !endsName c
        let rest := s.dropWhile fun c => !endsName c
        if name.isEmpty then .error (.name, s)
        else
          match rest with
          | '[' :: rest => do
              let (args, rest) ← readArgs fuel rest
              .ok (ofName name args, rest)
          | rest => .ok (ofName name [], rest)

/- The arguments up to the closing bracket. -/
def readArgs :
    Nat → List Char → Except Fault (List TypeExpr × List Char)
  | 0, s => .error (.name, s)
  | fuel + 1, s => do
      let (arg, rest) ← readExpr fuel s
      match afterToken? "," rest with
      | some rest => do
          let (args, rest) ← readArgs fuel rest
          .ok (arg :: args, rest)
      | none =>
          match afterToken? "]" rest with
          | some rest => .ok ([arg], rest)
          | none => .error (.argsClose, Text.trimStart rest)

end

/- A pointer is read from its mark and what it points to. -/
theorem readExpr_pointer
    {fuel : Nat}
    {s rest : List Char}
    {elem : TypeExpr}
    (h : readExpr fuel s = .ok (elem, rest)) :
    readExpr (fuel + 1) ('*' :: s) =
      .ok (.pointer elem, rest) := by
  have hStar : afterToken? "*" ('*' :: s) = some s := rfl
  rw [readExpr]
  simp only [hStar, h]
  rfl

/- A slice is read from its brackets and its elements. -/
theorem readExpr_slice
    {fuel : Nat}
    {s rest : List Char}
    {elem : TypeExpr}
    (h : readExpr fuel s = .ok (elem, rest)) :
    readExpr (fuel + 1) ('[' :: ']' :: s) =
      .ok (.slice elem, rest) := by
  have hStar : afterToken? "*" ('[' :: ']' :: s) = none := rfl
  have hSlice :
      afterToken? "[]" ('[' :: ']' :: s) = some s := rfl
  rw [readExpr]
  simp only [hStar, hSlice, h]
  rfl

/- A map is read from its key in brackets and its value. -/
theorem readExpr_map
    {fuel : Nat}
    {s more rest : List Char}
    {key value : TypeExpr}
    (hKey : readExpr fuel s = .ok (key, ']' :: more))
    (hValue : readExpr fuel more = .ok (value, rest)) :
    readExpr (fuel + 1) ('m' :: 'a' :: 'p' :: '[' :: s) =
      .ok (.map key value, rest) := by
  have hStar : ∀ s, afterToken? "*" ('m' :: s) = none :=
    fun _ => rfl
  have hSlice : ∀ s, afterToken? "[]" ('m' :: s) = none :=
    fun _ => rfl
  have hArray : ∀ s, afterToken? "[" ('m' :: s) = none :=
    fun _ => rfl
  have hMap :
      afterToken? "map[" ('m' :: 'a' :: 'p' :: '[' :: s) =
        some s := rfl
  have hClose : afterToken? "]" (']' :: more) = some more := rfl
  rw [readExpr]
  simp only [hStar, hSlice, hArray, hMap, hKey, bind, Except.bind,
    hClose, hValue]

/- The last argument has the closing bracket behind it. -/
theorem readArgs_last
    {fuel : Nat}
    {s rest : List Char}
    {arg : TypeExpr}
    (h : readExpr fuel s = .ok (arg, ']' :: rest)) :
    readArgs (fuel + 1) s = .ok ([arg], rest) := by
  have hComma : afterToken? "," (']' :: rest) = none := rfl
  have hClose : afterToken? "]" (']' :: rest) = some rest := rfl
  simp only [readArgs, h, bind, Except.bind, hComma, hClose]

/- A comma has more arguments behind it. -/
theorem readArgs_more
    {fuel : Nat}
    {s more rest : List Char}
    {arg : TypeExpr}
    {args : List TypeExpr}
    (h : readExpr fuel s = .ok (arg, ',' :: more))
    (hMore : readArgs fuel more = .ok (args, rest)) :
    readArgs (fuel + 1) s = .ok (arg :: args, rest) := by
  have hComma : afterToken? "," (',' :: more) = some more := rfl
  simp only [readArgs, h, bind, Except.bind, hComma, hMore]

------------------------------------------------------------
-- Whole Texts
------------------------------------------------------------

/- How many bytes a text takes. -/
def byteLength (s : List Char) : Nat :=
  s.foldl (fun n c => n + c.utf8Size) 0

/-
  Read a text that is an expression and nothing more.  Every
  step but the first in a list of arguments consumes a
  character, so twice the length of the text is enough.
-/
def parse (input : String) : Except TypeExprFault TypeExpr :=
  let chars := input.toList
  let fault := fun (cause : FaultCause) (rest : List Char) =>
    { input, cause
      offset := byteLength chars - byteLength rest :
        TypeExprFault }
  match readExpr (2 * chars.length + 2) chars with
  | .error (cause, rest) => .error (fault cause rest)
  | .ok (e, rest) =>
      let rest := Text.trimStart rest
      if rest.isEmpty then .ok e
      else .error (fault .trailing rest)

end TypeExpr

end WireSchema
