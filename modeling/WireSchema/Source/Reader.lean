import WireSchema.Source.DocText
import WireSchema.Source.Cursor
import WireSchema.Source.Preference

/-
  Reading types and expressions from tokens.

  A line end closes what is under way, unless that stands
  between brackets.  Expressions are also told whether a
  brace behind them opens a block, and whether they are the
  first thing of a statement.  All readers take a bound on
  the number of their steps as the first argument.  What
  reads the body of a function behind its opening brace is
  given to them.

  Key definitions include:
    * `Setting`
    * `readType?`, `readTerms?`
    * `readExpr?`
-/

namespace WireSchema.Source

------------------------------------------------------------
-- Settings
------------------------------------------------------------

/-
  Where an expression stands: between brackets or in the head
  of a statement, where line ends do not count; where a brace
  behind it opens a block; where it may be counted up or
  down, or have a value sent to it.
-/
structure Setting where
  inner : Bool := false
  header : Bool := false
  leading : Bool := false
  deriving DecidableEq, Repr, Inhabited

namespace Setting

def bracketed : Setting := { inner := true }

/- The same place behind the first expression there. -/
def further (x : Setting) : Setting :=
  { x with leading := false }

end Setting

------------------------------------------------------------
-- Comments
------------------------------------------------------------

/- Comments in front of the next token, as types. -/
def commentTypes : Tokens → List SourceType
  | t :: _ => t.comments.map fun c => .unsupported c.text
  | [] => []

/- A type behind a marker, where a comment counts as one. -/
def behindMarker (ts : Tokens) (type : SourceType) :
    SourceType :=
  match leadingComment? ts with
  | some text => .unsupported text
  | none => type

------------------------------------------------------------
-- Operators
------------------------------------------------------------

/- How tightly an operator binds. -/
def bindingPower? : String → Option Nat
  | "||" => some 1
  | "&&" => some 2
  | "==" | "!=" | "<" | "<=" | ">" | ">=" => some 3
  | "+" | "-" | "|" | "^" => some 4
  | "*" | "/" | "%" | "<<" | ">>" | "&" | "&^" => some 5
  | _ => none

/- Symbols that only count behind a leading expression. -/
def isStepSymbol (s : String) : Bool :=
  s == "++" || s == "--" || s == "<-"

/-
  An operator behind an operand, how tightly it binds, and
  what follows.  A symbol that does not count here is two.
-/
def operator? (x : Setting) (ts : Tokens) :
    Option (String × Nat × Tokens) :=
  let simple := fun (ts : Tokens) =>
    match ts with
    | t :: rest =>
        if t.kind == .symbol && isJoined x.inner ts then
          (bindingPower? t.text).map fun p => (t.text, p, rest)
        else none
    | [] => none
  match ts with
  | t :: _ =>
      if !x.leading && isStepSymbol t.text then
        simple (splitSymbol ts)
      else simple ts
  | [] => none

/- Operators in front of an operand. -/
def prefixOperators : List String :=
  ["+", "-", "!", "^", "*", "&", "<-"]

/- Symbols that are two operators in front of an operand. -/
def doublePrefixes : List String :=
  ["++", "--", "&&", "&^"]

/- An operator in front of an operand, and what follows. -/
def prefixOperator? (ts : Tokens) : Option (String × Tokens) :=
  let simple := fun (ts : Tokens) =>
    match ts with
    | t :: rest =>
        if t.kind == .symbol && prefixOperators.contains t.text
        then some (t.text, rest)
        else none
    | [] => none
  match ts with
  | t :: _ =>
      if t.kind == .symbol && doublePrefixes.contains t.text
      then simple (splitSymbol ts)
      else simple ts
  | [] => none

/- The value of an operator in front of an operand. -/
def applyPrefix (s : String) (e : ConstExpr) : ConstExpr :=
  if s == "-" then .neg e
  else if s == "+" then e
  else .unknown

------------------------------------------------------------
-- Operands
------------------------------------------------------------

/-
  An operand: its expression, its name if it is nothing else,
  and whether it could be the name of a type.
-/
structure Operand where
  expr : ConstExpr := .unknown
  callee : Option String := none
  mayBeType : Bool := false
  deriving Repr, Inhabited

/- The operand that a name alone is. -/
def Operand.ofName (s : String) : Operand :=
  if s == "iota" then { expr := .position }
  else if s == "true" || s == "false" || s == "nil" then {}
  else
    { expr := .name s, callee := some s
      mayBeType := !isValueWord s }

/- The operand that a literal is. -/
def Operand.ofLiteral? (t : Token) : Option Operand :=
  match t.kind with
  | .int =>
      some
        { expr :=
            ((intOf? t.text).map ConstExpr.int).getD .unknown }
  | .float =>
      let digits := t.text.toList.filter fun c => c != '_'
      some
        { expr :=
            ((Binary64.ofText? digits).map ConstExpr.float).getD
              .unknown }
  | .imaginary => some {}
  | .text => some { expr := .text (unquote t.text) }
  | .rawText => some { expr := .text (rawContent t.text) }
  | .rune =>
      some
        { expr :=
            ((runeOf? t.text).map ConstExpr.int).getD .unknown }
  | _ => none

/- Whether a token starts a type that is no name. -/
def startsLongType (t : Token) : Bool :=
  t.isSymbol "["
    || (t.kind == .keyword
      && ["map", "chan", "func", "struct", "interface"].contains
        t.text)

/- Whether values of a type that starts so stand in braces. -/
def startsBracedType (t : Token) : Bool :=
  t.isSymbol "[" || t.isKeyword "map" || t.isKeyword "struct"

/-
  Whether a brace holds the elements of a value of a named
  type.  In a head it rather opens a block, unless the name
  is a longer one and no block may end where it is closed.
-/
def opensValue (x : Setting) (isLong : Bool) (ts : Tokens) :
    Bool :=
  let behind := (skipBrackets? "\x7b" ts).getD []
  joins x.inner "\x7b" ts
    && (!x.header || (isLong && !mayEndBlock behind))

/- Whether tokens start with the type of a channel. -/
def startsReceiver (ts : Tokens) : Bool :=
  ((symbol? "<-" ts).bind (keyword? "chan")).isSome

/-
  The value of a call.  The arguments stand behind tokens;
  a comment in front of them is taken for the first one.
-/
def callValue
    (callee : Option String)
    (inside : Tokens)
    (args : List ConstExpr) : ConstExpr :=
  match callee with
  | none => .unknown
  | some f =>
      if (leadingComment? inside).isSome then
        .conversion f .unknown
      else
        match args with
        | [] => .unknown
        | e :: _ => .conversion f e

/- Whether the first argument of a call is a type. -/
def takesType : Option String → Bool
  | some f => f == "new" || f == "make"
  | none => false

/-
  How what stands in square brackets in front of arguments
  can be read: as the arguments of a type, as an index.
-/
structure BracketReading where
  types? : Option (List SourceType × Tokens)
  index? : Option Tokens

namespace BracketReading

/- What follows the brackets. -/
def rest? (b : BracketReading) : Option Tokens :=
  match b.types? with
  | some p => some p.2
  | none => b.index?

/- The points of a type with these arguments in a call. -/
def typePoints? (b : BracketReading) : Option Int :=
  b.types?.map fun p => 1 + SourceType.pointsOf p.1

/- The points of the index. -/
def indexPoints? (b : BracketReading) : Option Int :=
  b.index?.map fun _ =>
    match b.types? with
    | some ([arg], _) => arg.pointsAsValue?.getD 0
    | _ => 0

/- Whether a type comes first, or an index does. -/
def isType (b : BracketReading) : Bool :=
  match b.typePoints?, b.indexPoints? with
  | some t, some i => i ≤ t
  | some _, none => true
  | none, _ => false

def isIndex (b : BracketReading) : Bool :=
  match b.typePoints?, b.indexPoints? with
  | some t, some i => t ≤ i
  | some _, none => false
  | none, _ => true

end BracketReading

------------------------------------------------------------
-- Types and Expressions
------------------------------------------------------------

section

variable (body : Tokens → Option Tokens)

mutual

/- A type. -/
def readType? :
    Nat → Bool → Tokens → Option (SourceType × Tokens)
  | 0, _, _ => none
  | _, _, [] => none
  | fuel + 1, inner, t :: rest =>
      if t.isName then readNamed? fuel inner (t :: rest)
      else if t.isSymbol "(" then do
        let (type, after) ← readType? fuel true rest
        let after ← symbol? ")" after
        some (behindMarker rest type, after)
      else if t.isSymbol "*" then do
        let (type, after) ← readType? fuel inner rest
        some (.pointer (behindMarker rest type), after)
      else if t.isSymbol "~" then do
        let (type, after) ← readType? fuel inner rest
        some (.tilde (behindMarker rest type), after)
      else if t.isSymbol "[" then readSequence? fuel inner rest
      else if t.isKeyword "map" then do
        let (key, after) ←
          readType? fuel true (← symbol? "[" rest)
        let (value, after) ←
          readType? fuel inner (← symbol? "]" after)
        some (.map key value, after)
      else if t.isKeyword "struct" then do
        let (fields, after) ←
          readFields? fuel (← symbol? "\x7b" rest)
        some (.struct fields, after)
      else if t.isKeyword "interface" then do
        let (type, after) ←
          readElems? fuel (← symbol? "\x7b" rest)
        some (type, after)
      else do
        let after ← readOpaque? fuel inner (t :: rest)
        some
          (.unsupported (consumedText (t :: rest) after), after)

/- A type that has no place on the wire: functions, channels. -/
def readOpaque? : Nat → Bool → Tokens → Option Tokens
  | 0, _, _ => none
  | fuel + 1, inner, ts =>
      if let some rest := keyword? "func" ts then
        readSignature? fuel inner rest
      else if let some rest := keyword? "chan" ts then do
        let rest :=
          match symbol? "<-" rest with
          | some rest => rest
          | none => rest
        let (_, after) ← readType? fuel inner rest
        some after
      else do
        let rest ← keyword? "chan" (← symbol? "<-" ts)
        let (_, after) ← readType? fuel inner rest
        some after

/- A slice or an array, behind its opening bracket. -/
def readSequence? :
    Nat → Bool → Tokens → Option (SourceType × Tokens)
  | 0, _, _ => none
  | fuel + 1, inner, ts =>
      match symbol? "]" ts with
      | some rest => do
          let (elem, after) ← readType? fuel inner rest
          some (.slice elem, after)
      | none => do
          let (_, rest) ← readExpr? fuel .bracketed 1 ts
          let len := lengthOf? (consumedText ts rest)
          let (elem, after) ←
            readType? fuel inner (← symbol? "]" rest)
          some (.array len elem, after)

/- A type name, maybe qualified, maybe with arguments. -/
def readNamed? :
    Nat → Bool → Tokens → Option (SourceType × Tokens)
  | 0, _, _ => none
  | fuel + 1, inner, ts => do
      let (t, rest) ← name? ts
      let (base, rest) ←
        match joined? inner "." rest with
        | some rest => do
            let (u, rest) ← name? rest
            some (SourceType.qualified t.text u.text, rest)
        | none => some (.ident t.text, rest)
      match joined? inner "[" rest with
      | some inside => do
          let (args, rest) ← readTypeArgs? fuel inside
          some (.generic base args, rest)
      | none => some (base, rest)

/- Type arguments behind the opening bracket. -/
def readTypeArgs? :
    Nat → Tokens → Option (List SourceType × Tokens)
  | 0, _ => none
  | fuel + 1, ts => do
      let (terms, rest) ← readTerms? fuel true ts
      let found :=
        commentTypes ts ++ [SourceType.ofTerms terms]
          ++ commentTypes rest
      let (isMore, after) ← ifMore? "," "]" rest
      if isMore then do
        let (args, after) ← readTypeArgs? fuel after
        some (found ++ args, after)
      else
        let trailing :=
          match symbol? "," rest with
          | some rest => commentTypes rest
          | none => []
        some (found ++ trailing, after)

/- The terms of a union. -/
def readTerms? :
    Nat → Bool → Tokens → Option (List SourceType × Tokens)
  | 0, _, _ => none
  | fuel + 1, inner, ts => do
      let (type, rest) ← readType? fuel inner ts
      match joined? inner "|" rest with
      | some rest => do
          let (terms, rest) ← readTerms? fuel inner rest
          some (type :: terms, rest)
      | none => some ([type], rest)

/- Parameters behind the opening bracket. -/
def readParams? : Nat → Tokens → Option Tokens
  | 0, _ => none
  | fuel + 1, ts =>
      match closed? "," ")" ts with
      | some rest => some rest
      | none => readMoreParams? fuel ts

/- Parameters, of which there is at least one more. -/
def readMoreParams? : Nat → Tokens → Option Tokens
  | 0, _ => none
  | fuel + 1, ts => do
      let rest ← readParam? fuel ts
      let (isMore, after) ← ifMore? "," ")" rest
      if isMore then readMoreParams? fuel after
      else some after

/- One parameter: a type, with or without a name. -/
def readParam? : Nat → Tokens → Option Tokens
  | 0, _ => none
  | fuel + 1, ts =>
      let bare := fun (ts : Tokens) =>
        let ts := (symbol? "..." ts).getD ts
        (readType? fuel true ts).map Prod.snd
      let closes := fun (ts : Tokens) =>
        (symbol? "," ts).isSome || (symbol? ")" ts).isSome
      let named := do
        let (_, rest) ← name? ts
        let rest ← bare rest
        if closes rest then some rest else none
      match named with
      | some rest => some rest
      | none => bare ts

/- Parameters and results of a function. -/
def readSignature? : Nat → Bool → Tokens → Option Tokens
  | 0, _, _ => none
  | fuel + 1, inner, ts => do
      let rest ← readParams? fuel (← symbol? "(" ts)
      if !isJoined inner rest then some rest
      else
        match symbol? "(" rest with
        | some inside => readParams? fuel inside
        | none =>
            match readType? fuel inner rest with
            | some (_, after) => some after
            | none => some rest

/- Fields behind the opening brace. -/
def readFields? :
    Nat → Tokens →
      Option (List (SourceField SourceType) × Tokens)
  | 0, _ => none
  | fuel + 1, ts =>
      match symbol? "\x7d" ts with
      | some rest => some ([], rest)
      | none => do
          let (field, rest) ← readField? fuel ts
          let after ← readMember? rest
          let (fields, after) ← readFields? fuel after
          some (field :: fields, after)

/- What follows a member of a struct or an interface. -/
def readMember? : Tokens → Option Tokens
  | [] => none
  | t :: rest =>
      if t.lineStart || t.isSymbol "\x7d" then
        some (t :: rest)
      else if t.isEndMark then some rest
      else none

/- The tag of a field, if it has one. -/
def readTag : Tokens → String × Tokens
  | [] => ("", [])
  | t :: rest =>
      if t.isText && !t.lineStart then (t.text, rest)
      else ("", t :: rest)

/- One field. -/
def readField? :
    Nat → Tokens → Option (SourceField SourceType × Tokens)
  | 0, _ => none
  | fuel + 1, ts => do
      let doc :=
        match ts with
        | t :: _ => Doc.ofLines t.docLines
        | [] => {}
      let (names, type, rest) ←
        match readEmbedded? fuel ts with
        | some (type, rest) => some ([], type, rest)
        | none => do
            let (names, rest) ← readNames? fuel ts
            let (type, rest) ← readType? fuel false rest
            some (names, type, rest)
      let (tag, rest) := readTag rest
      some ({ names, type, tag, doc }, rest)

/- An embedded field: a type name and nothing but a tag. -/
def readEmbedded? :
    Nat → Tokens → Option (SourceType × Tokens)
  | 0, _ => none
  | fuel + 1, ts => do
      let star := symbol? "*" ts
      let (base, rest) ← readNamed? fuel false (star.getD ts)
      let type :=
        if star.isSome then SourceType.pointer base else base
      let _ ← readMember? (readTag rest).2
      some (type, rest)

/- Elements of an interface behind the opening brace. -/
def readElems? : Nat → Tokens → Option (SourceType × Tokens)
  | 0, _ => none
  | fuel + 1, ts =>
      match symbol? "\x7d" ts with
      | some rest => some (.interface [] false, rest)
      | none => do
          let (elem, rest) ← readElem? fuel ts
          let after ← readMember? rest
          let (more, after) ← readElems? fuel after
          match more with
          | .interface elems hasMethods =>
              some
                (.interface (elem.toList ++ elems)
                    (hasMethods || elem.isNone),
                  after)
          | _ => none

/- An element; a method is none. -/
def readElem? :
    Nat → Tokens → Option (Option SourceType × Tokens)
  | 0, _ => none
  | fuel + 1, ts =>
      let method := do
        let (_, rest) ← name? ts
        let _ ← joined? false "(" rest
        readSignature? fuel false rest
      match method with
      | some rest => some (none, rest)
      | none => do
          let (terms, rest) ← readTerms? fuel false ts
          some (some (.ofTerms terms), rest)

/- An expression of operators that bind tightly enough. -/
def readExpr? :
    Nat → Setting → Nat → Tokens → Option (ConstExpr × Tokens)
  | 0, _, _, _ => none
  | fuel + 1, x, power, ts => do
      let (left, rest) ← readUnary? fuel x ts
      readBinary? fuel x power left rest

/- Further operators and operands behind an expression. -/
def readBinary? :
    Nat → Setting → Nat → ConstExpr → Tokens →
      Option (ConstExpr × Tokens)
  | 0, _, _, _, _ => none
  | fuel + 1, x, power, left, ts =>
      match operator? x ts with
      | none => some (left, ts)
      | some (s, p, rest) =>
          if p < power then some (left, ts)
          else do
            let (right, rest) ← readExpr? fuel x (p + 1) rest
            readBinary? fuel x power
              (.binary (.ofSymbol s) left right) rest

/- An operand with operators in front of it. -/
def readUnary? :
    Nat → Setting → Tokens → Option (ConstExpr × Tokens)
  | 0, _, _ => none
  | fuel + 1, x, ts =>
      let operand := do
        let (y, rest) ← readOperand? fuel x ts
        readPostfix? fuel x y ts rest
      match prefixOperator? ts with
      | none => operand
      | some (s, rest) =>
          if startsReceiver ts then operand
          else
            match readPointed? fuel x ts with
            | some (y, rest) => readPostfix? fuel x y ts rest
            | none => do
                let (e, rest) ← readUnary? fuel x rest
                some (applyPrefix s e, rest)

/- A value converted to a pointer of which the text is
   rather a type than a value. -/
def readPointed? :
    Nat → Setting → Tokens → Option (Operand × Tokens)
  | 0, _, _ => none
  | fuel + 1, x, ts => do
      let _ ← symbol? "*" ts
      let (type, rest) ← readType? fuel x.inner ts
      if isRatherType type then readConverted? fuel x ts rest
      else none

/- An operand up to what may stand behind it. -/
def readOperand? :
    Nat → Setting → Tokens → Option (Operand × Tokens)
  | 0, _, _ => none
  | _, _, [] => none
  | fuel + 1, x, t :: rest =>
      if t.isName then some (.ofName t.text, rest)
      else if t.isSymbol "(" then
        match readNested? fuel rest with
        | some (e, after) =>
            let converted :=
              if joins x.inner "(" after then do
                let (type, behind) ←
                  readType? fuel x.inner (t :: rest)
                if isRatherType type then
                  readConverted? fuel x (t :: rest) behind
                else none
              else none
            some (converted.getD ({ expr := e }, after))
        | none => readConversion? fuel (t :: rest)
      else if t.isKeyword "func" then
        match readLambda? fuel rest with
        | some after => some ({}, after)
        | none => readConversion? fuel (t :: rest)
      else if startsLongType t
          || startsReceiver (t :: rest) then
        readConversion? fuel (t :: rest)
      else (Operand.ofLiteral? t).map fun y => (y, rest)

/- An expression behind its opening bracket. -/
def readNested? :
    Nat → Tokens → Option (ConstExpr × Tokens)
  | 0, _ => none
  | fuel + 1, ts => do
      let (e, rest) ← readExpr? fuel .bracketed 1 ts
      let rest ← symbol? ")" rest
      if (leadingComment? ts).isSome then some (.unknown, rest)
      else some (e, rest)

/- A function without a name, behind its keyword. -/
def readLambda? : Nat → Tokens → Option Tokens
  | 0, _ => none
  | fuel + 1, ts => do
      let rest ← readSignature? fuel true ts
      body (← symbol? "\x7b" rest)

/-
  A type with a value of it: converted, or in braces.  Line
  ends do not count, as the type alone is no expression.
-/
def readConversion? :
    Nat → Tokens → Option (Operand × Tokens)
  | 0, _ => none
  | _, [] => none
  | fuel + 1, t :: rest =>
      let x := Setting.bracketed
      let counted := do
        let after ← symbol? "..." (← symbol? "[" (t :: rest))
        let (_, after) ← readType? fuel true (← symbol? "]" after)
        some after
      match counted with
      | some after => readBraced? fuel x after
      | none => do
          let (_, after) ← readType? fuel true (t :: rest)
          match readConverted? fuel x (t :: rest) after with
          | some found => some found
          | none =>
              if startsBracedType t then
                readBraced? fuel x after
              else none

/-
  The value in round brackets that is converted to a type.
  The tokens from the type on and those behind it are given.
-/
def readConverted? :
    Nat → Setting → Tokens → Tokens → Option (Operand × Tokens)
  | 0, _, _, _ => none
  | fuel + 1, x, start, ts => do
      let inside ← joined? x.inner "(" ts
      let (e, rest) ← readExpr? fuel .bracketed 1 inside
      let after ← closed? "," ")" rest
      some
        ({ expr := .conversion (consumedText start ts) e },
          after)

/- A value in braces behind its type. -/
def readBraced? :
    Nat → Setting → Tokens → Option (Operand × Tokens)
  | 0, _, _ => none
  | fuel + 1, x, ts => do
      let inside ← joined? x.inner "\x7b" ts
      let after ← readElements? fuel inside
      some ({}, after)

/- The elements of a value behind its opening brace. -/
def readElements? : Nat → Tokens → Option Tokens
  | 0, _ => none
  | fuel + 1, ts =>
      match closed? "," "\x7d" ts with
      | some rest => some rest
      | none => readMoreElements? fuel ts

/- Elements, of which there is at least one more; a key may
   stand in front of each. -/
def readMoreElements? : Nat → Tokens → Option Tokens
  | 0, _ => none
  | fuel + 1, ts => do
      let rest ← readElement? fuel ts
      let rest ←
        match symbol? ":" rest with
        | some rest => readElement? fuel rest
        | none => some rest
      let (isMore, after) ← ifMore? "," "\x7d" rest
      if isMore then readMoreElements? fuel after
      else some after

/- A key or an element; its type may be left out. -/
def readElement? : Nat → Tokens → Option Tokens
  | 0, _ => none
  | fuel + 1, ts =>
      match symbol? "\x7b" ts with
      | some inside => readElements? fuel inside
      | none => (readExpr? fuel .bracketed 1 ts).map Prod.snd

/- Arguments behind the opening bracket. -/
def readArgs? :
    Nat → Tokens → Option (List ConstExpr × Tokens)
  | 0, _ => none
  | fuel + 1, ts =>
      match symbol? ")" ts with
      | some rest => some ([], rest)
      | none => readMoreArgs? fuel ts

/- Arguments, of which there is at least one more. -/
def readMoreArgs? :
    Nat → Tokens → Option (List ConstExpr × Tokens)
  | 0, _ => none
  | fuel + 1, ts => do
      let (e, rest) ← readExpr? fuel .bracketed 1 ts
      let (e, rest) :=
        match symbol? "..." rest with
        | some rest => (ConstExpr.unknown, rest)
        | none => (e, rest)
      let (isMore, after) ← ifMore? "," ")" rest
      if isMore then do
        let (args, after) ← readMoreArgs? fuel after
        some (e :: args, after)
      else some ([e], after)

/- Arguments of which the first is a type. -/
def readTypeArg? :
    Nat → Tokens → Option (List ConstExpr × Tokens)
  | 0, _ => none
  | fuel + 1, ts =>
      match symbol? ")" ts with
      | some rest => some ([], rest)
      | none => do
          let (_, rest) ← readType? fuel true ts
          let (isMore, after) ← ifMore? "," ")" rest
          if isMore then do
            let after ← readPlainArgs? fuel after
            some ([.unknown], after)
          else some ([.unknown], after)

/- Arguments behind a type. -/
def readPlainArgs? : Nat → Tokens → Option Tokens
  | 0, _ => none
  | fuel + 1, ts => do
      let (_, rest) ← readExpr? fuel .bracketed 1 ts
      let (isMore, after) ← ifMore? "," ")" rest
      if isMore then readPlainArgs? fuel after
      else some after

/-
  An index or the bounds of a slice behind the opening
  bracket.  A third bound needs the second one.
-/
def readIndex? : Nat → Tokens → Option Tokens
  | 0, _ => none
  | fuel + 1, ts =>
      let expr := fun (ts : Tokens) =>
        (readExpr? fuel .bracketed 1 ts).map Prod.snd
      let first := expr ts
      match symbol? ":" (first.getD ts) with
      | none => first.bind (symbol? "]")
      | some rest =>
          match expr rest with
          | none => symbol? "]" rest
          | some rest =>
              match symbol? ":" rest with
              | none => symbol? "]" rest
              | some rest => (expr rest).bind (symbol? "]")

/- Type arguments where an index may stand as well. -/
def readOpenArgs? :
    Nat → Tokens → Option (List SourceType × Tokens)
  | 0, _ => none
  | fuel + 1, ts =>
      (readTypeArgs? fuel ts).filter fun p =>
        !SourceType.firstNamesValue p.1

/-
  A call behind a name and square brackets, which hold the
  arguments of a type or an index.
-/
def readBracketCall? :
    Nat → Setting → Operand → Tokens → Tokens →
      Option (Operand × Tokens)
  | 0, _, _, _, _ => none
  | fuel + 1, x, y, start, inside => do
      let b : BracketReading :=
        { types? := readOpenArgs? fuel inside
          index? := readIndex? fuel inside }
      let after ← b.rest?
      let converted :=
        if b.isType then readConverted? fuel x start after
        else none
      match converted with
      | some found => some found
      | none => do
          let args ← symbol? "(" after
          let (es, rest) ← readArgs? fuel args
          let callee := if b.isIndex then none else y.callee
          some ({ expr := callValue callee args es }, rest)

/-
  What stands behind an operand: selectors, indices, calls,
  braces.  The tokens from the operand on are given too.
-/
def readPostfix? :
    Nat → Setting → Operand → Tokens → Tokens →
      Option (ConstExpr × Tokens)
  | 0, _, _, _, _ => none
  | fuel + 1, x, y, start, ts =>
      if let some rest := joined? x.inner "." ts then
        match name? rest with
        | some (_, after) =>
            let z : Operand := { mayBeType := y.callee.isSome }
            readPostfix? fuel x z start after
        | none => do
            let inside ← symbol? "(" rest
            if (keyword? "type" inside).isSome then
              some (y.expr, ts)
            else do
              let (_, after) ← readType? fuel true inside
              readPostfix? fuel x {} start (← symbol? ")" after)
      else if let some inside := joined? x.inner "[" ts then do
        let behind := (skipBrackets? "[" ts).getD []
        if y.mayBeType && joins x.inner "(" behind then do
          let (z, after) ←
            readBracketCall? fuel x y start inside
          readPostfix? fuel x z start after
        else if y.mayBeType && opensValue x true behind then do
          let (_, after) ← readOpenArgs? fuel inside
          let (z, after) ← readBraced? fuel x after
          readPostfix? fuel x z start after
        else
          match readIndex? fuel inside with
          | some after => readPostfix? fuel x {} start after
          | none =>
              if y.mayBeType then do
                let (_, after) ← readOpenArgs? fuel inside
                readPostfix? fuel x {} start after
              else none
      else if let some inside := joined? x.inner "(" ts then do
        let (args, after) ←
          if takesType y.callee then readTypeArg? fuel inside
          else readArgs? fuel inside
        let e := callValue y.callee inside args
        readPostfix? fuel x { expr := e } start after
      else if y.mayBeType && opensValue x y.callee.isNone ts
          then do
        let (z, after) ← readBraced? fuel x ts
        readPostfix? fuel x z start after
      else some (y.expr, ts)

end

end

end WireSchema.Source
