import WireSchema.Source.Declaration

/-
  Reading statements from tokens.

  What functions do leaves no trace in a file, but it has to
  be well formed.  In the head of a statement line ends do
  not count, and a brace behind a name opens a block, unless
  a semicolon has to come first.

  Key definitions include:
    * `readSimple?`: expressions, assignments and the like
    * `readStatement?`, `readStatements?`
    * `readBodyWithin?`: the body of a function
-/

namespace WireSchema.Source

section

variable (body : Tokens → Option Tokens)

------------------------------------------------------------
-- Simple Statements
------------------------------------------------------------

/-
  What a simple statement is: an expression alone, a step up
  or down, new names for one value, or something else.
-/
inductive SimpleForm where
  | value
  | step
  | naming
  | other
  deriving DecidableEq, Repr, Inhabited

/- The symbols that assign what follows to what precedes. -/
def isAssignment (s : String) : Bool :=
  ["=", "+=", "-=", "*=", "/=", "%=", "&=", "|=", "^=",
    "<<=", ">>=", "&^="].contains s

/-
  A simple statement behind a number of expressions.  The
  setting is for the expressions that are still to come.
-/
def readSimpleRest?
    (fuel : Nat)
    (x : Setting)
    (count : Nat)
    (ts : Tokens) : Option (SimpleForm × Tokens) :=
  let alone :=
    if count == 1 then some (SimpleForm.value, ts) else none
  match ts with
  | [] => none
  | t :: rest =>
      if !isJoined x.inner ts || t.kind != .symbol then alone
      else if t.text == "++" || t.text == "--" then
        if count == 1 then some (.step, rest) else none
      else if t.text == "<-" then do
        let (_, _) ← alone
        let (_, after) ← readExpr? body fuel x 1 rest
        some (.other, after)
      else if isAssignment t.text then do
        let (_, after) ← readExprs? body fuel x rest
        some (.other, after)
      else if t.text == ":=" then do
        let (values, after) ← readExprs? body fuel x rest
        let isOne := values.length == 1
        some (if isOne then .naming else .other, after)
      else alone

/-
  A simple statement.  The settings are for the expressions
  it starts with, and for those behind a symbol.
-/
def readSimple?
    (fuel : Nat)
    (left right : Setting)
    (ts : Tokens) : Option (SimpleForm × Tokens) := do
  let (es, rest) ← readExprs? body fuel left ts
  readSimpleRest? body fuel right es.length rest

/- The start of the head of a statement. -/
def Setting.head : Setting :=
  { inner := true, header := true, leading := true }

/- A simple statement at the start of a head. -/
def readHeadSimple? (fuel : Nat) (ts : Tokens) :
    Option (SimpleForm × Tokens) :=
  readSimple? body fuel .head .bracketed ts

------------------------------------------------------------
-- Heads
------------------------------------------------------------

/- The condition of a branch. -/
def readCondition? (fuel : Nat) (ts : Tokens) :
    Option Tokens := do
  let (form, rest) ← readHeadSimple? body fuel ts
  match symbol? ";" rest with
  | some rest =>
      (readExpr? body fuel Setting.head.further 1 rest).map
        Prod.snd
  | none => if form == .value then some rest else none

/- The condition and the step of a loop. -/
def readLoopRest? (fuel : Nat) (ts : Tokens) :
    Option Tokens := do
  let rest ←
    match symbol? ";" ts with
    | some rest => some rest
    | none => do
        let (_, rest) ← readExpr? body fuel .bracketed 1 ts
        symbol? ";" rest
  if (symbol? "\x7b" rest).isSome then some rest
  else
    (readSimple? body fuel .head Setting.head.further rest).map
      Prod.snd

/- What a loop ranges over, behind the keyword. -/
def readRange? (fuel : Nat) (ts : Tokens) : Option Tokens :=
  (readExpr? body fuel Setting.head.further 1 ts).map Prod.snd

/- The head of a loop, up to its block. -/
def readLoopHead? (fuel : Nat) (ts : Tokens) :
    Option Tokens :=
  if (symbol? "\x7b" ts).isSome then some ts
  else if let some rest := keyword? "range" ts then
    readRange? body fuel rest
  else if let some rest := symbol? ";" ts then
    readLoopRest? body fuel rest
  else do
    let (es, rest) ← readExprs? body fuel .head ts
    let ranged :=
      match symbol? "=" rest, symbol? ":=" rest with
      | some after, _ => keyword? "range" after
      | none, some after => keyword? "range" after
      | none, none => none
    match ranged with
    | some after => readRange? body fuel after
    | none => do
        let (form, rest) ←
          readSimpleRest? body fuel .bracketed es.length rest
        match symbol? ";" rest with
        | some rest => readLoopRest? body fuel rest
        | none => if form == .value then some rest else none

/- The mark of a choice between types. -/
def typeMark? (ts : Tokens) : Option Tokens := do
  let rest ← symbol? "(" (← symbol? "." ts)
  symbol? ")" (← keyword? "type" rest)

/- What the clauses of a choice name. -/
inductive Choice where
  | values
  | types
  | messages
  deriving DecidableEq, Repr, Inhabited

/- What a simple statement in the head is a choice between. -/
def choiceOf? (form : SimpleForm) (ts : Tokens) :
    Option (Choice × Tokens) :=
  match typeMark? ts, form with
  | some rest, .value => some (.types, rest)
  | some rest, .naming => some (.types, rest)
  | none, .value => some (.values, ts)
  | _, _ => none

/- What a choice is between, behind what may come first. -/
def readChoiceValue? (fuel : Nat) (ts : Tokens) :
    Option (Choice × Tokens) :=
  if (symbol? "\x7b" ts).isSome then some (.values, ts)
  else do
    let (form, rest) ← readHeadSimple? body fuel ts
    choiceOf? form rest

/- The head of a choice, up to its opening brace. -/
def readChoiceHead? (fuel : Nat) (ts : Tokens) :
    Option (Choice × Tokens) :=
  if (symbol? "\x7b" ts).isSome then some (.values, ts)
  else do
    let (form, rest) ← readHeadSimple? body fuel ts
    match symbol? ";" rest with
    | some rest => readChoiceValue? body fuel rest
    | none => choiceOf? form rest

------------------------------------------------------------
-- Clauses
------------------------------------------------------------

/- Types with commas between them. -/
def readTypeList? : Nat → Tokens → Option Tokens
  | 0, _ => none
  | fuel + 1, ts => do
      let (_, rest) ← readType? body fuel true ts
      match symbol? "," rest with
      | some rest => readTypeList? fuel rest
      | none => some rest

/- A message that is sent, or received and maybe kept. -/
def readMessage? (fuel : Nat) (ts : Tokens) :
    Option Tokens := do
  let (es, rest) ←
    readExprs? body fuel { inner := true, leading := true } ts
  let value := fun (ts : Tokens) =>
    (readExpr? body fuel .bracketed 1 ts).map Prod.snd
  match symbol? "=" rest, symbol? ":=" rest with
  | some rest, _ => value rest
  | none, some rest => value rest
  | none, none =>
      if es.length != 1 then none
      else
        match symbol? "<-" rest with
        | some rest => value rest
        | none => some rest

/- The head of a clause, up to its colon. -/
def readClauseHead? (c : Choice) (fuel : Nat) (ts : Tokens) :
    Option Tokens :=
  match keyword? "default" ts with
  | some rest => some rest
  | none => do
      let rest ← keyword? "case" ts
      match c with
      | .values =>
          (readExprs? body fuel .bracketed rest).map Prod.snd
      | .types => readTypeList? body fuel rest
      | .messages => readMessage? body fuel rest

------------------------------------------------------------
-- Statements
------------------------------------------------------------

/- A label, and what follows it. -/
def label? (ts : Tokens) : Option Tokens := do
  let (_, rest) ← name? ts
  joined? false ":" rest

/- Whether a list of statements ends here. -/
def atListEnd (ts : Tokens) : Bool :=
  (symbol? "\x7d" ts).isSome || (keyword? "case" ts).isSome
    || (keyword? "default" ts).isSome

/- What follows a name that continues the same line. -/
def skipName (ts : Tokens) : Tokens :=
  if isJoined false ts then ((name? ts).map Prod.snd).getD ts
  else ts

/- Values that are handed back, if there are any. -/
def readReturn (fuel : Nat) (ts : Tokens) : Bool × Tokens :=
  if isJoined false ts then
    match readExprs? body fuel {} ts with
    | some (_, rest) => (true, rest)
    | none => (false, ts)
  else (false, ts)

/-
  Statements without statements in them, and whether a value
  is the last thing that was read.
-/
def readPlain? (fuel : Nat) (ts : Tokens) :
    Option (Bool × Tokens) :=
  let simple := do
    let (form, rest) ←
      readSimple? body fuel { leading := true } {} ts
    some (form != .step, rest)
  let word := fun (t : Token) (rest : Tokens) =>
    match t.text with
    | "const" => do
        let ((_, isValue), rest) ←
          readConsts? body "" [] fuel rest
        some (isValue, rest)
    | "type" => do
        let (_, rest) ← readTypes? body "" [] fuel rest
        some (false, rest)
    | "var" => readVars? body fuel rest
    | "return" => some (readReturn body fuel rest)
    | "go" | "defer" => do
        let (_, rest) ← readExpr? body fuel {} 1 rest
        some (true, rest)
    | "fallthrough" => some (false, rest)
    | "break" | "continue" => some (false, skipName rest)
    | "goto" => (name? rest).map fun p => (false, p.2)
    | _ => simple
  match ts with
  | [] => none
  | t :: rest =>
      if t.isSymbol ";" then some (false, rest)
      else if t.kind == .keyword then word t rest
      else simple

mutual

/- A statement, and whether a value is the last of it. -/
def readStatement? :
    Nat → Tokens → Option (Bool × Tokens)
  | 0, _ => none
  | fuel + 1, ts =>
      let nested := fun (found : Option Tokens) =>
        found.map fun rest => (false, rest)
      if let some rest := keyword? "if" ts then
        nested (readBranch? fuel rest)
      else if let some rest := keyword? "for" ts then
        nested
          ((readLoopHead? body fuel rest).bind
            (readBlock? fuel))
      else if let some rest := keyword? "switch" ts then
        nested do
          let (c, rest) ← readChoiceHead? body fuel rest
          readClauses? c fuel (← symbol? "\x7b" rest)
      else if let some rest := keyword? "select" ts then
        nested
          ((symbol? "\x7b" rest).bind
            (readClauses? .messages fuel))
      else if (symbol? "\x7b" ts).isSome then
        nested (readBlock? fuel ts)
      else if let some rest := label? ts then
        readStatement? fuel rest
      else readPlain? body fuel ts

/- Statements up to where their list ends. -/
def readStatements? : Nat → Tokens → Option Tokens
  | 0, _ => none
  | fuel + 1, ts =>
      let labelled := (label? ts).filter atListEnd
      if atListEnd ts then some ts
      else if labelled.isSome then labelled
      else do
        let (_, rest) ← readStatement? fuel ts
        match endOfItem? rest with
        | some after => readStatements? fuel after
        | none => if atListEnd rest then some rest else none

/- A block. -/
def readBlock? : Nat → Tokens → Option Tokens
  | 0, _ => none
  | fuel + 1, ts => do
      let inside ← symbol? "\x7b" ts
      symbol? "\x7d" (← readStatements? fuel inside)

/- A branch behind its keyword. -/
def readBranch? : Nat → Tokens → Option Tokens
  | 0, _ => none
  | fuel + 1, ts => do
      let rest ← readCondition? body fuel ts
      let rest ← readBlock? fuel rest
      let otherwise :=
        if isJoined false rest then keyword? "else" rest
        else none
      match otherwise with
      | none => some rest
      | some rest =>
          match keyword? "if" rest with
          | some rest => readBranch? fuel rest
          | none => readBlock? fuel rest

/- The clauses of a choice behind its opening brace. -/
def readClauses? (c : Choice) : Nat → Tokens → Option Tokens
  | 0, _ => none
  | fuel + 1, ts =>
      match symbol? "\x7d" ts with
      | some rest => some rest
      | none => do
          let rest ← readClauseHead? body c fuel ts
          let rest ←
            readStatements? fuel (← symbol? ":" rest)
          readClauses? c fuel rest

end

end

------------------------------------------------------------
-- Bodies
------------------------------------------------------------

/-
  The body of a function behind its opening brace.  The first
  argument bounds how many functions stand inside each other.
-/
def readBodyWithin? : Nat → Tokens → Option Tokens
  | 0, _ => none
  | depth + 1, ts => do
      let body := readBodyWithin? depth
      symbol? "\x7d" (← readStatements? body (stepBound ts) ts)

end WireSchema.Source
