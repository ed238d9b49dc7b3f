import WireSchema.Source.Token

/-
  Steps through the tokens of a file.

  Every step answers with what follows it, or fails.  A line
  end closes what is under way, unless that stands between
  brackets that are still open.

  Key definitions include:
    * `symbol?`, `keyword?`, `name?`
    * `joined?`: steps that stay on the line
    * `ifMore?`: through separated lists
    * `endOfItem?`: over the end of a declaration
    * `skipBrackets?`
-/

namespace WireSchema.Source

/-
  How many steps the readers may take inside each other: a
  few for every token.
-/
def stepBound (ts : Tokens) : Nat :=
  8 * ts.length + 8

------------------------------------------------------------
-- Single Tokens
------------------------------------------------------------

/- What follows a symbol. -/
def symbol? (s : String) : Tokens → Option Tokens
  | t :: rest => if t.isSymbol s then some rest else none
  | [] => none

/- What follows a keyword. -/
def keyword? (s : String) : Tokens → Option Tokens
  | t :: rest => if t.isKeyword s then some rest else none
  | [] => none

/- A name and what follows it. -/
def name? : Tokens → Option (Token × Tokens)
  | t :: rest => if t.isName then some (t, rest) else none
  | [] => none

/- Whether the next token may continue what is under way. -/
def isJoined (inner : Bool) : Tokens → Bool
  | t :: _ => inner || !t.lineStart
  | [] => false

/- What follows a symbol that continues the same line. -/
def joined? (inner : Bool) (s : String) (ts : Tokens) :
    Option Tokens :=
  if isJoined inner ts then symbol? s ts else none

/- Whether a symbol continues the same line. -/
def joins (inner : Bool) (s : String) (ts : Tokens) : Bool :=
  (joined? inner s ts).isSome

/- The text of a comment in front of the next token. -/
def leadingComment? : Tokens → Option String
  | t :: _ => t.comments.head?.map Comment.text
  | [] => none

------------------------------------------------------------
-- Lists and Ends
------------------------------------------------------------

/- The rest of a separated list after one of its items. -/
def ifMore? (sep close : String) (ts : Tokens) :
    Option (Bool × Tokens) :=
  match symbol? sep ts with
  | some rest =>
      match symbol? close rest with
      | some rest => some (false, rest)
      | none => some (true, rest)
  | none => (symbol? close ts).map fun rest => (false, rest)

/- A closing bracket, or a lone separator in front of it. -/
def closed? (sep close : String) (ts : Tokens) :
    Option Tokens :=
  match symbol? close ts with
  | some rest => some rest
  | none => (symbol? sep ts).bind (symbol? close)

/-
  What follows the end of a declaration: a line end, or a
  mark on the same line.
-/
def endOfItem? : Tokens → Option Tokens
  | [] => none
  | t :: rest =>
      if t.lineStart then some (t :: rest)
      else if t.isEndMark then some rest
      else none

/- Whether the file ends here. -/
def atStop : Tokens → Bool
  | t :: _ => t.isStop
  | [] => true

/- Whether a block may have been closed in front of this. -/
def mayEndBlock : Tokens → Bool
  | t :: _ =>
      t.lineStart || t.isEndMark || t.isStop
        || t.isSymbol "\x7d" || t.isKeyword "else"
        || t.isKeyword "case" || t.isKeyword "default"
  | [] => true

/- Names with commas between them. -/
def readNames? : Nat → Tokens → Option (List String × Tokens)
  | 0, _ => none
  | fuel + 1, ts => do
      let (t, rest) ← name? ts
      match symbol? "," rest with
      | some rest => do
          let (names, rest) ← readNames? fuel rest
          some (t.text :: names, rest)
      | none => some ([t.text], rest)

------------------------------------------------------------
-- Nested Brackets
------------------------------------------------------------

/- The bracket that closes an opening one. -/
def closing? : String → Option String
  | "(" => some ")"
  | "[" => some "]"
  | "\x7b" => some "\x7d"
  | _ => none

def isClosing (s : String) : Bool :=
  s == ")" || s == "]" || s == "\x7d"

/-
  Skip to the end of nested brackets.  The first argument
  holds the closing brackets to come, the next one first.
-/
def skipNested? : List String → Tokens → Option Tokens
  | [], ts => some ts
  | _ :: _, [] => none
  | close :: outer, t :: rest =>
      if t.isStop then none
      else if t.kind != .symbol then
        skipNested? (close :: outer) rest
      else if t.text == close then skipNested? outer rest
      else
        match closing? t.text with
        | some inside =>
            skipNested? (inside :: close :: outer) rest
        | none =>
            if isClosing t.text then none
            else skipNested? (close :: outer) rest

/- Skip brackets of one kind and all that is inside. -/
def skipBrackets? (opening : String) (ts : Tokens) :
    Option Tokens := do
  let rest ← symbol? opening ts
  let close ← closing? opening
  skipNested? [close] rest

end WireSchema.Source
