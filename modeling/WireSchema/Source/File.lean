import WireSchema.Source.Lexer
import WireSchema.Source.Statement

/-
  Reading source files.

  Besides declarations any statement may stand at the
  outermost level of a file, and leaves no trace.

  Key definitions include:
    * `Item`, `readItem?`
    * `FileSource.add`
    * `FileSource.parse?`
-/

namespace WireSchema.Source

------------------------------------------------------------
-- Items
------------------------------------------------------------

/- What a file says at its outermost level. -/
inductive Item where
  | package (name : String)
  | imports (entries : List (String × String))
  | types (decls : List TypeSource)
  | consts (decls : List ConstSource)
  | passed
  deriving Repr, Inhabited

/-
  An item and what follows its end.  The end of the file may
  be the end of a clause or a function, or of a value.
-/
def ended (mayBeLast : Bool) (item : Item) (ts : Tokens) :
    Option (Item × Tokens) :=
  match endOfItem? ts with
  | some rest => some (item, rest)
  | none =>
      if mayBeLast && atStop ts then some (item, ts) else none

/-
  A package clause behind its keyword.  A comment in front of
  the name is taken for it.
-/
def readPackage? (ts : Tokens) : Option (String × Tokens) := do
  let (t, rest) ← name? ts
  some ((leadingComment? ts).getD t.text, rest)

/- The next item of a file. -/
def readItem?
    (path : String)
    (fuel : Nat)
    (ts : Tokens) : Option (Item × Tokens) :=
  let body := readBodyWithin? fuel
  let outer := docLinesOf ts
  let statement := do
    let (isValue, rest) ← readStatement? body fuel ts
    ended isValue .passed rest
  if let some rest := keyword? "package" ts then do
    let (name, rest) ← readPackage? rest
    ended true (.package name) rest
  else if let some rest := keyword? "import" ts then do
    let (entries, rest) ← readImports? fuel rest
    ended true (.imports entries) rest
  else if let some rest := keyword? "type" ts then do
    let (decls, rest) ← readTypes? body path outer fuel rest
    ended false (.types decls) rest
  else if let some rest := keyword? "const" ts then do
    let ((decls, isValue), rest) ←
      readConsts? body path outer fuel rest
    ended isValue (.consts decls) rest
  else if let some rest := keyword? "func" ts then
    let function :=
      (readFunction? body fuel rest).bind (ended true .passed)
    match function with
    | some found => some found
    | none => statement
  else statement

------------------------------------------------------------
-- Files
------------------------------------------------------------

/- All items up to the end of the file. -/
def readItems? (path : String) (fuel : Nat) :
    Nat → Tokens → Option (List Item)
  | 0, _ => none
  | count + 1, ts =>
      if atStop ts then some []
      else do
        let (item, rest) ← readItem? path fuel ts
        let items ← readItems? path fuel count rest
        some (item :: items)

namespace FileSource

/- A file with what one more item says. -/
def add (f : FileSource) : Item → FileSource
  | .package name => { f with package := name }
  | .imports entries =>
      { f with
        imports :=
          entries.foldl
            (fun acc e => putImport e.1 e.2 acc) f.imports }
  | .types decls => { f with types := f.types ++ decls }
  | .consts decls => { f with consts := f.consts ++ decls }
  | .passed => f

/- A source file; the path is for the places in it. -/
def parse? (path source : String) : Option FileSource := do
  let ts ← tokenize? source
  let items ←
    readItems? path (stepBound ts) (ts.length + 1) ts
  some (items.foldl add { path })

end FileSource

end WireSchema.Source
