import WireSchema.Schema.Name

/-
  What becomes of a namespace in emitted names and paths.

  Key definitions include:
    * `stripNamespace`: drop a configured beginning
    * `flatten`, `flatSegment`: letters, digits, underscores
    * `pascalCase`
    * `FileStems`: one file stem for each namespace
-/

namespace WireSchema

------------------------------------------------------------
-- Shortened Namespaces
------------------------------------------------------------

/-
  Drop the first configured beginning that a namespace has,
  and the slashes behind it.
-/
def stripNamespace
    (stripped : List String)
    (space : String) : List Char :=
  let found := stripped.findSome? fun head =>
    Text.afterHead? head.toList space.toList
  match found with
  | some rest => rest.dropWhile fun c => c == '/'
  | none => space.toList

def isWordChar (c : Char) : Bool :=
  c.isAlphanum || c == '_'

/-
  Letters, digits and underscores stay.  A run of other
  characters becomes one underscore, unless one is there.
  The first argument says whether one is.
-/
def flattenFrom : Bool → List Char → List Char
  | _, [] => []
  | marked, c :: s =>
      if isWordChar c then c :: flattenFrom (c == '_') s
      else if marked then flattenFrom true s
      else '_' :: flattenFrom true s

/- A path as a word without underscores at its ends. -/
def flatten (path : List Char) : List Char :=
  Text.dropEdgesWhile (fun c => c == '_')
    (flattenFrom false path)

/- The last segment of a path as a word. -/
def flatSegment (path : List Char) : List Char :=
  match Text.splitLast '/' path with
  | some (_, tail) => flatten tail
  | none => flatten path

/-
  Letters and digits only, the first of each run in upper
  case.  The first argument says whether a run starts.
-/
def pascalFrom : Bool → List Char → List Char
  | _, [] => []
  | start, c :: s =>
      if c.isAlphanum then
        (if start then c.toUpper else c) :: pascalFrom false s
      else pascalFrom true s

def pascalCase (path : List Char) : List Char :=
  pascalFrom true path

------------------------------------------------------------
-- File Stems
------------------------------------------------------------

/- The stem of each namespace, in order of the namespaces. -/
structure FileStems where
  stems : List (String × String)
  deriving DecidableEq, Repr, Inhabited

/- Stems that would be empty or taken get one of their own. -/
def plainStem (stem : List Char) : String :=
  let stem := String.ofList stem
  if stem = "" then "builtin"
  else if stem = "index" then "index_"
  else stem

namespace FileStems

/-
  A namespace is filed under its last segment, or under its
  whole path if another one has the same last segment.
-/
def ofNamespaces
    (spaces : List String)
    (stripped : List String) : FileStems :=
  let spaces := sortTexts spaces
  let rests := spaces.map (stripNamespace stripped)
  let shorts := rests.map flatSegment
  { stems := spaces.map fun space =>
      let rest := stripNamespace stripped space
      let short := flatSegment rest
      let stem :=
        if 1 < shorts.count short then flatten rest else short
      (space, plainStem stem) }

def find? (f : FileStems) (space : String) : Option String :=
  f.stems.lookup space

end FileStems

end WireSchema
