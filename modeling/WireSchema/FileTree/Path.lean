import WireSchema.Text.Split

/-
  Paths as texts: segments between slashes.

  Empty segments and the segment `.` lead nowhere, so that
  several texts name one place; which text is shown still
  matters, so that the operations work on the text.

  Key definitions include:
    * `Path.join`
    * `Path.segments`
    * `Path.parent?`
    * `Path.staysBelow`
-/

namespace WireSchema.Path

/- Whether a path starts at the root of all files. -/
def isAbsolute (path : String) : Bool :=
  path.toList.head? == some '/'

/-
  A path as seen from a directory.  An absolute path is the
  same from everywhere.
-/
def join (base path : String) : String :=
  if isAbsolute path || base.isEmpty then path
  else if base.toList.getLast? == some '/' then base ++ path
  else base ++ "/" ++ path

/- What stands between the slashes of a path. -/
def segments (path : String) : List String :=
  Text.splitEveryString '/' path

------------------------------------------------------------
-- Parents
------------------------------------------------------------

/-
  Drop the segments at the end that lead nowhere.  The
  argument is a path from back to front; a dot at its very
  start stays.
-/
def dropIdle : List Char → List Char
  | '/' :: rest =>
      if rest.isEmpty then ['/'] else dropIdle rest
  | '.' :: '/' :: rest =>
      if rest.isEmpty then ['/'] else dropIdle rest
  | path => path

/-
  The path without its last segment that leads somewhere.
  The root and the empty path have no parent.
-/
def parent? (path : String) : Option String :=
  match dropIdle path.toList.reverse with
  | [] => none
  | ['/'] => none
  | back =>
      let rest := back.dropWhile fun c => c != '/'
      some (String.ofList (dropIdle rest).reverse)

/- The path without the segments at its start that lead
   nowhere. -/
def dropIdleStart : List Char → List Char
  | '/' :: rest => dropIdleStart rest
  | ['.'] => []
  | '.' :: '/' :: rest => dropIdleStart rest
  | path => path

------------------------------------------------------------
-- Confinement
------------------------------------------------------------

/-
  Whether a path is relative and never goes up, so that it
  stays below every directory it is joined to.
-/
def staysBelow (path : String) : Bool :=
  !path.isEmpty && !isAbsolute path
    && (segments path).all fun s => s != ".."

end WireSchema.Path
