import WireSchema.Source.Reader

/-
  Reading declarations from tokens.

  A declaration is documented by the comments right above it;
  in a group of declarations every one has its own, and the
  comments above the group stand for what has none.  Readers
  answer with what follows, where an end is still to come.

  Key definitions include:
    * `defaultPackage`: the local name of an import path
    * `expandGroup`: what the lines of constants mean
    * `readImports?`, `readTypes?`, `readConsts?`
    * `readVars?`, `readFunction?`
-/

namespace WireSchema.Source

------------------------------------------------------------
-- Import Paths
------------------------------------------------------------

/- Whether a text is a major version, such as `v2`. -/
def isMajor : List Char → Bool
  | 'v' :: c :: s => (c :: s).all Char.isDigit
  | _ => false

/- The segment of an import path that names the package. -/
def namingSegment (path : List Char) : List Char :=
  match Text.splitLast '/' path with
  | none => path
  | some (before, last) =>
      if isMajor last then
        match Text.splitLast '/' before with
        | some (_, previous) => previous
        | none => before
      else last

/- Drop a major version behind the last dot. -/
def dropMajor (segment : List Char) : List Char :=
  match Text.splitLast '.' segment with
  | some (head, tail) => if isMajor tail then head else segment
  | none => segment

/-
  The name that a package is known by when the import gives
  none: the last segment of its path without a version.
-/
def defaultPackage (path : String) : String :=
  let segment := dropMajor (namingSegment path.toList)
  String.ofList
    (segment.map fun c => if c = '-' then '_' else c)

/-
  Put an import in its place by local name, in place of one
  of that name.
-/
def putImport
    (name path : String) :
    List (String × String) → List (String × String)
  | [] => [(name, path)]
  | e :: rest =>
      if name < e.1 then (name, path) :: e :: rest
      else if name = e.1 then (name, path) :: rest
      else e :: putImport name path rest

/- An import path without the quotes around it. -/
def importPath (text : String) : String :=
  String.ofList
    (Text.dropEdgesWhile (fun c => c == '"') text.toList)

------------------------------------------------------------
-- Groups of Constants
------------------------------------------------------------

/-
  A line of a group: names with their places, values.  A line
  without values repeats the values and the type of the last
  line that has some, at its own position.
-/
structure ConstLine where
  names : List (String × SourcePlace)
  type : Option String := none
  values : List ConstExpr := []
  doc : Doc := {}
  deriving BEq, Repr, Inhabited

/- The type and the values that lines may repeat. -/
structure ConstCarry where
  type : Option String := none
  values : List ConstExpr := []
  deriving BEq, Repr, Inhabited

/- The type of a line: as declared, or as converted to. -/
def ConstLine.valueType (l : ConstLine) : Option String :=
  match l.type with
  | some t => some t
  | none =>
      match l.values with
      | .conversion t _ :: _ => some t
      | _ => none

/- What a line means, given what lines in front of it say. -/
def ConstLine.carry (l : ConstLine) (c : ConstCarry) :
    ConstCarry :=
  if l.values.isEmpty then c
  else { type := l.valueType, values := l.values }

/- The constants of names, each with the value in its turn. -/
def constsOf
    (position : Nat)
    (doc : Doc)
    (c : ConstCarry) :
    List (String × SourcePlace) → List ConstExpr →
      List ConstSource
  | [], _ => []
  | (name, place) :: rest, values =>
      { name, type := c.type, value := values.head?
        position, doc, place }
        :: constsOf position doc c rest values.tail

/- The constants of the lines from a position on. -/
def expandFrom (position : Nat) (c : ConstCarry) :
    List ConstLine → List ConstSource
  | [] => []
  | l :: rest =>
      let c := l.carry c
      constsOf position l.doc c l.names c.values
        ++ expandFrom (position + 1) c rest

/- The constants of a group. -/
def expandGroup (lines : List ConstLine) : List ConstSource :=
  expandFrom 0 {} lines

------------------------------------------------------------
-- Documentation
------------------------------------------------------------

/- The comments in front of the next token. -/
def commentCount : Tokens → Nat
  | t :: _ => t.comments.length
  | [] => 0

/- The lines of the comments above the next token. -/
def docLinesOf : Tokens → List String
  | t :: _ => t.docLines
  | [] => []

/- The lines of one documentation, or of another if empty. -/
def docOr (own outer : List String) : Doc :=
  Doc.ofLines (if own.isEmpty then outer else own)

------------------------------------------------------------
-- Imports
------------------------------------------------------------

/- The path of an import. -/
def readImportPath? : Tokens → Option (String × Tokens)
  | t :: rest =>
      if t.isText then some (importPath t.text, rest) else none
  | [] => none

/-
  One import: its local name and its path.  Imports for their
  effects or of all names have no local name.
-/
def readImport? (ts : Tokens) :
    Option (List (String × String) × Tokens) :=
  match name? ts, symbol? "." ts with
  | some (t, rest), _ => do
      let (path, after) ← readImportPath? rest
      let isBlank := t.text == "_"
      some (if isBlank then [] else [(t.text, path)], after)
  | none, some rest => do
      let (_, after) ← readImportPath? rest
      some ([], after)
  | none, none => do
      let (path, after) ← readImportPath? ts
      some ([(defaultPackage path, path)], after)

/- Imports behind the opening bracket of a group. -/
def readImportGroup? :
    Nat → Tokens → Option (List (String × String) × Tokens)
  | 0, _ => none
  | fuel + 1, ts =>
      match symbol? ")" ts with
      | some rest => some ([], rest)
      | none => do
          let (entries, rest) ← readImport? ts
          match endOfItem? rest with
          | some after => do
              let (more, after) ← readImportGroup? fuel after
              some (entries ++ more, after)
          | none => do
              let after ← symbol? ")" rest
              some (entries, after)

/- Imports behind their keyword. -/
def readImports? (fuel : Nat) (ts : Tokens) :
    Option (List (String × String) × Tokens) :=
  match symbol? "(" ts with
  | some inside => readImportGroup? fuel inside
  | none => readImport? ts

------------------------------------------------------------
-- Expressions
------------------------------------------------------------

section

variable (body : Tokens → Option Tokens)

/- Expressions with commas between them. -/
def readExprs? :
    Nat → Setting → Tokens →
      Option (List ConstExpr × Tokens)
  | 0, _, _ => none
  | fuel + 1, x, ts => do
      let (e, rest) ← readExpr? body fuel x 1 ts
      match joined? x.inner "," rest with
      | some rest => do
          let (es, rest) ← readExprs? fuel x.further rest
          some (e :: es, rest)
      | none => some ([e], rest)

------------------------------------------------------------
-- Types
------------------------------------------------------------

/-
  Type parameters behind the opening bracket.  Names with
  commas between them have one bound.
-/
def readTypeParams? :
    Nat → Tokens → Option (List SourceParam × Tokens)
  | 0, _ => none
  | fuel + 1, ts => do
      let (names, rest) ← readNames? fuel ts
      let (terms, rest) ← readTerms? body fuel true rest
      let bound := SourceType.ofTerms terms
      let params := names.map fun name =>
        ({ name, bound } : SourceParam)
      let (isMore, after) ← ifMore? "," "]" rest
      if isMore then do
        let (more, after) ← readTypeParams? fuel after
        some (params ++ more, after)
      else some (params, after)

/- What is declared: parameters, a type, whether a synonym. -/
abbrev TypeBody := List SourceParam × SourceType × Bool

/- A type behind an equality sign, or without one. -/
def readBody?
    (fuel : Nat)
    (params : List SourceParam)
    (ts : Tokens) : Option (TypeBody × Tokens) :=
  match symbol? "=" ts with
  | some rest => do
      let (type, after) ← readType? body fuel false rest
      some ((params, type, true), after)
  | none => do
      let (type, after) ← readType? body fuel false ts
      some ((params, type, false), after)

/- Whether a declaration may end here, in or out of a group. -/
def mayEndHere (ts : Tokens) : Bool :=
  (endOfItem? ts).isSome || atStop ts
    || (symbol? ")" ts).isSome || (symbol? "\x7d" ts).isSome

/- A reading that the end of the declaration follows. -/
def whole? (found : Option (TypeBody × Tokens)) :
    Option (TypeBody × Tokens) :=
  found.filter fun p => mayEndHere p.2

/-
  What follows the name of a type.  A bracket opens the
  length of an array or a list of type parameters; where both
  can be read, `bindsParams` decides.
-/
def readTypeBody? (inGroup : Bool) (fuel : Nat) (ts : Tokens) :
    Option (TypeBody × Tokens) :=
  match symbol? "[" ts with
  | none => readBody? body fuel [] ts
  | some inside =>
      let plain := whole? (readBody? body fuel [] ts)
      let parametric := whole? do
        let (t, _) ← name? inside
        let (params, rest) ← readTypeParams? body fuel inside
        if isValueWord t.text then none
        else readBody? body fuel params rest
      match plain, parametric with
      | some p, some q =>
          let isBound := q.1.1.all fun param =>
            bindsParams inGroup param.bound
          if isBound then some q else some p
      | some p, none => some p
      | none, found => found

/-
  One type declaration.  The lines are those above its group,
  if it stands in one.
-/
def readTypeDecl?
    (path : String)
    (outer : List String)
    (inGroup : Bool)
    (fuel : Nat)
    (ts : Tokens) : Option (TypeSource × Tokens) := do
  let (t, rest) ← name? ts
  let ((params, type, isSynonym), after) ←
    readTypeBody? body inGroup fuel rest
  some
    ({ name := t.text, params, type, isSynonym
       doc := docOr t.docLines outer
       place := t.place path },
      after)

/-
  Type declarations behind the opening bracket of a group.
  The last one needs no end of its own.
-/
def readTypeGroup?
    (path : String)
    (outer : List String) :
    Nat → Tokens → Option (List TypeSource × Tokens)
  | 0, _ => none
  | fuel + 1, ts =>
      match symbol? ")" ts with
      | some rest => some ([], rest)
      | none => do
          let (decl, rest) ←
            readTypeDecl? body path outer true fuel ts
          match endOfItem? rest with
          | some after => do
              let (more, after) ←
                readTypeGroup? path outer fuel after
              some (decl :: more, after)
          | none => do
              let after ← symbol? ")" rest
              some ([decl], after)

/- Types behind their keyword. -/
def readTypes?
    (path : String)
    (outer : List String)
    (fuel : Nat)
    (ts : Tokens) : Option (List TypeSource × Tokens) :=
  match symbol? "(" ts with
  | some inside => readTypeGroup? body path outer fuel inside
  | none => do
      let (decl, after) ←
        readTypeDecl? body path outer false fuel ts
      some ([decl], after)

------------------------------------------------------------
-- Constants
------------------------------------------------------------

/- Names with the commas between them, each at its place. -/
def readConstNames? (path : String) :
    Nat → Tokens → Option (List (String × SourcePlace) × Tokens)
  | 0, _ => none
  | fuel + 1, ts => do
      let (t, rest) ← name? ts
      let first := (t.text, t.place path)
      match rest with
      | comma :: after =>
          if comma.isSymbol "," && !comma.lineStart then do
            let (names, after) ← readConstNames? path fuel after
            some
              (first :: (comma.text, comma.place path) :: names,
                after)
          else some ([first], rest)
      | [] => some ([first], [])

/-
  The type and the values behind names: there may be nothing,
  but a type does not stand without values.
-/
def readConstRest? (fuel : Nat) (ts : Tokens) :
    Option ((Option String × List ConstExpr) × Tokens) :=
  if !isJoined false ts then some ((none, []), ts)
  else
    match symbol? "=" ts, readType? body fuel true ts with
    | some rest, _ => do
        let (values, after) ← readExprs? body fuel {} rest
        some ((none, values), after)
    | none, some (_, rest) => do
        let (values, after) ←
          readExprs? body fuel {} (← symbol? "=" rest)
        some ((some (consumedText ts rest), values), after)
    | none, none => some ((none, []), ts)

/- One line; its documentation is filled in by the group. -/
def readConstLine?
    (path : String)
    (fuel : Nat)
    (ts : Tokens) : Option (ConstLine × Tokens) := do
  let (names, rest) ← readConstNames? path fuel ts
  let ((type, values), after) ← readConstRest? body fuel rest
  some ({ names, type, values }, after)

/-
  Lines behind the opening bracket of a group, each with the
  lines of the comments above it, and the number of comments
  between them.
-/
def readConstLines? (path : String) :
    Nat → Tokens →
      Option ((List (ConstLine × List String) × Nat) × Tokens)
  | 0, _ => none
  | fuel + 1, ts =>
      match symbol? ")" ts with
      | some rest => some (([], commentCount ts), rest)
      | none => do
          let (line, rest) ← readConstLine? body path fuel ts
          let after ← endOfItem? rest
          let between :=
            if after.length < rest.length then commentCount rest
            else 0
          let ((more, count), after) ←
            readConstLines? path fuel after
          some
            (((line, docLinesOf ts) :: more,
                commentCount ts + between + count),
              after)

/-
  The constants of a group.  The comments above it document
  a constant that is all there is in the group.
-/
def groupConsts
    (outer : List String)
    (lines : List (ConstLine × List String))
    (comments : Nat) : List ConstSource :=
  let isAlone := lines.length + comments == 1
  expandGroup
    (lines.map fun p =>
      { p.1 with
        doc := docOr p.2 (if isAlone then outer else []) })

/-
  Constants behind their keyword, and whether a value is the
  last thing that was read.
-/
def readConsts?
    (path : String)
    (outer : List String)
    (fuel : Nat)
    (ts : Tokens) :
    Option ((List ConstSource × Bool) × Tokens) :=
  match symbol? "(" ts with
  | some inside => do
      let ((lines, count), after) ←
        readConstLines? body path fuel inside
      let decls :=
        groupConsts outer lines (commentCount ts + count)
      some ((decls, false), after)
  | none => do
      let (line, after) ← readConstLine? body path fuel ts
      let decls :=
        groupConsts outer [(line, docLinesOf ts)]
          (commentCount ts)
      some ((decls, !line.values.isEmpty), after)

------------------------------------------------------------
-- Variables
------------------------------------------------------------

/- One variable declaration, and whether it has values. -/
def readVar? (fuel : Nat) (ts : Tokens) :
    Option (Bool × Tokens) := do
  let (_, rest) ← readNames? fuel ts
  let values := fun (ts : Tokens) =>
    (readExprs? body fuel {} ts).map fun p => (true, p.2)
  match symbol? "=" rest with
  | some rest => values rest
  | none => do
      let (_, rest) ← readType? body fuel false rest
      match joined? false "=" rest with
      | some rest => values rest
      | none => some (false, rest)

/- Variables behind the opening bracket of a group. -/
def readVarGroup? : Nat → Tokens → Option Tokens
  | 0, _ => none
  | fuel + 1, ts =>
      match symbol? ")" ts with
      | some rest => some rest
      | none => do
          let (_, rest) ← readVar? body fuel ts
          readVarGroup? fuel (← endOfItem? rest)

/-
  Variables behind their keyword, and whether a value is the
  last thing that was read.
-/
def readVars? (fuel : Nat) (ts : Tokens) :
    Option (Bool × Tokens) :=
  match symbol? "(" ts with
  | some inside =>
      (readVarGroup? body fuel inside).map fun rest =>
        (false, rest)
  | none => readVar? body fuel ts

------------------------------------------------------------
-- Functions
------------------------------------------------------------

/- The name of a function with its type parameters, or of a
   method behind its receiver. -/
def readFunctionName? (fuel : Nat) (ts : Tokens) :
    Option Tokens := do
  match symbol? "(" ts with
  | some inside => do
      let (_, rest) ← name? (← readParams? body fuel inside)
      some rest
  | none => do
      let (_, rest) ← name? ts
      match symbol? "[" rest with
      | some inside =>
          (readTypeParams? body fuel inside).map Prod.snd
      | none => some rest

/- A function or a method behind its keyword. -/
def readFunction? (fuel : Nat) (ts : Tokens) :
    Option Tokens := do
  let rest ← readFunctionName? body fuel ts
  let rest ← readSignature? body fuel false rest
  match joined? false "\x7b" rest with
  | some inside => body inside
  | none => some rest

end

end WireSchema.Source
