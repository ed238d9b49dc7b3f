import WireSchema.Tag.Wire
import WireSchema.Text.Letter
import WireSchema.TypeExpr.Instance

/-
  What every extraction of types has in common: it is asked
  for root types and for whole namespaces, and it answers
  with a schema or says why there is none.  The fields of a
  struct become the same wherever the struct was found.

  Key definitions include:
    * `ExtractionRequest`
    * `ExtractionFault`
    * `Extractor`
    * `Schema.note`: warnings without repetition
    * `isExported`, `taggedField`, `Members`
-/

namespace WireSchema

/- Root types, and namespaces to extract as a whole. -/
structure ExtractionRequest where
  roots : List TypeExpr
  scope : List String
  deriving BEq, Repr, Inhabited

------------------------------------------------------------
-- Faults
------------------------------------------------------------

/-
  Why no schema can be extracted.  `unfinished` says that the
  declarations to extract outnumber every bound on them.
-/
inductive ExtractionFault where
  | nothingAsked
  | unresolved (what : String)
  | nameClash (id : TypeName) (first second : String)
  | unreadable (path : String)
  | noModule (path : String)
  | syntaxFault (path : String)
  | badCatalog (path : String)
  | badType (e : SchemaError)
  | unfinished
  deriving DecidableEq, Repr

namespace ExtractionFault

/- What cannot be resolved when two names become one. -/
def clashText
    (id : TypeName)
    (first second : String) : String :=
  id.qualified ++ " (named both " ++ first ++ " and " ++ second
    ++ "; their packages share a last path segment)"

def message : ExtractionFault → String
  | .nothingAsked =>
      "configuration error: no root types or scope given; "
        ++ "nothing to extract"
  | .unresolved what => "cannot resolve " ++ what
  | .nameClash id first second =>
      "cannot resolve " ++ clashText id first second
  | .unreadable path => "failed to read " ++ path
  | .noModule path =>
      "failed to parse " ++ path ++ ": missing module directive"
  | .syntaxFault path =>
      "failed to parse " ++ path ++ ": syntax error"
  | .badCatalog path =>
      "failed to parse " ++ path ++ ": not a type catalog"
  | .badType e => e.message
  | .unfinished => "the declarations to extract never end"

end ExtractionFault

------------------------------------------------------------
-- Extraction
------------------------------------------------------------

/- A way to extract schemas. -/
abbrev Extractor :=
  ExtractionRequest → Except ExtractionFault Schema

/- Something has to be asked for. -/
def ExtractionRequest.check (r : ExtractionRequest) :
    Except ExtractionFault Unit :=
  if r.roots.isEmpty && r.scope.isEmpty then
    .error .nothingAsked
  else .ok ()

------------------------------------------------------------
-- Warnings
------------------------------------------------------------

/- A warning that a type is replaced by one for any value. -/
def Warning.unresolved (id : TypeName) (reason : String) :
    Warning :=
  { kind := .unresolvedType
    message :=
      id.qualified ++ " " ++ reason ++ "; emitted as any"
    typeName := some id.name }

/- Add a warning unless one with its text is there. -/
def Schema.note (s : Schema) (w : Warning) : Schema :=
  if s.warnings.any fun v => v.text == w.text then s
  else s.addWarning w

------------------------------------------------------------
-- Members
------------------------------------------------------------

/- Whether other packages see a name. -/
def isExported (name : String) : Bool :=
  match name.toList with
  | c :: _ => Text.isUpperCase c
  | [] => false

/-
  The field of a type, as its tag wants it.  A pointer that
  collapses makes the field optional.
-/
def taggedField
    (name : String)
    (facts : FieldFacts)
    (t : WireType)
    (doc : Doc) : Field WireType :=
  facts.apply
    { name
      type := t.collapse
      wireName := name
      optional := t.collapses
      doc }

/- The fields and the parents that a struct consists of. -/
abbrev Members := List (Field WireType) × List TypeName

/- The members of two parts of a struct. -/
def Members.append (a b : Members) : Members :=
  (a.1 ++ b.1, a.2 ++ b.2)

end WireSchema
