import WireSchema.Source.Syntax
import WireSchema.Text.Quoted

/-
  Source types in diagnostics: every form by its name, its
  parts in brackets.

  Key definitions include:
    * `Shown.call`, `Shown.record`, `Shown.list`
    * `SourceType.shown`
-/

namespace WireSchema.Source

------------------------------------------------------------
-- Notation of Values
------------------------------------------------------------

namespace Shown

/- A form with one part. -/
def call (form part : String) : String :=
  form ++ "(" ++ part ++ ")"

/- A form with named parts. -/
def record (form : String) (parts : List (String × String)) :
    String :=
  let parts := parts.map fun p => p.1 ++ ": " ++ p.2
  form ++ " \x7b " ++ Text.joinWith ", " parts ++ " \x7d"

def list (items : List String) : String :=
  "[" ++ Text.joinWith ", " items ++ "]"

def option {α : Type} (shown : α → String) :
    Option α → String
  | none => "None"
  | some x => call "Some" (shown x)

def bool (b : Bool) : String :=
  if b then "true" else "false"

def doc (d : Doc) : String :=
  record "Documentation"
    [("summary", Text.shown d.summary),
      ("body", Text.shown d.body),
      ("deprecated", option Text.shown d.deprecated)]

end Shown

------------------------------------------------------------
-- Types
------------------------------------------------------------

namespace SourceType

mutual

/- A type as diagnostics show it. -/
def shown : SourceType → String
  | .ident name => Shown.call "Ident" (Text.shown name)
  | .qualified package name =>
      Shown.record "Qualified"
        [("package", Text.shown package),
          ("name", Text.shown name)]
  | .generic base args =>
      Shown.record "Generic"
        [("base", shown base),
          ("args", Shown.list (shownTypes args))]
  | .pointer elem => Shown.call "Pointer" (shown elem)
  | .slice elem => Shown.call "Slice" (shown elem)
  | .array len elem =>
      Shown.record "Array"
        [("len", Shown.option toString len),
          ("elem", shown elem)]
  | .map key value =>
      Shown.record "Map"
        [("key", shown key), ("value", shown value)]
  | .struct fields =>
      Shown.call "Struct" (Shown.list (shownFields fields))
  | .interface elems hasMethods =>
      Shown.record "Interface"
        [("elems", Shown.list (shownTypes elems)),
          ("has_methods", Shown.bool hasMethods)]
  | .union terms =>
      Shown.call "Union" (Shown.list (shownTypes terms))
  | .tilde elem => Shown.call "Tilde" (shown elem)
  | .unsupported text =>
      Shown.call "Unsupported" (Text.shown text)

def shownTypes : List SourceType → List String
  | [] => []
  | t :: rest => shown t :: shownTypes rest

def shownFields : List (SourceField SourceType) → List String
  | [] => []
  | f :: rest => shownField f :: shownFields rest

def shownField : SourceField SourceType → String
  | ⟨names, type, tag, doc⟩ =>
      Shown.record "GoField"
        [("names", Shown.list (names.map Text.shown)),
          ("ty", shown type),
          ("tag", Text.shown tag),
          ("doc", Shown.doc doc)]

end

end SourceType

end WireSchema.Source
