import WireSchema.Config.Basic
import WireSchema.Json.View

/-
  Configurations as documents.

  Every member may be left out, and no other member may be
  there.

  Key definitions include:
    * `Config.ofJson?`
    * `Config.toJson`
-/

namespace WireSchema

------------------------------------------------------------
-- Words
------------------------------------------------------------

def Extraction.word : Extraction → String
  | .deep => "deep"
  | .shallow => "shallow"

def CommentPolicy.word : CommentPolicy → String
  | .all => "all"
  | .typesOnly => "types-only"
  | .none => "none"

def EnumStyle.word : EnumStyle → String
  | .taggedUnion => "tagged-union"
  | .nativeEnum => "native-enum"
  | .flatConstants => "flat-constants"

def AbsentMark.word : AbsentMark → String
  | .undefined => "undefined"
  | .null => "null"

/- The one of several values that a document names. -/
def oneOf?
    {α : Type}
    (choice : Json → Option String)
    (word : α → String)
    (values : List α)
    (j : Json) : Option α :=
  (choice j).bind fun s => values.find? fun v => word v == s

------------------------------------------------------------
-- Reading
------------------------------------------------------------

namespace Config

/- The names of the members, in order. -/
def memberNames : List String :=
  ["provider", "module-root", "catalog", "extra-scope",
    "preserve-comments", "enum-style", "optional-type",
    "single-file", "namespace-prefix-strip", "type-mappings",
    "flavors", "emit-base-types", "output-dir", "base-name"]

/- Whether a document has no member but those of a record. -/
def hasOnlyKnown : Json → Bool
  | .object members =>
      members.all fun m => memberNames.contains m.1
  | _ => true

/- A mapping of strings, in order of the names. -/
def textMap? : Json → Option (List (String × String))
  | .object members => do
      let entries ← members.mapM fun m => do
        let s ← m.2.text?
        some (m.1, s)
      let names := sortTexts (entries.map Prod.fst)
      some
        (names.filterMap fun n =>
          (entries.reverse.lookup n).map fun v => (n, v))
  | _ => none

def texts? (j : Json) : Option (List String) :=
  j.list? Json.text?

/-
  A configuration, given how a document names one of several
  values.
-/
def ofJsonBy?
    (choice : Json → Option String)
    (j : Json) : Option Config := do
  let d : Config := {}
  let v ← if hasOnlyKnown j then j.view? memberNames else none
  some
    { extraction :=
        ← v.orElse? "provider" d.extraction
          (oneOf? choice Extraction.word [.deep, .shallow])
      moduleRoot :=
        ← v.orElse? "module-root" d.moduleRoot Json.text?
      catalog := ← v.optional? "catalog" Json.text?
      extraScope :=
        ← v.orElse? "extra-scope" d.extraScope texts?
      comments :=
        ← v.orElse? "preserve-comments" d.comments
          (oneOf? choice CommentPolicy.word
            [.all, .typesOnly, .none])
      enumStyle :=
        ← v.orElse? "enum-style" d.enumStyle
          (oneOf? choice EnumStyle.word
            [.taggedUnion, .nativeEnum, .flatConstants])
      absentMark :=
        ← v.orElse? "optional-type" d.absentMark
          (oneOf? choice AbsentMark.word [.undefined, .null])
      singleFile :=
        ← v.orElse? "single-file" d.singleFile Json.bool?
      strippedPaths :=
        ← v.orElse? "namespace-prefix-strip" d.strippedPaths
          texts?
      typeMappings :=
        ← v.orElse? "type-mappings" d.typeMappings textMap?
      flavors := ← v.orElse? "flavors" d.flavors texts?
      baseTypes :=
        ← v.orElse? "emit-base-types" d.baseTypes Json.bool?
      outputDir :=
        ← v.orElse? "output-dir" d.outputDir Json.text?
      baseName :=
        ← v.orElse? "base-name" d.baseName Json.text? }

def ofJson? (j : Json) : Option Config :=
  ofJsonBy? Json.variant? j

------------------------------------------------------------
-- Writing
------------------------------------------------------------

def toJson (c : Config) : Json :=
  .object
    [("provider", .text c.extraction.word),
      ("module-root", .text c.moduleRoot),
      ("catalog", Json.orNull (c.catalog.map .text)),
      ("extra-scope", Json.texts c.extraScope),
      ("preserve-comments", .text c.comments.word),
      ("enum-style", .text c.enumStyle.word),
      ("optional-type", .text c.absentMark.word),
      ("single-file", .bool c.singleFile),
      ("namespace-prefix-strip", Json.texts c.strippedPaths),
      ("type-mappings",
        .object (c.typeMappings.map fun p => (p.1, .text p.2))),
      ("flavors", Json.texts c.flavors),
      ("emit-base-types", .bool c.baseTypes),
      ("output-dir", .text c.outputDir),
      ("base-name", .text c.baseName)]

end Config

end WireSchema
