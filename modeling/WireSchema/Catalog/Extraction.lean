import WireSchema.Catalog.Basic
import WireSchema.Extraction.Walk

/-
  Extracting a schema from a catalog.

  A struct without a name is declared on the spot, under a
  name made of where it stands.

  Key definitions include:
    * `ReportedName`, `CatalogStep`
    * `Catalog.require`
    * `Catalog.lower`: the wire type of a shape
    * `Catalog.extract`
-/

namespace WireSchema

------------------------------------------------------------
-- The Walk
------------------------------------------------------------

/- A named type as the catalog reports it. -/
structure ReportedName where
  space : String
  name : String
  deriving DecidableEq, Repr, Inhabited

namespace ReportedName

def text (n : ReportedName) : String :=
  n.space ++ "." ++ n.name

/- The name that a reported type is declared by. -/
def id (n : ReportedName) : TypeName :=
  catalogName n.space n.name

end ReportedName

/- Steps of a walk through a catalog. -/
abbrev CatalogStep := WalkStep ReportedName Unit

/- The name of a reported type, which will be declared. -/
def ReportedName.enqueue (n : ReportedName) :
    CatalogStep TypeName := do
  Walk.claim text n.id n
  Walk.enqueue n.id n
  pure n.id

open Walk

------------------------------------------------------------
-- Requests
------------------------------------------------------------

namespace Catalog

/- Ask for every type of a namespace. -/
def requireSpace (c : Catalog) (space : String) :
    CatalogStep Unit := do
  let found := c.entries.filter fun e => e.space == space
  if found.isEmpty then fault (.unresolved space)
  else
    found.forM fun e => do
      let _ ← ReportedName.enqueue ⟨e.space, e.name⟩

/- The reported name of an instance has no namespace. -/
def reportedName (name : String) (args : List TypeExpr) :
    String :=
  (TypeExpr.named "" name args).text

/- Ask for the types that a root is made of. -/
def require (c : Catalog) (known : WellKnown) :
    TypeExpr → CatalogStep Unit
  | .named space name args =>
      if (known.find? space name).isSome then pure ()
      else do
        let reported := reportedName name args
        match c.find? space reported with
        | none =>
            fault
              (.unresolved (TypeExpr.named space name args).text)
        | some _ => do
            let _ ← ReportedName.enqueue ⟨space, reported⟩
            pure ()
  | .pointer elem => require c known elem
  | .slice elem => require c known elem
  | .array _ elem => require c known elem
  | .map key value => do
      require c known key
      require c known value
  | .builtin _ => pure ()
  | .param name =>
      fault
        (.unresolved
          (name
            ++ " (shallow extraction needs instantiated types)"))

------------------------------------------------------------
-- Shapes
------------------------------------------------------------

/- Whether a shape is a named struct behind pointers. -/
def isNamedStruct (c : Catalog) : Reflected → Bool
  | .pointer elem => isNamedStruct c elem
  | .named space name =>
      match c.find? space name with
      | some { shape := .struct _, .. } => true
      | _ => false
  | _ => false

/- A warning about a shape that cannot travel. -/
def unsupportedAt (hint : String) : Warning :=
  { kind := .unsupportedType
    message :=
      hint
        ++ " has a type with no wire representation; "
        ++ "emitted as any"
    typeName := some hint }

/- A named type that is neither well-known nor reported. -/
def missingEntry (space name : String) : Warning :=
  .unresolved (catalogName space name)
    "is missing from the runtime catalog"

/- The wire type of a named shape. -/
def lowerNamed
    (c : Catalog)
    (known : WellKnown)
    (space name : String) : CatalogStep WireType :=
  match known.find? space name with
  | some t => pure t
  | none =>
      match c.find? space name with
      | none => do
          note (missingEntry space name)
          pure .any
      | some _ => do
          let id ← ReportedName.enqueue ⟨space, name⟩
          pure (.reference id)

mutual

/-
  The wire type of a shape.  Structs without a name are
  declared in the given namespace; the hint says where the
  shape stands.
-/
def lower
    (c : Catalog)
    (known : WellKnown)
    (space hint : String) : Reflected → CatalogStep WireType
  | .bool => pure (.base .bool 0)
  | .int bits => pure (.base .int bits)
  | .uint bits => pure (.base .uint bits)
  | .float bits => pure (.base .float bits)
  | .string => pure (.base .string 0)
  | .interface => pure .any
  | .slice (.uint 8) => pure (.base .bytes 0)
  | .slice elem => do
      let elem ← lower c known space hint elem
      pure (.array elem 0)
  | .array len elem => do
      let elem ← lower c known space hint elem
      pure (.array elem len)
  | .map key value => do
      let key ← lower c known space hint key
      let value ← lower c known space hint value
      pure (.map key value)
  | .pointer elem => do
      let elem ← lower c known space hint elem
      pure (.pointer elem)
  | .struct [] => pure (.base .empty 0)
  | .struct (f :: rest) => do
      let id : TypeName := { name := syntheticName hint, space }
      if ← takeName id then
        let (fields, parents) ←
          lowerFields c known space id (f :: rest)
        declare (.record { id, fields, parents })
      pure (.reference id)
  | .named package name => lowerNamed c known package name
  | .unsupported => do
      note (unsupportedAt hint)
      pure .any

/- The members of a struct that is declared by a name. -/
def lowerFields
    (c : Catalog)
    (known : WellKnown)
    (space : String)
    (owner : TypeName) :
    List (ReflectedField Reflected) → CatalogStep Members
  | [] => pure ([], [])
  | f :: rest => do
      let first ← lowerField c known space owner f
      let more ← lowerFields c known space owner rest
      pure (first.append more)

/-
  What a field adds to its struct.  An embedded struct
  without a wire name is a parent; a field that other
  packages do not see adds nothing.
-/
def lowerField
    (c : Catalog)
    (known : WellKnown)
    (space : String)
    (owner : TypeName) :
    ReflectedField Reflected → CatalogStep Members
  | ⟨name, type, tag, embedded⟩ => do
      let facts := FieldFacts.ofTag tag
      if embedded && facts.wire.skip then pure ([], [])
      else do
        let parent? ←
          if embedded && facts.wire.name.isNone
              && c.isNamedStruct type then do
            let t ← lower c known space name type
            pure t.target.referent?
          else pure none
        match parent? with
        | some parent => pure ([], [parent])
        | none =>
            if isExported name then do
              let hint := owner.name ++ "_" ++ name
              let t ← lower c known space hint type
              pure ([taggedField name facts t {}], [])
            else pure ([], [])

end

------------------------------------------------------------
-- Declarations
------------------------------------------------------------

/- A warning that constants of a type may be missing. -/
def hiddenMembers (id : TypeName) : Warning :=
  { kind := .membersUnavailable
    message :=
      id.qualified
        ++ " may be an enum, but runtime extraction cannot "
        ++ "see its constants"
    typeName := some id.name }

/- Whether a type could be the type of named constants. -/
def mayBeEnum (t : WireType) : Bool :=
  match t.scalarKind? with
  | some .bool => false
  | some _ => true
  | none => false

/- Declare a type of the catalog. -/
def declareEntry
    (c : Catalog)
    (known : WellKnown)
    (e : CatalogEntry) : CatalogStep Unit := do
  let id := catalogName e.space e.name
  match e.shape with
  | .struct fields => do
      let (fields, parents) ←
        c.lowerFields known e.space id fields
      declare (.record { id, fields, parents })
  | shape => do
      let target ← c.lower known e.space id.name shape
      if mayBeEnum target then note (hiddenMembers id)
      declare (.synonym { id, target })

/- Declare a reported type. -/
def declareName
    (c : Catalog)
    (known : WellKnown)
    (n : ReportedName) : CatalogStep Unit :=
  match c.find? n.space n.name with
  | none => fault (.unresolved n.text)
  | some e => c.declareEntry known e

/-
  All that a request asks for, in order.  Every entry of the
  catalog is declared at most once.
-/
def walk
    (c : Catalog)
    (known : WellKnown)
    (r : ExtractionRequest) : CatalogStep Unit := do
  r.scope.forM c.requireSpace
  r.roots.forM (c.require known)
  drain (c.declareName known) c.entries.length

/- The schema of the types that a request asks for. -/
def extract (c : Catalog) (known : WellKnown) : Extractor :=
  fun r => do
    r.check
    finish () (c.walk known r)

end Catalog

end WireSchema
