import WireSchema.Source.Walk

/-
  Enumerations: scalar types with constants declared for
  them.

  Key definitions include:
    * `enumKind?`
    * `memberValue?`
    * `enumeration`
-/

namespace WireSchema.Source

open Walk

/- The kinds that enumerations are made of. -/
def isEnumKind : BaseKind → Bool
  | .string | .int | .uint | .float => true
  | _ => false

/- The kind of the constants of a type. -/
def enumKind? : SourceType → Option BaseKind
  | .ident name =>
      match (builtinType? name).bind WireType.scalarKind? with
      | some kind => if isEnumKind kind then some kind else none
      | none => none
  | _ => none

/- The literal of a value; its kind has to fit. -/
def memberValue? : BaseKind → ConstValue → Option Literal
  | .string, .text s => some (.text s)
  | .int, .int n => some (.int n)
  | .uint, .int n => some (.int n)
  | .float, .float x => some (.float x)
  | .float, .int n => some (.float (.ofInt n))
  | _, _ => none

/- A warning about a constant that is no member. -/
def skippedMember
    (id : TypeName)
    (kind : BaseKind)
    (c : ConstSource) : Warning :=
  { kind := .memberSkipped
    message :=
      "constant " ++ c.name ++ " has no evaluable " ++ kind.name
        ++ " value"
    place := some c.place
    typeName := some id.name }

/- The member that a constant is, or else a warning. -/
def memberOf
    (id : TypeName)
    (kind : BaseKind)
    (table : ConstTable)
    (c : ConstSource) : Except Warning EnumMember :=
  match (table.lookup c.name).bind (memberValue? kind) with
  | some value => .ok { name := c.name, value, doc := c.doc }
  | none => .error (skippedMember id kind c)

/- The members among constants; blank names are none. -/
def membersOf
    (id : TypeName)
    (kind : BaseKind)
    (table : ConstTable) :
    List ConstSource → ModuleStep (List EnumMember)
  | [] => pure []
  | c :: rest =>
      if c.name == "_" then membersOf id kind table rest
      else
        match memberOf id kind table c with
        | .ok m => do
            let more ← membersOf id kind table rest
            pure (m :: more)
        | .error w => do
            note w
            membersOf id kind table rest

/-
  A declaration as an enumeration, if it has a constant with
  a value.
-/
def enumeration
    (p : PackageSource)
    (id : TypeName)
    (d : TypeSource) : ModuleStep (Option WireType) :=
  match enumKind? d.type with
  | none => pure none
  | some kind => do
      let consts := p.constsOf d.name
      let members ← membersOf id kind p.values consts
      if members.isEmpty then pure none
      else
        pure
          (some
            (.enum
              { id, members, doc := d.doc
                source := some d.place }))

end WireSchema.Source
