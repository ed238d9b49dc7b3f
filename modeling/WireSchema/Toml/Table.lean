import WireSchema.Json.Basic

/-
  Tables of TOML documents.

  A table may be opened once by a header.  Headers below it
  and dotted keys make tables on the way; those of headers
  may still be opened, those of dotted keys may grow by
  further dotted keys.  A key is given a value only once.

  Key definitions include:
    * `TomlNode`, `TableKind`
    * `TomlNode.assign`: give a key a value
    * `TomlNode.openTable`: the effect of a header
    * `TomlNode.toJson`
-/

namespace WireSchema

/- How a table came about. -/
inductive TableKind where
  | opened
  | implied
  | dotted
  | inline
  deriving DecidableEq, Repr, Inhabited

/- A value, or a table with its members in order. -/
inductive TomlNode where
  | text (s : String)
  | bool (b : Bool)
  | array (items : List TomlNode)
  | table (kind : TableKind) (members : List (String × TomlNode))
  deriving Repr, Inhabited

abbrev TomlMembers := List (String × TomlNode)

namespace TomlNode

------------------------------------------------------------
-- Changing a Member
------------------------------------------------------------

/-
  Change the member of a key, or make one when there is none.
-/
def alter
    (key : String)
    (change : Option TomlNode → Option TomlNode) :
    TomlMembers → Option TomlMembers
  | [] => (change none).map fun v => [(key, v)]
  | m :: rest =>
      if m.1 = key then
        (change (some m.2)).map fun v => (key, v) :: rest
      else (alter key change rest).map (m :: ·)

/- A key that has a value already is refused another one. -/
def fresh (v : TomlNode) : Option TomlNode → Option TomlNode
  | none => some v
  | some _ => none

------------------------------------------------------------
-- Dotted Keys
------------------------------------------------------------

/-
  Give a dotted key a value, inside a table of which the
  members are given.  The tables on the way are those of
  dotted keys.
-/
def assignIn (v : TomlNode) :
    List String → String → TomlMembers → Option TomlMembers
  | [], key, members => alter key (fresh v) members
  | step :: path, key, members =>
      alter step
        (fun found =>
          match found with
          | none =>
              (assignIn v path key []).map (.table .dotted)
          | some (.table .dotted inside) =>
              (assignIn v path key inside).map (.table .dotted)
          | some (.table .implied inside) =>
              if path.isEmpty then none
              else
                (assignIn v path key inside).map
                  (.table .implied)
          | some _ => none)
        members

------------------------------------------------------------
-- Headers
------------------------------------------------------------

/-
  Work on the members of a table that a header leads to.  The
  tables on the way are made if they are missing.
-/
def inHeader (work : TomlMembers → Option TomlMembers) :
    List String → TomlMembers → Option TomlMembers
  | [], members => work members
  | step :: path, members =>
      alter step
        (fun found =>
          match found with
          | none => (inHeader work path []).map (.table .implied)
          | some (.table .inline _) => none
          | some (.table kind inside) =>
              (inHeader work path inside).map (.table kind)
          | some _ => none)
        members

/- Open a table by its key; it must not be open already. -/
def openMember (key : String) :
    TomlMembers → Option TomlMembers :=
  alter key fun found =>
    match found with
    | none => some (.table .opened [])
    | some (.table .implied inside) =>
        some (.table .opened inside)
    | some _ => none

/- Open the table of a header. -/
def openTable (path : List String) (key : String) :
    TomlMembers → Option TomlMembers :=
  inHeader (openMember key) path

/- Give a dotted key a value inside the table of a header. -/
def assign
    (header path : List String)
    (key : String)
    (v : TomlNode) : TomlMembers → Option TomlMembers :=
  inHeader (assignIn v path key) header

------------------------------------------------------------
-- Documents
------------------------------------------------------------

mutual

/- The value as a JSON document, members in order. -/
def toJson : TomlNode → Json
  | .text s => .text s
  | .bool b => .bool b
  | .array items => .array (itemsToJson items)
  | .table _ members => .object (membersToJson members)

def itemsToJson : List TomlNode → List Json
  | [] => []
  | v :: rest => toJson v :: itemsToJson rest

def membersToJson : TomlMembers → List (String × Json)
  | [] => []
  | m :: rest => memberToJson m :: membersToJson rest

def memberToJson : String × TomlNode → String × Json
  | (key, v) => (key, toJson v)

end

end TomlNode

end WireSchema
