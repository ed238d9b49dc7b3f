import WireSchema.Schema.Basic
import WireSchema.TypeExpr.Basic
import WireSchema.Text.Quoted

/-
  Types that need no declaration: the predeclared ones and
  well-known types of other packages.

  Key definitions include:
    * `builtinType?`
    * `WellKnown`, `WellKnown.default`
    * `WellKnown.override`
    * `WellKnown.find?`
-/

namespace WireSchema

------------------------------------------------------------
-- Predeclared Types
------------------------------------------------------------

/- The kind and the bit width of each predeclared type. -/
def builtinTable : List (String × BaseKind × Nat) :=
  [("bool", .bool, 0),
    ("string", .string, 0),
    ("int", .int, 0),
    ("int8", .int, 8),
    ("int16", .int, 16),
    ("int32", .int, 32),
    ("rune", .int, 32),
    ("int64", .int, 64),
    ("uint", .uint, 0),
    ("uintptr", .uint, 0),
    ("uint8", .uint, 8),
    ("byte", .uint, 8),
    ("uint16", .uint, 16),
    ("uint32", .uint, 32),
    ("uint64", .uint, 64),
    ("float32", .float, 32),
    ("float64", .float, 64),
    ("any", .any, 0),
    ("interface\x7b\x7d", .any, 0),
    ("struct\x7b\x7d", .empty, 0)]

def builtinType? (name : String) : Option WireType :=
  (builtinTable.lookup name).map fun p => .base p.1 p.2

/- The names of a single byte. -/
def isByteName (name : String) : Bool :=
  name == "byte" || name == "uint8"

------------------------------------------------------------
-- Well-Known Types
------------------------------------------------------------

/-
  Well-known types by qualified name.  Of two entries with
  one name the first counts.
-/
structure WellKnown where
  entries : List (String × BaseKind)
  deriving DecidableEq, Repr, Inhabited

/- A table entry with a kind that does not exist. -/
structure UnknownKind where
  type : String
  kind : String
  deriving DecidableEq, Repr

def UnknownKind.message (e : UnknownKind) : String :=
  "type mapping for " ++ e.type
    ++ " names unknown primitive kind " ++ Text.shown e.kind

namespace WellKnown

def default : WellKnown :=
  { entries :=
      [("time.Time", .time),
        ("time.Duration", .duration),
        ("encoding/json.RawMessage", .any),
        ("github.com/google/uuid.UUID", .string),
        ("net/url.URL", .string)] }

/- The default table with further entries in front of it. -/
def override
    (extra : List (String × String)) :
    Except UnknownKind WellKnown := do
  let parsed ← extra.mapM fun p =>
    match BaseKind.ofName? p.2 with
    | some kind => Except.ok (p.1, kind)
    | none => Except.error { type := p.1, kind := p.2 }
  pure { entries := parsed ++ default.entries }

/- Durations are counted in a word of 64 bits. -/
def bitsOf (kind : BaseKind) : Nat :=
  if kind = .duration then 64 else 0

/- The type of a well-known name. -/
def find?
    (w : WellKnown)
    (space name : String) : Option WireType :=
  (w.entries.lookup (space ++ "." ++ name)).map fun kind =>
    .base kind (bitsOf kind)

end WellKnown

end WireSchema
