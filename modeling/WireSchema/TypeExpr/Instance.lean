import WireSchema.TypeExpr.Builtin

/-
  Names for types that have none of their own: instances of
  generic declarations and structs without a name.

  The name of an instance spells its arguments in front-first
  order: a named argument by the last segment of its package
  and its name, a container by a marker and its parts.

  Key definitions include:
    * `syntheticName`
    * `TypeExpr.instanceName`
    * `TypeExpr.wireType`: the type a route sees
-/

namespace WireSchema

------------------------------------------------------------
-- Spelling
------------------------------------------------------------

/-
  A spelling under way, the last character first.  It never
  starts with an underscore.
-/
abbrev Spelling := List Char

namespace Spelling

/- One underscore, unless the spelling is empty or has one. -/
def separate : Spelling → Spelling
  | [] => []
  | c :: s => if c = '_' then c :: s else '_' :: c :: s

/- Letters and digits as they are, all else as separators. -/
def spell (out : Spelling) (text : List Char) : Spelling :=
  text.foldl
    (fun out c =>
      if c.isAlphanum then c :: out else separate out)
    out

/- A marker as it stands. -/
def mark (out : Spelling) (marker : String) : Spelling :=
  marker.toList.reverse ++ out

/-
  The identifier of a spelling: no underscore at the ends,
  but one in front of a digit, and one alone for nothing.
-/
def finish (out : Spelling) : String :=
  let name :=
    Text.dropEdgesWhile (fun c => c == '_') out.reverse
  match name with
  | [] => "_"
  | c :: _ =>
      if c.isDigit then String.ofList ('_' :: name)
      else String.ofList name

end Spelling

------------------------------------------------------------
-- Synthetic Names
------------------------------------------------------------

/- The characters of one token of a description. -/
def isTokenChar (c : Char) : Bool :=
  c.isAlphanum || c == '_' || c == '.' || c == '/' || c == '-'

/- A token without what qualifies it. -/
def tokenTail (token : List Char) : List Char :=
  match Text.splitLast '.' token with
  | some (_, tail) => tail
  | none =>
      match Text.splitLast '/' token with
      | some (_, tail) => tail
      | none => token

/-
  Spell a description token by token.  The second argument
  holds the token under way, the last character first.
-/
def spellTokens :
    Spelling → List Char → List Char → Spelling
  | out, token, [] => out.spell (tokenTail token.reverse)
  | out, token, c :: s =>
      if isTokenChar c then spellTokens out (c :: token) s
      else
        spellTokens
          (out.spell (tokenTail token.reverse)).separate [] s

/- An identifier for a description in free form. -/
def syntheticName (description : String) : String :=
  (spellTokens [] [] description.toList).finish

------------------------------------------------------------
-- Instances
------------------------------------------------------------

/- The last segment of a path. -/
def lastSegment (path : String) : List Char :=
  match Text.splitLast '/' path.toList with
  | some (_, tail) => tail
  | none => path.toList

namespace TypeExpr

mutual

/- Spell a type argument. -/
def describe (out : Spelling) : TypeExpr → Spelling
  | .named space name args =>
      let package := lastSegment space
      let out :=
        if package.isEmpty then out
        else (out.spell package).separate
      describeArgs (out.spell name.toList) args
  | .pointer elem => describe (out.mark "Ptr_") elem
  | .slice elem => describe (out.mark "Slice_") elem
  | .array len elem =>
      describe (out.mark ("Array" ++ toString len ++ "_")) elem
  | .map key value =>
      describe (describe (out.mark "Map_") key).separate value
  | .builtin name => out.spell name.toList
  | .param name => out.spell name.toList

/- Spell each argument behind a separator. -/
def describeArgs (out : Spelling) : List TypeExpr → Spelling
  | [] => out
  | arg :: rest => describeArgs (describe out.separate arg) rest

end

/- An unqualified name is spelled alone. -/
theorem describe_simple (out : Spelling) (name : String) :
    describe out (.named "" name []) =
      out.spell name.toList := by
  have hPackage : (lastSegment "").isEmpty = true := rfl
  simp only [describe, hPackage, if_true, describeArgs]

/-
  The name of a type applied to arguments, in the namespace
  of the generic declaration.
-/
def instanceName
    (space name : String)
    (args : List TypeExpr) : TypeName :=
  match args with
  | [] => { name, space }
  | arg :: rest =>
      let out := Spelling.spell [] name.toList
      { name := (describeArgs out (arg :: rest)).finish, space }

end TypeExpr

------------------------------------------------------------
-- Route Types
------------------------------------------------------------

/- Types that have an empty value, so that null is idle. -/
def WireType.isGrowable : WireType → Bool
  | .base .bytes _ => true
  | t => t.isContainer

/-
  A pointer to a growable type is the growable type: its
  absence shows in the field instead.
-/
def WireType.collapse : WireType → WireType
  | .pointer elem =>
      if elem.isGrowable then elem else .pointer elem
  | t => t

/- Whether `collapse` drops a pointer. -/
def WireType.collapses : WireType → Bool
  | .pointer elem => elem.isGrowable
  | _ => false

/-
  The type that an expression in a route stands for, without
  a look at any declaration.
-/
def TypeExpr.wireType (known : WellKnown) : TypeExpr → WireType
  | .named space name args =>
      match known.find? space name with
      | some t => t
      | none => .reference (instanceName space name args)
  | .pointer elem =>
      (WireType.pointer (wireType known elem)).collapse
  | .slice (.builtin name) =>
      if isByteName name then .base .bytes 0
      else .array (wireType known (.builtin name)) 0
  | .slice elem => .array (wireType known elem) 0
  | .array len elem => .array (wireType known elem) len
  | .map key value =>
      .map (wireType known key) (wireType known value)
  | .builtin name => (builtinType? name).getD .any
  | .param name => .param { name }

/- A slice is an array that grows, unless one of bytes. -/
theorem TypeExpr.wireType_slice
    {known : WellKnown}
    {elem : TypeExpr}
    (h : ∀ name, elem = .builtin name →
      isByteName name = false) :
    (slice elem).wireType known =
      .array (elem.wireType known) 0 := by
  cases elem with
  | builtin name => simp [wireType, h name rfl]
  | _ => simp [wireType]

end WireSchema
