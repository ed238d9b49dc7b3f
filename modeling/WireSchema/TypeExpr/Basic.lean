import WireSchema.Schema.Name

/-
  Type expressions as routes and scopes write them, such as
  `*example.com/app/models.User` or `map[string][]int`.

  Key definitions include:
    * `TypeExpr`
    * `TypeExpr.text`
    * `TypeExpr.target`, `TypeExpr.namespaces`
    * `TypeExpr.compare`, by which expressions are the same
    * `splitQualified`
-/

namespace WireSchema

/-
  A parameter is the name of a type parameter that nothing
  has been put in place of.
-/
inductive TypeExpr where
  | named (space name : String) (args : List TypeExpr)
  | pointer (elem : TypeExpr)
  | slice (elem : TypeExpr)
  | array (len : Nat) (elem : TypeExpr)
  | map (key value : TypeExpr)
  | builtin (name : String)
  | param (name : String)
  deriving Repr, Inhabited

namespace TypeExpr

------------------------------------------------------------
-- Written Form
------------------------------------------------------------

mutual

/- The text of an expression. -/
def text : TypeExpr → String
  | .named space name args =>
      (if space.isEmpty then "" else space ++ ".")
        ++ name ++ argsText args
  | .pointer elem => "*" ++ text elem
  | .slice elem => "[]" ++ text elem
  | .array len elem => "[" ++ toString len ++ "]" ++ text elem
  | .map key value => "map[" ++ text key ++ "]" ++ text value
  | .builtin name => name
  | .param name => name

/- The arguments in brackets; none leave no brackets. -/
def argsText : List TypeExpr → String
  | [] => ""
  | arg :: rest => "[" ++ text arg ++ moreArgsText rest ++ "]"

def moreArgsText : List TypeExpr → String
  | [] => ""
  | arg :: rest => "," ++ text arg ++ moreArgsText rest

end

------------------------------------------------------------
-- Parts
------------------------------------------------------------

/- The expression behind any number of pointers. -/
def target : TypeExpr → TypeExpr
  | .pointer elem => target elem
  | e => e

mutual

/- Every namespace an expression mentions, in order. -/
def namespaces : TypeExpr → List String
  | .named space _ args =>
      (if space.isEmpty then [] else [space])
        ++ argNamespaces args
  | .pointer elem => namespaces elem
  | .slice elem => namespaces elem
  | .array _ elem => namespaces elem
  | .map key value => namespaces key ++ namespaces value
  | .builtin _ => []
  | .param _ => []

def argNamespaces : List TypeExpr → List String
  | [] => []
  | arg :: rest => namespaces arg ++ argNamespaces rest

end

------------------------------------------------------------
-- Order
------------------------------------------------------------

/- The place of an expression's form in the order. -/
def formRank : TypeExpr → Nat
  | .named .. => 0
  | .pointer _ => 1
  | .slice _ => 2
  | .array .. => 3
  | .map .. => 4
  | .builtin _ => 5
  | .param _ => 6

def compareText (a b : String) : Ordering :=
  if a < b then .lt else if b < a then .gt else .eq

mutual

/-
  Expressions are ordered by their form, then by their parts
  from left to right.
-/
def compare : TypeExpr → TypeExpr → Ordering
  | .named space name args, .named space' name' args' =>
      ((compareText space space').then
        (compareText name name')).then
          (compareArgs args args')
  | .pointer elem, .pointer elem' => compare elem elem'
  | .slice elem, .slice elem' => compare elem elem'
  | .array len elem, .array len' elem' =>
      (Ord.compare len len').then (compare elem elem')
  | .map key value, .map key' value' =>
      (compare key key').then (compare value value')
  | .builtin name, .builtin name' => compareText name name'
  | .param name, .param name' => compareText name name'
  | a, b => Ord.compare (formRank a) (formRank b)

def compareArgs : List TypeExpr → List TypeExpr → Ordering
  | [], [] => .eq
  | [], _ :: _ => .lt
  | _ :: _, [] => .gt
  | a :: rest, b :: rest' =>
      (compare a b).then (compareArgs rest rest')

end

def before (a b : TypeExpr) : Bool :=
  compare a b == .lt

/- Expressions are the same if neither comes first. -/
instance : BEq TypeExpr where
  beq a b := compare a b == .eq

end TypeExpr

------------------------------------------------------------
-- Qualified Names
------------------------------------------------------------

/-
  Cut a qualified name at the last dot behind its last slash.
  What stands before the dot is the namespace.
-/
def splitQualifiedChars
    (s : List Char) : Option (List Char × List Char) :=
  match Text.splitLast '/' s with
  | none => Text.splitLast '.' s
  | some (path, tail) =>
      (Text.splitLast '.' tail).map fun p =>
        (path ++ '/' :: p.1, p.2)

/- The namespace and the simple name of a qualified name. -/
def splitQualified (s : String) : Option TypeName :=
  (splitQualifiedChars s.toList).map fun p =>
    { name := String.ofList p.2, space := String.ofList p.1 }

end WireSchema
