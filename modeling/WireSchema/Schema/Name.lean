import WireSchema.Text.Split

/-
  Names of declared types, their documentation and the place
  they were declared at.

  Key definitions include:
    * `TypeName`, `TypeName.qualified`
    * `TypeName.before`: the order by name, then namespace
    * `insertSorted`, `sortDistinct`: sorted sets
    * `sortUpTo`: sorted lists
    * `Doc`
    * `SourcePlace`
-/

namespace WireSchema

------------------------------------------------------------
-- Type Names
------------------------------------------------------------

/-
  A declared type is known by its simple name and the
  namespace it was declared in.  Built-in types have the
  empty namespace.
-/
structure TypeName where
  name : String
  space : String := ""
  deriving DecidableEq, Repr, Inhabited

namespace TypeName

/- The name as diagnostics show it. -/
def qualified (id : TypeName) : String :=
  if id.space.isEmpty then id.name
  else id.space ++ "." ++ id.name

/- The order by simple name, then by namespace. -/
def before (a b : TypeName) : Bool :=
  decide (a.name < b.name)
    || (a.name == b.name && decide (a.space < b.space))

/- The order that may also hold of a name and itself. -/
def upTo (a b : TypeName) : Bool :=
  !before b a

end TypeName

------------------------------------------------------------
-- Sorted Sets
------------------------------------------------------------

/- Put an element in its place unless it is there already. -/
def insertSorted
    {α : Type}
    (lt : α → α → Bool)
    (x : α) : List α → List α
  | [] => [x]
  | y :: ys =>
      if lt x y then x :: y :: ys
      else if lt y x then y :: insertSorted lt x ys
      else y :: ys

/- The distinct elements of a list in order. -/
def sortDistinct
    {α : Type}
    (lt : α → α → Bool)
    (xs : List α) : List α :=
  xs.foldl (fun acc x => insertSorted lt x acc) []

def textBefore (a b : String) : Bool :=
  decide (a < b)

def textUpTo (a b : String) : Bool :=
  decide (a ≤ b)

/- The distinct strings of a list in order. -/
def sortTexts (xs : List String) : List String :=
  sortDistinct textBefore xs

/- The distinct names of a list in order. -/
def sortNames (xs : List TypeName) : List TypeName :=
  sortDistinct TypeName.before xs

------------------------------------------------------------
-- Sorted Lists
------------------------------------------------------------

/- Put an element in front of the first that it is up to. -/
def insertUpTo
    {α : Type}
    (le : α → α → Bool)
    (x : α) : List α → List α
  | [] => [x]
  | y :: ys =>
      if le x y then x :: y :: ys else y :: insertUpTo le x ys

/-
  The elements of a list in order.  Those that the order does
  not tell apart stay as they were.
-/
def sortUpTo
    {α : Type}
    (le : α → α → Bool) : List α → List α
  | [] => []
  | x :: xs => insertUpTo le x (sortUpTo le xs)

/- Only what was there or was put in is in a sorted set. -/
theorem mem_of_mem_insertSorted
    {α : Type}
    {lt : α → α → Bool}
    {x y : α}
    {ys : List α}
    (h : y ∈ insertSorted lt x ys) :
    y = x ∨ y ∈ ys := by
  induction ys with
  | nil => simpa [insertSorted] using h
  | cons z zs ih =>
      simp only [insertSorted] at h
      split at h
      · simpa using h
      · split at h
        · rcases List.mem_cons.mp h with rfl | h
          · simp
          · rcases ih h with rfl | h
            · simp
            · simp [h]
        · simp [h]

------------------------------------------------------------
-- Documentation
------------------------------------------------------------

/- The documentation of a declaration. -/
structure Doc where
  summary : String := ""
  body : String := ""
  deprecated : Option String := none
  deriving DecidableEq, Repr, Inhabited

def Doc.isEmpty (d : Doc) : Bool :=
  d.summary.isEmpty && d.body.isEmpty && d.deprecated.isNone

------------------------------------------------------------
-- Places
------------------------------------------------------------

/- Where a declaration stands, lines and columns from one. -/
structure SourcePlace where
  file : String
  line : Nat
  column : Nat
  deriving DecidableEq, Repr, Inhabited

def SourcePlace.text (p : SourcePlace) : String :=
  p.file ++ ":" ++ toString p.line ++ ":" ++ toString p.column

end WireSchema
