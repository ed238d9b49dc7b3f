import WireSchema.Source.File

/-
  Packages: the source files of one directory, taken
  together.

  Key definitions include:
    * `PackageSource`, `PackageSource.ofFiles`
    * `PackageSource.find?`
    * `PackageSource.constsOf`
-/

namespace WireSchema.Source

------------------------------------------------------------
-- Constants
------------------------------------------------------------

/-
  The table with the value of a constant.  Blank names and
  names that have a value stay as they are.
-/
def ConstTable.learn
    (table : ConstTable)
    (c : ConstSource) : ConstTable :=
  if c.name == "_" || (table.lookup c.name).isSome then table
  else
    match c.value.bind fun e => e.eval c.position table with
    | some v => (c.name, v) :: table
    | none => table

/-
  The values of constants.  A second look finds the values of
  constants that build on later ones.
-/
def valuesOf (consts : List ConstSource) : ConstTable :=
  let first := consts.foldl ConstTable.learn []
  consts.foldl ConstTable.learn first

/- A name keeps the value it has. -/
theorem ConstTable.lookup_learn
    {table : ConstTable}
    {name : String}
    {v : ConstValue}
    (h : table.lookup name = some v)
    (c : ConstSource) :
    (table.learn c).lookup name = some v := by
  unfold learn
  split
  · exact h
  · next hc =>
      split
      · cases hne : name == c.name with
        | true =>
            have heq : name = c.name := by simpa using hne
            simp [← heq, h] at hc
        | false => simp [List.lookup_cons, hne, h]
      · exact h

------------------------------------------------------------
-- Packages
------------------------------------------------------------

/- Files in order, and the values of their constants. -/
structure PackageSource where
  path : String
  files : List FileSource
  values : ConstTable
  deriving BEq, Repr, Inhabited

namespace PackageSource

def ofFiles (path : String) (files : List FileSource) :
    PackageSource :=
  { path, files
    values := valuesOf (files.flatMap FileSource.consts) }

/- Every type declaration, in order. -/
def types (p : PackageSource) : List TypeSource :=
  p.files.flatMap FileSource.types

/- The first declaration of a name, with its file. -/
def find? (p : PackageSource) (name : String) :
    Option (FileSource × TypeSource) :=
  p.files.findSome? fun f =>
    (f.types.find? fun d => d.name == name).map fun d => (f, d)

/- The constants that are declared with a type. -/
def constsOf (p : PackageSource) (type : String) :
    List ConstSource :=
  (p.files.flatMap FileSource.consts).filter fun c =>
    c.type == some type

/- What is found has the name that was asked for. -/
theorem name_of_find?
    {p : PackageSource}
    {name : String}
    {f : FileSource}
    {d : TypeSource}
    (h : p.find? name = some (f, d)) : d.name = name := by
  obtain ⟨g, -, hg⟩ := List.exists_of_findSome?_eq_some h
  obtain ⟨e, he, heq⟩ := Option.map_eq_some_iff.mp hg
  obtain ⟨-, rfl⟩ := Prod.mk.injEq .. ▸ heq
  simpa using List.find?_some he

end PackageSource

end WireSchema.Source
