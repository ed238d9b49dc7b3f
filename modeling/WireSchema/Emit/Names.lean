import WireSchema.Emit.Paths
import WireSchema.Schema.Basic

/-
  The names that declared types are emitted under.

  A simple name that one type has stays.  Where several types
  share one, each gets its namespace in front.  Names that
  still coincide are numbered.

  Key definitions include:
    * `EmittedNames`
    * `freshName`
    * `EmittedNames.ofSchema`
-/

namespace WireSchema

------------------------------------------------------------
-- Fresh Names
------------------------------------------------------------

/- A name with a number behind it. -/
def numberedName (base : String) (n : Nat) : String :=
  base ++ "_" ++ toString n

/- The first numbered name that is not in use. -/
def freshNumbered
    (used : List String)
    (base : String) : Nat → Nat → String
  | 0, n => numberedName base n
  | more + 1, n =>
      if used.contains (numberedName base n) then
        freshNumbered used base more (n + 1)
      else numberedName base n

/-
  A name as it is, or with the least number from two on.  As
  numbered names differ, one of them is free after as many
  steps as there are names in use.
-/
def freshName (used : List String) (base : String) : String :=
  if used.contains base then
    freshNumbered used base used.length 2
  else base

------------------------------------------------------------
-- Proposals
------------------------------------------------------------

/- A type with the name it would like to have. -/
structure NameProposal where
  id : TypeName
  wanted : String
  deriving DecidableEq, Repr, Inhabited

namespace NameProposal

/- Whether the wanted name is longer than the simple one. -/
def isQualified (p : NameProposal) : Bool :=
  p.wanted != p.id.name

/-
  Types that keep their name choose first, then the order is
  by wanted name and by type.
-/
def upTo (p q : NameProposal) : Bool :=
  if p.isQualified != q.isQualified then q.isQualified
  else if p.wanted != q.wanted then
    decide (p.wanted < q.wanted)
  else p.id.upTo q.id

end NameProposal

/- What a type would like to be called among others. -/
def propose
    (stripped : List String)
    (ids : List TypeName)
    (id : TypeName) : NameProposal :=
  let sharing := ids.filter fun other => other.name == id.name
  if sharing.length ≤ 1 then { id, wanted := id.name }
  else
    let qualifier :=
      pascalCase (stripNamespace stripped id.space)
    { id, wanted := String.ofList qualifier ++ id.name }

------------------------------------------------------------
-- Assignment
------------------------------------------------------------

/- Each type with its name, in the order of their choice. -/
structure EmittedNames where
  entries : List (TypeName × String)
  deriving DecidableEq, Repr, Inhabited

namespace EmittedNames

/- Give each proposal its name or a fresh one. -/
def assign :
    List (TypeName × String) → List NameProposal →
      List (TypeName × String)
  | entries, [] => entries
  | entries, p :: rest =>
      let name := freshName (entries.map Prod.snd) p.wanted
      assign (entries ++ [(p.id, name)]) rest

/- The names of the declared types of a schema. -/
def ofSchema (s : Schema) (stripped : List String) :
    EmittedNames :=
  let ids := sortNames s.names
  let proposals := ids.map (propose stripped ids)
  { entries := assign [] (sortUpTo NameProposal.upTo proposals) }

def find? (e : EmittedNames) (id : TypeName) : Option String :=
  e.entries.lookup id

end EmittedNames

end WireSchema
