import WireSchema.Source.Lower

/-
  The bounds of type parameters.

  A bound lists the types that an argument may be.  A bound
  that names an interface is the bound in its declaration,
  which may name further ones.

  Key definitions include:
    * `boundOfTerms`
    * `ModuleView.lowerBound`
-/

namespace WireSchema.Source

open Walk

/- A bound of terms; without terms there is none. -/
def boundOfTerms : List WireType → Option WireType
  | [] => none
  | [t] => some t
  | ts => some (.union ts)

/- The terms of a bound. -/
def termsOfBound : Option WireType → List WireType
  | none => []
  | some (.union ts) => ts
  | some t => [t]

/- The names of bounds that every type satisfies. -/
def isFreeBound (name : String) : Bool :=
  name == "any" || name == "comparable"

namespace ModuleView

/- What stands for a term that has no name. -/
def boundHint : String := "constraint"

/- The scope of a declaration without parameters. -/
def scopeOf
    (p : PackageSource)
    (file : FileSource)
    (d : TypeSource) : SourceScope :=
  { package := p, file, place := d.place }

/- The interface that a package declares by a name. -/
def interfaceOf?
    (p : PackageSource)
    (name : String) : Option (SourceScope × SourceType) :=
  match p.find? name with
  | some (file, d) =>
      if d.type.isInterface then
        some (scopeOf p file d, d.type)
      else none
  | none => none

mutual

/-
  The bound that a source type expresses, if it restricts at
  all.  Imported bounds of other modules do not.  The first
  argument bounds the depth of the bounds inside each other.
-/
def lowerBound (v : ModuleView) :
    Nat → SourceScope → SourceType →
      ModuleStep (Option WireType)
  | 0, _, _ => fault .unfinished
  | depth + 1, x, .ident name =>
      if isFreeBound name then pure none
      else
        match interfaceOf? x.package name with
        | some (y, t) => lowerBound v depth y t
        | none => do
            let t ← v.lower x name (.ident name)
            pure (some t)
  | depth + 1, x, .qualified package name =>
      match x.import? package with
      | none => pure none
      | some path => do
          match ← v.package? path with
          | none => pure none
          | some p =>
              match interfaceOf? p name with
              | some (y, t) => lowerBound v depth y t
              | none => do
                  let t ←
                    v.lower x name (.qualified package name)
                  pure (some t)
  | depth + 1, x, .interface elems _ => do
      let terms ← elems.mapM (lowerTerm v depth x)
      pure (boundOfTerms terms.flatten)
  | depth + 1, x, .union items => do
      let terms ← items.mapM (lowerTerm v depth x)
      pure (boundOfTerms terms.flatten)
  | _ + 1, x, .tilde elem => do
      let t ← v.lower x boundHint elem
      pure (some t)
  | _ + 1, x, t => do
      let t ← v.lower x boundHint t
      pure (some t)

/- The terms that a part of a bound stands for. -/
def lowerTerm (v : ModuleView) :
    Nat → SourceScope → SourceType →
      ModuleStep (List WireType)
  | 0, _, _ => fault .unfinished
  | depth + 1, x, .union items => do
      let terms ← items.mapM (lowerTerm v depth x)
      pure terms.flatten
  | _ + 1, x, .tilde elem => do
      let t ← v.lower x boundHint elem
      pure [t]
  | depth + 1, x, t => do
      let bound ← lowerBound v depth x t
      pure (termsOfBound bound)

end

end ModuleView

end WireSchema.Source
