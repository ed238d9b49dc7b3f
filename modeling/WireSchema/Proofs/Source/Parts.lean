import WireSchema.Proofs.Extraction.Nameless
import WireSchema.Proofs.Source.Extraction

/-
  The parts that a declaration in a source is lowered by.

  What a part enters on its way follows the recursion of the
  lowering, with the state that each call begins in.

  Key definitions include:
    * `Source.Part`, `Source.Part.Ends`
    * `Source.Enters`
-/

namespace WireSchema.Source

open Walk ModuleView

variable {v : ModuleView}

------------------------------------------------------------
-- Declarations
------------------------------------------------------------

/- What an item is an instance of, and what surrounds it. -/
def located (v : ModuleView) (i : Instance) :
    ModuleStep (SourceScope × TypeSource) := do
  let package ← v.package? i.space
  match package, package.bind fun p => p.find? i.name with
  | some p, some (file, d) =>
      match bindingsOf? (d.params.map (·.name)) i.args with
      | none => fault (.unresolved (arityText i d.params.length))
      | some bindings =>
          pure ({ package := p, file, bindings, place := d.place }, d)
  | _, _ => fault (.unresolved (i.space ++ "." ++ i.name))

/- The parameters that an item is declared with. -/
def itemParams
    (v : ModuleView)
    (depth : Nat)
    (i : Instance)
    (x : SourceScope)
    (d : TypeSource) :
    ModuleStep (List (TypeParam WireType)) :=
  if i.args.isEmpty then v.lowerParams depth x d.params
  else pure []

theorem declareInstance_eq (depth : Nat) (i : Instance) :
    v.declareInstance depth i = (do
      let (x, d) ← located v i
      let params ← itemParams v depth i x d
      let t ← v.lowerDecl x i.id params d
      declare t) := by
  unfold declareInstance located itemParams
  rw [bind_assoc]
  congr 1
  funext package
  cases package with
  | none => rfl
  | some p =>
      cases hFound : p.find? i.name with
      | none =>
          simp only [Option.bind_some, hFound]
          rfl
      | some found =>
          simp only [Option.bind_some, hFound]
          cases bindingsOf? (found.2.params.map (·.name))
            i.args with
          | none => rfl
          | some bindings =>
              simp only [pure_bind]
              split
              · rfl
              · rfl

/- The enum that a declaration may be. -/
def enum?
    (x : SourceScope)
    (id : TypeName)
    (params : List (TypeParam WireType))
    (d : TypeSource) : ModuleStep (Option WireType) :=
  if params.isEmpty && !d.isSynonym then
    enumeration x.package id d
  else pure none

theorem lowerDecl_eq
    {x : SourceScope}
    {id : TypeName}
    {params : List (TypeParam WireType)}
    {d : TypeSource}
    (hType : ∀ fs, d.type ≠ .struct fs) :
    v.lowerDecl x id params d = (do
      let t? ← enum? x id params d
      v.lowerSynonym x id params d t?) := by
  unfold lowerDecl enum?
  split
  · next fs hStruct => exact absurd hStruct (hType fs)
  · split
    · rfl
    · rfl

------------------------------------------------------------
-- Members
------------------------------------------------------------

/- The field that a name stands for. -/
def namedField
    (v : ModuleView)
    (x : SourceScope)
    (owner : TypeName)
    (f : SourceField SourceType)
    (name : String) : ModuleStep Members := do
  let t ← v.lower x (owner.name ++ "_" ++ name) f.type
  pure ([taggedField name (.ofTag f.tag) t f.doc], [])

/- The parent that an embedded type is. -/
def parent?
    (v : ModuleView)
    (x : SourceScope)
    (owner : TypeName)
    (f : SourceField SourceType)
    (name : String) : ModuleStep (Option TypeName) :=
  if (FieldFacts.ofTag f.tag).wire.name.isSome then pure none
  else do
    if ← v.isStruct x f.type then
      let t ← v.lower x (owner.name ++ "_" ++ name) f.type
      pure t.target.referent?
    else pure none

theorem lowerField_embedded
    {x : SourceScope}
    {owner : TypeName}
    {f : SourceField SourceType}
    {name : String}
    (hNames : f.names = [])
    (hName : embeddedName? f.type = some name) :
    v.lowerField x owner f =
      (if (FieldFacts.ofTag f.tag).wire.skip then pure ([], [])
      else do
        match ← parent? v x owner f name with
        | some parent => pure ([], [parent])
        | none =>
            if isExported name then namedField v x owner f name
            else pure ([], [])) := by
  unfold lowerField parent?
  rw [hNames, hName]
  dsimp only
  split
  · rfl
  · split
    · rfl
    · rw [bind_assoc]
      congr 1
      funext found
      cases found with
      | false => rfl
      | true =>
          simp only [if_true, bind_assoc]
          rfl

theorem lowerField_named
    {x : SourceScope}
    {owner : TypeName}
    {f : SourceField SourceType}
    (hNames : f.names ≠ []) :
    v.lowerField x owner f = (do
      let parts ←
        (f.names.filter isExported).mapM (namedField v x owner f)
      pure (parts.foldl Members.append ([], []))) := by
  unfold lowerField
  split
  · next hNil _ => exact absurd hNil hNames
  · next hNil _ => exact absurd hNil hNames
  · rfl

------------------------------------------------------------
-- Bounds
------------------------------------------------------------

/- The parts of a bound that is made of terms. -/
def boundParts? : SourceType → Option (List SourceType)
  | .interface elems _ => some elems
  | .union items => some items
  | _ => none

theorem lowerBound_parts
    {x : SourceScope}
    {depth : Nat}
    {t : SourceType}
    {ts : List SourceType}
    (hParts : boundParts? t = some ts) :
    v.lowerBound (depth + 1) x t = (do
      let terms ← ts.mapM (v.lowerTerm depth x)
      pure (boundOfTerms terms.flatten)) := by
  unfold boundParts? at hParts
  split at hParts
  · cases hParts
    unfold lowerBound
    rfl
  · cases hParts
    unfold lowerBound
    rfl
  · cases hParts

/- Whether a bound is a single type without a name. -/
def isPlainBound : SourceType → Bool
  | .ident _ => false
  | .qualified .. => false
  | .interface .. => false
  | .union _ => false
  | .tilde _ => false
  | _ => true

theorem lowerBound_plain
    {x : SourceScope}
    {depth : Nat}
    {t : SourceType}
    (hPlain : isPlainBound t) :
    v.lowerBound (depth + 1) x t = (do
      let t ← v.lower x boundHint t
      pure (some t)) := by
  cases t with
  | ident => cases hPlain
  | qualified => cases hPlain
  | interface => cases hPlain
  | union => cases hPlain
  | tilde => cases hPlain
  | _ =>
      unfold lowerBound
      rfl

/- A term that is no union and has no tilde is a bound. -/
theorem lowerTerm_bound
    {x : SourceScope}
    {depth : Nat}
    {t : SourceType}
    (hUnion : ∀ items, t ≠ .union items)
    (hTilde : ∀ elem, t ≠ .tilde elem) :
    v.lowerTerm (depth + 1) x t = (do
      let bound ← v.lowerBound depth x t
      pure (termsOfBound bound)) := by
  cases t with
  | union items => exact absurd rfl (hUnion items)
  | tilde elem => exact absurd rfl (hTilde elem)
  | _ =>
      unfold lowerTerm
      rfl

------------------------------------------------------------
-- Parts
------------------------------------------------------------

/- What is lowered on the way. -/
inductive Part where
  | item (depth : Nat) (i : Instance)
  | params (depth : Nat) (x : SourceScope) (ps : List SourceParam)
  | bound (depth : Nat) (x : SourceScope) (t : SourceType)
  | term (depth : Nat) (x : SourceScope) (t : SourceType)
  | decl
      (x : SourceScope)
      (id : TypeName)
      (params : List (TypeParam WireType))
      (d : TypeSource)
  | type (x : SourceScope) (hint : String) (t : SourceType)
  | members
      (x : SourceScope)
      (owner : TypeName)
      (fs : List (SourceField SourceType))
  | member
      (x : SourceScope)
      (owner : TypeName)
      (f : SourceField SourceType)

/- To lower a part leads from one state to another. -/
def Part.Ends (v : ModuleView) :
    Part → Walk Instance Loaded → Walk Instance Loaded → Prop
  | .item depth i, y, z =>
      (v.declareInstance depth i).run y = .ok ((), z)
  | .params depth x ps, y, z =>
      ∃ a, (v.lowerParams depth x ps).run y = .ok (a, z)
  | .bound depth x t, y, z =>
      ∃ a, (v.lowerBound depth x t).run y = .ok (a, z)
  | .term depth x t, y, z =>
      ∃ a, (v.lowerTerm depth x t).run y = .ok (a, z)
  | .decl x id ps d, y, z =>
      ∃ a, (v.lowerDecl x id ps d).run y = .ok (a, z)
  | .type x hint t, y, z =>
      ∃ a, (v.lower x hint t).run y = .ok (a, z)
  | .members x owner fs, y, z =>
      ∃ a, (v.lowerFields x owner fs).run y = .ok (a, z)
  | .member x owner f, y, z =>
      ∃ a, (v.lowerField x owner f).run y = .ok (a, z)

/-
  What a type enters that stands at a place in a declaration,
  and what the members of a struct enter.
-/
inductive EntersType (v : ModuleView) :
    Part × Walk Instance Loaded →
      Part × Walk Instance Loaded → Prop where
  | pointer
      {y : Walk Instance Loaded}
      {x : SourceScope}
      {hint : String}
      {elem : SourceType} :
      EntersType v (.type x hint (.pointer elem), y)
        (.type x hint elem, y)
  | slice
      {y : Walk Instance Loaded}
      {x : SourceScope}
      {hint : String}
      {elem : SourceType}
      (hNotByte : ¬x.isByte elem) :
      EntersType v (.type x hint (.slice elem), y)
        (.type x hint elem, y)
  | array
      {y : Walk Instance Loaded}
      {x : SourceScope}
      {hint : String}
      {len : Option Nat}
      {elem : SourceType} :
      EntersType v (.type x hint (.array len elem), y)
        (.type x hint elem, y)
  | key
      {y : Walk Instance Loaded}
      {x : SourceScope}
      {hint : String}
      {key value : SourceType} :
      EntersType v (.type x hint (.map key value), y)
        (.type x hint key, y)
  | value
      {y z : Walk Instance Loaded}
      {x : SourceScope}
      {hint : String}
      {key value : SourceType}
      {t : WireType}
      (hKey : (v.lower x hint key).run y = .ok (t, z)) :
      EntersType v (.type x hint (.map key value), y)
        (.type x hint value, z)
  | struct
      {y : Walk Instance Loaded}
      {x : SourceScope}
      {hint : String}
      {fs : List (SourceField SourceType)}
      {id : TypeName}
      (hId :
        id = { name := syntheticName hint, space := x.package.path })
      (hFree : id ∉ y.taken) :
      EntersType v (.type x hint (.struct fs), y)
        (.members x id fs, { y with taken := id :: y.taken })
  | first
      {y : Walk Instance Loaded}
      {x : SourceScope}
      {owner : TypeName}
      {f : SourceField SourceType}
      {rest : List (SourceField SourceType)} :
      EntersType v (.members x owner (f :: rest), y)
        (.member x owner f, y)
  | later
      {y z : Walk Instance Loaded}
      {x : SourceScope}
      {owner : TypeName}
      {f : SourceField SourceType}
      {rest : List (SourceField SourceType)}
      {m : Members}
      (hFirst : (v.lowerField x owner f).run y = .ok (m, z)) :
      EntersType v (.members x owner (f :: rest), y)
        (.members x owner rest, z)
  | parent
      {y z : Walk Instance Loaded}
      {x : SourceScope}
      {owner : TypeName}
      {f : SourceField SourceType}
      {name : String}
      (hNames : f.names = [])
      (hName : embeddedName? f.type = some name)
      (hKept : ¬(FieldFacts.ofTag f.tag).wire.skip)
      (hWire : ¬(FieldFacts.ofTag f.tag).wire.name.isSome)
      (hStruct : (v.isStruct x f.type).run y = .ok (true, z)) :
      EntersType v (.member x owner f, y)
        (.type x (owner.name ++ "_" ++ name) f.type, z)
  | embedded
      {y z : Walk Instance Loaded}
      {x : SourceScope}
      {owner : TypeName}
      {f : SourceField SourceType}
      {name : String}
      (hNames : f.names = [])
      (hName : embeddedName? f.type = some name)
      (hKept : ¬(FieldFacts.ofTag f.tag).wire.skip)
      (hParent : (parent? v x owner f name).run y =
        .ok (none, z))
      (hExported : isExported name) :
      EntersType v (.member x owner f, y)
        (.type x (owner.name ++ "_" ++ name) f.type, z)
  | named
      {y z : Walk Instance Loaded}
      {x : SourceScope}
      {owner : TypeName}
      {f : SourceField SourceType}
      {before after : List String}
      {name : String}
      {ms : List Members}
      (hNames :
        f.names.filter isExported = before ++ name :: after)
      (hBefore : (before.mapM (namedField v x owner f)).run y =
        .ok (ms, z)) :
      EntersType v (.member x owner f, y)
        (.type x (owner.name ++ "_" ++ name) f.type, z)

/- What the bounds of parameters enter. -/
inductive EntersBound (v : ModuleView) :
    Part × Walk Instance Loaded →
      Part × Walk Instance Loaded → Prop where
  | first
      {y : Walk Instance Loaded}
      {depth : Nat}
      {x : SourceScope}
      {p : SourceParam}
      {rest : List SourceParam} :
      EntersBound v (.params depth x (p :: rest), y)
        (.bound depth x p.bound, y)
  | later
      {y z : Walk Instance Loaded}
      {depth : Nat}
      {x : SourceScope}
      {p : SourceParam}
      {rest : List SourceParam}
      {b : Option WireType}
      (hFirst : (v.lowerBound depth x p.bound).run y =
        .ok (b, z)) :
      EntersBound v (.params depth x (p :: rest), y)
        (.params depth x rest, z)
  | interface
      {y : Walk Instance Loaded}
      {depth : Nat}
      {x w : SourceScope}
      {name : String}
      {t : SourceType}
      (hBinds : ¬isFreeBound name)
      (hFound : interfaceOf? x.package name = some (w, t)) :
      EntersBound v (.bound (depth + 1) x (.ident name), y)
        (.bound depth w t, y)
  | ident
      {y : Walk Instance Loaded}
      {depth : Nat}
      {x : SourceScope}
      {name : String}
      (hBinds : ¬isFreeBound name)
      (hFound : interfaceOf? x.package name = none) :
      EntersBound v (.bound (depth + 1) x (.ident name), y)
        (.type x name (.ident name), y)
  | imported
      {y z : Walk Instance Loaded}
      {depth : Nat}
      {x w : SourceScope}
      {package path name : String}
      {p : PackageSource}
      {t : SourceType}
      (hImport : x.import? package = some path)
      (hPackage : (v.package? path).run y = .ok (some p, z))
      (hFound : interfaceOf? p name = some (w, t)) :
      EntersBound v
        (.bound (depth + 1) x (.qualified package name), y)
        (.bound depth w t, z)
  | qualified
      {y z : Walk Instance Loaded}
      {depth : Nat}
      {x : SourceScope}
      {package path name : String}
      {p : PackageSource}
      (hImport : x.import? package = some path)
      (hPackage : (v.package? path).run y = .ok (some p, z))
      (hFound : interfaceOf? p name = none) :
      EntersBound v
        (.bound (depth + 1) x (.qualified package name), y)
        (.type x name (.qualified package name), z)
  | part
      {y z : Walk Instance Loaded}
      {depth : Nat}
      {x : SourceScope}
      {t u : SourceType}
      {before after : List SourceType}
      {ts : List (List WireType)}
      (hParts : boundParts? t = some (before ++ u :: after))
      (hBefore : (before.mapM (v.lowerTerm depth x)).run y =
        .ok (ts, z)) :
      EntersBound v (.bound (depth + 1) x t, y)
        (.term depth x u, z)
  | tilde
      {y : Walk Instance Loaded}
      {depth : Nat}
      {x : SourceScope}
      {elem : SourceType} :
      EntersBound v (.bound (depth + 1) x (.tilde elem), y)
        (.type x boundHint elem, y)
  | plain
      {y : Walk Instance Loaded}
      {depth : Nat}
      {x : SourceScope}
      {t : SourceType}
      (hPlain : isPlainBound t) :
      EntersBound v (.bound (depth + 1) x t, y)
        (.type x boundHint t, y)
  | termPart
      {y z : Walk Instance Loaded}
      {depth : Nat}
      {x : SourceScope}
      {u : SourceType}
      {before after : List SourceType}
      {ts : List (List WireType)}
      (hBefore : (before.mapM (v.lowerTerm depth x)).run y =
        .ok (ts, z)) :
      EntersBound v
        (.term (depth + 1) x (.union (before ++ u :: after)), y)
        (.term depth x u, z)
  | termTilde
      {y : Walk Instance Loaded}
      {depth : Nat}
      {x : SourceScope}
      {elem : SourceType} :
      EntersBound v (.term (depth + 1) x (.tilde elem), y)
        (.type x boundHint elem, y)
  | termBound
      {y : Walk Instance Loaded}
      {depth : Nat}
      {x : SourceScope}
      {t : SourceType}
      (hUnion : ∀ items, t ≠ .union items)
      (hTilde : ∀ elem, t ≠ .tilde elem) :
      EntersBound v (.term (depth + 1) x t, y)
        (.bound depth x t, y)

/-
  A part that is lowered from a state enters another part in
  another state, one case for each call.
-/
inductive Enters (v : ModuleView) :
    Part × Walk Instance Loaded →
      Part × Walk Instance Loaded → Prop where
  | params
      {y z : Walk Instance Loaded}
      {depth : Nat}
      {i : Instance}
      {x : SourceScope}
      {d : TypeSource}
      (hFound : (located v i).run y = .ok ((x, d), z))
      (hGeneric : i.args.isEmpty) :
      Enters v (.item depth i, y) (.params depth x d.params, z)
  | decl
      {y z w : Walk Instance Loaded}
      {depth : Nat}
      {i : Instance}
      {x : SourceScope}
      {d : TypeSource}
      {params : List (TypeParam WireType)}
      (hFound : (located v i).run y = .ok ((x, d), z))
      (hParams :
        (itemParams v depth i x d).run z = .ok (params, w)) :
      Enters v (.item depth i, y) (.decl x i.id params d, w)
  | struct
      {y : Walk Instance Loaded}
      {x : SourceScope}
      {id : TypeName}
      {params : List (TypeParam WireType)}
      {d : TypeSource}
      {fs : List (SourceField SourceType)}
      (hType : d.type = .struct fs) :
      Enters v (.decl x id params d, y) (.members x id fs, y)
  | synonym
      {y z : Walk Instance Loaded}
      {x : SourceScope}
      {id : TypeName}
      {params : List (TypeParam WireType)}
      {d : TypeSource}
      (hType : ∀ fs, d.type ≠ .struct fs)
      (hEnum : (enum? x id params d).run y = .ok (none, z)) :
      Enters v (.decl x id params d, y)
        (.type x id.name d.type, z)
  | type
      {p q : Part × Walk Instance Loaded}
      (hEnters : EntersType v p q) : Enters v p q
  | bound
      {p q : Part × Walk Instance Loaded}
      (hEnters : EntersBound v p q) : Enters v p q

end WireSchema.Source
