import Mathlib.Logic.Relation
import WireSchema.Proofs.TypeExpr.Parts
import WireSchema.Source.Extraction

/-
  What goes from the parameters of declarations into those of
  others.

  A declaration uses types that may have its parameters inside.
  Where these stand in arguments, what is put for a parameter
  of the declaration is put, alone or inside something else,
  for a parameter of the type that has the arguments.  Nothing
  but that makes new arguments in an extraction, and nothing
  but interfaces inside each other makes bounds deep.

  Key definitions include:
    * `SourceType.uses`, `SourceType.heads`
    * `SourceScope.standsFor`
    * `ModuleView.Flows`, `ModuleView.Grows`
    * `ModuleView.Embeds`
    * `ModuleView.IsGrounded`
-/

namespace WireSchema.Source

------------------------------------------------------------
-- Types in Types
------------------------------------------------------------

mutual

/- The types in a type that are known by their names. -/
def SourceType.uses : SourceType → List SourceType
  | .ident name => [.ident name]
  | .qualified package name => [.qualified package name]
  | .generic base args => [.generic base args]
  | .pointer elem => uses elem
  | .slice elem => uses elem
  | .array _ elem => uses elem
  | .map key value => uses key ++ uses value
  | .struct fields => usesOf fields
  | .interface elems _ => usesIn elems
  | .union terms => usesIn terms
  | .tilde elem => uses elem
  | .unsupported _ => []

def SourceType.usesIn : List SourceType → List SourceType
  | [] => []
  | t :: rest => SourceType.uses t ++ usesIn rest

def SourceType.usesOf :
    List (SourceField SourceType) → List SourceType
  | [] => []
  | f :: rest => SourceType.usesFrom f ++ usesOf rest

def SourceType.usesFrom :
    SourceField SourceType → List SourceType
  | ⟨_, type, _, _⟩ => SourceType.uses type

end

/- The types that a declaration uses, in bounds as well. -/
def TypeSource.uses (d : TypeSource) : List SourceType :=
  d.type.uses ++ d.params.flatMap fun p => p.bound.uses

/- The name that a type consists of. -/
def SourceType.head : SourceType → List String
  | .ident name => [name]
  | _ => []

mutual

/- The names without a package that have arguments in a type. -/
def SourceType.heads : SourceType → List String
  | .generic base args => base.head ++ heads base ++ headsIn args
  | .pointer elem => heads elem
  | .slice elem => heads elem
  | .array _ elem => heads elem
  | .map key value => heads key ++ heads value
  | _ => []

def SourceType.headsIn : List SourceType → List String
  | [] => []
  | t :: rest => SourceType.heads t ++ headsIn rest

end

mutual

/- The types in a bound that may be bounds themselves. -/
def SourceType.boundNames : SourceType → List SourceType
  | .ident name => [.ident name]
  | .qualified package name => [.qualified package name]
  | .interface elems _ => boundNamesIn elems
  | .union terms => boundNamesIn terms
  | _ => []

def SourceType.boundNamesIn : List SourceType → List SourceType
  | [] => []
  | t :: rest => SourceType.boundNames t ++ boundNamesIn rest

end

------------------------------------------------------------
-- Parameters
------------------------------------------------------------

namespace SourceScope

variable {x : SourceScope}

/- The scope in which each parameter stands for itself. -/
def generic (x : SourceScope) : SourceScope :=
  { x with bindings := x.bindings.map fun b => (b.1, .itself) }

/- What a parameter stands for in a scope. -/
def standsFor (x : SourceScope) (name : String) : TypeExpr :=
  match x.bindings.lookup name with
  | some (.argument e) => e
  | _ => .param name

theorem lookup_generic (name : String) :
    x.generic.bindings.lookup name =
      (x.bindings.lookup name).map fun _ => .itself := by
  unfold generic
  induction x.bindings with
  | nil => rfl
  | cons b rest ih =>
      rcases b with ⟨given, b⟩
      simp only [List.map_cons, List.lookup_cons]
      cases name == given with
      | true => rfl
      | false => exact ih

theorem resolveName?_put (name : String) :
    x.resolveName? name =
      (x.generic.resolveName? name).map (.put x.standsFor) := by
  unfold resolveName?
  rw [lookup_generic]
  cases hLookup : x.bindings.lookup name with
  | none =>
      have hDeclares :
          x.generic.declares name = x.declares name := rfl
      dsimp only [Option.map_none]
      rw [hDeclares]
      split
      · rfl
      · split
        · rfl
        · rfl
  | some b =>
      simp only [Option.map_some, TypeExpr.put, standsFor, hLookup]
      cases b with
      | itself => rfl
      | argument e => rfl

/- Only a name stands for a parameter alone. -/
theorem eq_ident_of_resolve?_param
    {t : SourceType}
    {name : String}
    (h : x.generic.resolve? t = some (.param name)) :
    t = .ident name ∧ (x.bindings.lookup name).isSome := by
  cases t with
  | ident given =>
      rw [resolve?, resolveName?, lookup_generic] at h
      cases hLookup : x.bindings.lookup given with
      | none =>
          rw [hLookup] at h
          dsimp only [Option.map_none] at h
          split at h
          · cases h
          · split at h
            · cases h
            · cases h
      | some b =>
          rw [hLookup] at h
          cases h
          rw [hLookup]
          exact ⟨rfl, rfl⟩
  | qualified package given =>
      simp [resolve?] at h
  | generic base args =>
      rw [resolve?] at h
      split at h
      · cases h
      · cases h
  | pointer elem => simp [resolve?] at h
  | slice elem => simp [resolve?] at h
  | array len elem =>
      cases len with
      | none => simp [resolve?] at h
      | some len => simp [resolve?] at h
  | map key value =>
      simp only [resolve?, Option.bind_eq_bind,
        Option.bind_eq_some_iff, Option.some.injEq] at h
      rcases h with ⟨_, -, _, -, h⟩
      cases h
  | struct fields =>
      cases fields with
      | nil => simp [resolve?] at h
      | cons f rest => simp [resolve?] at h
  | interface elems hasMethods =>
      cases elems with
      | nil => cases hasMethods <;> simp [resolve?] at h
      | cons t rest => simp [resolve?] at h
  | union terms => simp [resolve?] at h
  | tilde elem => simp [resolve?] at h
  | unsupported text => simp [resolve?] at h

/-
  If no parameter has arguments itself, a type is the
  expression it is where its parameters stand for themselves,
  with what they stand for in their place.
-/
theorem resolve?_put :
    (∀ t, (∀ name ∈ SourceType.heads t, x.binds name = false) →
      x.resolve? t =
        (x.generic.resolve? t).map (.put x.standsFor))
      ∧ ∀ ts,
        (∀ name ∈ SourceType.headsIn ts, x.binds name = false) →
        x.resolveTypes? ts =
          (x.generic.resolveTypes? ts).map
            (.map (.put x.standsFor)) := by
  refine SourceType.heads.mutual_induct _ _ ?generic ?pointer
    ?slice ?array ?map ?other ?noType ?types
  case generic =>
    intro base args hBase hArgs hHeads
    simp only [SourceType.heads, List.mem_append] at hHeads
    have hBase := hBase fun p hp => hHeads p (.inl (.inr hp))
    have hArgs := hArgs fun p hp => hHeads p (.inr hp)
    rw [resolve?, resolve?, hBase, hArgs]
    cases hFound : x.generic.resolve? base with
    | none => rfl
    | some e =>
        cases e with
        | named space name inner =>
            cases x.generic.resolveTypes? args with
            | none => rfl
            | some es =>
                simp [TypeExpr.put, TypeExpr.putArgs_eq_map]
        | param name =>
            -- a parameter with arguments
            rcases eq_ident_of_resolve?_param hFound with
              ⟨rfl, hBound⟩
            have hFree := hHeads name
              (.inl (.inl (List.mem_singleton_self name)))
            unfold binds at hFree
            rw [hBound] at hFree
            cases hFree
        | _ => rfl
  case pointer | slice =>
    intro elem hElem hHeads
    rw [resolve?, resolve?, hElem hHeads, Option.map_map,
      Option.map_map]
    rfl
  case array =>
    intro len elem hElem hHeads
    cases len with
    | none => rfl
    | some len =>
        rw [resolve?, resolve?, hElem hHeads, Option.map_map,
          Option.map_map]
        rfl
  case map =>
    intro key value hKey hValue hHeads
    simp only [SourceType.heads, List.mem_append] at hHeads
    have hKey := hKey fun p hp => hHeads p (.inl hp)
    have hValue := hValue fun p hp => hHeads p (.inr hp)
    rw [resolve?, resolve?, hKey, hValue]
    cases x.generic.resolve? key with
    | none => rfl
    | some k =>
        cases x.generic.resolve? value with
        | none => rfl
        | some e => rfl
  case other =>
    intro t hGeneric hPointer hSlice hArray hMap _
    cases t with
    | ident name => exact resolveName?_put name
    | qualified package name =>
        have hImport :
            x.generic.import? package = x.import? package := rfl
        rw [resolve?, resolve?, hImport, Option.map_map]
        rfl
    | generic base args => exact (hGeneric base args rfl).elim
    | pointer elem => exact (hPointer elem rfl).elim
    | slice elem => exact (hSlice elem rfl).elim
    | array len elem => exact (hArray len elem rfl).elim
    | map key value => exact (hMap key value rfl).elim
    | struct fields => cases fields <;> rfl
    | interface elems hasMethods =>
        cases elems <;> cases hasMethods <;> rfl
    | _ => rfl
  case noType =>
    intro _
    rfl
  case types =>
    intro t rest hFirst hRest hHeads
    simp only [SourceType.headsIn, List.mem_append] at hHeads
    have hFirst := hFirst fun p hp => hHeads p (.inl hp)
    have hRest := hRest fun p hp => hHeads p (.inr hp)
    rw [resolveTypes?, resolveTypes?, hFirst, hRest]
    cases x.generic.resolve? t with
    | none => rfl
    | some e =>
        cases x.generic.resolveTypes? rest with
        | none => rfl
        | some es => rfl

end SourceScope

------------------------------------------------------------
-- Arguments
------------------------------------------------------------

namespace ModuleView

variable {v : ModuleView}

/- A declaration that a package of the module has by a name. -/
structure Holds
    (v : ModuleView)
    (space name : String)
    (p : PackageSource)
    (file : FileSource)
    (d : TypeSource) : Prop where
  loaded : v.load space = .ok (some p)
  found : p.find? name = some (file, d)

/- The scope of a declaration as it stands. -/
def genericScope
    (p : PackageSource)
    (file : FileSource)
    (d : TypeSource) : SourceScope :=
  { package := p
    file
    bindings := (d.params.map fun q => (q.name, .itself)).reverse
    place := d.place }

/-
  An expression that a declaration uses, its parameters
  standing for themselves.
-/
inductive Uses
    (v : ModuleView)
    (space name : String)
    (d : TypeSource)
    (e : TypeExpr) : Prop where
  | intro
      {p : PackageSource}
      {file : FileSource}
      {u : SourceType}
      (hHolds : v.Holds space name p file d)
      (hUse : u ∈ d.uses)
      (hResolve : (genericScope p file d).resolve? u = some e)

/- The place of an argument of a declared type. -/
structure Slot where
  space : String
  name : String
  index : Nat

/-
  Where a declaration has an argument in a place, there is a
  parameter of its own in the argument, which has a place too.
-/
inductive Passes
    (v : ModuleView)
    (a b : Slot)
    (param : String)
    (arg : TypeExpr) : Prop where
  | intro
      {d : TypeSource}
      {e : TypeExpr}
      {args : List TypeExpr}
      (hUses : v.Uses a.space a.name d e)
      (hParam : (d.params.map (·.name))[a.index]? = some param)
      (hPart : .named b.space b.name args ∈ e.parts)
      (hArg : args[b.index]? = some arg)
      (hInside : .param param ∈ arg.parts)

/- What is put in one place is put in another one. -/
def Flows (v : ModuleView) (a b : Slot) : Prop :=
  ∃ param arg, v.Passes a b param arg

/- It is put there inside of something else. -/
def Grows (v : ModuleView) (a b : Slot) : Prop :=
  ∃ param arg, v.Passes a b param arg ∧ arg ≠ .param param

theorem Grows.flows
    {a b : Slot}
    (h : v.Grows a b) : v.Flows a b := by
  rcases h with ⟨param, arg, hPasses, -⟩
  exact ⟨param, arg, hPasses⟩

------------------------------------------------------------
-- Bounds
------------------------------------------------------------

/- An interface that a type in a bound names. -/
inductive NamesInterface
    (v : ModuleView)
    (x : SourceScope) : SourceType → TypeName → Prop where
  | ident
      {name : String}
      (hBinds : isFreeBound name = false)
      (hFound : (interfaceOf? x.package name).isSome) :
      NamesInterface v x (.ident name)
        { name, space := x.package.path }
  | qualified
      {package path name : String}
      {p : PackageSource}
      (hImport : x.import? package = some path)
      (hLoaded : v.load path = .ok (some p))
      (hFound : (interfaceOf? p name).isSome) :
      NamesInterface v x (.qualified package name)
        { name, space := path }

/- An interface names another one as a part of its bound. -/
inductive Embeds
    (v : ModuleView)
    (a b : TypeName) : Prop where
  | intro
      {p : PackageSource}
      {file : FileSource}
      {d : TypeSource}
      {u : SourceType}
      (hHolds : v.Holds a.space a.name p file d)
      (hInterface : d.type.isInterface)
      (hName : u ∈ d.type.boundNames)
      (hNames : v.NamesInterface (scopeOf p file d) u b)

------------------------------------------------------------
-- Modules
------------------------------------------------------------

/-
  What the declarations of a module are asked for: that no
  interface is a part of its own bound, that no parameter has
  arguments, and that on no way from a place of an argument
  back to it something is put around what stands there.
-/
structure IsGrounded (v : ModuleView) : Prop where
  bounds : ∀ id, ¬Relation.TransGen v.Embeds id id
  heads :
    ∀ {space name p file d}, v.Holds space name p file d →
      ∀ u ∈ d.uses, ∀ given ∈ u.heads,
        given ∉ d.params.map (·.name)
  arguments :
    ∀ a b, v.Grows a b → ¬Relation.ReflTransGen v.Flows b a

end ModuleView

end WireSchema.Source
