import WireSchema.Proofs.Source.TwoWays
import WireSchema.Source.Extraction

/-
  Source types with types in place of parameters.

  A scope binds the parameters of a declaration to arguments.
  Types that are these arguments where the declaration stands
  may be written in place of the parameters instead: names
  then stand for the same expressions.

  Key definitions include:
    * `Filling`, `SourceType.put`
    * `SourceScope.Admits`
    * `SourceScope.Stands`
    * `SourceScope.Instantiates`
-/

namespace WireSchema.Source

variable {v : ModuleView}

------------------------------------------------------------
-- Substitution
------------------------------------------------------------

/-
  Types by the names of the parameters they are put for, and
  what becomes of text that is kept for a type without a form.
-/
structure Filling where
  types : List (String × SourceType)
  retext : String → String

mutual

/- A type with types in place of parameters. -/
def SourceType.put (f : Filling) : SourceType → SourceType
  | .ident name => (f.types.lookup name).getD (.ident name)
  | .qualified package name => .qualified package name
  | .generic base args => .generic (base.put f) (putAll f args)
  | .pointer elem => .pointer (elem.put f)
  | .slice elem => .slice (elem.put f)
  | .array len elem => .array len (elem.put f)
  | .map key value => .map (key.put f) (value.put f)
  | .struct fields => .struct (putFields f fields)
  | .interface elems hasMethods =>
      .interface (putAll f elems) hasMethods
  | .union terms => .union (putAll f terms)
  | .tilde elem => .tilde (elem.put f)
  | .unsupported text => .unsupported (f.retext text)

def putAll (f : Filling) : List SourceType → List SourceType
  | [] => []
  | t :: rest => t.put f :: putAll f rest

def putFields (f : Filling) :
    List (SourceField SourceType) →
      List (SourceField SourceType)
  | [] => []
  | field :: rest => field.put f :: putFields f rest

def SourceField.put (f : Filling) :
    SourceField SourceType → SourceField SourceType
  | ⟨names, type, tag, doc⟩ => ⟨names, type.put f, tag, doc⟩

end

/- Whether a type is a parameter, be it behind pointers. -/
def SourceType.isFilled (f : Filling) : SourceType → Bool
  | .pointer elem => elem.isFilled f
  | .generic base _ => base.isFilled f
  | .ident name => (f.types.lookup name).isSome
  | _ => false

------------------------------------------------------------
-- Scopes
------------------------------------------------------------

namespace SourceScope

mutual

/-
  Types may be put in place of the parameters in a type.  The
  ways agree on what is put; what is put as the element of a
  list is not a byte.
-/
def Admits (x : SourceScope) (f : Filling) : SourceType → Prop
  | .ident name =>
      ∀ a, f.types.lookup name = some a → x.AgreesOn a
  | .slice elem =>
      (∀ name a, elem = .ident name →
        f.types.lookup name = some a → x.isByte a = false)
        ∧ Admits x f elem
  | .pointer elem => Admits x f elem
  | .array _ elem => Admits x f elem
  | .map key value => Admits x f key ∧ Admits x f value
  | .struct fields => AdmitsFields x f fields
  | _ => True

def AdmitsFields (x : SourceScope) (f : Filling) :
    List (SourceField SourceType) → Prop
  | [] => True
  | field :: rest =>
      AdmitsField x f field ∧ AdmitsFields x f rest

/- A parameter is not embedded, as its name is that of the field. -/
def AdmitsField (x : SourceScope) (f : Filling) :
    SourceField SourceType → Prop
  | ⟨names, type, _, _⟩ =>
      (names = [] → type.isFilled f = false) ∧ Admits x f type

end

/-
  Of a declaration at the top of a file: its parameters stand
  for arguments, which are expressions of the types that may
  be put in their place.
-/
structure Stands
    (x : SourceScope)
    (f : Filling)
    (bindings : List (String × Binding)) : Prop where
  free : x.bindings = []
  each : ∀ name,
    f.types.lookup name = none ∧ bindings.lookup name = none
      ∨ ∃ a e, f.types.lookup name = some a
        ∧ bindings.lookup name = some (.argument e)
        ∧ x.resolve? a = some e

/- The scope in which parameters stand for arguments. -/
abbrev bound
    (x : SourceScope)
    (bindings : List (String × Binding)) : SourceScope :=
  { x with bindings }

variable {x : SourceScope}
variable {f : Filling}
variable {bindings : List (String × Binding)}

/- A name stands for what it stands for when it is put. -/
theorem Stands.resolveName?_put
    (h : x.Stands f bindings)
    (name : String) :
    (x.bound bindings).resolveName? name =
      x.resolve? (SourceType.put f (.ident name)) := by
  unfold SourceType.put SourceScope.resolveName?
  rcases h.each name with
    ⟨hPut, hBound⟩ | ⟨a, e, hPut, hBound, hArg⟩
  · rw [hPut, hBound, Option.getD_none, resolve?,
      SourceScope.resolveName?, h.free]
    rfl
  · rw [hPut, hBound, Option.getD_some, hArg]

/- A type is the expression that it is when types are put. -/
theorem Stands.resolve?_put
    (h : x.Stands f bindings) :
    (∀ t, (x.bound bindings).resolve? t = x.resolve? (t.put f))
      ∧ (∀ _ : List (SourceField SourceType), True)
      ∧ (∀ _ : SourceField SourceType, True)
      ∧ ∀ ts, (x.bound bindings).resolveTypes? ts =
        x.resolveTypes? (putAll f ts) := by
  refine SourceType.put.mutual_induct _ (fun _ => True)
    (fun _ => True) _ ?ident ?qualified ?generic ?pointer
    ?slice ?array ?map ?struct ?interface ?union ?tilde
    ?unsupported ?noType ?types ?noField ?fields ?field
  case ident =>
    intro name
    rw [resolve?, h.resolveName?_put]
  case generic =>
    intro base args hBase hArgs
    simp only [SourceType.put, resolve?, hBase, hArgs]
  case pointer | slice =>
    intro elem hElem
    simp only [SourceType.put, resolve?, hElem]
  case array =>
    intro len elem hElem
    cases len with
    | none => rfl
    | some len => simp only [SourceType.put, resolve?, hElem]
  case map =>
    intro key value hKey hValue
    simp only [SourceType.put, resolve?, hKey, hValue]
  case struct =>
    intro fields _
    cases fields <;> rfl
  case interface =>
    intro elems hasMethods _
    cases elems <;> cases hasMethods <;> rfl
  case qualified | union | tilde | unsupported =>
    intros
    rfl
  case noType => rfl
  case types =>
    intro t rest hFirst hRest
    simp only [putAll, resolveTypes?, hFirst, hRest]
  case noField => trivial
  case fields | field =>
    intros
    trivial

/-
  The element of an admitted list is a byte as it stands if
  it is one when types are put.
-/
theorem Stands.isByte_put
    {elem : SourceType}
    (h : x.Stands f bindings)
    (hAdmits : x.Admits f (.slice elem)) :
    (x.bound bindings).isByte elem = x.isByte (elem.put f) := by
  cases elem with
  | ident name =>
      rcases h.each name with
        ⟨hPut, hBound⟩ | ⟨a, e, hPut, hBound, -⟩
      · simp [SourceType.put, isByte, binds, hPut, hBound,
          h.free]
      · have hNone := hAdmits.1 name a rfl hPut
        rw [SourceType.put, hPut, Option.getD_some, hNone]
        simp [isByte, binds, hBound]
  | _ => rfl

------------------------------------------------------------
-- Arguments
------------------------------------------------------------

/-
  A parameter with a type to put and the same parameter with
  the expression of that type.
-/
def Writes
    (x : SourceScope)
    (p : String × SourceType)
    (b : String × Binding) : Prop :=
  p.1 = b.1 ∧ ∃ e, b.2 = .argument e ∧ x.resolve? p.2 = some e

theorem writes_zip
    {written : List SourceType}
    {args : List TypeExpr}
    (params : List String)
    (h : x.resolveTypes? written = some args) :
    List.Forall₂ x.Writes (params.zip written)
      (params.zip (args.map .argument)) := by
  induction written generalizing params args with
  | nil =>
      cases h
      simp
  | cons t rest ih =>
      simp only [resolveTypes?, Option.bind_eq_bind,
        Option.bind_eq_some_iff, Option.some.injEq] at h
      rcases h with ⟨e, hFirst, es, hRest, rfl⟩
      cases params with
      | nil => simp
      | cons p ps =>
          exact .cons ⟨rfl, e, rfl, hFirst⟩ (ih ps hRest)

/- Names are looked up in both lists alike. -/
theorem lookup_of_writes
    {types : List (String × SourceType)}
    (h : List.Forall₂ x.Writes types bindings)
    (name : String) :
    types.lookup name = none ∧ bindings.lookup name = none
      ∨ ∃ a e, types.lookup name = some a
        ∧ bindings.lookup name = some (.argument e)
        ∧ x.resolve? a = some e := by
  induction h with
  | nil => exact .inl ⟨rfl, rfl⟩
  | @cons p b ps bs hFirst _ ih =>
      rcases p with ⟨param, a⟩
      rcases b with ⟨_, _⟩
      rcases hFirst with ⟨rfl, e, rfl, hArg⟩
      simp only [List.lookup_cons]
      cases hSame : name == param with
      | true => exact .inr ⟨a, e, rfl, rfl, hArg⟩
      | false => exact ih

/-
  The parameters of a declaration at the top of a file are
  bound to the arguments of an instance, and types that are
  written there as these arguments fill their places.
-/
structure Instantiates
    (x : SourceScope)
    (params : List String)
    (args : List TypeExpr)
    (f : Filling)
    (bindings : List (String × Binding)) : Prop where
  top : x.bindings = []
  some : args ≠ []
  bound : ModuleView.bindingsOf? params args = .some bindings
  written : ∃ types, x.resolveTypes? types = .some args
    ∧ f.types = (params.zip types).reverse

theorem Instantiates.stands
    {params : List String}
    {args : List TypeExpr}
    (h : x.Instantiates params args f bindings) :
    x.Stands f bindings := by
  rcases h with ⟨hTop, hArgs, hBound, types, hWritten, hTypes⟩
  refine ⟨hTop, lookup_of_writes ?_⟩
  rw [← List.isEmpty_eq_false_iff] at hArgs
  unfold ModuleView.bindingsOf? at hBound
  rw [hArgs] at hBound
  split at hBound
  · contradiction
  · split at hBound
    · cases hBound
      rw [hTypes]
      exact List.rel_reverse (writes_zip params hWritten)
    · cases hBound

end SourceScope

------------------------------------------------------------
-- Embedded Types
------------------------------------------------------------

section

variable {x : SourceScope}
variable {f : Filling}
variable {t : SourceType}

/- A name that is no parameter stays. -/
theorem SourceType.put_ident
    {name : String}
    (h : (f.types.lookup name).isSome = false) :
    SourceType.put f (.ident name) = .ident name := by
  rw [Option.isSome_eq_false_iff, Option.isNone_iff_eq_none] at h
  rw [put, h, Option.getD_none]

theorem embeddedName?_put
    (h : t.isFilled f = false) :
    ModuleView.embeddedName? (t.put f) =
      ModuleView.embeddedName? t := by
  fun_induction SourceType.isFilled f t with
  | case1 elem ih => exact ih h
  | case2 base args ih => exact ih h
  | case3 name => rw [SourceType.put_ident h]
  | case4 t hPointer hGeneric hIdent =>
      cases t with
      | pointer elem => exact (hPointer elem rfl).elim
      | generic base args => exact (hGeneric base args rfl).elim
      | ident name => exact (hIdent name rfl).elim
      | _ => rfl

theorem isStruct_put
    (bindings : List (String × Binding))
    (h : t.isFilled f = false) :
    v.isStruct (x.bound bindings) t =
      v.isStruct x (t.put f) := by
  fun_induction SourceType.isFilled f t with
  | case1 elem ih => exact ih h
  | case2 base args ih => exact ih h
  | case3 name => rw [SourceType.put_ident h]; rfl
  | case4 t hPointer hGeneric hIdent =>
      cases t with
      | pointer elem => exact (hPointer elem rfl).elim
      | generic base args => exact (hGeneric base args rfl).elim
      | ident name => exact (hIdent name rfl).elim
      | _ => rfl

/- An enumeration is one by a name that stays. -/
theorem enumKind?_put
    (h : ∀ name, t = .ident name →
      f.types.lookup name = none) :
    enumKind? (t.put f) = enumKind? t := by
  cases t with
  | ident name =>
      rw [SourceType.put, h name rfl, Option.getD_none]
  | _ => rfl

/- Nor is a struct put in place of such a type. -/
theorem put_ne_struct
    (h : ∀ name, t = .ident name →
      f.types.lookup name = none)
    (hOther : ∀ fields, t ≠ .struct fields)
    (fields : List (SourceField SourceType)) :
    t.put f ≠ .struct fields := by
  cases t with
  | ident name =>
      rw [SourceType.put, h name rfl, Option.getD_none]
      exact nofun
  | struct fields => exact absurd rfl (hOther fields)
  | _ => exact nofun

end

end WireSchema.Source
