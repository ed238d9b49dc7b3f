import WireSchema.Proofs.Extraction.Invariant
import WireSchema.TypeExpr.Reader

/-
  Names in type expressions.

  A simple name is not qualified and no word of the notation.
  A namespace is a path, or empty.

  The type of an expression refers to one name for each named
  type in it that is not well-known.  The arguments of a named
  type are part of its name.

  Key definitions include:
    * `isSimpleName`, `isImportPath`
    * `TypeExpr.isWellNamed`
    * `TypeExpr.surface`, `TypeExpr.declaredName?`
    * `TypeExpr.wireType_shape`
-/

namespace WireSchema

------------------------------------------------------------
-- Characters
------------------------------------------------------------

/- The characters of the notation around names. -/
def isMark (c : Char) : Bool :=
  Text.isBlank c || c == '[' || c == ']' || c == ',' || c == '*'
    || c == '{' || c == '}'

/- The characters of simple names. -/
def isNameChar (c : Char) : Bool :=
  !isMark c && c != '.' && c != '/'

theorem isMark_of_isNameChar
    {c : Char}
    (h : isNameChar c = true) : isMark c = false := by
  unfold isNameChar at h
  simp only [Bool.and_eq_true, Bool.not_eq_true'] at h
  exact h.1.1

/- A name does not end within itself. -/
theorem endsName_of_not_isMark
    {c : Char}
    (h : isMark c = false) : TypeExpr.endsName c = false := by
  unfold isMark at h
  unfold TypeExpr.endsName
  simp only [Bool.or_eq_false_iff] at h ⊢
  refine ⟨⟨⟨h.1.1.1.1.1.2, h.1.1.1.1.2⟩, h.1.1.1.2⟩, ?_⟩
  cases hSpace : c == ' ' with
  | false => rfl
  | true =>
      rw [beq_iff_eq] at hSpace
      subst hSpace
      exact absurd h.1.1.1.1.1.1 (by decide)

theorem isBlank_of_not_isMark
    {c : Char}
    (h : isMark c = false) : Text.isBlank c = false := by
  unfold isMark at h
  simp only [Bool.or_eq_false_iff] at h
  exact h.1.1.1.1.1.1

------------------------------------------------------------
-- Names
------------------------------------------------------------

/- An unqualified name. -/
def isSimpleName (name : String) : Bool :=
  !name.isEmpty && name != "map" && name.toList.all isNameChar

/- The path of a package; the empty one is no path. -/
def isImportPath (space : String) : Bool :=
  space.toList.all fun c => !isMark c

/- The predeclared types that are written with braces. -/
def isBracedName (name : String) : Bool :=
  name == "interface\x7b\x7d" || name == "struct\x7b\x7d"

------------------------------------------------------------
-- Expressions
------------------------------------------------------------

namespace TypeExpr

mutual

/-
  Whether all names in an expression are simple ones, in
  namespaces that are paths, and all lengths fit a word.
-/
def isWellNamed : TypeExpr → Bool
  | .named space name args =>
      isImportPath space && isSimpleName name
        && areWellNamed args
  | .pointer elem => isWellNamed elem
  | .slice elem => isWellNamed elem
  | .array len elem => decide (len ≤ maxWord) && isWellNamed elem
  | .map key value => isWellNamed key && isWellNamed value
  | .builtin name => isSimpleName name || isBracedName name
  | .param name => isSimpleName name

def areWellNamed : List TypeExpr → Bool
  | [] => true
  | arg :: rest => isWellNamed arg && areWellNamed rest

end

------------------------------------------------------------
-- References
------------------------------------------------------------

variable {known : WellKnown}

/- Predeclared types refer to no name. -/
theorem references_builtinType (name : String) :
    ((builtinType? name).getD .any).references = [] := by
  have hOver :
      ((builtinType? name).getD .any).IsPlainOver [] :=
    WireType.isPlainOver_builtin name
  exact List.subset_nil.mp hOver.within

@[simp] theorem references_wireType_builtin (name : String) :
    ((builtin name).wireType known).references = [] := by
  unfold wireType
  exact references_builtinType name

@[simp] theorem references_wireType_param (name : String) :
    ((param name).wireType known).references = [] := by
  simp [wireType, WireType.boundReferences]

theorem references_wireType_known
    {space name : String}
    (args : List TypeExpr)
    (hKnown : (known.find? space name).isSome = true) :
    ((named space name args).wireType known).references =
      [] := by
  rcases Option.isSome_iff_exists.mp hKnown with ⟨t, ht⟩
  have hOver : t.IsPlainOver [] :=
    WireType.isPlainOver_of_find? ht
  unfold wireType
  rw [ht]
  exact List.subset_nil.mp hOver.within

theorem references_wireType_named
    {space name : String}
    (args : List TypeExpr)
    (hUnknown : ¬(known.find? space name).isSome = true) :
    ((named space name args).wireType known).references =
      [instanceName space name args] := by
  have hNone : known.find? space name = none := by
    simpa using hUnknown
  unfold wireType
  rw [hNone]
  exact WireType.references_reference _

@[simp] theorem references_wireType_pointer (e : TypeExpr) :
    ((pointer e).wireType known).references =
      (e.wireType known).references := by
  simp [wireType]

@[simp] theorem references_wireType_slice (e : TypeExpr) :
    ((slice e).wireType known).references =
      (e.wireType known).references := by
  cases e with
  | builtin name =>
      rw [references_wireType_builtin]
      unfold wireType
      split
      · simp
      · simp
  | _ =>
      rw [wireType_slice (by simp)]
      simp

@[simp] theorem references_wireType_array
    (len : Nat)
    (e : TypeExpr) :
    ((array len e).wireType known).references =
      (e.wireType known).references := by
  simp [wireType]

@[simp] theorem references_wireType_map
    (key value : TypeExpr) :
    ((map key value).wireType known).references =
      (key.wireType known).references
        ++ (value.wireType known).references := by
  simp [wireType]

/-
  The named types that stand in no other named type, from
  left to right.
-/
def surface : TypeExpr → List TypeExpr
  | .named space name args => [.named space name args]
  | .pointer elem => surface elem
  | .slice elem => surface elem
  | .array _ elem => surface elem
  | .map key value => surface key ++ surface value
  | .builtin _ => []
  | .param _ => []

/- The name of a named type, unless it is well-known. -/
def declaredName?
    (known : WellKnown) : TypeExpr → Option TypeName
  | .named space name args =>
      if (known.find? space name).isSome then none
      else some (instanceName space name args)
  | _ => none

/- Types refer to what stands at the surface, in its order. -/
theorem references_wireType (e : TypeExpr) :
    (e.wireType known).references =
      e.surface.filterMap (declaredName? known) := by
  fun_induction surface e with
  | case1 space name args =>
      by_cases hKnown : (known.find? space name).isSome = true
      · rw [references_wireType_known args hKnown]
        simp [declaredName?, hKnown]
      · rw [references_wireType_named args hKnown]
        simp [declaredName?, hKnown]
  | case2 elem ih => rw [references_wireType_pointer, ih]
  | case3 elem ih => rw [references_wireType_slice, ih]
  | case4 len elem ih => rw [references_wireType_array, ih]
  | case5 key value ihKey ihValue =>
      rw [references_wireType_map, ihKey, ihValue,
        List.filterMap_append]
  | case6 name => simp
  | case7 name => simp

------------------------------------------------------------
-- Plain Types
------------------------------------------------------------

/- No declaration and no union stands in the type of a route. -/
theorem isPlain_wireType (x : TypeExpr) :
    (x.wireType known).IsPlain := by
  have hBuiltin : ∀ name : String,
      ((builtinType? name).getD .any).IsPlain := by
    intro name
    have hOver : ((builtinType? name).getD .any).IsPlainOver [] :=
      WireType.isPlainOver_builtin name
    exact hOver.plain
  fun_induction wireType known x with
  | case1 space name args t hFound =>
      have hOver : t.IsPlainOver [] :=
        WireType.isPlainOver_of_find? hFound
      exact hOver.plain
  | case2 => exact WireType.isPlain_reference _
  | case3 elem ih =>
      exact ((WireType.isPlain_pointer _).mpr ih).collapse
  | case4 => exact WireType.isPlain_base .bytes 0
  | case5 name _ ih => exact (WireType.isPlain_array _ _).mpr ih
  | case6 elem _ ih => exact (WireType.isPlain_array _ _).mpr ih
  | case7 len elem ih => exact (WireType.isPlain_array _ _).mpr ih
  | case8 key value ihKey ihValue =>
      exact (WireType.isPlain_map _ _).mpr ⟨ihKey, ihValue⟩
  | case9 name => exact hBuiltin name
  | case10 name => exact WireType.isPlain_param_free name

------------------------------------------------------------
-- Tight Types
------------------------------------------------------------

theorem isTight_builtinType (name : String) :
    ((builtinType? name).getD .any).IsTight := by
  cases hFound : builtinType? name with
  | none => exact WireType.isTight_base .any 0
  | some t =>
      unfold builtinType? at hFound
      rcases Option.map_eq_some_iff.mp hFound with ⟨p, -, rfl⟩
      exact WireType.isTight_base p.1 p.2

theorem isTight_of_find?
    {space name : String}
    {t : WireType}
    (h : known.find? space name = some t) : t.IsTight := by
  unfold WellKnown.find? at h
  rcases Option.map_eq_some_iff.mp h with ⟨kind, -, rfl⟩
  exact WireType.isTight_base kind _

/-
  Every pointer is collapsed over a type that is tight
  already, so one in front of another meets what is left of
  that one.
-/
theorem isTight_wireType (e : TypeExpr) :
    (e.wireType known).IsTight := by
  fun_induction wireType known e with
  | case1 space name args t hFound =>
      exact isTight_of_find? hFound
  | case2 => exact WireType.isTight_reference _
  | case3 elem ih =>
      exact (WireType.isTight_collapse_pointer _).mpr ih
  | case4 => exact WireType.isTight_base .bytes 0
  | case5 name _ ih => exact (WireType.isTight_array _ _).mpr ih
  | case6 elem _ ih => exact (WireType.isTight_array _ _).mpr ih
  | case7 len elem ih => exact (WireType.isTight_array _ _).mpr ih
  | case8 key value ihKey ihValue =>
      exact (WireType.isTight_map _ _).mpr ⟨ihKey, ihValue⟩
  | case9 name => exact isTight_builtinType name
  | case10 name => exact WireType.isTight_param name

/-
  The type of a route has no pointer to a list, a map or bytes
  at any depth, no union and no declaration.  Of the named
  types at the surface of the expression it refers to those
  that are not well-known, in their order, and to nothing
  else: not to what stands in their arguments.
-/
theorem wireType_shape (known : WellKnown) (e : TypeExpr) :
    (e.wireType known).IsTight
      ∧ (e.wireType known).IsPlain
      ∧ (e.wireType known).references =
        e.surface.filterMap (declaredName? known) :=
  ⟨isTight_wireType e, isPlain_wireType e,
    references_wireType e⟩

end TypeExpr

end WireSchema
