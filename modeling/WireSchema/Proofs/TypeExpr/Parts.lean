import Mathlib.Data.Finite.Prod
import WireSchema.TypeExpr.Basic

/-
  The parts of a type expression, and expressions put in place
  of its parameters.

  A part of what becomes of an expression is what becomes of
  one of its parts, or else a part of what is put.  From
  finitely many expressions to put, finitely many are made.

  Key definitions include:
    * `TypeExpr.parts`
    * `TypeExpr.put`
    * `TypeExpr.fillings`
-/

namespace WireSchema.TypeExpr

------------------------------------------------------------
-- Parts
------------------------------------------------------------

mutual

/- All parts of an expression, and the expression itself. -/
def parts : TypeExpr → List TypeExpr
  | .named space name args =>
      .named space name args :: argParts args
  | .pointer elem => .pointer elem :: parts elem
  | .slice elem => .slice elem :: parts elem
  | .array len elem => .array len elem :: parts elem
  | .map key value => .map key value :: (parts key ++ parts value)
  | .builtin name => [.builtin name]
  | .param name => [.param name]

def argParts : List TypeExpr → List TypeExpr
  | [] => []
  | arg :: rest => parts arg ++ argParts rest

end

variable {e w : TypeExpr}
variable {args : List TypeExpr}

theorem mem_parts_self (e : TypeExpr) : e ∈ e.parts := by
  cases e with
  | _ => exact List.mem_cons_self

theorem mem_argParts_iff :
    w ∈ argParts args ↔ ∃ arg ∈ args, w ∈ arg.parts := by
  induction args with
  | nil => simp [argParts]
  | cons arg rest ih =>
      rw [argParts, List.mem_append, ih,
        List.exists_mem_cons_iff]

/- A part of a part is a part. -/
theorem parts_subset :
    (∀ e w, w ∈ parts e → w.parts ⊆ e.parts)
      ∧ ∀ args w, w ∈ argParts args →
        w.parts ⊆ argParts args := by
  -- the expression itself apart, a part is one of a component
  have hWhole : ∀ {e w : TypeExpr} {inner : List TypeExpr},
      e.parts = e :: inner →
      (w ∈ inner → w.parts ⊆ inner) →
      w ∈ e.parts → w.parts ⊆ e.parts := by
    intro e w inner hParts hInner hw
    rw [hParts, List.mem_cons] at hw
    rcases hw with rfl | hw
    · exact List.Subset.refl _
    · rw [hParts]
      exact List.subset_cons_of_subset _ (hInner hw)
  refine parts.mutual_induct _ _ ?named ?pointer ?slice ?array
    ?map ?builtin ?param ?noArg ?arg
  case named =>
    intro space name args hArgs w
    exact hWhole (by rw [parts]) (hArgs w)
  case pointer | slice =>
    intro elem hElem w
    exact hWhole (by rw [parts]) (hElem w)
  case array =>
    intro len elem hElem w
    exact hWhole (by rw [parts]) (hElem w)
  case map =>
    intro key value hKey hValue w
    refine hWhole (by rw [parts]) ?_
    intro hw
    rcases List.mem_append.mp hw with hw | hw
    · exact List.subset_append_of_subset_left _ (hKey w hw)
    · exact List.subset_append_of_subset_right _ (hValue w hw)
  case builtin | param =>
    intro name w
    exact hWhole (by rw [parts]) (absurd · List.not_mem_nil)
  case noArg => exact fun _ => nofun
  case arg =>
    intro arg rest hArg hRest w hw
    rw [argParts] at hw ⊢
    rcases List.mem_append.mp hw with hw | hw
    · exact List.subset_append_of_subset_left _ (hArg w hw)
    · exact List.subset_append_of_subset_right _ (hRest w hw)

theorem mem_parts_trans
    {u : TypeExpr}
    (hu : u ∈ w.parts)
    (hw : w ∈ e.parts) : u ∈ e.parts :=
  parts_subset.1 e w hw hu

/- The arguments of a part are parts. -/
theorem arg_mem_parts
    {space name : String}
    {arg : TypeExpr}
    {index : Nat}
    (hPart : named space name args ∈ e.parts)
    (hArg : args[index]? = some arg) : arg ∈ e.parts := by
  apply mem_parts_trans _ hPart
  rw [parts]
  exact List.mem_cons_of_mem _ (mem_argParts_iff.mpr
    ⟨arg, List.mem_of_getElem? hArg, mem_parts_self arg⟩)

------------------------------------------------------------
-- Substitution
------------------------------------------------------------

mutual

/- An expression with expressions in place of parameters. -/
def put (σ : String → TypeExpr) : TypeExpr → TypeExpr
  | .named space name args => .named space name (putArgs σ args)
  | .pointer elem => .pointer (put σ elem)
  | .slice elem => .slice (put σ elem)
  | .array len elem => .array len (put σ elem)
  | .map key value => .map (put σ key) (put σ value)
  | .builtin name => .builtin name
  | .param name => σ name

def putArgs (σ : String → TypeExpr) :
    List TypeExpr → List TypeExpr
  | [] => []
  | arg :: rest => put σ arg :: putArgs σ rest

end

variable {σ : String → TypeExpr}

theorem putArgs_eq_map (args : List TypeExpr) :
    putArgs σ args = args.map (put σ) := by
  induction args with
  | nil => rfl
  | cons arg rest ih => rw [putArgs, ih, List.map_cons]

/- Nothing becomes of parameters that stand for themselves. -/
theorem put_eq_self :
    (∀ e, (∀ name, param name ∈ parts e → σ name = .param name) →
      put σ e = e)
      ∧ ∀ args,
        (∀ name, param name ∈ argParts args →
          σ name = .param name) →
        putArgs σ args = args := by
  refine parts.mutual_induct _ _ ?named ?pointer ?slice ?array
    ?map ?builtin ?param ?noArg ?arg
  case named =>
    intro space name args hArgs h
    rw [put, hArgs fun p hp => h p (List.mem_cons_of_mem _ hp)]
  case pointer | slice =>
    intro elem hElem h
    rw [put, hElem fun p hp => h p (List.mem_cons_of_mem _ hp)]
  case array =>
    intro len elem hElem h
    rw [put, hElem fun p hp => h p (List.mem_cons_of_mem _ hp)]
  case map =>
    intro key value hKey hValue h
    simp only [parts, List.mem_cons, List.mem_append] at h
    rw [put, hKey fun p hp => h p (.inr (.inl hp)),
      hValue fun p hp => h p (.inr (.inr hp))]
  case builtin =>
    intro name _
    rfl
  case param =>
    intro name h
    exact h name List.mem_cons_self
  case noArg =>
    intro _
    rfl
  case arg =>
    intro arg rest hArg hRest h
    simp only [argParts, List.mem_append] at h
    rw [putArgs, hArg fun p hp => h p (.inl hp),
      hRest fun p hp => h p (.inr hp)]

/-
  A part of what becomes of an expression is what becomes of a
  part that is no parameter, or it is a part of what is put.
-/
def IsPartOfPut
    (σ : String → TypeExpr)
    (es : List TypeExpr)
    (w : TypeExpr) : Prop :=
  (∃ u ∈ es, (∀ name, u ≠ .param name) ∧ w = u.put σ)
    ∨ ∃ name, param name ∈ es ∧ w ∈ (σ name).parts

theorem IsPartOfPut.mono
    {es more : List TypeExpr}
    (h : IsPartOfPut σ es w)
    (hMore : es ⊆ more) : IsPartOfPut σ more w := by
  rcases h with ⟨u, hu, hOther, hw⟩ | ⟨name, hName, hw⟩
  · exact .inl ⟨u, hMore hu, hOther, hw⟩
  · exact .inr ⟨name, hMore hName, hw⟩

theorem isPartOfPut_of_mem :
    (∀ e w, w ∈ (put σ e).parts → IsPartOfPut σ e.parts w)
      ∧ ∀ args w, w ∈ argParts (putArgs σ args) →
        IsPartOfPut σ (argParts args) w := by
  -- what becomes of the expression itself, or else of a component
  have hWhole : ∀ {e w : TypeExpr} {inner made : List TypeExpr},
      (∀ name, e ≠ .param name) →
      e.parts = e :: inner →
      (put σ e).parts = put σ e :: made →
      (w ∈ made → IsPartOfPut σ inner w) →
      w ∈ (put σ e).parts → IsPartOfPut σ e.parts w := by
    intro e w inner made hOther hParts hMade hInner hw
    rw [hMade, List.mem_cons] at hw
    rcases hw with rfl | hw
    · exact .inl ⟨e, mem_parts_self e, hOther, rfl⟩
    · rw [hParts]
      exact (hInner hw).mono (List.subset_cons_self _ _)
  refine parts.mutual_induct _ _ ?named ?pointer ?slice ?array
    ?map ?builtin ?param ?noArg ?arg
  case named =>
    intro space name args hArgs w
    exact hWhole nofun (by rw [parts]) (by rw [put, parts])
      (hArgs w)
  case pointer | slice =>
    intro elem hElem w
    exact hWhole nofun (by rw [parts]) (by rw [put, parts])
      (hElem w)
  case array =>
    intro len elem hElem w
    exact hWhole nofun (by rw [parts]) (by rw [put, parts])
      (hElem w)
  case map =>
    intro key value hKey hValue w
    refine hWhole nofun (by rw [parts]) (by rw [put, parts]) ?_
    intro hw
    rcases List.mem_append.mp hw with hw | hw
    · exact (hKey w hw).mono (List.subset_append_left _ _)
    · exact (hValue w hw).mono (List.subset_append_right _ _)
  case builtin =>
    intro name w
    exact hWhole nofun (by rw [parts]) (by rw [put, parts])
      (absurd · List.not_mem_nil)
  case param =>
    intro name w hw
    exact .inr ⟨name, List.mem_cons_self, hw⟩
  case noArg => exact fun _ => nofun
  case arg =>
    intro arg rest hArg hRest w hw
    rw [putArgs, argParts, List.mem_append] at hw
    rw [argParts]
    rcases hw with hw | hw
    · exact (hArg w hw).mono (List.subset_append_left _ _)
    · exact (hRest w hw).mono (List.subset_append_right _ _)

------------------------------------------------------------
-- Fillings
------------------------------------------------------------

/- What becomes of an expression with members of a set put. -/
def fillings (S : Set TypeExpr) (e : TypeExpr) : Set TypeExpr :=
  { w | ∃ σ, (∀ name, param name ∈ e.parts → σ name ∈ S)
    ∧ w = e.put σ }

def argFillings
    (S : Set TypeExpr)
    (args : List TypeExpr) : Set (List TypeExpr) :=
  { ws | ∃ σ, (∀ name, param name ∈ argParts args → σ name ∈ S)
    ∧ ws = putArgs σ args }

variable {S : Set TypeExpr}

/- There are finitely many if there is a finite choice. -/
theorem finite_fillings (hS : S.Finite) :
    (∀ e, (fillings S e).Finite)
      ∧ ∀ args, (argFillings S args).Finite := by
  have hContainer : ∀ (f : TypeExpr → TypeExpr) (elem : TypeExpr),
      (fillings S elem).Finite →
      (∀ σ, put σ (f elem) = f (put σ elem)) →
      (f elem).parts = f elem :: elem.parts →
      (fillings S (f elem)).Finite := by
    intro f elem hElem hPut hParts
    apply (hElem.image f).subset
    rintro w ⟨σ, hσ, rfl⟩
    rw [hParts] at hσ
    refine ⟨put σ elem, ⟨σ, ?_, rfl⟩, (hPut σ).symm⟩
    intro p hp
    exact hσ p (List.mem_cons_of_mem _ hp)
  refine parts.mutual_induct _ _ ?named ?pointer ?slice ?array
    ?map ?builtin ?param ?noArg ?arg
  case named =>
    intro space name args hArgs
    apply (hArgs.image (named space name)).subset
    rintro w ⟨σ, hσ, rfl⟩
    refine ⟨putArgs σ args, ⟨σ, ?_, rfl⟩, by rw [put]⟩
    intro p hp
    exact hσ p (List.mem_cons_of_mem _ hp)
  case pointer =>
    intro elem hElem
    exact hContainer pointer elem hElem (fun _ => by rw [put])
      (by rw [parts])
  case slice =>
    intro elem hElem
    exact hContainer slice elem hElem (fun _ => by rw [put])
      (by rw [parts])
  case array =>
    intro len elem hElem
    exact hContainer (array len) elem hElem
      (fun _ => by rw [put]) (by rw [parts])
  case map =>
    intro key value hKey hValue
    apply (hKey.image2 map hValue).subset
    rintro w ⟨σ, hσ, rfl⟩
    simp only [parts, List.mem_cons, List.mem_append] at hσ
    refine ⟨put σ key, ⟨σ, fun p hp => ?_, rfl⟩,
      put σ value, ⟨σ, fun p hp => ?_, rfl⟩, by rw [put]⟩
    · exact hσ p (.inr (.inl hp))
    · exact hσ p (.inr (.inr hp))
  case builtin =>
    intro name
    apply (Set.finite_singleton (builtin name)).subset
    rintro w ⟨σ, -, rfl⟩
    rw [put]
    exact Set.mem_singleton _
  case param =>
    intro name
    apply hS.subset
    rintro w ⟨σ, hσ, rfl⟩
    rw [put]
    exact hσ name (mem_parts_self _)
  case noArg =>
    apply (Set.finite_singleton ([] : List TypeExpr)).subset
    rintro w ⟨σ, -, rfl⟩
    exact Set.mem_singleton _
  case arg =>
    intro arg rest hArg hRest
    apply (hArg.image2 List.cons hRest).subset
    rintro w ⟨σ, hσ, rfl⟩
    simp only [argParts, List.mem_append] at hσ
    refine ⟨put σ arg, ⟨σ, fun p hp => ?_, rfl⟩,
      putArgs σ rest, ⟨σ, fun p hp => ?_, rfl⟩, by rw [putArgs]⟩
    · exact hσ p (.inl hp)
    · exact hσ p (.inr hp)

end WireSchema.TypeExpr
