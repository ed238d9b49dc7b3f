import WireSchema.Proofs.Source.Keeping

/-
  What a request does not resolve for in a module.

  The namespaces of its scope are loaded before anything is
  asked for, and the first that is no package of the module
  is the one that does not resolve.  Roots are only looked at
  after that, and those that are known need no package.

  Key definitions include:
    * `ModuleView.lacks`
    * `ModuleView.Answers`
-/

namespace WireSchema

open Walk

namespace Source

variable {v : ModuleView}

------------------------------------------------------------
-- Scopes
------------------------------------------------------------

/- A namespace is no package of the module. -/
def ModuleView.lacks (v : ModuleView) (space : String) : Bool :=
  match v.load space with
  | .ok none => true
  | _ => false

/- A package of a scope cannot be read. -/
def ModuleView.Unread
    (v : ModuleView)
    (scope : List String)
    (e : ExtractionFault) : Prop :=
  ∃ space ∈ scope, v.load space = .error e

theorem ModuleView.Unread.resolves
    {scope : List String}
    {e : ExtractionFault}
    (h : v.Unread scope e) : Resolves e := by
  rcases h with ⟨space, -, hLoad⟩
  exact resolves_of_load hLoad

theorem isSome_find?_of_mem_types
    {p : PackageSource}
    {d : TypeSource}
    (hd : d ∈ p.types) : (p.find? d.name).isSome := by
  rcases List.mem_flatMap.mp hd with ⟨file, hFile, hd⟩
  unfold PackageSource.find?
  rw [List.findSome?_isSome_iff]
  refine ⟨file, hFile, ?_⟩
  rw [Option.isSome_map, List.find?_isSome]
  exact ⟨d, hd, beq_self_eq_true d.name⟩

/- A namespace resolves exactly if it is a package. -/
theorem keeps_requireSpace (space : String) :
    Keeps
      (fun e => e = .unresolved space ∧ v.lacks space = true
        ∨ v.load space = .error e)
      v.standard (fun _ => v.lacks space = false)
      (v.requireSpace space) := by
  unfold ModuleView.requireSpace
  apply ((keeps_loaded space).allow fun _ => .inr).bind
  intro found hLoaded
  have hLacks : v.lacks space = found.isNone := by
    unfold ModuleView.lacks
    rw [hLoaded]
    cases found with
    | none => rfl
    | some p => rfl
  rw [hLacks]
  cases found with
  | none => exact keeps_fault (.inl ⟨rfl, rfl⟩)
  | some p =>
      have hEach : ∀ d ∈ p.types,
          Keeps (fun e => v.load space = .error e)
            v.standard (fun _ => True)
            (do
              let i : Instance := { space, name := d.name }
              let _ ← i.enqueue) := by
        intro d hd
        have hFinds : v.Finds space d.name :=
          ⟨p, hLoaded, isSome_find?_of_mem_types hd⟩
        apply (keeps_instance hFinds ?_).map fun _ _ => trivial
        intro hArgs
        exact absurd rfl hArgs
      apply ((keeps_forM fun d hd =>
        hEach d (List.mem_of_mem_filter hd)).allow ?_).imp
      · exact fun _ _ => rfl
      · exact fun _ => .inr

------------------------------------------------------------
-- Roots
------------------------------------------------------------

mutual

/-
  Every name that a root asks for is known or declared in a
  package of the module, and so are those in arguments.
-/
def ModuleView.Answers (v : ModuleView) : TypeExpr → Prop
  | .named space name args =>
      (v.known.find? space name).isSome
        ∨ space.isEmpty = false ∧ v.Finds space name
          ∧ ModuleView.AnswersAll v args
  | .pointer elem => ModuleView.Answers v elem
  | .slice elem => ModuleView.Answers v elem
  | .array _ elem => ModuleView.Answers v elem
  | .map key value =>
      ModuleView.Answers v key ∧ ModuleView.Answers v value
  | .builtin name => (builtinType? name).isSome
  | .param _ => True

def ModuleView.AnswersAll (v : ModuleView) :
    List TypeExpr → Prop
  | [] => True
  | arg :: rest =>
      ModuleView.Answers v arg ∧ ModuleView.AnswersAll v rest

end

/- A root that is checked is declared in its package. -/
theorem keeps_checkRoot (space name text : String) :
    Keeps
      (Blames fun _ => ¬(space.isEmpty = false
        ∧ v.Finds space name))
      v.standard (fun _ => v.Finds space name)
      (v.checkRoot space name text) := by
  unfold ModuleView.checkRoot
  apply keeps_space fun _ => Resolves.blames
  · intro hSpace
    apply keeps_fault
    rintro what - ⟨hSome, -⟩
    rw [hSpace] at hSome
    cases hSome
  · intro _ package hLoaded
    split
    · next hFound =>
        cases package with
        | none => cases hFound
        | some p => exact keeps_pure ⟨p, hLoaded, hFound⟩
    · next hNone =>
        apply keeps_fault
        rintro what - ⟨-, p, hLoaded', hFound⟩
        rw [hLoaded] at hLoaded'
        cases hLoaded'
        exact hNone hFound

/- A root that is answered does not fail to resolve. -/
theorem keeps_require :
    (∀ t,
      Keeps (Blames fun _ => ¬v.Answers t) v.standard
        (fun _ => True) (v.require t))
      ∧ ∀ args,
        Keeps (Blames fun _ => ¬v.AnswersAll args) v.standard
          (fun _ => True) (v.requireArgs args) := by
  refine ModuleView.require.mutual_induct v _ _
    ?known ?named ?pointer ?slice ?array ?map ?builtin ?other
    ?param ?noArg ?arg
  case known =>
    intro space name args hKnown
    unfold ModuleView.require
    rw [if_pos hKnown]
    exact keeps_return _
  case named =>
    intro space name args hUnknown hArgs
    unfold ModuleView.require ModuleView.Answers
    rw [if_neg hUnknown, or_iff_right hUnknown]
    have hRoot := keeps_checkRoot (v := v) space name
      (TypeExpr.named space name args).text
    apply (hRoot.blames_imp ?_).bind
    · intro _ hFinds
      apply (hArgs.blames_imp ?_).bind
      · intro _ _
        apply (keeps_instance hFinds ?_).map fun _ _ => trivial
        intro _ id first second
        exact (resolves_nameClash id first second).blames
      · rintro what hNot ⟨-, -, hAll⟩
        exact hNot hAll
    · rintro what hNot ⟨hSpace, hFinds, -⟩
      exact hNot ⟨hSpace, hFinds⟩
  case pointer | slice =>
    intro elem hElem
    unfold ModuleView.require ModuleView.Answers
    exact hElem
  case array =>
    intro len elem hElem
    unfold ModuleView.require ModuleView.Answers
    exact hElem
  case map =>
    intro key value hKey hValue
    unfold ModuleView.require ModuleView.Answers
    apply (hKey.blames_imp fun _ => mt And.left).bind
    intro _ _
    exact hValue.blames_imp fun _ => mt And.right
  case builtin =>
    intro name hName
    unfold ModuleView.require
    rw [if_pos hName]
    exact keeps_return _
  case other =>
    intro name hName
    unfold ModuleView.require ModuleView.Answers
    rw [if_neg hName]
    exact keeps_fault fun _ _ => hName
  case param =>
    intro name
    unfold ModuleView.require
    exact keeps_return _
  case noArg =>
    unfold ModuleView.requireArgs
    exact keeps_return _
  case arg =>
    intro arg rest hArg hRest
    unfold ModuleView.requireArgs ModuleView.AnswersAll
    apply (hArg.blames_imp fun _ => mt And.left).bind
    intro _ _
    exact hRest.blames_imp fun _ => mt And.right

------------------------------------------------------------
-- Walks
------------------------------------------------------------

variable {depth count : Nat}
variable {r : ExtractionRequest}

/- At the start nothing is remembered. -/
theorem remembers_nil : v.standard.memory [] := by
  intro path found hLookup
  cases hLookup

/- The scope of a request, with the first that is lacking. -/
theorem keeps_spaces :
    Keeps
      (fun e =>
        (∃ what, e = .unresolved what
          ∧ r.scope.find? v.lacks = some what)
          ∨ v.Unread r.scope e)
      v.standard (fun _ => r.scope.find? v.lacks = none)
      (r.scope.forM v.requireSpace) := by
  apply keeps_scope
  intro space hSpace
  apply (keeps_requireSpace space).allow
  intro e hFault
  exact hFault.imp_right fun hLoad => ⟨space, hSpace, hLoad⟩

/-
  What is missing is in the scope, asked for by a root, or
  the fit of the arguments of an instance.
-/
theorem keeps_walk
    {Missing : String → Prop}
    (hScope : ∀ what, r.scope.find? v.lacks = some what →
      Missing what)
    (hRoots : ∀ t ∈ r.roots, ¬v.Answers t →
      ∀ what, Missing what)
    (hMisfit : ∀ what, v.Misfit what → Missing what) :
    Keeps (Blames Missing) v.standard (fun _ => True)
      (v.walk depth count r) := by
  have hEach : ∀ t ∈ r.roots,
      Keeps (Blames Missing) v.standard (fun _ => True)
        (v.require t) := by
    intro t ht
    apply (keeps_require.1 t).blames_imp
    intro what hNot
    exact hRoots t ht hNot what
  have hDrain : Keeps (Blames Missing) v.standard (fun _ => True)
      (drain (v.declareInstance depth) count) := by
    apply keeps_drain resolves_unfinished.blames
    · intro i hFound
      exact (keeps_declareInstance hFound).blames_imp hMisfit
  unfold ModuleView.walk
  apply (keeps_spaces.allow ?_).bind
  · intro _ _
    exact (keeps_forM hEach).bind fun _ _ => hDrain
  · rintro e (⟨what, rfl, hFirst⟩ | hUnread)
    · rintro _ ⟨⟩
      exact hScope what hFirst
    · exact hUnread.resolves.blames

end Source

------------------------------------------------------------
-- Extractions
------------------------------------------------------------

namespace FileTree

open Source

variable {t : FileTree}
variable {read : SourceReader}
variable {root : String}
variable {known : WellKnown}
variable {module : ModuleSource}
variable {depth count : Nat}
variable {r : ExtractionRequest}
variable {what : String}

/-
  If all roots are answered, the first namespace of the scope
  that is lacking fails to resolve, or else arguments do not
  fit.
-/
theorem find?_lacks_of_extractWithin
    (hOpen : ModuleSource.open? t root = .ok module)
    (hAnswers : ∀ x ∈ r.roots,
      ModuleView.Answers { read, tree := t, module, known } x)
    (hError : t.extractWithin read root known depth count r =
      .error (.unresolved what)) :
    r.scope.find?
        (ModuleView.lacks { read, tree := t, module, known }) =
          some what
      ∨ ModuleView.Misfit { read, tree := t, module, known } what := by
  let v : ModuleView := { read, tree := t, module, known }
  have hKeeps : Keeps
      (Blames fun what =>
        r.scope.find? v.lacks = some what ∨ v.Misfit what)
      v.standard (fun _ => True) (v.walk depth count r) :=
    keeps_walk (fun _ => .inl)
      (fun x hx hNot => absurd (hAnswers x hx) hNot)
      (fun _ => .inr)
  rcases eq_error_of_bind hError with hCheck | ⟨_, hCheck, -⟩
  · exact absurd rfl (resolves_of_check hCheck what)
  · rw [extractWithin_eq_finish hOpen hCheck] at hError
    exact hKeeps.of_finish_eq_error remembers_nil hError what rfl

/- It does, unless a package of the scope cannot be read. -/
theorem extractWithin_of_find?_lacks
    (hOpen : ModuleSource.open? t root = .ok module)
    (hFirst : r.scope.find?
      (ModuleView.lacks { read, tree := t, module, known }) =
        some what) :
    ∃ e, t.extractWithin read root known depth count r = .error e
      ∧ (e = .unresolved what
        ∨ ModuleView.Unread { read, tree := t, module, known }
          r.scope e) := by
  let v : ModuleView := { read, tree := t, module, known }
  have hKeeps : Keeps
      (fun e => e = .unresolved what ∨ v.Unread r.scope e)
      v.standard (fun _ => False) (v.walk depth count r) := by
    unfold ModuleView.walk
    apply (keeps_spaces.allow ?_).bind
    · intro _ hNone
      rw [hFirst] at hNone
      cases hNone
    · rintro e (⟨what', hError, hFirst'⟩ | hUnread)
      · rw [hFirst] at hFirst'
        cases hFirst'
        exact .inl hError
      · exact .inr hUnread
  rw [extractWithin_eq_finish hOpen
    (check_of_mem_scope (List.mem_of_find?_eq_some hFirst))]
  exact hKeeps.exists_fault remembers_nil

/- All that is extracted is outlined by the sources. -/
theorem outlined_of_extractWithin
    {s : Schema}
    (hOpen : ModuleSource.open? t root = .ok module)
    (hOk :
      t.extractWithin read root known depth count r = .ok s) :
    ∀ x ∈ s.types,
      ModuleView.Outlined { read, tree := t, module, known } x := by
  let v : ModuleView := { read, tree := t, module, known }
  have hKeeps : Keeps (Blames fun _ => True) v.standard
      (fun _ => True) (v.walk depth count r) :=
    keeps_walk (fun _ _ => trivial) (fun _ _ _ _ => trivial)
      (fun _ _ => trivial)
  rcases eq_ok_of_bind hOk with ⟨_, hCheck, -⟩
  rw [extractWithin_eq_finish hOpen hCheck] at hOk
  exact (hKeeps.of_finish_eq_ok remembers_nil hOk).1

end FileTree

end WireSchema
