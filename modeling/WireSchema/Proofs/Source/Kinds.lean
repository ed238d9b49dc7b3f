import WireSchema.Proofs.Source.Flow
import WireSchema.Proofs.Source.Lower

/-
  Kinds of steps that lowering is made of.

  If a kind of steps goes with results, with sequences and
  with all that a walk does to its state but to put items in
  the queue, then it goes with lowering: a type is lowered by
  a step of the kind if the expressions of its names are, and
  an expression is if its instances are asked for by one.

  Key definitions include:
    * `IsKind`
    * `IsKind.expr`, `IsKind.types`, `IsKind.decl`
-/

namespace WireSchema.Source

open Walk

/- Steps of a kind, whatever names they take. -/
structure IsKind
    (v : ModuleView)
    (P : (α : Type) → ModuleStep α → Prop) : Prop where
  pure : ∀ {α : Type} (a : α), P α (pure a)
  bind :
    ∀ {α β : Type} {m : ModuleStep α} {f : α → ModuleStep β},
      P α m → (∀ a, P β (f a)) → P β (m >>= f)
  note : ∀ w, P Unit (note w)
  declare : ∀ t, P Unit (declare t)
  takeName : ∀ id, P Bool (takeName id)
  package : ∀ path, P (Option PackageSource) (v.package? path)

namespace IsKind

variable {v : ModuleView}
variable {P : (α : Type) → ModuleStep α → Prop}
variable {α β : Type}

theorem map
    (h : IsKind v P)
    {m : ModuleStep α}
    {f : α → β}
    (hm : P α m) : P β (do let a ← m; Pure.pure (f a)) :=
  h.bind hm fun a => h.pure (f a)

theorem mapM
    (h : IsKind v P)
    {f : α → ModuleStep β}
    {xs : List α}
    (hf : ∀ a ∈ xs, P β (f a)) : P (List β) (xs.mapM f) := by
  induction xs with
  | nil =>
      rw [List.mapM_nil]
      exact h.pure []
  | cons a rest ih =>
      rw [List.forall_mem_cons] at hf
      rw [List.mapM_cons]
      exact h.bind hf.1 fun _ => h.map (ih hf.2)

/- A warning in front of a step. -/
theorem noted
    (h : IsKind v P)
    {m : ModuleStep α}
    (w : Warning)
    (hm : P α m) : P α (do Walk.note w; m) :=
  h.bind (h.note w) fun _ => hm

/- The package of a namespace, unless that is empty. -/
theorem space
    (h : IsKind v P)
    {f : Option PackageSource → ModuleStep α}
    (space : String)
    (hf : ∀ package, P α (f package)) :
    P α
      (do
        let package ←
          if space.isEmpty then Pure.pure none
          else v.package? space
        f package) := by
  by_cases hSpace : space.isEmpty = true
  · rw [if_pos hSpace]
    exact h.bind (h.pure none) hf
  · rw [if_neg hSpace]
    exact h.bind (h.package space) hf

------------------------------------------------------------
-- Type Expressions
------------------------------------------------------------

/- An instance is asked for with its arguments or without. -/
def Asks
    (P : (α : Type) → ModuleStep α → Prop)
    (space name : String)
    (args : List TypeExpr) : Prop :=
  ∀ given, given = args ∨ given = [] →
    P TypeName (Instance.enqueue { space, name, args := given })

theorem declared
    (h : IsKind v P)
    {space name : String}
    {args : List TypeExpr}
    (place : SourcePlace)
    (package : Option PackageSource)
    (hAsks : Asks P space name args) :
    P WireType
      (ModuleView.lowerDeclared place space name args
        package) := by
  unfold ModuleView.lowerDeclared
  split
  · exact h.noted _ (h.pure _)
  · split
    · exact h.noted _ (h.pure _)
    · split
      · exact h.pure _
      · apply h.map
        apply hAsks
        split
        · exact .inr rfl
        · exact .inl rfl

theorem named
    (h : IsKind v P)
    {space name : String}
    {args : List TypeExpr}
    (place : SourcePlace)
    (hAsks : Asks P space name args) :
    P WireType (v.lowerNamed place space name args) := by
  unfold ModuleView.lowerNamed
  split
  · exact h.pure _
  · exact h.space space fun package =>
      h.declared place package hAsks

theorem expr
    (h : IsKind v P)
    (place : SourcePlace)
    (e : TypeExpr)
    (hAsks : ∀ space name args, .named space name args ∈ e.parts →
      Asks P space name args) :
    P WireType (v.lowerExpr place e) := by
  fun_induction ModuleView.lowerExpr v place e with
  | case1 space name args =>
      exact h.named place
        (hAsks space name args (TypeExpr.mem_parts_self _))
  | case2 elem hElem =>
      exact h.map (hElem fun space name args hPart =>
        hAsks space name args (List.mem_cons_of_mem _ hPart))
  | case3 name hByte => exact h.pure _
  | case4 name hByte => exact h.pure _
  | case5 elem hNotBuiltin hElem =>
      exact h.map (hElem fun space name args hPart =>
        hAsks space name args (List.mem_cons_of_mem _ hPart))
  | case6 len elem hElem =>
      exact h.map (hElem fun space name args hPart =>
        hAsks space name args (List.mem_cons_of_mem _ hPart))
  | case7 key value hKey hValue =>
      simp only [TypeExpr.parts, List.mem_cons,
        List.mem_append] at hAsks
      have hKey := hKey fun space name args hPart =>
        hAsks space name args (.inr (.inl hPart))
      have hValue := hValue fun space name args hPart =>
        hAsks space name args (.inr (.inr hPart))
      exact h.bind hKey fun _ => h.map hValue
  | case8 name => exact h.pure _
  | case9 name => exact h.pure _

------------------------------------------------------------
-- Source Types
------------------------------------------------------------

/- Whatever types stand for in a scope is lowered by the kind. -/
def Reads
    (v : ModuleView)
    (P : (α : Type) → ModuleStep α → Prop)
    (x : SourceScope)
    (us : List SourceType) : Prop :=
  ∀ u ∈ us, ∀ e, x.resolve? u = some e →
    P WireType (v.lowerExpr x.place e)

variable {x : SourceScope}

theorem unsupported
    (h : IsKind v P)
    (hint what : String) :
    P WireType (ModuleView.unsupported x hint what) :=
  h.noted _ (h.pure _)

theorem names
    (h : IsKind v P)
    {t : SourceType}
    (hint : String)
    (hReads : Reads v P x [t]) :
    P WireType (v.lowerNames x hint t) := by
  unfold ModuleView.lowerNames
  split
  · next e hResolve =>
      exact hReads t (List.mem_singleton_self t) e hResolve
  · exact h.unsupported hint _

theorem ident
    (h : IsKind v P)
    {name : String}
    (hint : String)
    (hReads : Reads v P x [.ident name]) :
    P WireType (v.lowerIdent x hint name) := by
  unfold ModuleView.lowerIdent
  split
  · next e hResolve =>
      apply hReads _ (List.mem_singleton_self _) e
      rw [SourceScope.resolve?, hResolve]
  · exact h.unsupported hint name

theorem isStruct
    (h : IsKind v P)
    (x : SourceScope)
    (t : SourceType) : P Bool (v.isStruct x t) := by
  fun_induction ModuleView.isStruct v x t with
  | case1 elem hElem => exact hElem
  | case2 base args hBase => exact hBase
  | case3 name => exact h.pure _
  | case4 package name hImport => exact h.pure _
  | case5 package name path hImport =>
      exact h.map (h.package path)
  | case6 t => exact h.pure _

/- A parent if there is one, or else what the field adds. -/
theorem parentOr
    (h : IsKind v P)
    {own : ModuleStep Members}
    (hOwn : P Members own)
    (parent? : Option TypeName) :
    P Members
      (match parent? with
        | some parent => Pure.pure ([], [parent])
        | none => own) := by
  cases parent? with
  | none => exact hOwn
  | some parent => exact h.pure _

/- What an embedded type adds that is no parent. -/
theorem exported
    (h : IsKind v P)
    {t : ModuleStep WireType}
    (name : String)
    (facts : FieldFacts)
    (doc : Doc)
    (ht : P WireType t) :
    P Members
      (if isExported name then do
        let t ← t
        Pure.pure ([taggedField name facts t doc], [])
      else Pure.pure ([], []) : ModuleStep Members) := by
  split
  · exact h.map ht
  · exact h.pure _

/- A type is of the kind if all types that it uses are. -/
theorem types (h : IsKind v P) (x : SourceScope) :
    (∀ hint t, Reads v P x t.uses →
      P WireType (v.lower x hint t))
      ∧ (∀ owner fs, Reads v P x (SourceType.usesOf fs) →
        P Members (v.lowerFields x owner fs))
      ∧ (∀ owner f, Reads v P x (SourceType.usesFrom f) →
        P Members (v.lowerField x owner f)) := by
  refine ModuleView.lower.mutual_induct v x _ _ _
    ?struct ?pointer ?bytes ?slice ?array ?map ?interface
    ?union ?tilde ?unsupported ?ident ?qualified ?generic
    ?noField ?field ?unnamed ?skipped ?renamed ?embedded
    ?named
  case struct =>
    intro hint fields id hFields hReads
    unfold ModuleView.lower
    apply h.bind (h.takeName id)
    intro free
    cases free with
    | false => exact h.pure _
    | true =>
        apply h.bind (hFields hReads)
        rintro ⟨fields, parents⟩
        exact h.map (h.declare _)
  case pointer =>
    intro hint elem hElem hReads
    unfold ModuleView.lower
    exact h.map (hElem hReads)
  case bytes =>
    intro hint elem hByte _
    unfold ModuleView.lower
    rw [if_pos hByte]
    exact h.pure _
  case slice =>
    intro hint elem hByte hElem hReads
    unfold ModuleView.lower
    rw [if_neg hByte]
    exact h.map (hElem hReads)
  case array =>
    intro hint len elem hElem hReads
    unfold ModuleView.lower
    exact h.map (hElem hReads)
  case map =>
    intro hint key value hKey hValue hReads
    unfold ModuleView.lower
    have hReads := List.forall_mem_append.mp hReads
    exact h.bind (hKey hReads.1) fun _ => h.map (hValue hReads.2)
  case interface | union | tilde =>
    intros
    unfold ModuleView.lower
    exact h.pure _
  case unsupported =>
    intro hint text _
    unfold ModuleView.lower
    exact h.unsupported hint text
  case ident =>
    intro hint name hReads
    unfold ModuleView.lower
    exact h.ident hint hReads
  case qualified =>
    intro hint package name hReads
    unfold ModuleView.lower
    exact h.names hint hReads
  case generic =>
    intro hint base args hReads
    unfold ModuleView.lower
    exact h.names hint hReads
  case noField =>
    intro owner _
    unfold ModuleView.lowerFields
    exact h.pure _
  case field =>
    intro owner f rest hFirst hMore hReads
    unfold ModuleView.lowerFields
    have hReads := List.forall_mem_append.mp hReads
    exact h.bind (hFirst hReads.1) fun _ => h.map (hMore hReads.2)
  case unnamed =>
    intro owner type tag doc hName hOwn _
    unfold ModuleView.lowerField
    rw [hName]
    exact h.pure _
  case skipped =>
    intro owner type tag doc facts name hName hSkip hOwn _
    unfold ModuleView.lowerField
    rw [hName]
    dsimp only
    rw [if_pos hSkip]
    exact h.pure _
  case renamed =>
    intro owner type tag doc facts name hName hKept hWire hOwn
      hReads
    unfold ModuleView.lowerField
    rw [hName]
    dsimp only
    rw [if_neg hKept, if_pos hWire]
    exact h.bind (h.pure none)
      (h.parentOr (h.exported name facts doc (hOwn name hReads)))
  case embedded =>
    intro owner type tag doc facts name hName hKept hWire hOwn
      hType hReads
    unfold ModuleView.lowerField
    rw [hName]
    dsimp only
    rw [if_neg hKept, if_neg hWire]
    apply h.bind (h.isStruct x type)
    intro found
    have hSelf := h.exported name facts doc (hOwn name hReads)
    cases found with
    | true =>
        apply h.bind (hType hReads)
        intro t
        exact h.bind (h.pure _) (h.parentOr hSelf)
    | false => exact h.bind (h.pure none) (h.parentOr hSelf)
  case named =>
    intro owner type tag doc names hNone hSome hOwn hReads
    unfold ModuleView.lowerField
    cases names with
    | nil =>
        cases hName : ModuleView.embeddedName? type with
        | none => exact absurd hName (hNone rfl)
        | some name => exact absurd hName (hSome name rfl)
    | cons name rest =>
        exact h.map (h.mapM fun name _ =>
          h.map (hOwn name hReads))

------------------------------------------------------------
-- Declarations
------------------------------------------------------------

theorem members
    (h : IsKind v P)
    (id : TypeName)
    (kind : BaseKind)
    (table : ConstTable)
    (consts : List ConstSource) :
    P (List EnumMember) (membersOf id kind table consts) := by
  fun_induction membersOf id kind table consts with
  | case1 => exact h.pure _
  | case2 c rest hBlank ih => exact ih
  | case3 c rest hName m hMember ih => exact h.map ih
  | case4 c rest hName w hMember ih => exact h.noted w ih

theorem enumeration
    (h : IsKind v P)
    (p : PackageSource)
    (id : TypeName)
    (d : TypeSource) :
    P (Option WireType) (Source.enumeration p id d) := by
  unfold Source.enumeration
  split
  · exact h.pure _
  · apply h.bind (h.members _ _ _ _)
    intro members
    split
    · exact h.pure _
    · exact h.pure _

theorem decl
    (h : IsKind v P)
    {d : TypeSource}
    (hReads : Reads v P x d.type.uses)
    (id : TypeName)
    (params : List (TypeParam WireType)) :
    P WireType (v.lowerDecl x id params d) := by
  have hSynonym : ∀ enum? : Option WireType,
      P WireType (v.lowerSynonym x id params d enum?) := by
    intro enum?
    unfold ModuleView.lowerSynonym
    split
    · exact h.pure _
    · exact h.map ((h.types x).1 _ _ hReads)
  unfold ModuleView.lowerDecl
  split
  · next fields hStruct =>
      rw [hStruct] at hReads
      exact h.map ((h.types x).2.1 id fields hReads)
  · split
    · exact h.bind (h.enumeration _ _ _) hSynonym
    · exact h.bind (h.pure none) hSynonym

end IsKind

end WireSchema.Source
