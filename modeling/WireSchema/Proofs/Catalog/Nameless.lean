import WireSchema.Proofs.Catalog.Extraction
import WireSchema.Proofs.Extraction.Nameless

/-
  Structs without a name in a catalog.

  What a declaration enters on its way follows the recursion
  of the lowering, with the state that each call begins in.

  Key definitions include:
    * `Catalog.Part`, `Catalog.Enters`
    * `Catalog.Meets`
-/

namespace WireSchema.Catalog

open Walk

variable {c : Catalog}
variable {known : WellKnown}
variable {spent : List ReportedName}

------------------------------------------------------------
-- Parts
------------------------------------------------------------

/- What is lowered on the way. -/
inductive Part where
  | item (n : ReportedName)
  | shape (space hint : String) (t : Reflected)
  | members
      (space : String)
      (owner : TypeName)
      (fs : List (ReflectedField Reflected))
  | member
      (space : String)
      (owner : TypeName)
      (f : ReflectedField Reflected)

/- To lower a part leads from one state to another. -/
def Part.Ends (c : Catalog) (known : WellKnown) :
    Part → Walk ReportedName Unit → Walk ReportedName Unit →
      Prop
  | .item n, x, y => (c.declareName known n).run x = .ok ((), y)
  | .shape space hint t, x, y =>
      ∃ w, (c.lower known space hint t).run x = .ok (w, y)
  | .members space owner fs, x, y =>
      ∃ m, (c.lowerFields known space owner fs).run x =
        .ok (m, y)
  | .member space owner f, x, y =>
      ∃ m, (c.lowerField known space owner f).run x = .ok (m, y)

/- The parent that a field adds to its struct. -/
def parent?
    (c : Catalog)
    (known : WellKnown)
    (space : String)
    (f : ReflectedField Reflected) :
    CatalogStep (Option TypeName) :=
  if f.embedded && (FieldFacts.ofTag f.tag).wire.name.isNone
      && c.isNamedStruct f.type then do
    let t ← c.lower known space f.name f.type
    pure t.target.referent?
  else pure none

/- What a field adds that is no parent. -/
def ownField
    (c : Catalog)
    (known : WellKnown)
    (space : String)
    (owner : TypeName)
    (f : ReflectedField Reflected) : CatalogStep Members :=
  if isExported f.name then do
    let hint := owner.name ++ "_" ++ f.name
    let t ← c.lower known space hint f.type
    pure ([taggedField f.name (.ofTag f.tag) t {}], [])
  else pure ([], [])

theorem lowerField_eq
    (space : String)
    (owner : TypeName)
    (f : ReflectedField Reflected) :
    c.lowerField known space owner f =
      (if f.embedded && (FieldFacts.ofTag f.tag).wire.skip then
        pure ([], [])
      else do
        match ← c.parent? known space f with
        | some parent => pure ([], [parent])
        | none => c.ownField known space owner f) := by
  unfold lowerField parent?
  dsimp only
  by_cases hParent :
      f.embedded && (FieldFacts.ofTag f.tag).wire.name.isNone
        && c.isNamedStruct f.type
  · rw [if_pos hParent, if_pos hParent, bind_assoc]
    rfl
  · rw [if_neg hParent, if_neg hParent]
    rfl

/-
  A part that is lowered from a state enters another part in
  another state, one case for each call.
-/
inductive Enters (c : Catalog) (known : WellKnown) :
    Part × Walk ReportedName Unit →
      Part × Walk ReportedName Unit → Prop where
  | record
      {x : Walk ReportedName Unit}
      {n : ReportedName}
      {e : CatalogEntry}
      {fs : List (ReflectedField Reflected)}
      (hFound : c.find? n.space n.name = some e)
      (hShape : e.shape = .struct fs) :
      Enters c known (.item n, x)
        (.members e.space (catalogName e.space e.name) fs, x)
  | synonym
      {x : Walk ReportedName Unit}
      {n : ReportedName}
      {e : CatalogEntry}
      (hFound : c.find? n.space n.name = some e)
      (hShape : ∀ fs, e.shape ≠ .struct fs) :
      Enters c known (.item n, x)
        (.shape e.space (catalogName e.space e.name).name e.shape,
          x)
  | slice
      {x : Walk ReportedName Unit}
      {space hint : String}
      {elem : Reflected}
      (hNotByte : elem ≠ .uint 8) :
      Enters c known (.shape space hint (.slice elem), x)
        (.shape space hint elem, x)
  | array
      {x : Walk ReportedName Unit}
      {space hint : String}
      {len : Nat}
      {elem : Reflected} :
      Enters c known (.shape space hint (.array len elem), x)
        (.shape space hint elem, x)
  | pointer
      {x : Walk ReportedName Unit}
      {space hint : String}
      {elem : Reflected} :
      Enters c known (.shape space hint (.pointer elem), x)
        (.shape space hint elem, x)
  | key
      {x : Walk ReportedName Unit}
      {space hint : String}
      {key value : Reflected} :
      Enters c known (.shape space hint (.map key value), x)
        (.shape space hint key, x)
  | value
      {x y : Walk ReportedName Unit}
      {space hint : String}
      {key value : Reflected}
      {t : WireType}
      (hKey : (c.lower known space hint key).run x =
        .ok (t, y)) :
      Enters c known (.shape space hint (.map key value), x)
        (.shape space hint value, y)
  | struct
      {x : Walk ReportedName Unit}
      {space hint : String}
      {f : ReflectedField Reflected}
      {rest : List (ReflectedField Reflected)}
      {id : TypeName}
      (hId : id = { name := syntheticName hint, space })
      (hFree : id ∉ x.taken) :
      Enters c known (.shape space hint (.struct (f :: rest)), x)
        (.members space id (f :: rest),
          { x with taken := id :: x.taken })
  | first
      {x : Walk ReportedName Unit}
      {space : String}
      {owner : TypeName}
      {f : ReflectedField Reflected}
      {rest : List (ReflectedField Reflected)} :
      Enters c known (.members space owner (f :: rest), x)
        (.member space owner f, x)
  | later
      {x y : Walk ReportedName Unit}
      {space : String}
      {owner : TypeName}
      {f : ReflectedField Reflected}
      {rest : List (ReflectedField Reflected)}
      {m : Members}
      (hFirst : (c.lowerField known space owner f).run x =
        .ok (m, y)) :
      Enters c known (.members space owner (f :: rest), x)
        (.members space owner rest, y)
  | parent
      {x : Walk ReportedName Unit}
      {space : String}
      {owner : TypeName}
      {f : ReflectedField Reflected}
      (hKept :
        ¬(f.embedded && (FieldFacts.ofTag f.tag).wire.skip))
      (hEmbedded :
        f.embedded && (FieldFacts.ofTag f.tag).wire.name.isNone
          && c.isNamedStruct f.type) :
      Enters c known (.member space owner f, x)
        (.shape space f.name f.type, x)
  | own
      {x y : Walk ReportedName Unit}
      {space : String}
      {owner : TypeName}
      {f : ReflectedField Reflected}
      (hKept :
        ¬(f.embedded && (FieldFacts.ofTag f.tag).wire.skip))
      (hParent : (c.parent? known space f).run x =
        .ok (none, y))
      (hExported : isExported f.name) :
      Enters c known (.member space owner f, x)
        (.shape space (owner.name ++ "_" ++ f.name) f.type, y)

------------------------------------------------------------
-- Structs
------------------------------------------------------------

/- A struct without a name, at a place in a namespace. -/
def nameless
    (c : Catalog)
    (known : WellKnown)
    (space hint : String)
    (fs : List (ReflectedField Reflected)) :
    NamelessStruct ReportedName Unit :=
  let id : TypeName := { name := syntheticName hint, space }
  { id
    lowered := c.lower known space hint (.struct fs)
    members := c.lowerFields known space id fs }

/-
  The run of a request meets a struct without a name in a
  state, on the way of a declaration.
-/
inductive Meets
    (c : Catalog)
    (known : WellKnown)
    (r : ExtractionRequest) :
    NamelessStruct ReportedName Unit →
      Walk ReportedName Unit → Prop where
  | intro
      {spent rest : List ReportedName}
      {n : ReportedName}
      {x y : Walk ReportedName Unit}
      {space hint : String}
      {f : ReflectedField Reflected}
      {fs : List (ReflectedField Reflected)}
      (hReaches : c.Reaches known r spent y)
      (hQueue : y.queue = n :: rest)
      (hEnters :
        Relation.ReflTransGen (c.Enters known)
          (.item n, { y with queue := rest })
          (.shape space hint (.struct (f :: fs)), x)) :
      Meets c known r (c.nameless known space hint (f :: fs)) x

/- It is lowered as every struct without a name is. -/
theorem lowered_nameless
    (c : Catalog)
    (known : WellKnown)
    (space hint : String)
    (f : ReflectedField Reflected)
    (fs : List (ReflectedField Reflected)) :
    (c.nameless known space hint (f :: fs)).lowered =
      (c.nameless known space hint (f :: fs)).step := by
  unfold nameless NamelessStruct.step lower
  rfl

------------------------------------------------------------
-- Members
------------------------------------------------------------

theorem lowers_parent?
    (space : String)
    (f : ReflectedField Reflected) :
    Lowers Finishes (Ready c spent) (fun _ _ => True)
      (c.parent? known space f) := by
  have hShape := (@lowers_shapes c known spent space).1
  unfold parent?
  split
  · exact (hShape f.name f.type).map fun _ _ _ => trivial
  · exact lowers_pure fun _ => trivial

theorem lowers_ownField
    (space : String)
    (owner : TypeName)
    (f : ReflectedField Reflected) :
    Lowers Finishes (Ready c spent) Members.IsPlainOver
      (c.ownField known space owner f) := by
  have hShape := (@lowers_shapes c known spent space).1
  unfold ownField
  split
  · exact lowers_tagged (hShape _ f.type) f.name _ {}
  · exact lowers_noMembers

/-
  A member that is lowered has looked for a parent first, and
  nothing of that is lost.
-/
theorem run_member
    {space : String}
    {owner : TypeName}
    {f : ReflectedField Reflected}
    {pending : List TypeName}
    {x z : Walk ReportedName Unit}
    {m : Members}
    (hKept :
      ¬(f.embedded && (FieldFacts.ofTag f.tag).wire.skip))
    (hReady : Ready c spent pending x)
    (hRun : (c.lowerField known space owner f).run x =
      .ok (m, z)) :
    ∃ p y, (c.parent? known space f).run x = .ok (p, y)
      ∧ y.Within z
      ∧ (p = none →
        (c.ownField known space owner f).run y = .ok (m, z)) := by
  rw [lowerField_eq, if_neg hKept] at hRun
  rcases run_bind_eq_ok hRun with ⟨p, y, hParent, hRun⟩
  have hy := ((lowers_parent? space f).of_run hReady hParent).1
  cases p with
  | some parent =>
      cases hRun
      exact ⟨some parent, z, hParent, .refl z, nofun⟩
  | none =>
      have hOwn := (lowers_ownField space owner f).of_run hy hRun
      have hyz := hOwn.2.1
      exact ⟨none, y, hParent, hyz, fun _ => hRun⟩

------------------------------------------------------------
-- Declarations
------------------------------------------------------------

/- The members of a struct are lowered before its record. -/
theorem run_record
    {n : ReportedName}
    {e : CatalogEntry}
    {fs : List (ReflectedField Reflected)}
    {x z : Walk ReportedName Unit}
    (hFound : c.find? n.space n.name = some e)
    (hShape : e.shape = .struct fs)
    (hRun : (c.declareName known n).run x = .ok ((), z)) :
    ∃ y m, (c.lowerFields known e.space
        (catalogName e.space e.name) fs).run x = .ok (m, y)
      ∧ y.Within z := by
  unfold declareName declareEntry at hRun
  simp only [hFound, hShape] at hRun
  rcases run_bind_eq_ok hRun with
    ⟨⟨fields, parents⟩, y, hMembers, hDeclare⟩
  exact ⟨y, _, hMembers, (within_of_run_declare hDeclare).1⟩

/- Any other shape is lowered before its synonym. -/
theorem run_synonym
    {n : ReportedName}
    {e : CatalogEntry}
    {x z : Walk ReportedName Unit}
    (hFound : c.find? n.space n.name = some e)
    (hShape : ∀ fs, e.shape ≠ .struct fs)
    (hRun : (c.declareName known n).run x = .ok ((), z)) :
    ∃ y t, (c.lower known e.space
        (catalogName e.space e.name).name e.shape).run x =
          .ok (t, y)
      ∧ y.Within z
      ∧ .synonym
          { id := catalogName e.space e.name, target := t }
        ∈ z.schema.types := by
  unfold declareName declareEntry at hRun
  simp only [hFound] at hRun
  rcases run_bind_eq_ok hRun with ⟨t, y, hTarget, hRun⟩
  refine ⟨y, t, hTarget, ?_⟩
  split at hRun
  · rcases run_bind_eq_ok hRun with ⟨_, w, hNote, hDeclare⟩
    cases hNote
    have hNoted := within_note y
      (hiddenMembers (catalogName e.space e.name))
    have hLater := within_of_run_declare hDeclare
    exact ⟨hNoted.trans hLater.1, hLater.2⟩
  · exact within_of_run_declare hRun

------------------------------------------------------------
-- Completion
------------------------------------------------------------

/-
  What a part enters comes to its end before the part does,
  and begins in a state as ready as that of the part.
-/
theorem completes_of_enter
    {p q : Part × Walk ReportedName Unit}
    {pending : List TypeName}
    {z : Walk ReportedName Unit}
    (hEnter : c.Enters known p q)
    (hReady : Ready c spent pending p.2)
    (hEnds : p.1.Ends c known p.2 z) :
    Completes (Ready c spent) (Part.Ends c known) z q := by
  cases hEnter with
  | record hFound hShape =>
      rcases run_record hFound hShape hEnds with
        ⟨y, m, hMembers, hyz⟩
      exact ⟨⟨pending, hReady⟩, y, ⟨m, hMembers⟩, hyz⟩
  | synonym hFound hShape =>
      rcases run_synonym hFound hShape hEnds with
        ⟨y, t, hTarget, hyz, -⟩
      exact ⟨⟨pending, hReady⟩, y, ⟨t, hTarget⟩, hyz⟩
  | @slice x space hint elem hNotByte =>
      rcases hEnds with ⟨t, hRun⟩
      rw [lower.eq_8 c known space hint elem hNotByte] at hRun
      have hElem := run_map_eq_ok hRun
      exact .of_ends hReady hElem
  | array =>
      rcases hEnds with ⟨t, hRun⟩
      unfold lower at hRun
      have hElem := run_map_eq_ok hRun
      exact .of_ends hReady hElem
  | pointer =>
      rcases hEnds with ⟨t, hRun⟩
      unfold lower at hRun
      have hElem := run_map_eq_ok hRun
      exact .of_ends hReady hElem
  | @key x space hint key value =>
      have hShape := (@lowers_shapes c known spent space).1 hint
      rcases hEnds with ⟨t, hRun⟩
      unfold lower at hRun
      have hKey := (hShape key).run_first (hShape value) hReady
        hRun
      exact ⟨⟨pending, hReady⟩, hKey⟩
  | @value x y space hint key value k hKey =>
      have hShape := (@lowers_shapes c known spent space).1 hint
      have hy := ((hShape key).of_run hReady hKey).1
      rcases hEnds with ⟨t, hRun⟩
      unfold lower at hRun
      have hValue := run_map₂_eq_ok hKey hRun
      exact .of_ends hy hValue
  | @struct x space hint f rest id hId hFree =>
      subst hId
      rcases hEnds with ⟨t, hRun⟩
      have hStep := lowered_nameless c known space hint f rest
      rcases NamelessStruct.run_of_not_mem hStep hFree hRun with
        ⟨fields, parents, y, hMembers, hyz, -, -⟩
      have hTaken := stable_ready.take hReady hFree
      exact ⟨⟨_, hTaken⟩, y, ⟨_, hMembers⟩, hyz⟩
  | @first x space owner f rest =>
      have hShapes := @lowers_shapes c known spent space
      rcases hEnds with ⟨m, hRun⟩
      unfold lowerFields at hRun
      have hFirst := (hShapes.2.2 owner f).run_first
        (hShapes.2.1 owner rest) hReady hRun
      exact ⟨⟨pending, hReady⟩, hFirst⟩
  | @later x y space owner f rest m hFirst =>
      have hShapes := @lowers_shapes c known spent space
      have hy := ((hShapes.2.2 owner f).of_run hReady hFirst).1
      rcases hEnds with ⟨m, hRun⟩
      unfold lowerFields at hRun
      have hLater := run_map₂_eq_ok hFirst hRun
      exact .of_ends hy hLater
  | parent hKept hEmbedded =>
      rcases hEnds with ⟨m, hRun⟩
      rcases run_member hKept hReady hRun with
        ⟨p, y, hParent, hyz, -⟩
      unfold parent? at hParent
      rw [if_pos hEmbedded] at hParent
      have hType := run_map_eq_ok hParent
      exact ⟨⟨pending, hReady⟩, y, hType, hyz⟩
  | @own x y space owner f hKept hNone hExported =>
      have hy := ((lowers_parent? space f).of_run hReady hNone).1
      rcases hEnds with ⟨m, hRun⟩
      rcases run_member hKept hReady hRun with
        ⟨p, _, hParent, -, hOwn⟩
      rw [hNone] at hParent
      cases hParent
      have hField := hOwn rfl
      unfold ownField at hField
      rw [if_pos hExported] at hField
      have hType := run_map_eq_ok hField
      exact .of_ends hy hType

------------------------------------------------------------
-- Runs
------------------------------------------------------------

/- A schema is that of a run that has come to its end. -/
theorem run_of_extract
    {r : ExtractionRequest}
    {s : Schema}
    (hOk : c.extract known r = .ok s) :
    ∃ z, (c.walk known r).run { memory := () } = .ok ((), z)
      ∧ z.schema = s := by
  unfold extract finish at hOk
  rcases eq_ok_of_bind hOk with ⟨_, -, hOk⟩
  rcases eq_ok_of_bind hOk with ⟨⟨_, z⟩, hRun, hEnd⟩
  cases hEnd
  exact ⟨z, hRun, rfl⟩

/-
  Such a run completes each item that it has taken from the
  queue.
-/
theorem completes_item
    {r : ExtractionRequest}
    {n : ReportedName}
    {rest : List ReportedName}
    {y z : Walk ReportedName Unit}
    (hRun : (c.walk known r).run { memory := () } = .ok ((), z))
    (hReaches : c.Reaches known r spent y)
    (hQueue : y.queue = n :: rest) :
    Completes (Ready c (spent ++ [n])) (Part.Ends c known) z
      (.item n, { y with queue := rest }) := by
  have hy := ready_of_reaches hReaches
  rcases hReaches with ⟨x, hRequests, hDrains⟩
  rw [walk_eq] at hRun
  rcases run_bind_eq_ok hRun with ⟨_, _, hSame, hDrain⟩
  rw [hRequests] at hSame
  cases hSame
  have hPop : ∀ {spent y i rest}, Ready c spent [] y →
      y.queue = i :: rest →
      Ready c (spent ++ [i]) [i.id] { y with queue := rest } := by
    intro spent y i rest hy hQueue
    exact ⟨hy.sound.dequeue hQueue, hy.claimed.dequeue hQueue⟩
  have hStep : ∀ y i rest, (∃ spent, Ready c spent [] y) →
      y.queue = i :: rest →
      Yields Finishes (c.declareName known i)
        { y with queue := rest }
        fun _ w => (∃ spent, Ready c spent [] w) ∧ y.Within w := by
    rintro y i rest ⟨spent, hy⟩ hQueue
    apply (yields_declareName (hPop hy hQueue)).imp
    rintro _ w ⟨hw, hyw⟩
    exact ⟨⟨_, hw⟩, (within_dequeue y rest).trans hyw⟩
  have hItem :=
    run_item_of_drains hStep hDrain hDrains ⟨spent, hy⟩ hQueue
  exact ⟨⟨[n.id], hPop hy hQueue⟩, hItem⟩

/- A struct that the run of a request meets resolves. -/
theorem resolves_of_meets
    {r : ExtractionRequest}
    {s : Schema}
    {a : NamelessStruct ReportedName Unit}
    {x : Walk ReportedName Unit}
    (hOk : c.extract known r = .ok s)
    (hMeets : c.Meets known r a x) : a.Resolves x s := by
  rcases hMeets with
    @⟨_, _, n, _, _, space, hint, f, fs, hReaches, hQueue,
      hEnters⟩
  rcases run_of_extract hOk with ⟨z, hRun, rfl⟩
  rcases (yields_walk r).of_run_ok hRun with
    ⟨hEmpty, -, done, hDone⟩
  have hReady := ready_of_reaches hDone
  have hItem := completes_item hRun hReaches hQueue
  rcases completes_of_enters (fun _ _ hEnter _ _ =>
    completes_of_enter hEnter) hEnters hItem with
    ⟨⟨pending, hx⟩, w, ⟨t, hRun⟩, hWithin⟩
  have hGood := ((lowers_shapes space).1 _ _).of_run hx hRun
  have hStep := lowered_nameless c known space hint f fs
  exact NamelessStruct.resolves hStep hRun hGood.2.2 hWithin
    hReady.sound hEmpty

/-
  A struct by the name of a synonym is lost.  All structs in
  the type of the synonym itself have that name, if it is a
  name that can be made of a place.
-/
theorem not_isDeclared_of_synonym
    {r : ExtractionRequest}
    {s : Schema}
    {n : ReportedName}
    {rest : List ReportedName}
    {e : CatalogEntry}
    {a : NamelessStruct ReportedName Unit}
    {x y : Walk ReportedName Unit}
    (hOk : c.extract known r = .ok s)
    (hReaches : c.Reaches known r spent y)
    (hQueue : y.queue = n :: rest)
    (hFound : c.find? n.space n.name = some e)
    (hShape : ∀ fs, e.shape ≠ .struct fs)
    (hName : a.id = n.id) : ¬a.IsDeclared x s := by
  rcases run_of_extract hOk with ⟨z, hRun, rfl⟩
  rcases (yields_walk r).of_run_ok hRun with
    ⟨hEmpty, -, done, hDone⟩
  have hSound := (ready_of_reaches hDone).sound
  rcases completes_item hRun hReaches hQueue with
    ⟨-, w, hItem, hWithin⟩
  rcases run_synonym hFound hShape hItem with
    ⟨_, t, -, -, hSynonym⟩
  have hPlace := List.find?_some hFound
  simp only [Bool.and_eq_true, beq_iff_eq] at hPlace
  have hId : catalogName e.space e.name = a.id := by
    rw [hPlace.1, hPlace.2, hName]
    rfl
  have hDistinct := (hSound.isComplete hEmpty).distinct
  have hDeclared := hWithin.types.subset hSynonym
  exact NamelessStruct.not_isDeclared hDistinct hDeclared
    (congrArg some hId) fun _ => nofun

end WireSchema.Catalog
