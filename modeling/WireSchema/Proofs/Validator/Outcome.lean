import WireSchema.Proofs.Emit.Declaration
import WireSchema.Proofs.Rules.Overflow
import WireSchema.Validator.Basic

/-
  Validators that can be written.

  What a scope can write as a type it can write as a validator
  too.  A declaration has none exactly when it is a record with
  a field, not a skipped one, whose rules overflow.

  Key definitions include:
    * `Schema.DeclOverflows`
    * `Dialect.failsWhen_declaration`
-/

namespace WireSchema

/- A declaration with a field on the wire that overflows. -/
def Schema.DeclOverflows (s : Schema) : WireType → Prop
  | .record d =>
      ∃ f ∈ d.fields, f.skip = false ∧ s.Overflows f
  | _ => False

/- The one fault that validators can have. -/
def IsOverflow (e : EmitError) : Prop :=
  e = .overflow

namespace Dialect

variable {x : EmitScope}

------------------------------------------------------------
-- Types
------------------------------------------------------------

theorem succeeds_constantFor
    {id : TypeName}
    (d : Dialect)
    (h : (x.names.find? id).isSome = true) :
    Succeeds (d.constantFor x id) := by
  unfold constantFor
  apply (EmitScope.succeeds_name h).bind
  intro text _
  exact succeeds_ok _

theorem succeeds_schemasFor
    {d : Dialect}
    {ts : List WireType}
    (h : ∀ t ∈ ts, Succeeds (d.schemaFor x t)) :
    Succeeds (d.schemasFor x ts) := by
  induction ts with
  | nil =>
      unfold schemasFor
      exact succeeds_ok []
  | cons t rest ih =>
      rw [List.forall_mem_cons] at h
      unfold schemasFor
      apply h.1.bind
      intro part _
      apply (ih h.2).bind
      intro parts _
      exact succeeds_ok _

theorem succeeds_schemaFor
    (d : Dialect)
    {t : WireType}
    (h : x.names.Expresses t) : Succeeds (d.schemaFor x t) := by
  induction t using WireType.inductionOnParts with
  | hRecord r =>
      exact absurd h.plain.id?_eq_none (by simp [WireType.id?])
  | hSynonym s =>
      exact absurd h.plain.id?_eq_none (by simp [WireType.id?])
  | hEnum e =>
      exact absurd h.plain.id?_eq_none (by simp [WireType.id?])
  | hBase kind bits =>
      unfold schemaFor
      exact succeeds_ok _
  | hArray elem len hElem =>
      unfold schemaFor
      apply (hElem h.array).bind
      intro text _
      exact succeeds_ok _
  | hMap key value hKey hValue =>
      have hWhole : ∀ keyText, Succeeds
          (do
            let value ← d.schemaFor x value
            .ok (d.map keyText value)) := by
        intro keyText
        apply (hValue h.map.2).bind
        intro text _
        exact succeeds_ok _
      unfold schemaFor
      dsimp only
      split
      · apply (hKey h.map.1).bind
        intro keyText _
        exact hWhole keyText
      · exact hWhole (d.base .string)
  | hReference id =>
      unfold schemaFor
      exact d.succeeds_constantFor h.reference
  | hPointer elem hElem =>
      by_cases hEmpty : ∃ bits, elem = .base .empty bits
      · rcases hEmpty with ⟨bits, rfl⟩
        unfold schemaFor
        exact succeeds_ok _
      · rw [schemaFor]
        · apply (hElem h.pointer).bind
          intro text _
          exact succeeds_ok _
        · intro bits hBase
          exact hEmpty ⟨bits, hBase⟩
  | hUnion members hMembers =>
      have hEach : Succeeds (d.schemasFor x members) := by
        apply succeeds_schemasFor
        intro t ht
        exact hMembers t ht (h.union t ht)
      unfold schemaFor
      apply hEach.bind
      intro parts _
      exact succeeds_ok _
  | hParam p =>
      unfold schemaFor
      exact succeeds_ok _

theorem succeeds_chainFor
    (d : Dialect)
    {t : WireType}
    (h : x.names.Expresses t) : Succeeds (d.chainFor x t) := by
  unfold chainFor
  split
  · exact succeeds_ok _
  · apply (d.succeeds_schemaFor h.array).bind
    intro text _
    exact succeeds_ok _
  · apply (d.succeeds_schemaFor h).bind
    intro text _
    exact succeeds_ok _

------------------------------------------------------------
-- Fields
------------------------------------------------------------

theorem succeeds_valueSchema
    (d : Dialect)
    {f : Field WireType}
    (effects : FieldEffects)
    (h : x.names.Expresses f.type) :
    Succeeds (d.valueSchema x f effects) := by
  unfold valueSchema
  dsimp only
  split
  · split
    · exact succeeds_ok _
    · exact succeeds_ok _
  · split
    · exact succeeds_ok _
    · apply (d.succeeds_chainFor h.target).bind
      intro chain _
      exact succeeds_ok _

theorem failsWhen_fieldEntry
    (d : Dialect)
    (owner : String)
    {f : Field WireType}
    (h : x.names.Expresses f.type) :
    FailsWhen IsOverflow (x.schema.Overflows f)
      (d.fieldEntry x owner f).1 := by
  unfold fieldEntry fieldSchema
  dsimp only
  apply FailsWhen.map
  split
  · next hNone =>
      exact ⟨rfl, Schema.fieldEffects?_eq_none_iff.mp hNone⟩
  · next effects hSome =>
      apply FailsWhen.of_succeeds
      · exact (d.succeeds_valueSchema effects h).map _
      · intro hOver
        rw [Schema.fieldEffects?_eq_none_iff.mpr hOver] at hSome
        cases hSome

/- The entries of fields, of which the first fault ends all. -/
theorem failsWhen_fieldEntries
    (d : Dialect)
    (owner : String)
    {fields : List (Field WireType)}
    (h : ∀ f ∈ fields, x.names.Expresses f.type) :
    FailsWhen IsOverflow (∃ f ∈ fields, x.schema.Overflows f)
      (d.fieldEntries x owner fields).1 := by
  induction fields with
  | nil =>
      apply FailsWhen.of_succeeds
      · exact succeeds_ok []
      · simp
  | cons f rest ih =>
      rw [List.forall_mem_cons] at h
      have hFirst := d.failsWhen_fieldEntry owner h.1
      unfold fieldEntries
      split
      · next e warnings hEntry =>
          rw [hEntry] at hFirst
          exact ⟨hFirst.1, f, List.mem_cons_self, hFirst.2⟩
      · next entry warnings hEntry =>
          rw [hEntry] at hFirst
          have hNot : ¬x.schema.Overflows f := hFirst
          apply ((ih h.2).map _).congr
          simp [hNot]

------------------------------------------------------------
-- Declarations
------------------------------------------------------------

theorem succeeds_constantText
    (d : Dialect)
    {id : TypeName}
    (params : List (TypeParam WireType))
    (doc : Doc)
    (body : String)
    (h : (x.names.find? id).isSome = true) :
    Succeeds (d.constantText x id params doc body) := by
  unfold constantText
  apply (EmitScope.succeeds_name h).bind
  intro text _
  dsimp only
  split
  · exact succeeds_ok _
  · exact succeeds_ok _

theorem failsWhen_recordSchema
    (d : Dialect)
    {r : RecordDecl WireType}
    (h : x.names.Declares (.record r)) :
    FailsWhen IsOverflow (x.schema.DeclOverflows (.record r))
      (d.recordSchema x r).1 := by
  rcases h with ⟨hNames, -, hFields⟩
  have hParts := List.forall_mem_cons.mp hNames
  have hFront : Succeeds
      (do
        let owner ← x.name r.id
        let parents ← r.parents.mapM x.name
        .ok (owner, parents.map schemaConstant)) := by
    apply (EmitScope.succeeds_name hParts.1).bind
    intro owner _
    apply (EmitScope.succeeds_names hParts.2).bind
    intro parents _
    exact succeeds_ok _
  unfold recordSchema
  rcases hFront with ⟨⟨owner, parents⟩, hFront⟩
  dsimp only
  rw [hFront]
  dsimp only
  have hSent : ∀ f ∈ r.fields.filter fun f => !f.skip,
      x.names.Expresses f.type := by
    intro f hf
    exact hFields f (List.mem_filter.mp hf).1
  have hEntries := d.failsWhen_fieldEntries owner hSent
  have hWhole := hEntries.bind fun entries _ =>
    FailsWhen.of_succeeds
      (d.succeeds_constantText r.params r.doc
        (d.object parents entries) hParts.1)
      not_false
  apply hWhole.congr
  simp [Schema.DeclOverflows, and_assoc]

/- A validator is missing only when a field overflows. -/
theorem failsWhen_declaration
    (d : Dialect)
    {t : WireType}
    (h : x.names.Declares t) :
    FailsWhen IsOverflow (x.schema.DeclOverflows t)
      (d.declaration x t).1 := by
  cases t with
  | record r => exact d.failsWhen_recordSchema h
  | synonym s =>
      rcases h with ⟨hName, -, hTarget⟩
      have hName := List.forall_mem_singleton.mp hName
      apply FailsWhen.of_succeeds
      · unfold declaration
        apply (d.succeeds_schemaFor hTarget).bind
        intro body _
        exact d.succeeds_constantText _ _ _ hName
      · exact not_false
  | enum e =>
      have hName := List.forall_mem_singleton.mp h
      apply FailsWhen.of_succeeds
      · unfold declaration
        exact d.succeeds_constantText _ _ _ hName
      · exact not_false
  | _ => exact h.elim

------------------------------------------------------------
-- Endpoints
------------------------------------------------------------

theorem succeeds_endpointEntry
    (d : Dialect)
    {e : Endpoint}
    (h : ∀ b ∈ Schema.bodies e, x.names.Expresses b.2) :
    Succeeds (d.endpointEntry x e) := by
  have hResponse : x.names.Expresses e.response :=
    h _ (EmitScope.response_mem_bodies e)
  unfold endpointEntry
  cases hRequest : e.request with
  | none =>
      apply (d.succeeds_schemaFor hResponse).bind
      intro response _
      exact succeeds_ok _
  | some t =>
      have hType : x.names.Expresses t :=
        h _ (EmitScope.request_mem_bodies hRequest)
      apply (d.succeeds_schemaFor hType).bind
      intro request _
      apply (d.succeeds_schemaFor hResponse).bind
      intro response _
      exact succeeds_ok _

/- The table of endpoints can be written. -/
theorem succeeds_endpointTable
    (d : Dialect)
    (h : x.Serves) : Succeeds (d.endpointTable x) := by
  unfold endpointTable
  dsimp only
  split
  · exact succeeds_ok _
  · have hEach : Succeeds
        ((x.schema.services.flatMap Service.endpoints).mapM
          (d.endpointEntry x)) := by
      apply succeeds_mapM
      intro e he
      exact d.succeeds_endpointEntry (h e he)
    apply hEach.bind
    intro entries _
    exact succeeds_ok _

end Dialect

end WireSchema
