import WireSchema.Proofs.Schema.Plain

/-
  What it means that a check of the validation finds nothing,
  and what the violations of each check are.

  Key definitions include:
    * `WireType.parents`
-/

namespace WireSchema

/- The parents that a declaration names. -/
def WireType.parents : WireType → List TypeName
  | .record d => d.parents
  | _ => []

theorem WireType.dependencies_eq (t : WireType) :
    t.dependencies = t.parents ++ t.references := by
  cases t <;> rfl

namespace Schema

variable {s : Schema}

------------------------------------------------------------
-- Names
------------------------------------------------------------

theorem duplicatesIn_eq_nil_iff (seen ids : List TypeName) :
    duplicatesIn seen ids = [] ↔
      ids.Nodup ∧ ∀ id ∈ ids, id ∉ seen := by
  induction ids generalizing seen with
  | nil => simp [duplicatesIn]
  | cons id rest ih =>
      rw [duplicatesIn, List.append_eq_nil_iff, ih,
        List.nodup_cons, List.forall_mem_cons]
      have hHere :
          (if seen.contains id then
            [Violation.duplicateType id] else []) = []
            ↔ id ∉ seen := by
        by_cases hSeen : id ∈ seen
        · simp [hSeen]
        · simp [hSeen]
      rw [hHere]
      constructor
      · rintro ⟨hNew, hNodup, hFresh⟩
        refine ⟨⟨?_, hNodup⟩, hNew, ?_⟩
        · intro hId
          exact hFresh id hId List.mem_cons_self
        · intro other hOther hSeen
          exact hFresh other hOther
            (List.mem_cons_of_mem id hSeen)
      · rintro ⟨⟨hId, hNodup⟩, hNew, hFresh⟩
        refine ⟨hNew, hNodup, ?_⟩
        intro other hOther hSeen
        rcases List.mem_cons.mp hSeen with rfl | hSeen
        · exact hId hOther
        · exact hFresh other hOther hSeen

theorem duplicateTypes_eq_nil_iff :
    s.duplicateTypes = [] ↔ s.names.Nodup := by
  unfold duplicateTypes
  rw [duplicatesIn_eq_nil_iff]
  simp

------------------------------------------------------------
-- References
------------------------------------------------------------

theorem unknownParents_eq_nil_iff :
    s.unknownParents = [] ↔
      ∀ t ∈ s.types, t.parents ⊆ s.names := by
  unfold unknownParents
  rw [List.flatMap_eq_nil_iff]
  refine forall₂_congr fun t _ => ?_
  cases t with
  | record d =>
      simp only [List.map_eq_nil_iff, List.filter_eq_nil_iff,
        Bool.not_eq_true', Bool.not_eq_false, contains_iff]
      rfl
  | _ => simp [WireType.parents]

theorem danglingIn_eq_nil_iff (t : WireType) :
    s.danglingIn t = [] ↔ t.references ⊆ s.names := by
  unfold danglingIn
  simp only [List.filter_eq_nil_iff, Bool.not_eq_true',
    Bool.not_eq_false, contains_iff]
  rfl

theorem danglingReferences_eq_nil_iff :
    s.danglingReferences = [] ↔
      ∀ t ∈ s.types, t.id?.isSome = true →
        t.references ⊆ s.names := by
  unfold danglingReferences
  rw [List.flatMap_eq_nil_iff]
  refine forall₂_congr fun t _ => ?_
  cases t.id? with
  | none => simp
  | some owner =>
      simp only [List.map_eq_nil_iff, danglingIn_eq_nil_iff]
      simp

/- No check of names finds anything in a complete schema. -/
theorem IsComplete.checks_eq_nil (h : s.IsComplete) :
    s.duplicateTypes = [] ∧ s.unknownParents = []
      ∧ s.danglingReferences = [] := by
  refine ⟨duplicateTypes_eq_nil_iff.mpr h.distinct,
    unknownParents_eq_nil_iff.mpr ?_,
    danglingReferences_eq_nil_iff.mpr ?_⟩
  · intro t ht id hId
    apply h.closed t ht
    rw [WireType.dependencies_eq]
    exact List.mem_append_left _ hId
  · intro t ht _ id hId
    apply h.closed t ht
    rw [WireType.dependencies_eq]
    exact List.mem_append_right _ hId

------------------------------------------------------------
-- Services
------------------------------------------------------------

theorem endpointFaults_eq_nil_iff
    (service : String)
    (e : Endpoint) :
    s.endpointFaults service e = [] ↔
      e.fullName = service ++ "." ++ e.name
        ∧ e.path = "/" ++ service ++ "/" ++ e.name
        ∧ ∀ b ∈ bodies e, b.2.references ⊆ s.names := by
  unfold endpointFaults
  simp only [List.append_eq_nil_iff, List.flatMap_eq_nil_iff,
    List.map_eq_nil_iff, danglingIn_eq_nil_iff, and_assoc,
    ite_eq_left_iff, List.cons_ne_nil, imp_false,
    Decidable.not_not]

theorem endpointsFaults_eq_nil_iff
    (service : String)
    (seen : List String)
    (es : List Endpoint) :
    s.endpointsFaults service seen es = [] ↔
      (es.map Endpoint.name).Nodup
        ∧ (∀ e ∈ es, e.name ∉ seen)
        ∧ ∀ e ∈ es, s.endpointFaults service e = [] := by
  induction es generalizing seen with
  | nil => simp [endpointsFaults]
  | cons e rest ih =>
      rw [endpointsFaults, List.append_eq_nil_iff,
        List.append_eq_nil_iff, ih, List.map_cons,
        List.nodup_cons, List.forall_mem_cons,
        List.forall_mem_cons]
      have hHere :
          (if seen.contains e.name then
            [Violation.duplicateEndpoint service e.name]
            else []) = []
            ↔ e.name ∉ seen := by
        by_cases hSeen : e.name ∈ seen
        · simp [hSeen]
        · simp [hSeen]
      rw [hHere]
      constructor
      · rintro ⟨⟨hNew, hFirst⟩, hNodup, hFresh, hRest⟩
        refine ⟨⟨?_, hNodup⟩, ⟨hNew, ?_⟩, hFirst, hRest⟩
        · intro hName
          rcases List.mem_map.mp hName with ⟨f, hf, hSame⟩
          apply hFresh f hf
          rw [hSame]
          exact List.mem_cons_self
        · intro f hf hSeen
          exact hFresh f hf (List.mem_cons_of_mem _ hSeen)
      · rintro ⟨⟨hName, hNodup⟩, ⟨hNew, hFresh⟩, hFirst, hRest⟩
        refine ⟨⟨hNew, hFirst⟩, hNodup, ?_, hRest⟩
        intro f hf hSeen
        rcases List.mem_cons.mp hSeen with hSame | hSeen
        · apply hName
          rw [← hSame]
          exact List.mem_map_of_mem hf
        · exact hFresh f hf hSeen

theorem serviceFaults_eq_nil_iff :
    s.serviceFaults = [] ↔
      ∀ v ∈ s.services,
        (v.endpoints.map Endpoint.name).Nodup
          ∧ ∀ e ∈ v.endpoints,
            s.endpointFaults v.name e = [] := by
  unfold serviceFaults
  rw [List.flatMap_eq_nil_iff]
  simp [endpointsFaults_eq_nil_iff]

------------------------------------------------------------
-- Unions
------------------------------------------------------------

/- The unions in the bodies of an endpoint, counted. -/
theorem strayInBodies_eq_zero_iff (e : Endpoint) :
    (bodies e).foldl (fun n b => n + b.2.strayUnions false) 0
        = 0 ↔
      ∀ b ∈ bodies e, b.2.strayUnions false = 0 := by
  unfold bodies
  cases e.request with
  | none => simp
  | some t => simp

theorem unionFaults_eq_nil_iff :
    s.unionFaults = [] ↔
      (∀ t ∈ s.types, t.id?.isSome = true →
        t.strayUnions false = 0)
        ∧ ∀ v ∈ s.services, ∀ e ∈ v.endpoints, ∀ b ∈ bodies e,
          b.2.strayUnions false = 0 := by
  unfold unionFaults
  dsimp only
  rw [List.append_eq_nil_iff]
  refine and_congr ?declared ?sent
  case declared =>
    rw [List.flatMap_eq_nil_iff]
    refine forall₂_congr fun t _ => ?_
    cases t.id? with
    | none => simp
    | some owner => simp
  case sent =>
    simp only [List.flatMap_eq_nil_iff, List.mem_flatMap,
      List.replicate_eq_nil_iff, strayInBodies_eq_zero_iff]
    constructor
    · intro hSent v hv e he
      exact hSent e ⟨v, hv, he⟩
    · rintro hSent e ⟨v, hv, he⟩
      exact hSent v hv e he

------------------------------------------------------------
-- Violations
------------------------------------------------------------

theorem code_of_mem_encodingFaults
    {x : Violation}
    (h : x ∈ s.encodingFaults) :
    x.code = "invalid_string_encoded" := by
  unfold encodingFaults at h
  rcases List.mem_flatMap.mp h with ⟨t, -, hx⟩
  cases t with
  | record d =>
      rcases List.mem_map.mp hx with ⟨f, -, rfl⟩
      rfl
  | _ => cases hx

theorem code_of_mem_unionFaults
    {x : Violation}
    (h : x ∈ s.unionFaults) :
    x.code = "illegal_union" := by
  unfold unionFaults at h
  rcases List.mem_append.mp h with h | h
  · rcases List.mem_flatMap.mp h with ⟨t, -, hx⟩
    cases hId : t.id? with
    | none =>
        rw [hId] at hx
        cases hx
    | some owner =>
        rw [hId] at hx
        rw [List.eq_of_mem_replicate hx]
        rfl
  · rcases List.mem_flatMap.mp h with ⟨e, -, hx⟩
    rw [List.eq_of_mem_replicate hx]
    rfl

theorem code_of_mem_duplicateTypes
    {x : Violation}
    (h : x ∈ s.duplicateTypes) :
    x.code = "duplicate_type" := by
  have hIn : ∀ ids seen, x ∈ duplicatesIn seen ids →
      x.code = "duplicate_type" := by
    intro ids
    induction ids with
    | nil => exact nofun
    | cons id rest ih =>
        intro seen hx
        rcases List.mem_append.mp hx with hx | hx
        · split at hx
          · rw [List.mem_singleton.mp hx]
            rfl
          · cases hx
        · exact ih _ hx
  exact hIn _ _ h

theorem code_of_mem_unknownParents
    {x : Violation}
    (h : x ∈ s.unknownParents) :
    x.code = "missing_extends_reference" := by
  unfold unknownParents at h
  rcases List.mem_flatMap.mp h with ⟨t, -, hx⟩
  cases t with
  | record d =>
      rcases List.mem_map.mp hx with ⟨p, -, rfl⟩
      rfl
  | _ => cases hx

theorem code_of_mem_danglingReferences
    {x : Violation}
    (h : x ∈ s.danglingReferences) :
    x.code = "missing_type_reference" := by
  unfold danglingReferences at h
  rcases List.mem_flatMap.mp h with ⟨t, -, hx⟩
  split at hx
  · rcases List.mem_map.mp hx with ⟨id, -, rfl⟩
    rfl
  · cases hx

/- The kinds of faults that an endpoint may have. -/
theorem code_of_mem_serviceFaults
    {x : Violation}
    (h : x ∈ s.serviceFaults) :
    x.code ∈
      ["duplicate_endpoint", "invalid_fullname", "invalid_path",
        "missing_type_reference"] := by
  have hEndpoint : ∀ service e,
      x ∈ s.endpointFaults service e →
      x.code ∈
        ["invalid_fullname", "invalid_path",
          "missing_type_reference"] := by
    intro service e hx
    unfold endpointFaults at hx
    simp only [List.mem_append, List.mem_flatMap,
      List.mem_map] at hx
    rcases hx with (hx | hx) | ⟨b, -, id, -, rfl⟩
    · split at hx
      · cases hx
      · rw [List.mem_singleton.mp hx]
        simp [Violation.code]
    · split at hx
      · cases hx
      · rw [List.mem_singleton.mp hx]
        simp [Violation.code]
    · simp [Violation.code]
  have hEndpoints : ∀ service es seen,
      x ∈ s.endpointsFaults service seen es →
      x.code ∈
        ["duplicate_endpoint", "invalid_fullname",
          "invalid_path", "missing_type_reference"] := by
    intro service es
    induction es with
    | nil => exact nofun
    | cons e rest ih =>
        intro seen hx
        rcases List.mem_append.mp hx with hx | hx
        · rcases List.mem_append.mp hx with hx | hx
          · split at hx
            · rw [List.mem_singleton.mp hx]
              simp [Violation.code]
            · cases hx
          · exact List.mem_cons_of_mem _ (hEndpoint _ _ hx)
        · exact ih _ hx
  rcases List.mem_flatMap.mp h with ⟨v, -, hx⟩
  exact hEndpoints _ _ _ hx

/- An endpoint in order has no fault but for its path. -/
theorem code_of_mem_endpointFaults
    {service : String}
    {e : Endpoint}
    {x : Violation}
    (hName : e.fullName = service ++ "." ++ e.name)
    (hBodies : ∀ b ∈ bodies e, b.2.references ⊆ s.names)
    (h : x ∈ s.endpointFaults service e) :
    x.code = "invalid_path" := by
  unfold endpointFaults at h
  have hDangling :
      ((bodies e).flatMap fun b =>
        (s.danglingIn b.2).map
          (Violation.unknownBodyReference e.fullName b.1)) =
        [] := by
    rw [List.flatMap_eq_nil_iff]
    intro b hb
    rw [(danglingIn_eq_nil_iff b.2).mpr (hBodies b hb)]
    rfl
  simp only [if_pos hName, hDangling, List.nil_append,
    List.append_nil] at h
  split at h
  · cases h
  · rw [List.mem_singleton.mp h]
    rfl

theorem code_of_mem_endpointsFaults
    {service : String}
    {seen : List String}
    {es : List Endpoint}
    {x : Violation}
    (hNodup : (es.map Endpoint.name).Nodup)
    (hFresh : ∀ e ∈ es, e.name ∉ seen)
    (hNames : ∀ e ∈ es,
      e.fullName = service ++ "." ++ e.name)
    (hBodies : ∀ e ∈ es, ∀ b ∈ bodies e,
      b.2.references ⊆ s.names)
    (h : x ∈ s.endpointsFaults service seen es) :
    x.code = "invalid_path" := by
  induction es generalizing seen with
  | nil => cases h
  | cons e rest ih =>
      rw [List.map_cons, List.nodup_cons] at hNodup
      rw [List.forall_mem_cons] at hFresh hNames hBodies
      unfold endpointsFaults at h
      have hNew : seen.contains e.name = false := by
        simpa using hFresh.1
      rw [hNew, List.append_assoc, List.mem_append,
        List.mem_append] at h
      rcases h with h | h | h
      · cases h
      · exact code_of_mem_endpointFaults hNames.1 hBodies.1 h
      · apply ih hNodup.2 ?_ hNames.2 hBodies.2 h
        intro f hf hSeen
        rcases List.mem_cons.mp hSeen with hSame | hSeen
        · apply hNodup.1
          rw [← hSame]
          exact List.mem_map_of_mem hf
        · exact hFresh.2 f hf hSeen

theorem code_of_mem_circularInheritance
    {x : Violation}
    (h : x ∈ s.circularInheritance) :
    x.code = "circular_inheritance" := by
  unfold circularInheritance at h
  rcases List.mem_map.mp h with ⟨c, -, rfl⟩
  rfl

------------------------------------------------------------
-- All Checks
------------------------------------------------------------

/-
  In a schema without violations names are distinct, and
  declarations and endpoints refer to declared names only.
-/
theorem references_of_validate_eq_nil
    (h : s.validate = []) :
    s.names.Nodup
      ∧ (∀ t ∈ s.types, t.id?.isSome = true →
        t.dependencies ⊆ s.names)
      ∧ ∀ v ∈ s.services, ∀ e ∈ v.endpoints, ∀ b ∈ bodies e,
        b.2.references ⊆ s.names := by
  unfold validate at h
  simp only [List.append_eq_nil_iff] at h
  rcases h with ⟨⟨⟨⟨⟨⟨hNames, -⟩, hParents⟩, -⟩, hReferences⟩,
    hServices⟩, -⟩
  refine ⟨duplicateTypes_eq_nil_iff.mp hNames, ?_, ?_⟩
  · intro t ht hId
    rw [WireType.dependencies_eq]
    exact List.append_subset.mpr
      ⟨unknownParents_eq_nil_iff.mp hParents t ht,
        danglingReferences_eq_nil_iff.mp hReferences t ht hId⟩
  · intro v hv e he
    have hEndpoint :=
      (serviceFaults_eq_nil_iff.mp hServices v hv).2 e he
    exact ((endpointFaults_eq_nil_iff v.name e).mp hEndpoint).2.2

end Schema

end WireSchema
