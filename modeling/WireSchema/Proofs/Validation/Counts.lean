import WireSchema.Proofs.Schema.Places
import WireSchema.Proofs.Validation.Checks

/-
  How many violations of each kind a validation reports.

  Everything that can be wrong has a place: an entry of a list,
  or a part of a type that a declaration or an endpoint holds.
  There are as many violations as such places.

  Key definitions include:
    * `Schema.reported`
    * `Schema.Site`, `Schema.partAt?`
    * `Schema.validate_collects`
-/

namespace WireSchema

/- The type that an endpoint has in a role. -/
def Endpoint.body? (e : Endpoint) : BodyRole → Option WireType
  | .request => e.request
  | .response => some e.response

namespace Schema

variable {s : Schema}

------------------------------------------------------------
-- Sites
------------------------------------------------------------

/- Where a schema holds a type, by the numbers of entries. -/
inductive Site where
  | entry (type : Nat)
  | body (service endpoint : Nat) (role : BodyRole)
  deriving DecidableEq, Repr, Inhabited

def typeAt? (s : Schema) : Site → Option WireType
  | .entry i => s.types[i]?
  | .body i j role =>
      s.services[i]?.bind fun v =>
        v.endpoints[j]?.bind fun e => e.body? role

/-
  What stands at a place of a schema, and whether a bound of a
  type parameter is around it.
-/
def partAt?
    (s : Schema)
    (place : Site × List Nat) : Option (Bool × WireType) :=
  (s.typeAt? place.1).bind fun t => t.at? false place.2

/- A site is an entry with a name or belongs to an endpoint. -/
def IsNamed (s : Schema) : Site → Prop
  | .entry i =>
      ∃ t, s.types[i]? = some t ∧ t.id?.isSome = true
  | .body .. => True

/- The endpoint of two numbers, with its service. -/
def HasEndpoint
    (s : Schema)
    (place : Nat × Nat)
    (v : Service)
    (e : Endpoint) : Prop :=
  s.services[place.1]? = some v ∧ v.endpoints[place.2]? = some e

------------------------------------------------------------
-- Faults
------------------------------------------------------------

/- A parent of a record that is not declared. -/
def UnknownParent (s : Schema) (place : Nat × Nat) : Prop :=
  ∃ d parent, s.types[place.1]? = some (.record d)
    ∧ d.parents[place.2]? = some parent ∧ parent ∉ s.names

/- A reference to a name that is not declared. -/
def Dangles (s : Schema) (place : Site × List Nat) : Prop :=
  ∃ inBound id, s.partAt? place = some (inBound, .reference id)
    ∧ id ∉ s.names

/- A union that no bound of a type parameter is around. -/
def StrayUnion (s : Schema) (place : Site × List Nat) : Prop :=
  ∃ members, s.partAt? place = some (false, .union members)

/- An endpoint with the name of one before it. -/
def Repeats (s : Schema) (place : Nat × Nat) : Prop :=
  ∃ v e, s.HasEndpoint place v e
    ∧ ∃ f ∈ v.endpoints.take place.2, f.name = e.name

def Misnamed (s : Schema) (place : Nat × Nat) : Prop :=
  ∃ v e, s.HasEndpoint place v e
    ∧ e.fullName ≠ v.name ++ "." ++ e.name

def Misplaced (s : Schema) (place : Nat × Nat) : Prop :=
  ∃ v e, s.HasEndpoint place v e
    ∧ e.path ≠ "/" ++ v.name ++ "/" ++ e.name

------------------------------------------------------------
-- Codes
------------------------------------------------------------

/- How many violations of a list have a code. -/
def countOf (code : String) (xs : List Violation) : Nat :=
  xs.countP fun x => x.code = code

/- How many violations of a code a validation reports. -/
def reported (s : Schema) (code : String) : Nat :=
  countOf code s.validate

@[simp] theorem countOf_nil (code : String) :
    countOf code [] = 0 :=
  rfl

@[simp] theorem countOf_singleton
    (code : String)
    (x : Violation) :
    countOf code [x] = if x.code = code then 1 else 0 := by
  by_cases hCode : x.code = code
  · simp [countOf, hCode]
  · simp [countOf, hCode]

/- A check of one condition reports once that it fails. -/
theorem countOf_unless
    {P : Prop}
    [Decidable P]
    (code : String)
    (x : Violation) :
    countOf code (if P then [] else [x]) =
      if x.code = code ∧ ¬P then 1 else 0 := by
  by_cases h : P
  · simp [h]
  · simp [h]

theorem countOf_append (code : String) (xs ys : List Violation) :
    countOf code (xs ++ ys) = countOf code xs + countOf code ys :=
  List.countP_append

theorem countOf_flatMap
    {α : Type}
    (code : String)
    (f : α → List Violation)
    (xs : List α) :
    countOf code (xs.flatMap f) =
      (xs.map fun x => countOf code (f x)).sum := by
  unfold countOf
  rw [List.countP_flatMap]
  rfl

/- A check with one code reports all or nothing of a code. -/
theorem countOf_eq
    {code : String}
    (own : String)
    {xs : List Violation}
    (h : ∀ x ∈ xs, x.code = own) :
    countOf code xs = if own = code then xs.length else 0 := by
  unfold countOf
  by_cases hCode : own = code
  · rw [if_pos hCode, List.countP_eq_length]
    intro x hx
    rw [h x hx]
    exact decide_eq_true hCode
  · rw [if_neg hCode, List.countP_eq_zero]
    intro x hx
    rw [h x hx]
    simpa using hCode

/- A code of an endpoint's faults is reported by its check. -/
theorem reported_eq (code : String) :
    s.reported code =
      (if "duplicate_type" = code then
          s.duplicateTypes.length else 0)
        + (if "invalid_string_encoded" = code then
          s.encodingFaults.length else 0)
        + (if "missing_extends_reference" = code then
          s.unknownParents.length else 0)
        + (if "circular_inheritance" = code then
          s.circularInheritance.length else 0)
        + (if "missing_type_reference" = code then
          s.danglingReferences.length else 0)
        + countOf code s.serviceFaults
        + (if "illegal_union" = code then
          s.unionFaults.length else 0) := by
  unfold reported validate
  simp only [countOf_append]
  rw [countOf_eq _ fun _ => code_of_mem_duplicateTypes,
    countOf_eq _ fun _ => code_of_mem_encodingFaults,
    countOf_eq _ fun _ => code_of_mem_unknownParents,
    countOf_eq _ fun _ => code_of_mem_circularInheritance,
    countOf_eq _ fun _ => code_of_mem_danglingReferences,
    countOf_eq _ fun _ => code_of_mem_unionFaults]

/- No endpoint has a fault of a code that is not theirs. -/
theorem countOf_serviceFaults_eq_zero
    (s : Schema)
    {code : String}
    (h : code ∉
      ["duplicate_endpoint", "invalid_fullname", "invalid_path",
        "missing_type_reference"]) :
    countOf code s.serviceFaults = 0 := by
  unfold countOf
  rw [List.countP_eq_zero]
  intro x hx hCode
  apply h
  rw [← of_decide_eq_true hCode]
  exact code_of_mem_serviceFaults hx

------------------------------------------------------------
-- Names
------------------------------------------------------------

theorem length_duplicatesIn (seen ids : List TypeName) :
    (duplicatesIn seen ids).length
        + (ids.toFinset \ seen.toFinset).card =
      ids.length := by
  induction ids generalizing seen with
  | nil => simp [duplicatesIn]
  | cons id rest ih =>
      have hRest := ih (id :: seen)
      rw [List.toFinset_cons] at hRest ⊢
      by_cases hSeen : id ∈ seen
      · have hSame : insert id seen.toFinset = seen.toFinset :=
          Finset.insert_eq_of_mem (by simpa using hSeen)
        rw [Finset.insert_sdiff_of_mem _ (by simpa using hSeen)]
        rw [hSame] at hRest
        simp [duplicatesIn, hSeen]
        omega
      · have hInsert :
            insert id rest.toFinset \ seen.toFinset =
              insert id
                (rest.toFinset \ insert id seen.toFinset) := by
          ext other
          simp only [Finset.mem_sdiff, Finset.mem_insert,
            List.mem_toFinset]
          by_cases hSame : other = id
          · simp [hSame, hSeen]
          · simp [hSame]
        rw [hInsert, Finset.card_insert_of_notMem (by simp)]
        simp [duplicatesIn, hSeen]
        omega

theorem reported_duplicateType :
    s.reported "duplicate_type" + s.names.toFinset.card =
      s.names.length := by
  have hServices :
      countOf "duplicate_type" s.serviceFaults = 0 :=
    s.countOf_serviceFaults_eq_zero (by decide)
  have hLength := length_duplicatesIn [] s.names
  rw [reported_eq]
  simpa [hServices, duplicateTypes] using hLength

------------------------------------------------------------
-- Parents
------------------------------------------------------------

theorem reported_unknownParent :
    {place | s.UnknownParent place}.encard =
      s.reported "missing_extends_reference" := by
  have hServices :
      countOf "missing_extends_reference" s.serviceFaults = 0 :=
    s.countOf_serviceFaults_eq_zero (by decide)
  have hType : ∀ t ∈ s.types,
      {i : Nat | ∃ p, t.parents[i]? = some p ∧ p ∉ s.names}.encard
        = (t.parents.countP fun p => decide (p ∉ s.names) : Nat) :=
    fun t _ => encard_positions
  have hPlaces : {place | s.UnknownParent place} =
      {p : Nat × Nat | ∃ t, s.types[p.1]? = some t ∧
        p.2 ∈ {i | ∃ p, t.parents[i]? = some p ∧ p ∉ s.names}} := by
    ext place
    constructor
    · rintro ⟨d, parent, hd, hParent, hName⟩
      exact ⟨.record d, hd, parent, hParent, hName⟩
    · rintro ⟨t, ht, parent, hParent, hName⟩
      cases t with
      | record d => exact ⟨d, parent, ht, hParent, hName⟩
      | _ => cases hParent
  have hLength : s.unknownParents.length =
      (s.types.map fun t =>
        t.parents.countP fun p => decide (p ∉ s.names)).sum := by
    unfold unknownParents
    rw [List.length_flatMap]
    congr 1
    apply List.map_congr_left
    intro t _
    cases t with
    | record d =>
        simp [WireType.parents, List.countP_eq_length_filter,
          ← contains_iff]
    | _ => rfl
  rw [hPlaces, encard_entries hType, ← hLength, reported_eq]
  simp [hServices]

------------------------------------------------------------
-- Places of Types
------------------------------------------------------------

theorem encard_bodies
    {S : WireType → Set (List Nat)}
    {n : WireType → Nat}
    (h : ∀ t, (S t).encard = n t)
    (e : Endpoint) :
    {p : BodyRole × List Nat |
        ∃ t, e.body? p.1 = some t ∧ p.2 ∈ S t}.encard =
      (((bodies e).map fun b => n b.2).sum : Nat) := by
  have hForms := encard_forms
    (f := fun place : List Nat => (BodyRole.request, place))
    (g := fun place : List Nat => (BodyRole.response, place))
    (fun _ _ h => (Prod.mk.inj h).2)
    (fun _ _ h => (Prod.mk.inj h).2)
    (fun _ _ h => nomatch h)
    (by
      rintro ⟨role, place⟩
      cases role with
      | request => exact .inl ⟨place, rfl⟩
      | response => exact .inr ⟨place, rfl⟩)
  rw [hForms]
  unfold bodies
  cases hRequest : e.request with
  | none => simp [Endpoint.body?, hRequest, h]
  | some t => simp [Endpoint.body?, hRequest, h]

/- Counts over named types and endpoints add up. -/
theorem encard_named
    {Q : Bool → WireType → Prop}
    {n : WireType → Nat}
    (h : ∀ t : WireType, (t.places Q false).encard = n t) :
    {place | s.IsNamed place.1
        ∧ ∃ b u, s.partAt? place = some (b, u) ∧ Q b u}.encard =
      ((s.types.map fun t =>
          if t.id?.isSome = true then n t else 0).sum
        + (s.services.map fun v => (v.endpoints.map fun e =>
          ((bodies e).map fun b => n b.2).sum).sum).sum : Nat) := by
  have hEntry : ∀ t ∈ s.types,
      {place | t.id?.isSome = true
          ∧ place ∈ t.places Q false}.encard =
        (if t.id?.isSome = true then n t else 0 : Nat) := by
    intro t _
    by_cases hId : t.id?.isSome = true
    · simp [hId, h]
    · simp [hId]
  have hService : ∀ v ∈ s.services,
      {p : Nat × BodyRole × List Nat |
          ∃ e, v.endpoints[p.1]? = some e ∧ p.2 ∈
            {q | ∃ t, e.body? q.1 = some t
              ∧ q.2 ∈ t.places Q false}}.encard =
        ((v.endpoints.map fun e =>
          ((bodies e).map fun b => n b.2).sum).sum : Nat) :=
    fun v _ => encard_entries fun e _ => encard_bodies h e
  rw [Nat.cast_add, ← encard_entries hEntry,
    ← encard_entries hService]
  rw [encard_forms
    (f := fun p : Nat × List Nat => (Site.entry p.1, p.2))
    (g := fun p : Nat × Nat × BodyRole × List Nat =>
      (Site.body p.1 p.2.1 p.2.2.1, p.2.2.2)) ?_ ?_ ?_ ?_]
  · congr 2
    · ext ⟨i, place⟩
      simp only [IsNamed, partAt?, typeAt?, WireType.places,
        Set.mem_ofPred_eq, Option.bind_eq_some_iff]
      constructor
      · rintro ⟨⟨t, ht, hId⟩, b, u, ⟨t', ht', hu⟩, hQ⟩
        cases ht.symm.trans ht'
        exact ⟨t, ht, hId, b, u, hu, hQ⟩
      · rintro ⟨t, ht, hId, b, u, hu, hQ⟩
        exact ⟨⟨t, ht, hId⟩, b, u, ⟨t, ht, hu⟩, hQ⟩
    · ext ⟨i, j, role, place⟩
      simp only [IsNamed, partAt?, typeAt?, WireType.places,
        Set.mem_ofPred_eq, Option.bind_eq_some_iff, true_and]
      constructor
      · rintro ⟨b, u, ⟨t, ⟨v, hv, e, he, ht⟩, hu⟩, hQ⟩
        exact ⟨v, hv, e, he, t, ht, b, u, hu, hQ⟩
      · rintro ⟨v, hv, e, he, t, ht, b, u, hu, hQ⟩
        exact ⟨b, u, ⟨t, ⟨v, hv, e, he, ht⟩, hu⟩, hQ⟩
  · rintro ⟨i, a⟩ ⟨j, b⟩ hSame
    simpa using hSame
  · rintro ⟨i, j, role, a⟩ ⟨i', j', role', b⟩ hSame
    simpa [and_assoc] using hSame
  · rintro ⟨i, a⟩ ⟨j, k, role, b⟩ hSame
    simp at hSame
  · rintro ⟨site, place⟩
    cases site with
    | entry i => exact .inl ⟨(i, place), rfl⟩
    | body i j role => exact .inr ⟨(i, j, role, place), rfl⟩

theorem length_danglingIn (t : WireType) :
    (s.danglingIn t).length =
      t.references.countP fun id => decide (id ∉ s.names) := by
  unfold danglingIn
  rw [List.countP_eq_length_filter]
  congr 2
  ext id
  simp [← contains_iff]

------------------------------------------------------------
-- Endpoints
------------------------------------------------------------

theorem countOf_endpointFaults
    (code service : String)
    (e : Endpoint) :
    countOf code (s.endpointFaults service e) =
      (if "invalid_fullname" = code
          ∧ e.fullName ≠ service ++ "." ++ e.name then 1 else 0)
        + (if "invalid_path" = code
          ∧ e.path ≠ "/" ++ service ++ "/" ++ e.name then 1
          else 0)
        + (if "missing_type_reference" = code then
          ((bodies e).map fun b => b.2.references.countP
            fun id => decide (id ∉ s.names)).sum else 0) := by
  have hDangling : ∀ b : BodyRole × WireType,
      countOf code ((s.danglingIn b.2).map
          (Violation.unknownBodyReference e.fullName b.1)) =
        if "missing_type_reference" = code then
          b.2.references.countP fun id => decide (id ∉ s.names)
          else 0 := by
    intro b
    rw [countOf_eq "missing_type_reference", List.length_map,
      length_danglingIn]
    intro x hx
    rcases List.mem_map.mp hx with ⟨id, -, rfl⟩
    rfl
  unfold endpointFaults
  dsimp only
  rw [countOf_append, countOf_append, countOf_flatMap,
    countOf_unless, countOf_unless]
  simp only [hDangling]
  congr 1
  by_cases hCode : "missing_type_reference" = code
  · simp only [if_pos hCode]
  · simp [hCode]

/- The faults other than repetition, endpoint by endpoint. -/
theorem countOf_endpointsFaults
    {code : String}
    (hCode : "duplicate_endpoint" ≠ code)
    (service : String)
    (seen : List String)
    (es : List Endpoint) :
    countOf code (s.endpointsFaults service seen es) =
      (es.map fun e =>
        countOf code (s.endpointFaults service e)).sum := by
  induction es generalizing seen with
  | nil => rfl
  | cons e rest ih =>
      rw [endpointsFaults, countOf_append, countOf_append, ih,
        List.map_cons, List.sum_cons]
      by_cases hSeen : e.name ∈ seen
      · simp [hSeen, Violation.code, hCode]
      · simp [hSeen]

theorem countOf_serviceFaults
    (s : Schema)
    {code : String}
    (hCode : "duplicate_endpoint" ≠ code) :
    countOf code s.serviceFaults =
      (s.services.map fun v => (v.endpoints.map fun e =>
        countOf code (s.endpointFaults v.name e)).sum).sum := by
  unfold serviceFaults
  rw [countOf_flatMap]
  simp only [countOf_endpointsFaults hCode]

/- The endpoints that something is wrong with, one by one. -/
theorem encard_endpoints
    (code : String)
    {P : Service → Endpoint → Prop}
    [∀ v e, Decidable (P v e)]
    (hCode : "duplicate_endpoint" ≠ code)
    (h : ∀ v e, countOf code (s.endpointFaults v.name e) =
      if P v e then 1 else 0) :
    {place | ∃ v e, s.HasEndpoint place v e ∧ P v e}.encard =
      countOf code s.serviceFaults := by
  have hService : ∀ v ∈ s.services,
      {j : Nat | ∃ e, v.endpoints[j]? = some e ∧ P v e}.encard =
        ((v.endpoints.map fun e =>
          if P v e then 1 else 0).sum : Nat) := by
    intro v _
    rw [encard_positions, countP_eq_sum]
    simp only [decide_eq_true_eq]
  have hPlaces :
      {place | ∃ v e, s.HasEndpoint place v e ∧ P v e} =
        {p : Nat × Nat | ∃ v, s.services[p.1]? = some v ∧
          p.2 ∈ {j | ∃ e, v.endpoints[j]? = some e ∧ P v e}} := by
    ext place
    constructor
    · rintro ⟨v, e, ⟨hv, he⟩, hP⟩
      exact ⟨v, hv, e, he, hP⟩
    · rintro ⟨v, hv, e, he, hP⟩
      exact ⟨v, e, ⟨hv, he⟩, hP⟩
  rw [hPlaces, encard_entries hService,
    s.countOf_serviceFaults hCode]
  simp only [h]

/- The endpoints that repeat a name, one by one. -/
theorem encard_repeated
    (service : String)
    (seen : List String)
    (es : List Endpoint) :
    {j : Nat | ∃ e, es[j]? = some e
        ∧ (e.name ∈ seen
          ∨ ∃ f ∈ es.take j, f.name = e.name)}.encard =
      countOf "duplicate_endpoint"
        (s.endpointsFaults service seen es) := by
  induction es generalizing seen with
  | nil => simp [endpointsFaults]
  | cons e rest ih =>
      have hFaults :
          countOf "duplicate_endpoint"
            (s.endpointFaults service e) = 0 := by
        rw [countOf_endpointFaults]
        simp
      rw [endpointsFaults, countOf_append, countOf_append,
        hFaults, Nat.add_zero, Nat.cast_add, ← ih,
        encard_numbers]
      congr 1
      · by_cases hSeen : e.name ∈ seen
        · simp [hSeen, Violation.code]
        · simp [hSeen]
      · congr 1
        ext j
        simp only [List.getElem?_cons_succ, List.take_succ_cons,
          List.mem_cons, Set.mem_ofPred_eq, exists_eq_or_imp,
          eq_comm (a := e.name), ← or_assoc,
          or_comm (b := _ ∈ seen)]

------------------------------------------------------------
-- Reports
------------------------------------------------------------

theorem reported_dangling :
    {place | s.IsNamed place.1 ∧ s.Dangles place}.encard =
      s.reported "missing_type_reference" := by
  have hReference : ∀ place, s.Dangles place ↔
      ∃ b u, s.partAt? place = some (b, u)
        ∧ ∃ id, u = .reference id ∧ id ∉ s.names := by
    intro place
    constructor
    · rintro ⟨b, id, hPart, hName⟩
      exact ⟨b, _, hPart, id, rfl, hName⟩
    · rintro ⟨b, _, hPart, id, rfl, hName⟩
      exact ⟨b, id, hPart, hName⟩
  have hLength : s.danglingReferences.length =
      (s.types.map fun t =>
        if t.id?.isSome = true then t.references.countP
          fun id => decide (id ∉ s.names) else 0).sum := by
    unfold danglingReferences
    rw [List.length_flatMap]
    congr 1
    apply List.map_congr_left
    intro t _
    cases t.id? with
    | none => rfl
    | some owner =>
        rw [List.length_map, length_danglingIn]
        rfl
  have hServices :=
    s.countOf_serviceFaults
      (show "duplicate_endpoint" ≠ "missing_type_reference" by
        decide)
  simp only [hReference]
  rw [encard_named WireType.encard_references, reported_eq]
  simp only [countOf_endpointFaults] at hServices
  simp [hLength, hServices]

theorem reported_strayUnion :
    {place | s.IsNamed place.1 ∧ s.StrayUnion place}.encard =
      s.reported "illegal_union" := by
  have hServices :
      countOf "illegal_union" s.serviceFaults = 0 :=
    s.countOf_serviceFaults_eq_zero (by decide)
  have hUnion : ∀ place, s.StrayUnion place ↔
      ∃ b u, s.partAt? place = some (b, u)
        ∧ b = false ∧ ∃ ts, u = .union ts := by
    intro place
    constructor
    · rintro ⟨ts, hPart⟩
      exact ⟨false, _, hPart, rfl, ts, rfl⟩
    · rintro ⟨_, _, hPart, rfl, ts, rfl⟩
      exact ⟨ts, hPart⟩
  have hLength : s.unionFaults.length =
      (s.types.map fun t =>
          if t.id?.isSome = true then t.strayUnions false
            else 0).sum
        + (s.services.map fun v => (v.endpoints.map fun e =>
          ((bodies e).map fun b =>
            b.2.strayUnions false).sum).sum).sum := by
    have hBodies : ∀ e : Endpoint,
        (bodies e).foldl (fun n b => n + b.2.strayUnions false) 0
          = ((bodies e).map fun b => b.2.strayUnions false).sum := by
      intro e
      unfold bodies
      cases e.request with
      | none => simp
      | some t => simp
    unfold unionFaults
    dsimp only
    rw [List.length_append, List.flatMap_assoc]
    congr 1
    · rw [List.length_flatMap]
      congr 1
      apply List.map_congr_left
      intro t _
      cases t.id? with
      | none => rfl
      | some owner => exact List.length_replicate
    · simp only [List.length_flatMap, List.length_replicate,
        hBodies]
  simp only [hUnion]
  rw [encard_named WireType.encard_strayUnions, ← hLength,
    reported_eq]
  simp [hServices]

theorem reported_repeats :
    {place | s.Repeats place}.encard =
      s.reported "duplicate_endpoint" := by
  have hService : ∀ v ∈ s.services,
      {j : Nat | ∃ e, v.endpoints[j]? = some e
          ∧ (e.name ∈ ([] : List String)
            ∨ ∃ f ∈ v.endpoints.take j, f.name = e.name)}.encard =
        (countOf "duplicate_endpoint"
          (s.endpointsFaults v.name [] v.endpoints) : Nat) :=
    fun v _ => encard_repeated v.name [] v.endpoints
  have hPlaces : {place | s.Repeats place} =
      {p : Nat × Nat | ∃ v, s.services[p.1]? = some v ∧ p.2 ∈
        {j | ∃ e, v.endpoints[j]? = some e
          ∧ (e.name ∈ ([] : List String)
            ∨ ∃ f ∈ v.endpoints.take j, f.name = e.name)}} := by
    ext place
    constructor
    · rintro ⟨v, e, ⟨hv, he⟩, hSame⟩
      exact ⟨v, hv, e, he, .inr hSame⟩
    · rintro ⟨v, hv, e, he, hName | hSame⟩
      · cases hName
      · exact ⟨v, e, ⟨hv, he⟩, hSame⟩
  have hFaults :
      countOf "duplicate_endpoint" s.serviceFaults =
        (s.services.map fun v => countOf "duplicate_endpoint"
          (s.endpointsFaults v.name [] v.endpoints)).sum :=
    countOf_flatMap ..
  rw [hPlaces, encard_entries hService, ← hFaults, reported_eq]
  simp

theorem reported_misnamed :
    {place | s.Misnamed place}.encard =
      s.reported "invalid_fullname" := by
  unfold Misnamed
  rw [encard_endpoints "invalid_fullname" (by decide),
    reported_eq]
  · simp
  · intro v e
    simp [countOf_endpointFaults]

theorem reported_misplaced :
    {place | s.Misplaced place}.encard =
      s.reported "invalid_path" := by
  unfold Misplaced
  rw [encard_endpoints "invalid_path" (by decide), reported_eq]
  · simp
  · intro v e
    simp [countOf_endpointFaults]

------------------------------------------------------------
-- All Checks
------------------------------------------------------------

/-
  A validation reports everything that is wrong, each time
  once: for every name as many repetitions as there are
  declarations beyond the first, and for every other kind of
  fault as many violations as there are places with it.
-/
theorem validate_collects (s : Schema) :
    s.reported "duplicate_type" + s.names.toFinset.card =
        s.names.length
      ∧ {place | s.UnknownParent place}.encard =
        s.reported "missing_extends_reference"
      ∧ {place | s.IsNamed place.1 ∧ s.Dangles place}.encard =
        s.reported "missing_type_reference"
      ∧ {place | s.IsNamed place.1 ∧ s.StrayUnion place}.encard =
        s.reported "illegal_union"
      ∧ {place | s.Repeats place}.encard =
        s.reported "duplicate_endpoint"
      ∧ {place | s.Misnamed place}.encard =
        s.reported "invalid_fullname"
      ∧ {place | s.Misplaced place}.encard =
        s.reported "invalid_path" :=
  ⟨reported_duplicateType, reported_unknownParent,
    reported_dangling, reported_strayUnion, reported_repeats,
    reported_misnamed, reported_misplaced⟩

/- A schema with an entry that has no name. -/
def looseUnion : Schema :=
  { types := [.union [.base .string 0]] }

/- A union in an entry without a name is not reported. -/
theorem strayUnion_not_reported :
    {place | looseUnion.StrayUnion place}.encard ≠
      looseUnion.reported "illegal_union" := by
  have hFound : (Site.entry 0, []) ∈
      {place | looseUnion.StrayUnion place} :=
    ⟨[.base .string 0], rfl⟩
  have hNone : looseUnion.reported "illegal_union" = 0 := by
    decide
  rw [hNone, Nat.cast_zero, Set.encard_ne_zero]
  exact ⟨_, hFound⟩

end Schema

end WireSchema
