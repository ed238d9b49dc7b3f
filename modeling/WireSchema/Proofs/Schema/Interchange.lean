import WireSchema.Proofs.Schema.Forms

/-
  Schemas are read back from their documents.

  Key definitions include:
    * `Endpoint.Fits`, `Schema.Fits`
    * `Schema.ofDocument_document`
-/

namespace WireSchema

open Json (given givenIf)

------------------------------------------------------------
-- Services
------------------------------------------------------------

/- All numbers in what an endpoint takes and answers fit. -/
structure Endpoint.Fits (e : Endpoint) : Prop where
  request : ∀ t ∈ e.request, t.Fits
  response : e.response.Fits

namespace Endpoint

def given (e : Endpoint) : List (String × Option Json) :=
  [("name", some (.text e.name)),
    ("fullName", some (.text e.fullName)),
    ("httpVerb", some (.text e.verb)),
    ("path", some (.text e.path)),
    ("request", e.request.map WireType.toJson),
    ("response", some e.response.toJson),
    ("doc", givenIf (!e.doc.isEmpty) e.doc.toJson)]

theorem toJson_eq (e : Endpoint) :
    e.toJson = .object (Json.given e.given) := by
  unfold toJson Doc.asMember
  rw [memberOf?_eq, memberIf_eq]
  simp only [given, Json.given_cons_cons, Json.given_some,
    List.append_assoc, List.cons_append, List.nil_append]

theorem ofJson?_toJson
    {e : Endpoint}
    (h : e.Fits)
    (hDepth : e.toJson.depth ≤ Json.maxDepth) :
    ofJson? e.toJson = some e := by
  rw [toJson_eq] at hDepth ⊢
  rcases Json.view?_given e.given
    ["name", "fullName", "httpVerb", "path", "request",
      "response", "doc"] rfl (by decide)
    with ⟨v, hView, hGives⟩
  have hName : v.required? "name" Json.text? = some e.name :=
    hGives.required? (j := .text e.name) (by simp [given])
  have hFullName : v.required? "fullName" Json.text? =
      some e.fullName :=
    hGives.required? (j := .text e.fullName) (by simp [given])
  have hVerb : v.required? "httpVerb" Json.text? = some e.verb :=
    hGives.required? (j := .text e.verb) (by simp [given])
  have hPath : v.required? "path" Json.text? = some e.path :=
    hGives.required? (j := .text e.path) (by simp [given])
  have hRequest : v.optional? "request" WireType.ofJson? =
      some e.request := by
    apply hGives.optional? (w := WireType.toJson)
      (by simp [given])
    · intro t hNull
      rw [WireType.toJson_eq] at hNull
      cases hNull
    · intro t ht
      have hGiven : ("request", some t.toJson) ∈ e.given := by
        simp [given, Option.mem_def.mp ht]
      have hLess := Json.depth_lt_of_given hGiven
      exact WireType.ofJson?_toJson (h.request t ht)
        (hLess.le.trans hDepth)
  have hResponse : v.required? "response" WireType.ofJson? =
      some e.response := by
    have hGiven :
        ("response", some e.response.toJson) ∈ e.given := by
      simp [given]
    have hLess := Json.depth_lt_of_given hGiven
    rw [hGives.required? hGiven]
    exact WireType.ofJson?_toJson h.response
      (hLess.le.trans hDepth)
  have hDoc : v.orElse? "doc" {} Doc.ofJson? = some e.doc :=
    hGives.doc (by simp [given])
  unfold ofJson?
  rw [hView]
  simp only [Option.bind_eq_bind, Option.bind_some, hName,
    hFullName, hVerb, hPath, hRequest, hResponse, hDoc]

theorem prints_toJson
    {e : Endpoint}
    (h : e.Fits) : Json.Prints e.toJson := by
  rw [toJson_eq]
  apply Json.prints_given
  simp only [given, List.forall_mem_cons]
  exact ⟨Json.prints_some (.text _), Json.prints_some (.text _),
    Json.prints_some (.text _), Json.prints_some (.text _),
    Json.prints_map fun t ht =>
      WireType.prints_toJson (h.request t ht),
    Json.prints_some (WireType.prints_toJson h.response),
    Json.prints_if e.doc.prints_toJson, nofun⟩

end Endpoint

namespace Service

def given (s : Service) : List (String × Option Json) :=
  [("name", some (.text s.name)),
    ("endpoints", some (.array (s.endpoints.map Endpoint.toJson))),
    ("doc", givenIf (!s.doc.isEmpty) s.doc.toJson)]

theorem toJson_eq (s : Service) :
    s.toJson = .object (Json.given s.given) := by
  unfold toJson Doc.asMember
  rw [memberIf_eq]
  rfl

theorem ofJson?_toJson
    {s : Service}
    (h : ∀ e ∈ s.endpoints, e.Fits)
    (hDepth : s.toJson.depth ≤ Json.maxDepth) :
    ofJson? s.toJson = some s := by
  rw [toJson_eq] at hDepth ⊢
  rcases Json.view?_given s.given
    ["name", "endpoints", "doc"] rfl (by decide)
    with ⟨v, hView, hGives⟩
  have hName : v.required? "name" Json.text? = some s.name :=
    hGives.required? (j := .text s.name) (by simp [given])
  have hEndpoints :
      v.required? "endpoints" (Json.list? Endpoint.ofJson?) =
        some s.endpoints := by
    have hGiven :
        ("endpoints",
          some (.array (s.endpoints.map Endpoint.toJson)))
          ∈ s.given := by
      simp [given]
    have hList := Json.depth_lt_of_given hGiven
    rw [hGives.required? hGiven]
    apply Json.list?_map
    intro e he
    have hItem := Json.depth_lt_of_item
      (List.mem_map_of_mem (f := Endpoint.toJson) he)
    exact Endpoint.ofJson?_toJson (h e he)
      ((hItem.trans hList).le.trans hDepth)
  have hDoc : v.orElse? "doc" {} Doc.ofJson? = some s.doc :=
    hGives.doc (by simp [given])
  unfold ofJson?
  rw [hView]
  simp only [Option.bind_eq_bind, Option.bind_some, hName,
    hEndpoints, hDoc]

theorem prints_toJson
    {s : Service}
    (h : ∀ e ∈ s.endpoints, e.Fits) : Json.Prints s.toJson := by
  rw [toJson_eq]
  apply Json.prints_given
  simp only [given, List.forall_mem_cons]
  exact ⟨Json.prints_some (.text _),
    Json.prints_some (Json.prints_list fun e he =>
      Endpoint.prints_toJson (h e he)),
    Json.prints_if s.doc.prints_toJson, nofun⟩

end Service

------------------------------------------------------------
-- Warnings
------------------------------------------------------------

namespace Warning

def given (w : Warning) : List (String × Option Json) :=
  [("code", some (.text w.kind.code)),
    ("message", some (.text w.message)),
    ("location", w.place.map SourcePlace.toJson),
    ("typeName", w.typeName.map .text)]

theorem toJson_eq (w : Warning) :
    w.toJson = .object (Json.given w.given) := by
  unfold toJson members
  rw [memberOf?_eq, memberOf?_eq]
  simp only [given, Json.given_cons_cons, Json.given_some,
    List.cons_append, List.nil_append]

theorem ofJson?_toJson
    {w : Warning}
    (h : ∀ p ∈ w.place, p.Fits) : ofJson? w.toJson = some w := by
  rw [toJson_eq]
  rcases Json.view?_given w.given
    ["code", "message", "location", "typeName"]
    rfl (by decide)
    with ⟨v, hView, hGives⟩
  have hKind : v.required? "code" WarningKind.ofJson? =
      some w.kind := by
    rw [hGives.required? (j := .text w.kind.code)
      (by simp [given])]
    exact WarningKind.ofCode?_code w.kind
  have hMessage : v.required? "message" Json.text? =
      some w.message :=
    hGives.required? (j := .text w.message) (by simp [given])
  have hPlace : v.optional? "location" SourcePlace.ofJson? =
      some w.place :=
    hGives.place (by simp [given]) h
  have hType : v.optional? "typeName" Json.text? =
      some w.typeName :=
    hGives.optional? (w := .text) (by simp [given]) nofun
      fun _ _ => rfl
  unfold ofJson?
  rw [hView]
  simp only [Option.bind_eq_bind, Option.bind_some, hKind,
    hMessage, hPlace, hType]

theorem prints_toJson
    {w : Warning}
    (h : ∀ p ∈ w.place, p.Fits) : Json.Prints w.toJson := by
  rw [toJson_eq]
  apply Json.prints_given
  simp only [given, List.forall_mem_cons]
  exact ⟨Json.prints_some (.text _), Json.prints_some (.text _),
    Json.prints_map fun p hp => SourcePlace.prints_toJson (h p hp),
    Json.prints_map fun _ _ => .text _, nofun⟩

end Warning

------------------------------------------------------------
-- Schemas
------------------------------------------------------------

namespace Schema

/- All numbers in a schema fit their words. -/
structure Fits (s : Schema) : Prop where
  types : ∀ t ∈ s.types, t.Fits
  sent : ∀ v ∈ s.services, ∀ e ∈ v.endpoints, e.Fits
  places : ∀ w ∈ s.warnings, ∀ p ∈ w.place, p.Fits

def given (s : Schema) : List (String × Option Json) :=
  [("version", some (.nat s.version)),
    ("types", some (.array (s.types.map WireType.toJson))),
    ("services", some (.array (s.services.map Service.toJson))),
    ("warnings", some (.array (s.warnings.map Warning.toJson)))]

theorem toJson_eq (s : Schema) :
    s.toJson = .object (Json.given s.given) :=
  rfl

variable {s : Schema}

/- What stands in a list of a schema nests less deeply. -/
theorem depth_le_of_list
    {name : String}
    {items : List Json}
    {v : Json}
    (hDepth : s.toJson.depth ≤ Json.maxDepth)
    (hMem : (name, some (.array items)) ∈ s.given)
    (hItem : v ∈ items) : v.depth ≤ Json.maxDepth := by
  have hList := Json.depth_lt_of_given hMem
  have hLess := (Json.depth_lt_of_item hItem).trans hList
  rw [toJson_eq] at hDepth
  exact hLess.le.trans hDepth

/- A schema is read back from its value. -/
theorem ofJson?_toJson
    (hVersion : s.version ≤ maxHalfWord)
    (hFits : s.Fits)
    (hDepth : s.toJson.depth ≤ Json.maxDepth) :
    ofJson? s.toJson = some s := by
  rcases Json.view?_given s.given
    ["version", "types", "services", "warnings"]
    rfl (by decide)
    with ⟨v, hView, hGives⟩
  have hNumber :
      v.required? "version" (Json.natUpTo? maxHalfWord) =
        some s.version := by
    rw [hGives.required? (j := .nat s.version) (by simp [given])]
    exact Json.natUpTo?_nat hVersion
  have hTypes :
      v.required? "types" (Json.list? WireType.ofJson?) =
        some s.types := by
    have hGiven :
        ("types", some (.array (s.types.map WireType.toJson)))
          ∈ s.given := by
      simp [given]
    rw [hGives.required? hGiven]
    apply Json.list?_map
    intro t ht
    have hLess :=
      depth_le_of_list hDepth hGiven (List.mem_map_of_mem ht)
    exact WireType.ofJson?_toJson (hFits.types t ht) hLess
  have hServices :
      v.orElse? "services" [] (Json.list? Service.ofJson?) =
        some s.services := by
    have hGiven :
        ("services", some (.array (s.services.map Service.toJson)))
          ∈ s.given := by
      simp [given]
    rw [hGives.orElse? hGiven]
    apply Json.list?_map
    intro u hu
    have hLess :=
      depth_le_of_list hDepth hGiven (List.mem_map_of_mem hu)
    exact Service.ofJson?_toJson (hFits.sent u hu) hLess
  have hWarnings :
      v.orElse? "warnings" [] (Json.list? Warning.ofJson?) =
        some s.warnings := by
    rw [hGives.orElse?
      (j := .array (s.warnings.map Warning.toJson))
      (by simp [given])]
    apply Json.list?_map
    intro w hw
    exact Warning.ofJson?_toJson (hFits.places w hw)
  rw [toJson_eq]
  unfold ofJson?
  rw [hView]
  simp only [Option.bind_eq_bind, Option.bind_some, hNumber,
    hTypes, hServices, hWarnings]

theorem prints_toJson
    (hVersion : s.version ≤ maxHalfWord)
    (hFits : s.Fits) : Json.Prints s.toJson := by
  have hHalf : maxHalfWord ≤ maxWord := by decide
  rw [toJson_eq]
  apply Json.prints_given
  simp only [given, List.forall_mem_cons]
  exact ⟨Json.prints_some (Json.prints_nat (hVersion.trans hHalf)),
    Json.prints_some (Json.prints_list fun t ht =>
      WireType.prints_toJson (hFits.types t ht)),
    Json.prints_some (Json.prints_list fun v hv =>
      Service.prints_toJson (hFits.sent v hv)),
    Json.prints_some (Json.prints_list fun w hw =>
      Warning.prints_toJson (hFits.places w hw)), nofun⟩

/-
  A schema of the supported version is read back from the
  document it is written to, unless it nests too deeply, or a
  number does not fit its word, or a float is not read back
  from its text.
-/
theorem ofDocument_document
    (hVersion : s.version = schemaVersion)
    (hFits : s.Fits)
    (hDepth : s.toJson.depth ≤ Json.maxDepth) :
    ofDocument s.document = .ok s := by
  have hWord : s.version ≤ maxHalfWord := by
    rw [hVersion]
    decide
  have hParse := Json.parse?_pretty (prints_toJson hWord hFits)
    hDepth
  unfold ofDocument document
  rw [hParse, Option.bind_some, ofJson?_toJson hWord hFits hDepth]
  exact if_pos hVersion

/- One and a half, and a number with an exponent in its text. -/
def sampleFloats : List Binary64 :=
  [.ofRatio false 3 2, .ofRatio true (tenTo 30) 1]

/- A schema with types of all forms. -/
def sampleSchema : Schema :=
  let box : TypeName := { name := "Box", space := "m" }
  let level : TypeName := { name := "Level", space := "m" }
  let bound : TypeParam WireType :=
    { name := "T"
      bound := some (.union [.base .int 64, .base .string 0]) }
  let place : SourcePlace :=
    { file := "m/box.go", line := 3, column := 6 }
  { types :=
      [.record
          { id := box
            params := [bound]
            fields :=
              [{ name := "Items"
                 type := .array (.param { name := "T" }) 4
                 wireName := "items"
                 optional := true
                 rules := "max=4" },
                { name := "Next"
                  type := .pointer (.reference box)
                  wireName := "next" }]
            parents := [{ name := "Base", space := "m" }]
            doc := { summary := "A \"box\".\n" }
            source := some place },
        .synonym
          { id := { name := "Levels", space := "" }
            target := .map (.base .string 0) (.reference level) },
        .enum
          { id := level
            members :=
              [{ name := "Low", value := .int (-1) },
                { name := "Name", value := .text "\x07" }]
              ++ sampleFloats.map fun x =>
                { name := "High", value := .float x } }]
    services :=
      [{ name := "Boxes"
         endpoints :=
           [{ name := "Get"
              fullName := "Boxes.Get"
              verb := "POST"
              path := "/Boxes/Get"
              request := some (.reference level)
              response := .nullAnswer }] }]
    warnings :=
      [{ kind := .memberSkipped
         message := "skipped"
         place := some place
         typeName := some "Level" }] }

theorem sampleSchema_fits : sampleSchema.Fits := by
  have hFloats : ∀ x ∈ sampleFloats,
      (JsonNumber.float x).ReadsBack := by
    unfold JsonNumber.ReadsBack
    decide +kernel
  have hPlace : SourcePlace.Fits
      { file := "m/box.go", line := 3, column := 6 } :=
    ⟨by decide, by decide⟩
  have hBits : 64 ≤ Json.maxByte ∧ 4 ≤ maxWord := by decide
  have hInt : minInt64 ≤ -1 ∧ -1 ≤ maxInt64 := by decide
  refine ⟨?types, ?sent, ?places⟩
  case types =>
    simp only [sampleSchema, WireType.Fits, WireType.OwnFits,
      Literal.Fits]
    simpa [WireType.boundWalk, hPlace, hBits, hInt] using hFloats
  case sent =>
    rintro v hv e he
    rw [List.mem_singleton.mp hv] at he
    rw [List.mem_singleton.mp he]
    constructor
    · simp [WireType.Fits, WireType.OwnFits]
    · simp [WireType.Fits, WireType.OwnFits, WireType.nullAnswer]
  case places => simpa [sampleSchema] using hPlace

theorem ofDocument_sampleSchema :
    sampleSchema.version = schemaVersion
      ∧ sampleSchema.Fits
      ∧ sampleSchema.toJson.depth ≤ Json.maxDepth
      ∧ ofDocument sampleSchema.document = .ok sampleSchema := by
  have hDepth : sampleSchema.toJson.depth ≤ Json.maxDepth := by
    decide +kernel
  exact ⟨rfl, sampleSchema_fits, hDepth,
    ofDocument_document rfl sampleSchema_fits hDepth⟩

end Schema

end WireSchema
