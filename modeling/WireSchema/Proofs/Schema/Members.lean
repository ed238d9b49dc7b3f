import WireSchema.Proofs.Json.RoundTrip
import WireSchema.Proofs.Json.View
import WireSchema.Schema.Reader
import WireSchema.Schema.Writer

/-
  Plain records are read back from what they are written to.

  Every record is written as the members that it gives, and
  what it leaves out has its default.  Numbers have to fit the
  words that they are held in.

  Key definitions include:
    * `SourcePlace.Fits`, `Literal.Fits`
    * `Doc.ofJson?_toJson`, `EnumMember.ofJson?_toJson`
-/

namespace WireSchema

open Json (given givenIf)

------------------------------------------------------------
-- Members
------------------------------------------------------------

theorem memberIf_eq (present : Bool) (name : String) (v : Json) :
    memberIf present name v = given [(name, givenIf present v)] := by
  cases present with
  | false => rfl
  | true => rfl

theorem memberOf?_eq (name : String) (o : Option Json) :
    memberOf? name o = given [(name, o)] := by
  cases o with
  | none => rfl
  | some v => rfl

/- A record that can be read back, given what it gives. -/
theorem Json.prints_given
    {ms : List (String × Option Json)}
    (h : ∀ m ∈ ms, ∀ v ∈ m.2, Prints v) :
    Prints (.object (given ms)) := by
  apply Prints.object
  intro m hm
  exact h _ (mem_given.mp hm) m.2 rfl

theorem Json.prints_some
    {v : Json}
    (h : Prints v) : ∀ w ∈ some v, Prints w := by
  rintro _ ⟨⟩
  exact h

theorem Json.prints_if
    {present : Bool}
    {v : Json}
    (h : Prints v) : ∀ w ∈ givenIf present v, Prints w := by
  cases present with
  | false => exact nofun
  | true => exact prints_some h

theorem Json.prints_map
    {α : Type}
    {write : α → Json}
    {x : Option α}
    (h : ∀ y ∈ x, Prints (write y)) :
    ∀ w ∈ x.map write, Prints w := by
  intro w hw
  rcases Option.map_eq_some_iff.mp hw with ⟨y, rfl, rfl⟩
  exact h y rfl

theorem Json.prints_list
    {α : Type}
    {write : α → Json}
    {xs : List α}
    (h : ∀ x ∈ xs, Prints (write x)) :
    Prints (.array (xs.map write)) := by
  apply Prints.array
  intro v hv
  rcases List.mem_map.mp hv with ⟨x, hx, rfl⟩
  exact h x hx

theorem Json.prints_nat
    {n : Nat}
    (h : n ≤ maxWord) : Prints (.nat n) :=
  .number (readNumeral?_natural h)

theorem Json.natUpTo?_nat
    {n bound : Nat}
    (h : n ≤ bound) : natUpTo? bound (.nat n) = some n :=
  if_pos h

/- What is given stands deeper than the record. -/
theorem Json.depth_lt_of_given
    {ms : List (String × Option Json)}
    {name : String}
    {v : Json}
    (hMem : (name, some v) ∈ ms) :
    v.depth < (Json.object (given ms)).depth := by
  have hLess := Json.depth_object_le_iff
    (n := Json.depthMembers (given ms)).mp
    (by rw [Json.depth]) (name, v) (Json.mem_given.mpr hMem)
  rw [Json.depth]
  exact Nat.lt_succ_of_le hLess

theorem Json.depth_lt_of_item
    {items : List Json}
    {v : Json}
    (hMem : v ∈ items) : v.depth < (Json.array items).depth := by
  have hLess := Json.depth_array_le_iff
    (n := Json.depthItems items).mp
    (by rw [Json.depth]) v hMem
  rw [Json.depth]
  exact Nat.lt_succ_of_le hLess

------------------------------------------------------------
-- Names
------------------------------------------------------------

namespace TypeName

def given (id : TypeName) : List (String × Option Json) :=
  [("name", some (.text id.name)),
    ("namespace", some (.text id.space))]

theorem members_eq (id : TypeName) :
    id.members = Json.given id.given :=
  rfl

theorem ofJson?_members (id : TypeName) :
    ofJson? (.object id.members) = some id := by
  rcases Json.view?_given id.given
    ["name", "namespace"] rfl (by decide)
    with ⟨v, hView, hGives⟩
  have hName : v.required? "name" Json.text? = some id.name :=
    hGives.required? (j := .text id.name) (by simp [given])
  have hSpace : v.orElse? "namespace" "" Json.text? =
      some id.space :=
    hGives.orElse? (j := .text id.space) (by simp [given])
  rw [members_eq]
  unfold ofJson?
  rw [hView]
  simp only [Option.bind_eq_bind, Option.bind_some, hName, hSpace]

theorem prints_members (id : TypeName) :
    Json.Prints (.object id.members) := by
  rw [members_eq]
  apply Json.prints_given
  simp [given, Json.Prints.text]

end TypeName

------------------------------------------------------------
-- Documentation
------------------------------------------------------------

namespace Doc

def given (d : Doc) : List (String × Option Json) :=
  [("summary", some (.text d.summary)),
    ("body", some (.text d.body)),
    ("deprecated", d.deprecated.map .text)]

theorem toJson_eq (d : Doc) :
    d.toJson = .object (Json.given d.given) := by
  rcases d with ⟨summary, body, _ | deprecated⟩
  · rfl
  · rfl

theorem ofJson?_toJson (d : Doc) : ofJson? d.toJson = some d := by
  rcases Json.view?_given d.given
    ["summary", "body", "deprecated"] rfl (by decide)
    with ⟨v, hView, hGives⟩
  have hSummary : v.orElse? "summary" "" Json.text? =
      some d.summary :=
    hGives.orElse? (j := .text d.summary) (by simp [given])
  have hBody : v.orElse? "body" "" Json.text? = some d.body :=
    hGives.orElse? (j := .text d.body) (by simp [given])
  have hDeprecated : v.optional? "deprecated" Json.text? =
      some d.deprecated :=
    hGives.optional? (w := .text) (by simp [given]) nofun
      fun _ _ => rfl
  rw [toJson_eq]
  unfold ofJson?
  rw [hView]
  simp only [Option.bind_eq_bind, Option.bind_some, hSummary,
    hBody, hDeprecated]

theorem prints_toJson (d : Doc) : Json.Prints d.toJson := by
  rw [toJson_eq]
  apply Json.prints_given
  simp [given, Json.Prints.text]

/- Documentation that says nothing is the default. -/
theorem eq_default_of_isEmpty
    {d : Doc}
    (h : d.isEmpty = true) : d = {} := by
  rcases d with ⟨summary, body, deprecated⟩
  simpa [isEmpty, and_assoc] using h

end Doc

/- Documentation is left out when it says nothing. -/
theorem View.Gives.doc
    {v : View}
    {ms : List (String × Option Json)}
    {d : Doc}
    (h : v.Gives ms)
    (hMem : ("doc", givenIf (!d.isEmpty) d.toJson) ∈ ms) :
    v.orElse? "doc" {} Doc.ofJson? = some d := by
  apply h.orElse?_if hMem
  · intro hEmpty
    exact Doc.eq_default_of_isEmpty (by simpa using hEmpty)
  · exact d.ofJson?_toJson

------------------------------------------------------------
-- Places
------------------------------------------------------------

/- Lines and columns fit a word of 32 bits. -/
def SourcePlace.Fits (p : SourcePlace) : Prop :=
  p.line ≤ maxHalfWord ∧ p.column ≤ maxHalfWord

namespace SourcePlace

def given (p : SourcePlace) : List (String × Option Json) :=
  [("file", some (.text p.file)), ("line", some (.nat p.line)),
    ("column", some (.nat p.column))]

theorem toJson_eq (p : SourcePlace) :
    p.toJson = .object (Json.given p.given) :=
  rfl

theorem ofJson?_toJson
    {p : SourcePlace}
    (h : p.Fits) : ofJson? p.toJson = some p := by
  rcases Json.view?_given p.given
    ["file", "line", "column"] rfl (by decide)
    with ⟨v, hView, hGives⟩
  have hFile : v.required? "file" Json.text? = some p.file :=
    hGives.required? (j := .text p.file) (by simp [given])
  have hLine : v.required? "line" (Json.natUpTo? maxHalfWord) =
      some p.line := by
    rw [hGives.required? (j := .nat p.line) (by simp [given]),
      Json.natUpTo?_nat h.1]
  have hColumn : v.required? "column" (Json.natUpTo? maxHalfWord) =
      some p.column := by
    rw [hGives.required? (j := .nat p.column) (by simp [given]),
      Json.natUpTo?_nat h.2]
  rw [toJson_eq]
  unfold ofJson?
  rw [hView]
  simp only [Option.bind_eq_bind, Option.bind_some, hFile, hLine,
    hColumn]

theorem prints_toJson
    {p : SourcePlace}
    (h : p.Fits) : Json.Prints p.toJson := by
  have hHalf : maxHalfWord ≤ maxWord := by decide
  have hLine := Json.prints_nat (h.1.trans hHalf)
  have hColumn := Json.prints_nat (h.2.trans hHalf)
  rw [toJson_eq]
  apply Json.prints_given
  simp [given, Json.Prints.text, hLine, hColumn]

end SourcePlace

theorem View.Gives.place
    {v : View}
    {ms : List (String × Option Json)}
    {name : String}
    {source : Option SourcePlace}
    (h : v.Gives ms)
    (hMem : (name, source.map SourcePlace.toJson) ∈ ms)
    (hFits : ∀ p ∈ source, p.Fits) :
    v.optional? name SourcePlace.ofJson? = some source :=
  h.optional? hMem nofun fun p hp =>
    SourcePlace.ofJson?_toJson (hFits p hp)

------------------------------------------------------------
-- Literals
------------------------------------------------------------

/-
  An integer fits a word of 64 bits, and a float, which has to
  be finite for that, is read back from its text.
-/
def Literal.Fits : Literal → Prop
  | .text _ => True
  | .int n => minInt64 ≤ n ∧ n ≤ maxInt64
  | .float x => (JsonNumber.float x).ReadsBack

namespace Literal

/- An integer is written as a word with or without a sign. -/
theorem toJson_int
    {n : Int}
    (h : minInt64 ≤ n ∧ n ≤ maxInt64) :
    (∃ m, 0 < m ∧ m ≤ signWeight ∧ n = -(m : Int)
        ∧ (int n).toJson = .number (.negative m))
      ∨ ∃ m, m < signWeight ∧ n = (m : Int)
        ∧ (int n).toJson = .number (.natural m) := by
  have hLow : minInt64 = -(signWeight : Int) := rfl
  have hHigh : maxInt64 = (signWeight : Int) - 1 := rfl
  rw [hLow, hHigh] at h
  by_cases hNegative : n < 0
  · left
    refine ⟨n.natAbs, by omega, by omega, by omega, ?_⟩
    exact if_pos hNegative
  · right
    refine ⟨n.toNat, by omega, by omega, ?_⟩
    exact if_neg hNegative

theorem ofJson?_toJson
    {x : Literal}
    (h : x.Fits) : ofJson? x.toJson = some x := by
  cases x with
  | text s => rfl
  | float x => rfl
  | int n =>
      rcases toJson_int h with
        ⟨m, -, -, rfl, hJson⟩ | ⟨m, hWord, rfl, hJson⟩
      · rw [hJson]
        rfl
      · rw [hJson]
        exact if_pos hWord

theorem prints_toJson
    {x : Literal}
    (h : x.Fits) : Json.Prints x.toJson := by
  cases x with
  | text s => exact .text s
  | float x => exact .number h
  | int n =>
      rcases toJson_int h with
        ⟨m, hPos, hWeight, -, hJson⟩ | ⟨m, hWord, -, hJson⟩
      · rw [hJson]
        exact .number (Json.readNumeral?_negative hPos hWeight)
      · have hLess : signWeight ≤ maxWord := by decide
        rw [hJson]
        exact .number
          (Json.readNumeral?_natural (hWord.le.trans hLess))

end Literal

namespace EnumMember

def given (m : EnumMember) : List (String × Option Json) :=
  [("name", some (.text m.name)),
    ("value", some m.value.toJson),
    ("doc", givenIf (!m.doc.isEmpty) m.doc.toJson)]

theorem toJson_eq (m : EnumMember) :
    m.toJson = .object (Json.given m.given) := by
  unfold toJson Doc.asMember
  rw [memberIf_eq]
  rfl

theorem ofJson?_toJson
    {m : EnumMember}
    (h : m.value.Fits) : ofJson? m.toJson = some m := by
  rcases Json.view?_given m.given
    ["name", "value", "doc"] rfl (by decide)
    with ⟨v, hView, hGives⟩
  have hName : v.required? "name" Json.text? = some m.name :=
    hGives.required? (j := .text m.name) (by simp [given])
  have hValue : v.required? "value" Literal.ofJson? =
      some m.value := by
    rw [hGives.required? (j := m.value.toJson) (by simp [given])]
    exact Literal.ofJson?_toJson h
  have hDoc : v.orElse? "doc" {} Doc.ofJson? = some m.doc :=
    hGives.doc (by simp [given])
  rw [toJson_eq]
  unfold ofJson?
  rw [hView]
  simp only [Option.bind_eq_bind, Option.bind_some, hName, hValue,
    hDoc]

theorem prints_toJson
    {m : EnumMember}
    (h : m.value.Fits) : Json.Prints m.toJson := by
  rw [toJson_eq]
  apply Json.prints_given
  simp only [given, List.forall_mem_cons]
  exact ⟨Json.prints_some (.text _),
    Json.prints_some (Literal.prints_toJson h),
    Json.prints_if m.doc.prints_toJson, nofun⟩

end EnumMember

end WireSchema
