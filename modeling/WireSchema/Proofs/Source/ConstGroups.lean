import Mathlib.Data.List.Basic
import Mathlib.Data.List.Induction
import WireSchema.Source.File

/-
  The constants of a group.

  A line of a group stands for one constant for each of its
  names.  It has the values of the nearest line in front that
  has some, or its own.  Commas between names are taken for
  names, too, and the type is that of the first value, so
  that only lines with one name give what they should.

  Key definitions include:
    * `ConstSpec`
    * `constsByRule`
    * `expandGroup_byRule_iff`
-/

namespace WireSchema.Source

------------------------------------------------------------
-- Lines as They Are Written
------------------------------------------------------------

/- A line: names, each but the first behind a comma at some
   place, and what follows them. -/
structure ConstSpec where
  first : String × SourcePlace
  further : List (SourcePlace × String × SourcePlace) := []
  type : Option String := none
  values : List ConstExpr := []
  doc : Doc := {}
  deriving BEq, Repr, Inhabited

namespace ConstSpec

/- The names of a line. -/
def names (s : ConstSpec) : List (String × SourcePlace) :=
  s.first :: s.further.map Prod.snd

/- The names of a line and the commas between them. -/
def entries (s : ConstSpec) : List (String × SourcePlace) :=
  s.first :: s.further.flatMap fun p => [(",", p.1), p.2]

/- A line as it is read. -/
def line (s : ConstSpec) : ConstLine :=
  { names := s.entries
    type := s.type
    values := s.values
    doc := s.doc }

/- Every other entry of a line is one of its names. -/
theorem getElem?_entries (s : ConstSpec) (i : Nat) :
    s.entries[2 * i]? = s.names[i]? := by
  cases i with
  | zero => rfl
  | succ i =>
      unfold entries names
      rw [Nat.mul_succ, List.getElem?_cons_succ,
        List.getElem?_cons_succ]
      induction s.further generalizing i with
      | nil => rfl
      | cons p rest ih =>
          cases i with
          | zero => rfl
          | succ i => exact ih i

theorem length_entries (s : ConstSpec) :
    s.entries.length = s.names.length + s.further.length := by
  unfold entries names
  rw [List.length_cons, List.length_cons, List.length_map]
  induction s.further with
  | nil => rfl
  | cons p rest ih =>
      rw [List.flatMap_cons, List.length_append, List.length_cons]
      simp only [List.length_cons, List.length_nil]
      omega

end ConstSpec

------------------------------------------------------------
-- What Lines Stand For
------------------------------------------------------------

/- The nearest line with values, from a position on back. -/
def carrier? (specs : List ConstSpec) (k : Nat) :
    Option ConstSpec :=
  (specs.take (k + 1)).reverse.find? fun s => !s.values.isEmpty

/- The value of a number in the line at a position. -/
def valueAt? (specs : List ConstSpec) (k i : Nat) :
    Option ConstExpr :=
  (carrier? specs k).bind fun s => s.values[i]?

/- The type that a value is converted to. -/
def convertedType? : Option ConstExpr → Option String
  | some (.conversion type _) => some type
  | _ => none

/- The type of the line at a position, as declared, or as the
   value of a number is converted to. -/
def typeAt? (specs : List ConstSpec) (k i : Nat) :
    Option String :=
  (carrier? specs k).bind fun s =>
    s.type.or (convertedType? s.values[i]?)

/- Constants of a line, with types and values by number. -/
def lineConsts
    (entries : List (String × SourcePlace))
    (doc : Doc)
    (k : Nat)
    (type : Nat → Option String)
    (value : Nat → Option ConstExpr) : List ConstSource :=
  entries.zipIdx.map fun p =>
    { name := p.1.1
      type := type p.2
      value := value p.2
      position := k
      doc
      place := p.1.2 }

/-
  The constants of a group by the rule: the names of a line,
  at its position, with the values of their own numbers in
  the nearest line that has values, and the type declared
  there, or that of just this value.
-/
def constsByRule (specs : List ConstSpec) : List ConstSource :=
  specs.zipIdx.flatMap fun p =>
    lineConsts p.1.names p.1.doc p.2 (typeAt? specs p.2)
      (valueAt? specs p.2)

/-
  The constants of a group by the entries of its lines: each
  has the value of its own number, but the type of the first
  value.
-/
def constsByEntry (specs : List ConstSpec) : List ConstSource :=
  specs.zipIdx.flatMap fun p =>
    lineConsts p.1.entries p.1.doc p.2
      (fun _ => typeAt? specs p.2 0) (valueAt? specs p.2)

------------------------------------------------------------
-- Expansion
------------------------------------------------------------

/- The values of a line are given out in turn. -/
theorem constsOf_eq
    (k : Nat)
    (doc : Doc)
    (c : ConstCarry)
    (entries : List (String × SourcePlace)) :
    constsOf k doc c entries c.values =
      lineConsts entries doc k (fun _ => c.type)
        (fun i => c.values[i]?) := by
  have hFrom : ∀ entries i,
      constsOf k doc c entries (c.values.drop i) =
        (entries.zipIdx i).map fun p =>
          { name := p.1.1
            type := c.type
            value := c.values[p.2]?
            position := k
            doc
            place := p.1.2 } := by
    intro entries
    induction entries with
    | nil => exact fun _ => rfl
    | cons n rest ih =>
        intro i
        rw [constsOf, List.tail_drop, ih (i + 1), List.head?_drop]
        rfl
  exact hFrom entries 0

/- What is carried on behind some lines of a group. -/
def carryOf (specs : List ConstSpec) : ConstCarry :=
  (specs.map ConstSpec.line).foldl (fun c l => l.carry c) {}

theorem carryOf_append
    (done : List ConstSpec)
    (s : ConstSpec) :
    carryOf (done ++ [s]) = s.line.carry (carryOf done) := by
  simp [carryOf]

/- Carried on are the values of the nearest line with some. -/
theorem carryOf_eq (specs : List ConstSpec) :
    carryOf specs =
      match specs.reverse.find? fun s => !s.values.isEmpty with
      | some s => { type := s.line.valueType, values := s.values }
      | none => {} := by
  induction specs using List.reverseRecOn with
  | nil => rfl
  | append_singleton done s ih =>
      rw [carryOf_append, List.reverse_append,
        List.reverse_singleton, List.singleton_append,
        List.find?_cons]
      cases hEmpty : s.values.isEmpty with
      | true =>
          simp only [Bool.not_true]
          rw [← ih]
          exact if_pos hEmpty
      | false =>
          simp only [Bool.not_false]
          exact if_neg (by simp [ConstSpec.line, hEmpty])

/- What is carried to a position is in the nearest line. -/
theorem carryOf_take_eq (specs : List ConstSpec) (k : Nat) :
    (carryOf (specs.take (k + 1))).type = typeAt? specs k 0
      ∧ ∀ i, (carryOf (specs.take (k + 1))).values[i]? =
        valueAt? specs k i := by
  unfold typeAt? valueAt? carrier?
  rw [carryOf_eq]
  cases (specs.take (k + 1)).reverse.find?
      fun s => !s.values.isEmpty with
  | none => exact ⟨rfl, fun _ => rfl⟩
  | some s =>
      refine ⟨?_, fun _ => rfl⟩
      change s.line.valueType = s.type.or _
      unfold ConstLine.valueType ConstSpec.line
      dsimp only
      cases s.type with
      | some type => rfl
      | none =>
          cases s.values with
          | nil => rfl
          | cons e rest => cases e <;> rfl

/-
  Lines behind others go on from what these carry.  The lines
  in front only matter for that.
-/
theorem expandFrom_eq
    {specs done rest : List ConstSpec}
    (hSplit : specs = done ++ rest) :
    expandFrom done.length (carryOf done)
        (rest.map ConstSpec.line) =
      (rest.zipIdx done.length).flatMap fun p =>
        lineConsts p.1.entries p.1.doc p.2
          (fun _ => typeAt? specs p.2 0) (valueAt? specs p.2) := by
  induction rest generalizing done with
  | nil => rfl
  | cons s rest ih =>
      have hNext := @ih (done ++ [s]) (by simpa using hSplit)
      have hTake : specs.take (done.length + 1) = done ++ [s] := by
        rw [hSplit, List.take_append,
          List.take_of_length_le (Nat.le_succ _)]
        simp
      have hCarry := carryOf_take_eq specs done.length
      rw [hTake] at hCarry
      rw [carryOf_append, List.length_append, List.length_singleton]
        at hNext
      rw [List.map_cons, expandFrom, List.zipIdx_cons,
        List.flatMap_cons, hNext]
      congr 1
      dsimp only
      rw [constsOf_eq, ← carryOf_append, hCarry.1,
        funext hCarry.2]
      rfl

/- Each entry has the value of its number. -/
theorem expandGroup_eq_constsByEntry (specs : List ConstSpec) :
    expandGroup (specs.map ConstSpec.line) =
      constsByEntry specs :=
  expandFrom_eq (List.nil_append specs).symm

theorem length_lineConsts
    (entries : List (String × SourcePlace))
    (doc : Doc)
    (k : Nat)
    (type : Nat → Option String)
    (value : Nat → Option ConstExpr) :
    (lineConsts entries doc k type value).length =
      entries.length := by
  simp [lineConsts]

/- There are as many constants too many as there are commas. -/
theorem length_constsByEntry (specs : List ConstSpec) :
    (constsByEntry specs).length =
      (constsByRule specs).length
        + (specs.flatMap ConstSpec.further).length := by
  have hFrom : ∀ (rest : List ConstSpec) (k : Nat),
      ((rest.zipIdx k).flatMap fun p =>
        lineConsts p.1.entries p.1.doc p.2
          (fun _ => typeAt? specs p.2 0)
          (valueAt? specs p.2)).length =
        ((rest.zipIdx k).flatMap fun p =>
          lineConsts p.1.names p.1.doc p.2 (typeAt? specs p.2)
            (valueAt? specs p.2)).length
        + (rest.flatMap ConstSpec.further).length := by
    intro rest
    induction rest with
    | nil => exact fun _ => rfl
    | cons s rest ih =>
        intro k
        rw [List.zipIdx_cons, List.flatMap_cons, List.flatMap_cons,
          List.length_append, List.length_append, ih,
          length_lineConsts, length_lineConsts,
          ConstSpec.length_entries, List.flatMap_cons,
          List.length_append]
        dsimp only
        omega
  exact hFrom specs 0

/- Where each line has one name, that is its only entry. -/
theorem constsByEntry_eq
    {specs : List ConstSpec}
    (h : ∀ s ∈ specs, s.further = []) :
    constsByEntry specs = constsByRule specs := by
  refine List.flatMap_congr fun p hp => ?_
  have hSingle := h p.1 (List.fst_mem_of_mem_zipIdx hp)
  unfold ConstSpec.entries ConstSpec.names
  rw [hSingle]
  rfl

------------------------------------------------------------
-- Groups as They Are Read
------------------------------------------------------------

variable {body : Tokens → Option Tokens}
variable {path : String}

/- Between the names that are read there are commas. -/
theorem exists_entries_of_readConstNames?
    {fuel : Nat}
    {ts rest : Tokens}
    {entries : List (String × SourcePlace)}
    (h : readConstNames? path fuel ts = some (entries, rest)) :
    ∃ s : ConstSpec, entries = s.entries := by
  induction fuel generalizing ts entries rest with
  | zero => cases h
  | succ fuel ih =>
      rw [readConstNames?] at h
      obtain ⟨⟨t, after⟩, -, h⟩ := Option.bind_eq_some_iff.mp h
      dsimp only at h
      split at h
      · next comma behind =>
          split at h
          · next hComma =>
              obtain ⟨⟨more, last⟩, hMore, h⟩ :=
                Option.bind_eq_some_iff.mp h
              obtain ⟨rfl, -⟩ := Prod.mk.inj (Option.some.inj h)
              rcases ih hMore with ⟨s, rfl⟩
              have hText : comma.text = "," := by
                simp only [Token.isSymbol, Bool.and_eq_true,
                  beq_iff_eq] at hComma
                exact hComma.1.2
              refine
                ⟨{ first := (t.text, t.place path)
                   further :=
                     (comma.place path, s.first) :: s.further }, ?_⟩
              rw [hText]
              rfl
          · obtain ⟨rfl, -⟩ := Prod.mk.inj (Option.some.inj h)
            exact ⟨{ first := (t.text, t.place path) }, rfl⟩
      · obtain ⟨rfl, -⟩ := Prod.mk.inj (Option.some.inj h)
        exact ⟨{ first := (t.text, t.place path) }, rfl⟩

theorem exists_spec_of_readConstLine?
    {fuel : Nat}
    {ts rest : Tokens}
    {l : ConstLine}
    (h : readConstLine? body path fuel ts = some (l, rest)) :
    ∃ s : ConstSpec, l = s.line := by
  rw [readConstLine?] at h
  obtain ⟨⟨entries, after⟩, hNames, h⟩ :=
    Option.bind_eq_some_iff.mp h
  obtain ⟨⟨⟨type, values⟩, last⟩, -, h⟩ :=
    Option.bind_eq_some_iff.mp h
  obtain ⟨rfl, -⟩ := Prod.mk.inj (Option.some.inj h)
  rcases exists_entries_of_readConstNames? hNames with ⟨s, rfl⟩
  exact ⟨{ s with type, values, doc := {} }, rfl⟩

theorem exists_spec_of_readConstLines?
    {fuel : Nat}
    {ts rest : Tokens}
    {lines : List (ConstLine × List String)}
    {count : Nat}
    (h : readConstLines? body path fuel ts =
      some ((lines, count), rest)) :
    ∀ p ∈ lines, ∃ s : ConstSpec, p.1 = s.line := by
  induction fuel generalizing ts lines count rest with
  | zero => cases h
  | succ fuel ih =>
      rw [readConstLines?] at h
      split at h
      · obtain ⟨hPair, -⟩ := Prod.mk.inj (Option.some.inj h)
        obtain ⟨rfl, -⟩ := Prod.mk.inj hPair
        nofun
      · obtain ⟨⟨l, after⟩, hLine, h⟩ :=
          Option.bind_eq_some_iff.mp h
        obtain ⟨next, -, h⟩ := Option.bind_eq_some_iff.mp h
        obtain ⟨⟨⟨more, others⟩, last⟩, hMore, h⟩ :=
          Option.bind_eq_some_iff.mp h
        obtain ⟨hPair, -⟩ := Prod.mk.inj (Option.some.inj h)
        obtain ⟨rfl, -⟩ := Prod.mk.inj hPair
        rintro p hp
        rcases List.mem_cons.mp hp with rfl | hp
        · exact exists_spec_of_readConstLine? hLine
        · exact ih hMore p hp

/- Lines with their comments are a group of such lines. -/
theorem exists_specs_of_groupConsts
    {lines : List (ConstLine × List String)}
    (h : ∀ p ∈ lines, ∃ s : ConstSpec, p.1 = s.line)
    (outer : List String)
    (count : Nat) :
    ∃ specs : List ConstSpec,
      groupConsts outer lines count =
        expandGroup (specs.map ConstSpec.line) := by
  have hSpecs : ∀ (doc : List String → Doc)
      (ps : List (ConstLine × List String)),
      (∀ p ∈ ps, ∃ s : ConstSpec, p.1 = s.line) →
        ∃ specs : List ConstSpec,
          (ps.map fun p => { p.1 with doc := doc p.2 }) =
            specs.map ConstSpec.line := by
    intro doc ps
    induction ps with
    | nil => exact fun _ => ⟨[], rfl⟩
    | cons p rest ih =>
        intro hAll
        rcases hAll p List.mem_cons_self with ⟨s, hs⟩
        rcases ih fun q hq => hAll q (List.mem_cons_of_mem p hq)
          with ⟨specs, hRest⟩
        refine ⟨{ s with doc := doc p.2 } :: specs, ?_⟩
        rw [List.map_cons, List.map_cons, hRest, hs]
        rfl
  let isAlone := lines.length + count == 1
  rcases hSpecs
    (fun own => docOr own (if isAlone then outer else [])) lines h
    with ⟨specs, hMap⟩
  exact ⟨specs, congrArg expandGroup hMap⟩

/- Every declaration of constants is read as such a group. -/
theorem exists_specs_of_readConsts?
    {outer : List String}
    {fuel : Nat}
    {ts rest : Tokens}
    {decls : List ConstSource}
    {isValue : Bool}
    (h : readConsts? body path outer fuel ts =
      some ((decls, isValue), rest)) :
    ∃ specs : List ConstSpec,
      decls = expandGroup (specs.map ConstSpec.line) := by
  rw [readConsts?] at h
  split at h
  · obtain ⟨⟨⟨lines, count⟩, after⟩, hLines, h⟩ :=
      Option.bind_eq_some_iff.mp h
    obtain ⟨hPair, -⟩ := Prod.mk.inj (Option.some.inj h)
    obtain ⟨rfl, -⟩ := Prod.mk.inj hPair
    exact exists_specs_of_groupConsts
      (exists_spec_of_readConstLines? hLines) _ _
  · obtain ⟨⟨l, after⟩, hLine, h⟩ := Option.bind_eq_some_iff.mp h
    obtain ⟨hPair, -⟩ := Prod.mk.inj (Option.some.inj h)
    obtain ⟨rfl, -⟩ := Prod.mk.inj hPair
    apply exists_specs_of_groupConsts
    rintro p hp
    obtain rfl := List.mem_singleton.mp hp
    exact exists_spec_of_readConstLine? hLine

/-
  Every declaration of constants is a group of lines.  A group
  gives each entry of a line the value of its number in the
  nearest line with values, and the type of the first value
  there.  Since the entries are the names with commas between
  them, this is right exactly if no line has more than one
  name.
-/
theorem expandGroup_byRule_iff
    (body : Tokens → Option Tokens)
    (path : String)
    (outer : List String)
    (specs : List ConstSpec) :
    (∀ fuel ts decls isValue rest,
        readConsts? body path outer fuel ts =
            some ((decls, isValue), rest) →
          ∃ found : List ConstSpec,
            decls = expandGroup (found.map ConstSpec.line))
      ∧ expandGroup (specs.map ConstSpec.line) =
        constsByEntry specs
      ∧ (∀ s ∈ specs, ∀ i, s.entries[2 * i]? = s.names[i]?)
      ∧ (expandGroup (specs.map ConstSpec.line) =
          constsByRule specs
        ↔ ∀ s ∈ specs, s.further = []) := by
  refine ⟨?read, expandGroup_eq_constsByEntry specs,
    fun s _ => s.getElem?_entries, ?_⟩
  case read =>
    intro _ _ _ _ _ h
    exact exists_specs_of_readConsts? h
  rw [expandGroup_eq_constsByEntry]
  constructor
  · intro hRule s hs
    have hLength := length_constsByEntry specs
    rw [hRule, Nat.left_eq_add, List.length_eq_zero_iff,
      List.flatMap_eq_nil_iff] at hLength
    exact hLength s hs
  · exact constsByEntry_eq

/- A constant without its documentation and its place. -/
def constOutline (c : ConstSource) :
    String × Nat × Option String × Option ConstExpr :=
  (c.name, c.position, c.type, c.value)

/- A line with one name, at no place in particular. -/
def loneSpec
    (name : String)
    (type : Option String)
    (values : List ConstExpr) : ConstSpec :=
  { first := (name, { file := "m.go", line := 1, column := 1 })
    type
    values }

/- Levels that count from one, with a gap. -/
def levelSpecs : List ConstSpec :=
  [loneSpec "Low" (some "Level") [.binary .add .position (.int 1)],
    loneSpec "Mid" none [], loneSpec "_" none [],
    loneSpec "High" none []]

/- The level behind the gap is counted as a fourth one. -/
theorem expandGroup_byRule_iff_levels :
    (∀ s ∈ levelSpecs, s.further = [])
      ∧ expandGroup (levelSpecs.map ConstSpec.line) =
        constsByRule levelSpecs
      ∧ (constsByRule levelSpecs)[3]?.map constOutline =
        some
          ("High", 3, some "Level",
            some (.binary .add .position (.int 1))) := by
  have hSingle : ∀ s ∈ levelSpecs, s.further = [] := by
    simp [levelSpecs, loneSpec]
  have hRule := expandGroup_byRule_iff some "m.go" [] levelSpecs
  exact ⟨hSingle, hRule.2.2.2.mpr hSingle, rfl⟩

/- Two constants of two types on one line. -/
def pairText : String :=
  "package m\n\nconst A, B = T(1), U(2)\n"

def pairSpec : ConstSpec :=
  { loneSpec "A" none
      [.conversion "T" (.int 1), .conversion "U" (.int 2)] with
    further :=
      [({ file := "m.go", line := 1, column := 2 }, "B",
        { file := "m.go", line := 1, column := 4 })] }

/-
  The comma is taken for a name and has the second value, and
  the second name has none; both have the first type.
-/
theorem pair_not_byRule :
    (FileSource.parse? "m.go" pairText).map
          (fun f => f.consts.map constOutline) =
        some ((expandGroup [pairSpec.line]).map constOutline)
      ∧ (expandGroup [pairSpec.line]).map constOutline =
        [("A", 0, some "T", some (.conversion "T" (.int 1))),
          (",", 0, some "T", some (.conversion "U" (.int 2))),
          ("B", 0, some "T", none)]
      ∧ (constsByRule [pairSpec]).map constOutline =
        [("A", 0, some "T", some (.conversion "T" (.int 1))),
          ("B", 0, some "U", some (.conversion "U" (.int 2)))] := by
  refine ⟨by decide +kernel, rfl, rfl⟩

end WireSchema.Source
