import WireSchema.Generation.Pipeline
import WireSchema.Proofs.Generation.Artifacts
import WireSchema.Proofs.Generation.Emission
import WireSchema.Proofs.Sink.Memory

/-
  Runs into memory.

  All that can go wrong goes wrong before the first file is
  written, so a run stores all files of its report or none.
  What is stored is what a second run would store, so that
  run changes nothing.

  Key definitions include:
    * `RouteTable.Reports`
    * `RouteTable.generate_all_or_nothing`
-/

namespace WireSchema

/- A file as it is stored, with the bytes of its text. -/
def OutputFile.entry (f : OutputFile) : String × ByteArray :=
  (f.path, f.contents.toUTF8)

/- Only a schema without violations passes the check. -/
theorem Schema.validate_of_ensureValid
    {s : Schema}
    {u : Unit}
    (h : s.ensureValid = .ok u) : s.validate = [] := by
  unfold ensureValid at h
  split at h
  · next hNone => exact hNone
  · cases h

namespace RouteTable

variable {t : RouteTable}
variable {c : Config}
variable {extract : Extractor}
variable {r : Registry OutputFlavor}
variable {report : Report}
variable {e : RunFault}

------------------------------------------------------------
-- Reports
------------------------------------------------------------

/-
  What a report says: the schema that the routes need is
  valid, and its files and further warnings are those of its
  emission.
-/
structure Reports
    (t : RouteTable)
    (c : Config)
    (extract : Extractor)
    (r : Registry OutputFlavor)
    (report : Report) : Prop where
  schema : t.buildSchema c extract = .ok report.schema
  valid : report.schema.validate = []
  emitted :
    ∃ e, report.schema.emit c r = .ok e
      ∧ report.files = e.files
      ∧ report.warnings = report.schema.warnings ++ e.warnings

theorem reports_of_report
    (h : t.report c extract r = .ok report) :
    t.Reports c extract r report := by
  unfold RouteTable.report at h
  rcases eq_ok_of_bind h with ⟨_, -, h⟩
  rcases eq_ok_of_bind h with ⟨schema, hSchema, h⟩
  rcases eq_ok_of_bind h with ⟨_, hValid, h⟩
  rcases eq_ok_of_bind h with ⟨e, hEmit, h⟩
  cases h
  exact
    { schema := hSchema
      valid := Schema.validate_of_ensureValid
        (eq_ok_of_mapError hValid)
      emitted := ⟨e, eq_ok_of_mapError hEmit, rfl, rfl⟩ }

/- A fault of the steps before the first write. -/
def Unwritten (e : RunFault) : Prop :=
  ∀ f, e ≠ .sink f

theorem unwritten_of_mapError
    {ε α : Type}
    {step : Except ε α}
    {fault : ε → RunFault}
    (hFault : ∀ e, Unwritten (fault e))
    (h : step.mapError fault = .error e) : Unwritten e := by
  rcases eq_error_of_mapError h with ⟨e', -, rfl⟩
  exact hFault e'

theorem unwritten_ofEmitFailure (f : EmitFailure) :
    Unwritten (.ofEmitFailure f) := by
  cases f with
  | config f => exact nofun
  | emission f => exact nofun

theorem unwritten_of_buildSchema
    (h : t.buildSchema c extract = .error e) : Unwritten e := by
  unfold buildSchema at h
  rcases eq_error_of_bind h with h | ⟨known, -, h⟩
  · exact unwritten_of_mapError nofun h
  rcases eq_error_of_bind h with h | ⟨services, -, h⟩
  · exact unwritten_of_mapError nofun h
  rcases eq_error_of_bind h with h | ⟨s, -, h⟩
  · exact unwritten_of_mapError nofun h
  · cases h

/- Without a report there is a fault other than of writing. -/
theorem unwritten_of_report
    (h : t.report c extract r = .error e) : Unwritten e := by
  unfold RouteTable.report at h
  rcases eq_error_of_bind h with h | ⟨_, -, h⟩
  · exact unwritten_of_mapError nofun h
  rcases eq_error_of_bind h with h | ⟨schema, -, h⟩
  · exact unwritten_of_buildSchema h
  rcases eq_error_of_bind h with h | ⟨_, -, h⟩
  · exact unwritten_of_mapError nofun h
  rcases eq_error_of_bind h with h | ⟨emission, -, h⟩
  · exact unwritten_of_mapError unwritten_ofEmitFailure h
  · cases h

------------------------------------------------------------
-- Runs
------------------------------------------------------------

/- A run into memory writes exactly what is reported. -/
theorem generate_memory
    (t : RouteTable)
    (c : Config)
    (extract : Extractor)
    (r : Registry OutputFlavor)
    (m : MemorySink) :
    t.generate c extract r (.memory m) =
      match t.report c extract r with
      | .error e => (.memory m, .error e)
      | .ok report =>
          (.memory (m.writeFiles
            (report.files.map OutputFile.entry)), .ok report) := by
  unfold generate
  cases t.report c extract r with
  | error e => rfl
  | ok report =>
      dsimp only
      rw [MemorySink.writeAll_memory]
      rfl

/-
  A run that fails leaves the memory as it was, and fails for
  another reason than writing.  After a run that succeeds each
  path holds the last file of the report with that path, or
  what it held before; the report is of a schema without
  violations, whose warnings come before those of its emission;
  and a second run gives the same report and leaves the memory
  as it is.
-/
theorem generate_all_or_nothing
    (t : RouteTable)
    (c : Config)
    (extract : Extractor)
    (r : Registry OutputFlavor)
    (m : MemorySink) :
    (∀ sink e,
        t.generate c extract r (.memory m) = (sink, .error e) →
          sink = .memory m ∧ Unwritten e)
      ∧ ∀ sink report,
        t.generate c extract r (.memory m) = (sink, .ok report) →
          t.Reports c extract r report
            ∧ (∃ n : MemorySink, sink = .memory n
              ∧ ∀ path, n.get? path =
                ((report.files.map OutputFile.entry).reverse.lookup
                  path).or (m.get? path))
            ∧ t.generate c extract r sink = (sink, .ok report) := by
  have hRun := t.generate_memory c extract r
  cases hReport : t.report c extract r with
  | error fault =>
      simp only [hReport] at hRun
      rw [hRun]
      constructor
      · intro sink e hError
        cases hError
        exact ⟨rfl, unwritten_of_report hReport⟩
      · intro sink report hOk
        cases hOk
  | ok found =>
      simp only [hReport] at hRun
      rw [hRun]
      constructor
      · intro sink e hError
        cases hError
      · intro sink report hOk
        cases hOk
        refine ⟨reports_of_report hReport, ⟨_, rfl, ?_⟩, ?_⟩
        · exact m.get?_writeFiles_eq _
        · rw [hRun, MemorySink.writeFiles_writeFiles]

/-
  A flavor that cannot be emitted, which is found out behind
  all base types; and two files with one path, which are
  written over what was there.
-/
theorem generate_all_or_nothing_clash :
    (∃ e,
        RouteTable.generate {} { flavors := ["valibot"] }
            (fun _ => .ok (Schema.userSchema
              "gt=18446744073709551615"))
            .builtin
            (.memory { files := [("types.ts", .empty)] }) =
          (.memory { files := [("types.ts", .empty)] }, .error e))
      ∧ ∃ sink report,
        RouteTable.generate {} { singleFile := false }
            (fun _ => .ok (emptyRecords ["m/b-c", "m/b.c"]))
            .builtin
            (.memory { files := [("types.ts", .empty)] }) =
          (sink, .ok report)
        ∧ report.files.map OutputFile.path =
          ["types/m_b_c.ts", "types/m_b_c.ts", "types.ts"]
        ∧ RouteTable.generate {} { singleFile := false }
            (fun _ => .ok (emptyRecords ["m/b-c", "m/b.c"]))
            .builtin sink =
          (sink, .ok report) := by
  let m : MemorySink := { files := [("types.ts", .empty)] }
  refine ⟨?late, ?clash⟩
  case late =>
    let s := Schema.userSchema "gt=18446744073709551615"
    let c : Config := { flavors := ["valibot"] }
    have hValid : s.validate = [] := by decide +kernel
    have hOver : s.HasOverflow := by
      rw [Schema.hasOverflow_userSchema_iff]
      decide +kernel
    have hFlavors : ∀ name ∈ c.flavors,
        Registry.builtin.contains name = true := by
      decide +kernel
    rcases generate_all_or_nothing {} c (fun _ => .ok s) .builtin m
      with ⟨hError, hOk⟩
    cases hRun : RouteTable.generate {} c (fun _ => .ok s) .builtin
        (.memory m) with
    | mk sink outcome =>
        cases outcome with
        | error e =>
            rw [(hError sink e hRun).1]
            exact ⟨e, rfl⟩
        | ok report =>
            have hReports := (hOk sink report hRun).1
            have hBuilt : (.ok s : Except RunFault Schema) =
                .ok report.schema := hReports.schema
            have hSchema := (Except.ok.inj hBuilt).symm
            rcases hReports.emitted with ⟨e, hEmitted, -⟩
            rw [hSchema] at hEmitted
            exact absurd hEmitted (Schema.emit_ne_ok_of_hasOverflow
              hValid (Schema.userSchema_isFlat _) hFlavors
              (by decide) hOver e)
  case clash =>
    let s := emptyRecords ["m/b-c", "m/b.c"]
    let c : Config := { singleFile := false }
    have hValid : s.validate = [] := by decide +kernel
    have hCheck : c.check .builtin = .ok () := by decide +kernel
    rcases succeeds_emptyRecords (c := c) (r := .builtin) hValid
      nofun with ⟨e, hEmit⟩
    have hReport := report_of_emit hCheck rfl hValid hEmit
    have hRun := generate_memory {} c (fun _ => .ok s) .builtin m
    rw [hReport] at hRun
    have hAgain := (generate_all_or_nothing {} c (fun _ => .ok s)
      .builtin m).2 _ _ hRun
    refine ⟨_, _, hRun, ?_, hAgain.2.2⟩
    rw [paths_of_report hReport]
    change s.artifactPaths c .builtin = _
    decide +kernel

end RouteTable

end WireSchema
