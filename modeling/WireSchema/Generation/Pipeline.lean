import WireSchema.Generation.Emission
import WireSchema.Extraction.Basic
import WireSchema.Route.Basic
import WireSchema.Sink.Basic
import WireSchema.Validation.Basic

/-
  From routes to written files.

  The types that the routes need are extracted and the
  services of the routes added; the schema is validated and
  emitted; only then are files written.

  Key definitions include:
    * `RunFault`
    * `RouteTable.buildSchema`
    * `Report`, `RouteTable.report`
    * `RouteTable.generate`
-/

namespace WireSchema

------------------------------------------------------------
-- Faults
------------------------------------------------------------

/- Why a run does not produce its files. -/
inductive RunFault where
  | config (f : ConfigFault)
  | extraction (e : ExtractionFault)
  | invalid (e : InvalidSchema)
  | emission (e : EmissionFault)
  | sink (e : SinkFault)
  deriving DecidableEq, Repr

def RunFault.ofEmitFailure : EmitFailure → RunFault
  | .config f => .config f
  | .emission e => .emission e

/- An invalid schema as the fault of a run. -/
def InvalidSchema.runMessage (e : InvalidSchema) : String :=
  "schema validation failed: " ++ e.message

def RunFault.message : RunFault → String
  | .config f => f.message
  | .extraction e => e.message
  | .invalid e => e.runMessage
  | .emission e => e.message
  | .sink e => e.message

------------------------------------------------------------
-- Schemas
------------------------------------------------------------

namespace RouteTable

/- What an extraction is asked for. -/
def request (t : RouteTable) (c : Config) : ExtractionRequest :=
  { roots := t.roots, scope := t.scope c.extraScope }

/-
  The types that the routes need and the services that they
  make up.  The schema need not be valid.
-/
def buildSchema
    (t : RouteTable)
    (c : Config)
    (extract : Extractor) : Except RunFault Schema := do
  let known ← c.wellKnown.mapError .config
  let services ← (t.services known).mapError .config
  let s ← (extract (t.request c)).mapError .extraction
  .ok (services.foldl Schema.addService s)

end RouteTable

------------------------------------------------------------
-- Reports
------------------------------------------------------------

/-
  What a run produces: the files in order, the warnings of
  the extraction and then of the emission, and the schema.
-/
structure Report where
  files : List OutputFile
  warnings : List Warning
  schema : Schema
  deriving Repr, Inhabited

namespace RouteTable

/- All of a run but the writing of the files. -/
def report
    (t : RouteTable)
    (c : Config)
    (extract : Extractor)
    (r : Registry OutputFlavor) : Except RunFault Report := do
  (c.check r).mapError .config
  let schema ← t.buildSchema c extract
  let _ ← schema.ensureValid.mapError .invalid
  let e ← (schema.emit c r).mapError .ofEmitFailure
  .ok
    { files := e.files
      warnings := schema.warnings ++ e.warnings
      schema }

/-
  A run: nothing is written unless there is a report, and
  then its files are written in order.
-/
def generate
    (t : RouteTable)
    (c : Config)
    (extract : Extractor)
    (r : Registry OutputFlavor)
    (sink : Sink) : Sink × Except RunFault Report :=
  match t.report c extract r with
  | .error e => (sink, .error e)
  | .ok report =>
      let files := report.files.map fun f =>
        (f.path, f.contents.toUTF8)
      match sink.writeAll files with
      | (sink, .ok _) => (sink, .ok report)
      | (sink, .error e) => (sink, .error (.sink e))

end RouteTable

end WireSchema
