import WireSchema.Config.Basic
import WireSchema.Emit.Files

/-
  All files that a configuration asks for: the base types
  first, then one file for each flavor.

  Declarations are written in the order in which they depend
  on each other, and each one is known to those behind it.

  Key definitions include:
    * `EmitScope.writeAll`
    * `Schema.baseFiles`, `Schema.flavorFile`
    * `Emission`, `Schema.emit`
    * `EmissionFault`
-/

namespace WireSchema

------------------------------------------------------------
-- Faults
------------------------------------------------------------

/- What could not be emitted, by which emitter, and why. -/
structure EmissionFault where
  emitter : String
  subject : String
  cause : EmitError
  deriving DecidableEq, Repr

def EmissionFault.message (e : EmissionFault) : String :=
  e.emitter ++ " emitter failed on " ++ e.subject ++ ": "
    ++ e.cause.message

------------------------------------------------------------
-- Declarations in Order
------------------------------------------------------------

/- What an emitter has written so far. -/
structure Written where
  scope : EmitScope
  chunks : List Chunk := []
  warnings : List Warning := []
  deriving Inhabited

namespace EmitScope

/- What writes a declaration, with warnings about it. -/
abbrev Emitter :=
  EmitScope → WireType → Except EmitError String × List Warning

/- Write declarations up to the first that cannot be. -/
def writeAll (emitter : Emitter) (x : EmitScope) :
    List WireType → Except (TypeName × EmitError) Written
  | [] => .ok { scope := x }
  | t :: rest =>
      match t.id? with
      | none => writeAll emitter x rest
      | some id =>
          match emitter x t with
          | (.error e, _) => .error (id, e)
          | (.ok text, warnings) => do
              let more ←
                writeAll emitter (x.markEmitted id) rest
              .ok
                { scope := more.scope
                  chunks := { id, text } :: more.chunks
                  warnings := warnings ++ more.warnings }

/- Write a whole schema, each name behind what it needs. -/
def writeSchema (emitter : Emitter) (x : EmitScope) :
    Except (TypeName × EmitError) Written :=
  x.writeAll emitter (x.schema.emitOrder x.names)

/- The emitter of the base types. -/
def baseEmitter : Emitter := fun x t =>
  (x.declarationText t, [])

end EmitScope

------------------------------------------------------------
-- Files
------------------------------------------------------------

/- Files and the warnings that arose in making them. -/
structure Emission where
  files : List OutputFile := []
  warnings : List Warning := []
  deriving Repr, Inhabited

def Emission.append (a b : Emission) : Emission :=
  { files := a.files ++ b.files
    warnings := a.warnings ++ b.warnings }

namespace Schema

/- The name of the emitter of the base types. -/
def baseEmitterName : String := "typescript"

/- The files of the base types. -/
def baseFiles (s : Schema) (o : EmitOptions) :
    Except EmissionFault Emission := do
  let fault := fun subject cause =>
    EmissionFault.mk baseEmitterName subject cause
  let written ←
    ((EmitScope.ofSchema s o).writeSchema
        EmitScope.baseEmitter).mapError
      fun e => fault e.1.qualified e.2
  let files ←
    (written.scope.layOut written.chunks).mapError
      (fault "services")
  .ok { files, warnings := written.warnings }

end Schema

/-
  The file of a flavor behind what it has written in front
  and for the declarations.
-/
def OutputFlavor.complete
    (f : OutputFlavor)
    (o : EmitOptions)
    (front : String)
    (w : Written) : Except EmissionFault Emission := do
  let found := f.services w.scope
  let services ← found.1.mapError (.mk f.name "services")
  let tail := if services.isEmpty then "" else "\n" ++ services
  .ok
    { files :=
        [{ path := o.baseName ++ "." ++ f.fileSuffix
           contents :=
             fileHeader ++ "\n" ++ front ++ spacedChunks w.chunks
               ++ tail }]
      warnings := w.warnings ++ found.2 }

/- The file of a flavor. -/
def Schema.flavorFile
    (s : Schema)
    (o : EmitOptions)
    (f : OutputFlavor) : Except EmissionFault Emission := do
  let x := EmitScope.ofSchema s o
  let front ← (f.preamble x).mapError (.mk f.name "preamble")
  let written ←
    (x.writeSchema f.declaration).mapError
      fun e => .mk f.name e.1.qualified e.2
  f.complete o front written

------------------------------------------------------------
-- A Configuration's Files
------------------------------------------------------------

/- Why a configuration's files cannot be made. -/
inductive EmitFailure where
  | config (f : ConfigFault)
  | emission (e : EmissionFault)
  deriving DecidableEq, Repr

namespace Schema

/- The file of a flavor by its name. -/
def namedFlavorFile
    (s : Schema)
    (o : EmitOptions)
    (r : Registry OutputFlavor)
    (name : String) : Except EmitFailure Emission :=
  match r.find? name with
  | none => .error (.config (.unknownFlavor name))
  | some f => (s.flavorFile o f).mapError .emission

/- The files of flavors, in the order of their names. -/
def flavorFiles
    (s : Schema)
    (o : EmitOptions)
    (r : Registry OutputFlavor) :
    List String → Except EmitFailure Emission
  | [] => .ok {}
  | name :: rest => do
      let one ← s.namedFlavorFile o r name
      let more ← flavorFiles s o r rest
      .ok (one.append more)

/- Every file that a configuration asks for. -/
def emit (s : Schema) (c : Config) (r : Registry OutputFlavor) :
    Except EmitFailure Emission := do
  let o := c.emitOptions
  let base ←
    if o.baseTypes then (s.baseFiles o).mapError .emission
    else .ok {}
  let flavors ← s.flavorFiles o r c.flavors
  .ok (base.append flavors)

------------------------------------------------------------
-- Equal Emissions
------------------------------------------------------------

section Congr

variable {s t : Schema}
variable {o : EmitOptions}
variable {r : Registry OutputFlavor}

theorem flavorFiles_congr
    {names : List String}
    (h : ∀ name ∈ names, ∀ f, r.find? name = some f →
      s.flavorFile o f = t.flavorFile o f) :
    s.flavorFiles o r names = t.flavorFiles o r names := by
  induction names with
  | nil => rfl
  | cons name rest ih =>
      rw [List.forall_mem_cons] at h
      have hOne : s.namedFlavorFile o r name =
          t.namedFlavorFile o r name := by
        unfold namedFlavorFile
        cases hFound : r.find? name with
        | none => rfl
        | some f =>
            dsimp only
            rw [h.1 f hFound]
      unfold flavorFiles
      rw [hOne, ih h.2]

/- Only the files of the flavors that are asked for count. -/
theorem emit_congr
    {c : Config}
    (hBase : s.baseFiles c.emitOptions = t.baseFiles c.emitOptions)
    (hFlavors : ∀ name ∈ c.flavors, ∀ f, r.find? name = some f →
      s.flavorFile c.emitOptions f = t.flavorFile c.emitOptions f) :
    s.emit c r = t.emit c r := by
  unfold emit
  dsimp only
  rw [hBase, flavorFiles_congr hFlavors]

end Congr

end Schema

end WireSchema
