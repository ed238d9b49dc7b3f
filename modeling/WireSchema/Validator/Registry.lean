import WireSchema.Validator.Basic
import WireSchema.Validator.Zod
import WireSchema.Validator.Valibot
import WireSchema.Text.Quoted

/-
  Flavors of output, and the ones that a configuration can
  ask for by their names.

  A flavor writes one file: something in front, each
  declaration, and something for the services.  Every dialect
  is a flavor, but a caller can bring others.

  Key definitions include:
    * `OutputFlavor`, `Dialect.flavor`
    * `Registry`, `Registry.builtin`
    * `Registry.register`, `find?`, `names`
-/

namespace WireSchema

------------------------------------------------------------
-- Flavors
------------------------------------------------------------

/-
  What writes the parts of a file.  Each part may fail.  The
  part in front is written first, and the services when all
  declarations have been written; without a writer of their
  own there is nothing for them.
-/
structure OutputFlavor where
  name : String
  fileSuffix : String
  infersTypes : Bool
  preamble : EmitScope → Except EmitError String
  declaration :
    EmitScope → WireType → Except EmitError String × List Warning
  services : EmitScope → Except EmitError String × List Warning :=
    fun _ => (.ok "", [])

/- The validators of a dialect. -/
def Dialect.flavor (d : Dialect) : OutputFlavor :=
  { name := d.name
    fileSuffix := d.fileSuffix
    infersTypes := d.infersTypes
    preamble := fun _ => .ok d.preamble
    declaration := d.declaration
    services := fun x => (d.endpointTable x, []) }

instance : Coe Dialect OutputFlavor where
  coe := Dialect.flavor

------------------------------------------------------------
-- Registries
------------------------------------------------------------

/- What there is by its name, in order of the names. -/
structure Registry (φ : Type) where
  entries : List (String × φ) := []
  deriving Inhabited

namespace Registry

variable {φ ψ : Type}

/- Put an entry in its place, in place of one of its name. -/
def insertEntry
    (name : String)
    (f : φ) :
    List (String × φ) → List (String × φ)
  | [] => [(name, f)]
  | e :: rest =>
      if name < e.1 then (name, f) :: e :: rest
      else if name = e.1 then (name, f) :: rest
      else e :: insertEntry name f rest

def register (r : Registry φ) (name : String) (f : φ) :
    Registry φ :=
  { entries := insertEntry name f r.entries }

def find? (r : Registry φ) (name : String) : Option φ :=
  r.entries.lookup name

def contains (r : Registry φ) (name : String) : Bool :=
  (r.find? name).isSome

def names (r : Registry φ) : List String :=
  r.entries.map Prod.fst

/- The names as a diagnostic shows them. -/
def shown (r : Registry φ) : String :=
  "[" ++ Text.joinWith ", " (r.names.map Text.shown) ++ "]"

/- The same names for what is made of the entries. -/
def map (f : φ → ψ) (r : Registry φ) : Registry ψ :=
  { entries := r.entries.map fun e => (e.1, f e.2) }

theorem find?_map
    (f : φ → ψ)
    (r : Registry φ)
    (name : String) : (r.map f).find? name = (r.find? name).map f := by
  unfold find? map
  dsimp only
  induction r.entries with
  | nil => rfl
  | cons e rest ih =>
      rw [List.map_cons, List.lookup_cons, List.lookup_cons, ih]
      cases name == e.1 with
      | true => rfl
      | false => rfl

/- The flavors of the dialects of a registry. -/
def flavors (r : Registry Dialect) : Registry OutputFlavor :=
  r.map Dialect.flavor

theorem find?_flavors (r : Registry Dialect) (name : String) :
    r.flavors.find? name = (r.find? name).map Dialect.flavor :=
  r.find?_map Dialect.flavor name

/- Whatever is found among flavors of dialects is one. -/
theorem find?_flavors_eq_some_iff
    {r : Registry Dialect}
    {name : String}
    {f : OutputFlavor} :
    r.flavors.find? name = some f ↔
      ∃ d, r.find? name = some d ∧ d.flavor = f := by
  rw [find?_flavors, Option.map_eq_some_iff]

instance : Coe (Registry Dialect) (Registry OutputFlavor) where
  coe := flavors

/- Every dialect of the library. -/
def builtin : Registry Dialect :=
  (Registry.register {} "zod" .zod).register "valibot" .valibot

end Registry

end WireSchema
