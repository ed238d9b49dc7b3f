import WireSchema.Validation.Inheritance

/-
  Validation of schemas.  Every check reports all it finds,
  and no check hides what another one finds.

  Key definitions include:
    * `Schema.validate`
    * `Schema.ensureValid`
    * `WireType.strayUnions`
-/

namespace WireSchema

------------------------------------------------------------
-- Unions
------------------------------------------------------------

namespace WireType

mutual

/-
  How many unions inside a type stand outside the bounds of
  type parameters.  The first argument says whether the type
  itself stands in such a bound.
-/
def strayUnions (inBound : Bool) : WireType → Nat
  | .record ⟨_, params, fields, _, _, _⟩ =>
      strayInParams params + strayInFields inBound fields
  | .synonym ⟨_, params, body, _, _⟩ =>
      strayInParams params + strayUnions inBound body
  | .enum _ => 0
  | .base .. => 0
  | .array elem _ => strayUnions inBound elem
  | .map key value =>
      strayUnions inBound key + strayUnions inBound value
  | .reference _ => 0
  | .pointer elem => strayUnions inBound elem
  | .union members =>
      (if inBound then 0 else 1) + strayInTypes inBound members
  | .param p => strayInParam p

def strayInTypes (inBound : Bool) : List WireType → Nat
  | [] => 0
  | t :: rest => strayUnions inBound t + strayInTypes inBound rest

def strayInParams : List (TypeParam WireType) → Nat
  | [] => 0
  | p :: rest => strayInParam p + strayInParams rest

def strayInParam : TypeParam WireType → Nat
  | ⟨_, bound⟩ => strayInBound bound

def strayInBound : Option WireType → Nat
  | none => 0
  | some t => strayUnions true t

def strayInFields (inBound : Bool) :
    List (Field WireType) → Nat
  | [] => 0
  | f :: rest =>
      strayInField inBound f + strayInFields inBound rest

def strayInField (inBound : Bool) : Field WireType → Nat
  | ⟨_, t, _, _, _, _, _, _⟩ => strayUnions inBound t

end

end WireType

namespace Schema

------------------------------------------------------------
-- Names
------------------------------------------------------------

/- A violation for every name that stands further up too. -/
def duplicatesIn (seen : List TypeName) :
    List TypeName → List Violation
  | [] => []
  | id :: rest =>
      (if seen.contains id then [.duplicateType id] else [])
        ++ duplicatesIn (id :: seen) rest

def duplicateTypes (s : Schema) : List Violation :=
  duplicatesIn [] s.names

------------------------------------------------------------
-- String Encoding
------------------------------------------------------------

/- How many synonyms may stand in front of a scalar. -/
def maxEncodedSteps : Nat := 8

/-
  Whether a type is a scalar or an enumeration behind
  pointers and synonyms, within a number of steps.
-/
def isEncodable (s : Schema) : Nat → WireType → Bool
  | 0, _ => false
  | steps + 1, t =>
      match t.target with
      | .base kind _ => kind.isScalar
      | .reference id =>
          match s.find? id with
          | some (.synonym d) => isEncodable s steps d.target
          | some (.enum _) => true
          | _ => false
      | _ => false

def encodingFaults (s : Schema) : List Violation :=
  s.types.flatMap fun t =>
    match t with
    | .record d =>
        (d.fields.filter fun f =>
            f.stringEncoded
              && !s.isEncodable (maxEncodedSteps + 1) f.type).map
          fun f => .stringEncoding d.id f.name f.type.kindName
    | _ => []

------------------------------------------------------------
-- References
------------------------------------------------------------

def unknownParents (s : Schema) : List Violation :=
  s.types.flatMap fun t =>
    match t with
    | .record d =>
        (d.parents.filter fun p => !s.contains p).map
          (.unknownParent d.id)
    | _ => []

def circularInheritance (s : Schema) : List Violation :=
  s.inheritanceCycles.map fun c =>
    .circularInheritance c.start c.walk

/- The references of a type to names that are not declared. -/
def danglingIn (s : Schema) (t : WireType) : List TypeName :=
  t.references.filter fun id => !s.contains id

def danglingReferences (s : Schema) : List Violation :=
  s.types.flatMap fun t =>
    match t.id? with
    | some owner =>
        (s.danglingIn t).map (.unknownReference owner)
    | none => []

------------------------------------------------------------
-- Services
------------------------------------------------------------

/- The types of an endpoint with their roles. -/
def bodies (e : Endpoint) : List (BodyRole × WireType) :=
  let request :=
    match e.request with
    | some t => [(BodyRole.request, t)]
    | none => []
  request ++ [(.response, e.response)]

def endpointFaults
    (s : Schema)
    (service : String)
    (e : Endpoint) : List Violation :=
  let fullName := service ++ "." ++ e.name
  let path := "/" ++ service ++ "/" ++ e.name
  let nameFault :=
    if e.fullName = fullName then []
    else [Violation.fullName e.fullName fullName]
  let pathFault :=
    if e.path = path then []
    else [Violation.path e.fullName e.path path]
  let dangling := (bodies e).flatMap fun b =>
    (s.danglingIn b.2).map
      (Violation.unknownBodyReference e.fullName b.1)
  nameFault ++ pathFault ++ dangling

/- The faults of endpoints behind those of given names. -/
def endpointsFaults
    (s : Schema)
    (service : String) :
    List String → List Endpoint → List Violation
  | _, [] => []
  | seen, e :: rest =>
      (if seen.contains e.name then
        [.duplicateEndpoint service e.name] else [])
        ++ s.endpointFaults service e
        ++ endpointsFaults s service (e.name :: seen) rest

def serviceFaults (s : Schema) : List Violation :=
  s.services.flatMap fun v =>
    s.endpointsFaults v.name [] v.endpoints

------------------------------------------------------------
-- Unions
------------------------------------------------------------

def unionFaults (s : Schema) : List Violation :=
  let declared := s.types.flatMap fun t =>
    match t.id? with
    | some owner =>
        List.replicate (t.strayUnions false) (.strayUnion owner)
    | none => []
  let endpoints := s.services.flatMap Service.endpoints
  let sent := endpoints.flatMap fun e =>
    let count :=
      (bodies e).foldl
        (fun n b => n + b.2.strayUnions false) 0
    List.replicate count (.strayBodyUnion e.fullName)
  declared ++ sent

------------------------------------------------------------
-- All Checks
------------------------------------------------------------

/- Every violation, check by check. -/
def validate (s : Schema) : List Violation :=
  s.duplicateTypes ++ s.encodingFaults ++ s.unknownParents
    ++ s.circularInheritance ++ s.danglingReferences
    ++ s.serviceFaults ++ s.unionFaults

/- Success only without violations. -/
def ensureValid (s : Schema) : Except InvalidSchema Unit :=
  match s.validate with
  | [] => .ok ()
  | first :: rest => .error { first, rest }

end Schema

end WireSchema
