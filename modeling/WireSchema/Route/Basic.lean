import WireSchema.Schema.Basic
import WireSchema.TypeExpr.Instance
import WireSchema.Config.Basic

/-
  Routes and the services that they make up.

  The key of a route is the name of its service and the name
  of its method with a dot between them.

  Key definitions include:
    * `Route`, `RouteTable`
    * `RouteTable.roots`, `RouteTable.scope`: what is needed
    * `RouteTable.services`
-/

namespace WireSchema

/-
  What can be called and what it takes and answers.  Without
  a response it answers with `null`.
-/
structure Route where
  verb : String
  path : String
  request : Option TypeExpr := none
  response : Option TypeExpr := none
  doc : Option String := none
  deriving BEq, Repr, Inhabited

/- Routes by key, in order of the keys. -/
structure RouteTable where
  entries : List (String × Route) := []
  deriving BEq, Repr, Inhabited

namespace Route

/- The types a route mentions, the request first. -/
def types (r : Route) : List TypeExpr :=
  r.request.toList ++ r.response.toList

end Route

namespace RouteTable

/-
  Put a route in its place by key, in place of one with the
  same key.
-/
def insertRoute
    (key : String)
    (r : Route) : List (String × Route) → List (String × Route)
  | [] => [(key, r)]
  | e :: rest =>
      if key < e.1 then (key, r) :: e :: rest
      else if key = e.1 then (key, r) :: rest
      else e :: insertRoute key r rest

/- A table of routes; of one key the last route counts. -/
def ofList (routes : List (String × Route)) : RouteTable :=
  { entries :=
      routes.foldl (fun acc e => insertRoute e.1 e.2 acc) [] }

------------------------------------------------------------
-- What Routes Need
------------------------------------------------------------

/- Every type that some route mentions, in order. -/
def roots (t : RouteTable) : List TypeExpr :=
  sortDistinct TypeExpr.before
    (t.entries.flatMap fun e => e.2.types)

/- The namespaces of these types and further ones, sorted. -/
def scope (t : RouteTable) (extra : List String) :
    List String :=
  let mentioned :=
    (t.entries.flatMap fun e => e.2.types).flatMap fun x =>
      x.target.namespaces
  sortTexts (mentioned ++ extra)

------------------------------------------------------------
-- Services
------------------------------------------------------------

/- The service and the method in a key. -/
def splitKey (key : String) :
    Except ConfigFault (String × String) :=
  match Text.splitFirstString '.' key with
  | some (service, method) =>
      if service.isEmpty || method.isEmpty then
        .error (.routeKey key)
      else .ok (service, method)
  | none => .error (.routeKey key)

/- A route under the names in its key. -/
structure NamedRoute where
  service : String
  method : String
  key : String
  route : Route
  deriving BEq, Repr, Inhabited

/- The routes with their names; every key has to have two. -/
def named (t : RouteTable) :
    Except ConfigFault (List NamedRoute) :=
  t.entries.mapM fun e => do
    let (service, method) ← splitKey e.1
    .ok { service, method, key := e.1, route := e.2 }

def endpoint (known : WellKnown) (n : NamedRoute) : Endpoint :=
  let r := n.route
  { name := n.method
    fullName := n.key
    verb := r.verb
    path := r.path
    request := r.request.map (TypeExpr.wireType known)
    response :=
      match r.response with
      | some t => t.wireType known
      | none => .nullAnswer
    doc := { summary := r.doc.getD "" } }

/- One service for each name, in order of the names. -/
def group (known : WellKnown) (routes : List NamedRoute) :
    List Service :=
  (sortTexts (routes.map NamedRoute.service)).map fun name =>
    { name
      endpoints :=
        (routes.filter fun n => n.service == name).map
          (endpoint known) }

/- The services that the routes make up. -/
def services (t : RouteTable) (known : WellKnown) :
    Except ConfigFault (List Service) := do
  .ok (group known (← t.named))

end RouteTable

end WireSchema
