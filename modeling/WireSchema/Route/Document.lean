import WireSchema.Route.Basic
import WireSchema.TypeExpr.Reader
import WireSchema.Json.View
import WireSchema.Json.Reader
import WireSchema.Schema.Writer
import WireSchema.FileTree.Basic

/-
  Tables of routes as documents.

  Key definitions include:
    * `RouteTable.ofDocument?`
    * `RouteTable.toJson`
    * `FileTree.readRoutes?`
-/

namespace WireSchema

/- A type expression stands in a document as its text. -/
def TypeExpr.ofJson? (j : Json) : Option TypeExpr :=
  j.text?.bind fun s => (TypeExpr.parse s).toOption

namespace Route

def ofJson? (j : Json) : Option Route := do
  let v ← j.view?
    ["verb", "path", "request", "response", "doc"]
  some
    { verb := ← v.required? "verb" Json.text?
      path := ← v.required? "path" Json.text?
      request := ← v.optional? "request" TypeExpr.ofJson?
      response := ← v.optional? "response" TypeExpr.ofJson?
      doc := ← v.optional? "doc" Json.text? }

def toJson (r : Route) : Json :=
  let type := fun (t : TypeExpr) => Json.text t.text
  .object
    ([("verb", .text r.verb), ("path", .text r.path)]
      ++ memberOf? "request" (r.request.map type)
      ++ memberOf? "response" (r.response.map type)
      ++ memberOf? "doc" (r.doc.map .text))

end Route

namespace RouteTable

/- A table; every route in it has to be one, the last of a
   key counts. -/
def ofJson? : Json → Option RouteTable
  | .object members => do
      let routes ← members.mapM fun m => do
        some (m.1, ← Route.ofJson? m.2)
      some (ofList routes)
  | _ => none

def ofDocument? (text : String) : Option RouteTable :=
  (Json.parse? text).bind ofJson?

def toJson (t : RouteTable) : Json :=
  .object (t.entries.map fun e => (e.1, e.2.toJson))

end RouteTable

/- The table in a file. -/
def FileTree.readRoutes? (t : FileTree) (path : String) :
    Option RouteTable :=
  match t.readText path with
  | .ok text => RouteTable.ofDocument? text
  | .error _ => none

end WireSchema
