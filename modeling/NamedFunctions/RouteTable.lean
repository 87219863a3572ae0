import NamedFunctions.Face
import NamedFunctions.Name.Matching

/-!
# Routes

Through which face Interests leave, by the first components of their names. Of several routes the
longest counts.
-/

namespace NamedFunctions

/-- Interests in names that a name covers leave through a face. `nfn-relay/src/fib:7–13`. -/
structure Route where
  name : Name
  face : FaceId
deriving DecidableEq, Repr

namespace Route

/-- Whether a route is the one for a name in a suite. `nfn-relay/src/fib:30–34`. -/
def hasKey (route : Route) (name : Name) (suite : Suite) : Bool :=
  route.name.suite == suite && route.name.components == name.components

end Route

/-- The routes of a relay. `nfn-relay/src/fib:15–20`. -/
structure RouteTable where
  /-- In the order in which they were added. -/
  routes : List Route := []
deriving DecidableEq, Repr

namespace RouteTable

/-- The route for a name in a suite. `nfn-relay/src/fib:46–49`. -/
def get? (table : RouteTable) (name : Name) (suite : Suite) : Option Route :=
  table.routes.find? (·.hasKey name suite)

/-- The routes with the face of the first one for a name in a suite changed. `nfn-relay/src/fib:30–38`. -/
def redirect (name : Name) (face : FaceId) (suite : Suite) : List Route → List Route
  | [] => []
  | route :: routes =>
    if route.hasKey name suite then { route with face } :: routes
    else route :: redirect name face suite routes

/-- Add a route for a name in a suite, or change the face of the one that is there; whether there was one.
`nfn-relay/src/fib:27–44`. -/
def insert (table : RouteTable) (name : Name) (face : FaceId) (suite : Suite) :
    Bool × RouteTable :=
  if table.routes.any (·.hasKey name suite) then (true, ⟨redirect name face suite table.routes⟩)
  else (false, ⟨table.routes ++ [⟨{ name with suite }, face⟩]⟩)

/-- Remove the route for a name in a suite; which it was. `nfn-relay/src/fib:46–54`. -/
def erase (table : RouteTable) (name : Name) (suite : Suite) : Option Route × RouteTable :=
  (table.get? name suite, ⟨table.routes.eraseP (·.hasKey name suite)⟩)

/-- The longest route to a name. `nfn-relay/src/fib:56–64`. -/
def lookup (table : RouteTable) (name : Name) : Option Route :=
  name.longestMatch (table.routes.map fun route => (route.name, route))

/-- Remove the routes through a face. `nfn-relay/src/fib:66–71`. -/
def eraseFace (table : RouteTable) (face : FaceId) : RouteTable :=
  ⟨table.routes.filter (·.face != face)⟩

end RouteTable

end NamedFunctions
