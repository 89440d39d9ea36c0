import LayeredFetch.Transport

/-!
Scripted servers: lists of routes that answer requests.

The first route that accepts a request and is not used up answers it; a request
that no route accepts gets a 404. `Script.transport` answers requests as they come
from the layers above, without checking them.
-/

namespace LayeredFetch

/-! ### Routes -/

/-- What a route asks of a request; what is not given may be anything. -/
structure Pattern where
  method : Option Method
  uri : Option String
  /-- The first value that a field must have; nothing if it must be absent. -/
  headers : List (String × Option String)
deriving DecidableEq, Repr

/-- Whether a request is as asked. -/
def Pattern.accepts (p : Pattern) (method : Method) (uri : String) (headers : Headers) : Bool :=
  p.method.all (· == method) && p.uri.all (· == uri) &&
    p.headers.all fun (name, value) => headers.first? name == value

/-- The body of an answer. -/
inductive Payload where
  | json (value : Json)
  | text (s : String)
  | octets (bytes : List UInt8)

/-- How a route fails. -/
inductive Breakdown where
  /-- No answer comes. -/
  | network
  /-- The URI of the request is called invalid. -/
  | invalidUri
deriving DecidableEq, Repr

/-- What a route does with a request. -/
inductive Answer where
  | reply (status : Nat) (headers : List (String × String)) (payload : Payload)
  | fail (how : Breakdown)

/-- A route; `times` counts its uses down, if they are limited. -/
structure Route where
  pattern : Pattern
  times : Option Nat
  answer : Answer

namespace Route

/-- Whether the route may still be used. -/
def isAvailable (r : Route) : Bool := r.times != some 0

/-- The route after one use. -/
def use (r : Route) : Route := { r with times := r.times.map (· - 1) }

end Route

/-! ### Scripts -/

/-- The routes of a scripted server, in order. -/
abbrev Script := List Route

namespace Script

/-- The answer to a request that no route accepts. -/
def unmatched : Answer := .reply 404 [] (.json (.ofMembers [("unmatched", .bool true)]))

/-- The answer of the first usable route that passes a test, and the routes after
its use. -/
def answer (accepts : Pattern → Bool) : Script → Answer × Script
  | [] => (unmatched, [])
  | route :: rest =>
      if route.isAvailable && accepts route.pattern then (route.answer, route.use :: rest)
      else
        let (found, rest) := answer accepts rest
        (found, route :: rest)

/-- The outcome of a request that is answered directly, with a JSON body. -/
def outcome (r : Request) : Answer → Except FetchError Resource
  | .reply status headers (.json body) => .ok ⟨status, .ofPairs headers, body⟩
  | .reply status headers _ => .ok ⟨status, .ofPairs headers, .null⟩
  | .fail .network => .error (.network "no answer")
  | .fail .invalidUri => .error (.invalid (.invalidUri r.uri))

/-- The transport to a scripted server. -/
def transport : Transport Script where
  perform script r :=
    let (found, script) := script.answer (·.accepts r.method r.uri r.headers)
    (⟨outcome r found, []⟩, script)

end Script

end LayeredFetch
