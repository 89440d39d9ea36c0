import LayeredFetch.Headers
import LayeredFetch.Json.Basic
import LayeredFetch.Uri

/-!
Requests, and when a request is valid.

The URI of a request is absolute, and is also the key under which its answer may
be cached. POST, PUT and PATCH need a body, and GET must not have one.
-/

namespace LayeredFetch

/-- A request method. -/
inductive Method where
  | get | post | put | patch | delete
deriving DecidableEq, Repr

namespace Method

/-- The name in lower case. -/
def name : Method → String
  | get => "get"
  | post => "post"
  | put => "put"
  | patch => "patch"
  | delete => "delete"

/-- Whether a request with this method must have a body. -/
def needsBody : Method → Bool
  | post | put | patch => true
  | get | delete => false

/-- The method with exactly this name. -/
def ofName? (s : String) : Option Method :=
  [get, post, put, patch, delete].find? (·.name == s)

end Method

/-- A request. The fields are those sent in addition to a client's own. -/
structure Request where
  method : Method
  uri : String
  headers : Headers
  body : Option Json
deriving Repr

/-- Why a request is not sent. -/
inductive RequestError where
  | missingBody (method : String)
  | bodyNotAllowed (uri : String)
  | invalidUri (uri : String)
deriving DecidableEq, Repr

/-- The error in words. -/
def RequestError.message : RequestError → String
  | missingBody method => s!"Cannot use {method} without specifying data."
  | bodyNotAllowed uri =>
      s!"Cannot send a body with GET [{uri}]; GET requests are revalidated by URI alone."
  | invalidUri uri =>
      s!"Invalid request URI '{uri}'. Expected an absolute URI " ++
        "(e.g., 'https://api.github.com/user')."

namespace Request

/-- Checks a request: its URI first, then its body. -/
def verify (r : Request) : Except RequestError Unit :=
  if !Uri.isAbsolute r.uri then .error (.invalidUri r.uri)
  else if r.method.needsBody && r.body.isNone then .error (.missingBody r.method.name)
  else if r.method == .get && r.body.isSome then .error (.bodyNotAllowed r.uri)
  else .ok ()

/-- The request with a field of a single value, in place of every field of that
name. -/
def withHeader (r : Request) (name value : String) : Request :=
  { r with headers := r.headers.insert name value }

/-! ### Assembly -/

/-- A part put into a request while it is assembled. -/
inductive Part where
  | body (value : Json)
  /-- All fields at once, in place of those put in before. -/
  | headers (h : Headers)
  /-- One more field. -/
  | header (name value : String)
deriving Repr

/-- Puts a part into a request. -/
def add (r : Request) : Part → Request
  | .body value => { r with body := some value }
  | .headers h => { r with headers := h }
  | .header name value => { r with headers := r.headers.append name value }

/-- Assembles a request from its parts, and checks it. -/
def build (method : Method) (uri : String) (parts : List Part) : Except RequestError Request :=
  let r := parts.foldl add ⟨method, uri, .empty, none⟩
  r.verify.map fun _ => r

end Request

/-! ### Calls -/

/-- A call made on a stack of layers: one of the verbs, whose request is checked,
or a request as it stands. -/
inductive Call where
  | get (uri : String) (headers : Headers)
  | post (uri : String) (body : Json)
  | put (uri : String) (body : Json)
  | patch (uri : String) (body : Json)
  | delete (uri : String)
  | raw (request : Request)
deriving Repr

/-- The request of a call. -/
def Call.request : Call → Except RequestError Request
  | get uri headers => Request.build .get uri [.headers headers]
  | post uri body => Request.build .post uri [.body body]
  | put uri body => Request.build .put uri [.body body]
  | patch uri body => Request.build .patch uri [.body body]
  | delete uri => Request.build .delete uri []
  | raw request => .ok request

end LayeredFetch
