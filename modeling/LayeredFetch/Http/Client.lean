import LayeredFetch.Config.Basic
import LayeredFetch.Http.Network
import LayeredFetch.Json.Reader
import LayeredFetch.Json.Writer
import LayeredFetch.Transport

/-!
The HTTP client: a transport over a network.

* **Going out.** The client has default fields, and says that a body is JSON;
  fields of the request replace those of the same name.
* **Coming in.** Every status is answered as a resource. Field values that are not
  readable are left out. A body that is not JSON counts as an empty object, except
  that the text sent with a server error is kept under `raw_body`.
-/

namespace LayeredFetch.Http

/-- A client, with the fields it sends by default. -/
structure Client where
  defaults : Headers
deriving DecidableEq, Repr

namespace Client

/-! ### Going out -/

/-- The `User-Agent` value, after the product that is given. -/
def userAgent (product : Option String) : String :=
  (product.elim "" (· ++ " | ")) ++ "provider-resources v0.1.0 | Rust 1.75"

/-- The client of a configuration. -/
def ofConfig (c : Config) : Client where
  defaults := (Headers.empty.insert "User-Agent" (userAgent c.product)).insert "Accept"
    c.provider.accept

/-- Gives a name these values, in place of every entry that matches. -/
def replace (h : Headers) (name : String) (values : List String) : Headers :=
  (h.remove name).2.appendPairs (values.map (name, ·))

/-- The fields sent with a request. -/
def outgoing (c : Client) (r : Request) : Headers :=
  let base := if r.body.isSome then c.defaults.insert "Content-Type" "application/json"
    else c.defaults
  r.headers.entries.foldl (fun h (name, values) => replace h name values) base

/-- The request as it is handed over. -/
def draft (c : Client) (r : Request) : Draft where
  method := r.method
  uri := r.uri
  fields := (c.outgoing r).pairs
  body := r.body.map Json.write

/-! ### Coming in -/

/-- The body as JSON. -/
def readBody (status : Nat) (text : String) : Json :=
  if text.isEmpty then .obj []
  else
    match Json.read? text with
    | some value => value
    | none => if 500 ≤ status then .ofMembers [("raw_body", .str text)] else .obj []

/-- The fields of an answer whose values are texts. -/
def readFields (text? : List UInt8 → Option String) (fields : List (String × List UInt8)) :
    Headers :=
  .ofPairs (fields.filterMap fun (name, value) => (text? value).map (name, ·))

/-- What the client makes of an answer to a request. -/
def receive (text? : List UInt8 → Option String) (r : Request) (response : Response) : Reply :=
  let unreadable := response.fields.filter fun (_, value) => (text? value).isNone
  let skipped := unreadable.map fun (name, _) => Event.skippedField name
  match response.body with
  | .error reason => ⟨.error (.network reason), skipped⟩
  | .ok text =>
      ⟨.ok ⟨response.status, readFields text? response.fields, readBody response.status text⟩,
        skipped ++ [.answered r.method r.uri response.status]⟩

/-- The client as a transport over a network. -/
def transport {ν : Type} (c : Client) (net : Network ν) : Transport ν where
  perform state r :=
    match r.verify with
    | .error e => (⟨.error (.invalid e), []⟩, state)
    | .ok () =>
        match net.rejection? (c.draft r) with
        | some reason => (⟨.error (.network reason), []⟩, state)
        | none =>
            match net.exchange state (c.draft r) with
            | (.error reason, state) => (⟨.error (.network reason), []⟩, state)
            | (.ok response, state) => (receive net.text? r response, state)

end Client

end LayeredFetch.Http
