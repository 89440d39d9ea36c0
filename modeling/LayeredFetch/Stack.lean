import LayeredFetch.Token
import LayeredFetch.World

/-!
Stacks of layers over a transport.

A request goes through the layers from the outermost one in, and what comes back
goes through them the other way.

* **Authentication** gives the request the `Authorization` value of a token,
  unless the token is blank.
* **Revalidation** concerns GET requests. One for a URI that its cache holds
  carries the entity tag held, as `If-None-Match`. Answered that nothing changed,
  the layer gives the instance that was held when the request came; a success
  with an entity tag goes into the cache; anything else is passed on.
-/

namespace LayeredFetch

/-- A layer around a transport or another layer. -/
inductive Layer where
  | authenticate (token : Token)
  /-- Revalidation against the cache of a name. -/
  | revalidate (cache : String)
deriving DecidableEq, Repr

/-- Layers over a transport, the outermost first. -/
abbrev Stack := List Layer

/-- The request with a token presented. -/
def Token.sign (t : Token) (r : Request) : Request :=
  match t.authorization? with
  | some credentials => r.withHeader "Authorization" credentials
  | none => r

/-- The request with the entity tag of what is held. -/
def Request.revalidating (r : Request) (held : Option Tagged) : Request :=
  match held with
  | some t => r.withHeader "If-None-Match" t.etag
  | none => r

/-- What a revalidating layer makes of an answer, `held` being what its cache held
when the request came. -/
def World.settle {σ : Type} (w : World σ) (cache uri : String) (held : Option Tagged)
    (answer : Fetched) : Fetched × World σ :=
  if answer.resource.isNotModified then
    match held with
    | some t => (.tagged t, w.report (.notModified uri t.etag))
    | none => (answer, w)
  else if answer.resource.isSuccess then
    match w.enroll uri answer with
    | (some t, w) => (.tagged t, (w.report (.caching uri t.etag)).store cache uri t)
    | (none, w) => (answer, w)
  else (answer, w)

namespace Stack

variable {σ : Type}

/-- Makes a request through a stack. -/
def request (t : Transport σ) : Stack → Request → World σ → Except FetchError Fetched × World σ
  | [], r, w => w.send t r
  | .authenticate token :: inner, r, w => request t inner (token.sign r) w
  | .revalidate cache :: inner, r, w =>
      if r.method = .get then
        match r.verify with
        | .error e => (.error (.invalid e), w)
        | .ok () =>
            let held := w.held? cache r.uri
            match request t inner (r.revalidating held) w with
            | (.error e, w) => (.error e, w)
            | (.ok answer, w) =>
                let (result, w) := w.settle cache r.uri held answer
                (.ok result, w)
      else request t inner r w

/-- Makes a call through a stack; a call whose request is not valid is not made. -/
def call (t : Transport σ) (s : Stack) (c : Call) (w : World σ) :
    Except FetchError Fetched × World σ :=
  match c.request with
  | .error e => (.error (.invalid e), w)
  | .ok r => s.request t r w

/-- The stack with another token in its outermost layer, if that is one of
authentication. -/
def withToken? (s : Stack) (token : Token) : Option Stack :=
  match s with
  | .authenticate _ :: inner => some (.authenticate token :: inner)
  | _ => none

/-- The names of the caches that a stack revalidates against. -/
def cacheNames (s : Stack) : List String :=
  s.filterMap fun
    | .revalidate cache => some cache
    | .authenticate _ => none

end Stack

end LayeredFetch
