import LayeredFetch.Proofs.Stack.Course
import LayeredFetch.Proofs.Stack.Simulation

/-!
Requests without their credentials.

A transport is blind if what it answers does not depend on the credentials of the requests
it gets. Nothing then comes back through a stack that does.

* `Request.anonymous` is a request without credentials, `Stack.anonymous` a stack whose
  tokens are blank: what leaves the one is, without credentials, what leaves the other.
  So requests that are the same without credentials are alike (`Stack.anonymously`).
* `Transport.Blind` is about all that a server replies, from a state on. A server may keep
  the credentials that it gets, as long as no later reply tells.
* `World.Mirrors` relates two worlds that differ in their server and in credentials only.
-/

namespace LayeredFetch

/-! ### Credentials taken out -/

/-- The request without credentials. -/
def Request.anonymous (r : Request) : Request :=
  { r with headers := (r.headers.remove "Authorization").2 }

/-- The exchange with the request without credentials. -/
def Exchange.anonymous (x : Exchange) : Exchange := { x with request := x.request.anonymous }

/-- The token without a value. -/
def Token.anonymous : Token := ⟨.token, ""⟩

/-- The layer without its token. -/
def Layer.anonymous : Layer → Layer
  | authenticate _ => authenticate .anonymous
  | revalidate cache => revalidate cache

/-- The stack without its tokens. -/
def Stack.anonymous (s : Stack) : Stack := s.map Layer.anonymous

namespace Request

variable {r r' : Request}

/-- Requests that are the same without credentials have the same method. -/
lemma method_eq_of_anonymous (h : r.anonymous = r'.anonymous) : r.method = r'.method :=
  show r.anonymous.method = r'.anonymous.method from h ▸ rfl

lemma uri_eq_of_anonymous (h : r.anonymous = r'.anonymous) : r.uri = r'.uri :=
  show r.anonymous.uri = r'.anonymous.uri from h ▸ rfl

/-- Without credentials the same, requests have the same values of all other fields. -/
lemma all_eq_of_anonymous {name : String} (hname : Text.sameFold "Authorization" name = false)
    (h : r.anonymous = r'.anonymous) : r.headers.all name = r'.headers.all name := by
  have hall := congrArg (fun q : Request => q.headers.all name) h
  simpa [anonymous, Headers.all_remove, hname] using hall

/-- Requests that are the same without credentials differ in their fields only. -/
lemma eq_with_headers_of_anonymous (h : r.anonymous = r'.anonymous) :
    r' = { r with headers := r'.headers } := by
  obtain ⟨method, uri, headers, body⟩ := r
  obtain ⟨method', uri', headers', body'⟩ := r'
  obtain ⟨rfl, rfl, -, rfl⟩ := Request.mk.inj h
  rfl

/-- Credentials make no difference to revalidation. -/
lemma anonymous_revalidating (held : Option Tagged) :
    (r.revalidating held).anonymous = r.anonymous.revalidating held := by
  cases held with
  | none => rfl
  | some e =>
      have hfields : ((r.headers.insert "If-None-Match" e.etag).remove "Authorization").2 =
          (r.headers.remove "Authorization").2.insert "If-None-Match" e.etag :=
        Headers.remove_insert_of_ne (by decide)
      exact congrArg (fun h => { r with headers := h }) hfields

end Request

/-- Authentication concerns nothing but credentials. -/
lemma Token.anonymous_sign (token : Token) (r : Request) :
    (token.sign r).anonymous = r.anonymous := by
  rw [sign]
  cases token.authorization? with
  | none => rfl
  | some credentials =>
      have hfields : ((r.headers.insert "Authorization" credentials).remove "Authorization").2 =
          (r.headers.remove "Authorization").2 := Headers.remove_insert_self (by decide)
      exact congrArg (fun h => { r with headers := h }) hfields

/-- Tokens have nothing to do with caches. -/
lemma Stack.cacheNames_anonymous (s : Stack) : s.anonymous.cacheNames = s.cacheNames := by
  induction s with
  | nil => rfl
  | cons layer inner ih =>
      cases layer with
      | authenticate token => exact ih
      | revalidate cache => exact congrArg (cache :: ·) ih

/-- What leaves a stack is, without credentials, what leaves the stack without tokens. -/
lemma Stack.anonymous_outgoing {σ : Type} {w : World σ} (s : Stack) {r r' : Request}
    (h : r.anonymous = r'.anonymous) :
    (s.outgoing w r).anonymous = (s.anonymous.outgoing w r').anonymous := by
  induction s generalizing r r' with
  | nil => exact h
  | cons layer inner ih =>
      cases layer with
      | authenticate token =>
          refine ih ?_
          rw [Token.anonymous_sign, Token.anonymous_sign, h]
      | revalidate cache =>
          refine ih ?_
          rw [← Request.method_eq_of_anonymous h, ← Request.uri_eq_of_anonymous h]
          split
          · rw [Request.anonymous_revalidating, Request.anonymous_revalidating, h]
          · exact h

/-- Requests that are the same without credentials, and the stacks without tokens. -/
def Stack.anonymously : Simulation where
  likeRequests r r' := r.anonymous = r'.anonymous
  likeStacks s s' := s' = s.anonymous
  headers := Request.eq_with_headers_of_anonymous
  page _ := rfl
  caches {s s'} hs := by rw [hs, cacheNames_anonymous]
  outgoing {_ s _ _ _} w hs hr := hs ▸ s.anonymous_outgoing hr

/-- Exchanges of requests that are the same without credentials, with the same outcome. -/
lemma Exchange.like_anonymously :
    Like Stack.anonymously.likeRequests = fun x y => x.anonymous = y.anonymous := by
  funext x y
  refine propext ⟨?_, ?_⟩
  · rintro ⟨hrequest, houtcome⟩
    exact (Exchange.mk.injEq ..).mpr ⟨hrequest, houtcome⟩
  · intro h
    obtain ⟨hrequest, houtcome⟩ := Exchange.mk.inj h
    exact ⟨hrequest, houtcome⟩

/-! ### Blind transports -/

/-- The input without credentials. -/
def Input.anonymous {σ : Type} : Input σ → Input σ
  | request q => request q.anonymous
  | change f => change f

/-- Inputs are the same without credentials if their requests are. -/
lemma Input.like_anonymously {σ : Type} :
    Like Stack.anonymously.likeRequests = fun x y : Input σ => x.anonymous = y.anonymous := by
  funext x y
  refine propext ⟨?_, ?_⟩
  · intro h
    cases h with
    | request hq => exact congrArg request hq
    | change f => rfl
  · intro h
    cases x <;> cases y
    · exact .request (Input.request.inj h)
    · cases h
    · cases h
    · obtain rfl := Input.change.inj h
      exact .change _

namespace Transport

variable {σ : Type}

/-- Two states of a server that no sequence of requests, and of changes of some kind `C`, can
tell apart, whatever credentials the requests have. -/
def Alike (t : Transport σ) (C : (σ → σ) → Prop) (a b : σ) : Prop :=
  ∀ xs ys : List (Input σ), (∀ f, .change f ∈ xs → C f) →
    xs.map Input.anonymous = ys.map Input.anonymous → t.replies a xs = t.replies b ys

/-- A server whose replies do not depend on the credentials of the requests that it gets. -/
def Blind (t : Transport σ) (C : (σ → σ) → Prop) (server : σ) : Prop := t.Alike C server server

/-- Such states are alike for requests that are the same without credentials. -/
lemma alike_iff_indistinct {t : Transport σ} {C : (σ → σ) → Prop} {a b : σ} :
    t.Alike C a b ↔ t.Indistinct Stack.anonymously.likeRequests C a b := by
  have hmap : ∀ xs ys : List (Input σ), xs.map Input.anonymous = ys.map Input.anonymous ↔
      List.Forall₂ (Input.Like Stack.anonymously.likeRequests) xs ys := by
    intro xs ys
    rw [← List.forall₂_eq_eq_eq, List.forall₂_map_left_iff, List.forall₂_map_right_iff,
      Input.like_anonymously]
  simp only [Alike, Indistinct, hmap]

/-- A server whose replies tell nothing of its state, and of a request only what it is
without credentials, is alike in all states. -/
lemma alike_of_reply_eq {t : Transport σ} (C : (σ → σ) → Prop)
    (h : ∀ {a b q q'}, q.anonymous = q'.anonymous → (t.perform a q).1 = (t.perform b q').1)
    (a b : σ) : t.Alike C a b := alike_iff_indistinct.mpr (indistinct_of_reply_eq C h a b)

end Transport

/-! ### Worlds that mirror each other -/

namespace World

variable {σ : Type} {t : Transport σ} {C : (σ → σ) → Prop} {w m : World σ}

/-- Two worlds are the same but for their servers, which are alike, and for the credentials in
their histories. -/
structure Mirrors (t : Transport σ) (C : (σ → σ) → Prop) (w m : World σ) : Prop where
  server : t.Alike C w.server m.server
  caches : w.caches = m.caches
  serial : w.nextSerial = m.nextSerial
  exchanges : w.exchanges.map Exchange.anonymous = m.exchanges.map Exchange.anonymous
  events : w.events = m.events

/-- Such are the worlds of two runs that differ in credentials and tokens only. -/
lemma mirrors_iff_coupled :
    Mirrors t C w m ↔ Coupled t Stack.anonymously C [] [] w m := by
  have hmap : w.exchanges.map Exchange.anonymous = m.exchanges.map Exchange.anonymous ↔
      Exchange.LikeSince Stack.anonymously.likeRequests [] [] w.exchanges m.exchanges := by
    rw [Exchange.LikeSince.nil_iff, ← List.forall₂_eq_eq_eq, List.forall₂_map_left_iff,
      List.forall₂_map_right_iff, Exchange.like_anonymously]
  constructor
  · intro h
    exact ⟨Transport.alike_iff_indistinct.mp h.server, h.caches, h.serial,
      hmap.mp h.exchanges, h.events⟩
  · intro h
    exact ⟨Transport.alike_iff_indistinct.mpr h.server, h.caches, h.serial,
      hmap.mpr h.exchanges, h.events⟩

end World

end LayeredFetch
