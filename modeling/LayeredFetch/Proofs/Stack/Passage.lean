import Mathlib.Tactic.Common
import LayeredFetch.Stack

/-!
The passage of a request through a stack: in through the layers, and out again.

A call on a stack is one exchange with the transport between two sweeps over the
layers, each a recursion of its own.

* **In.** `Stack.outgoing` is the request that reaches the transport. Every layer
  may replace one field and changes nothing else (`outgoing_eq`); the entity tag
  sent is the one that the innermost layer holding one has
  (`all_outgoing_of_held`).
* **Out.** `Stack.incoming` is what the layers make of the answer, the innermost
  first. What a cache held counts as it was before the request was made.
* **The law.** A request is refused and nothing happens (`Stack.request_of_refuses`),
  or it is the exchange of `outgoing` followed, for a GET, by `incoming`
  (`Stack.request_of_admits`).
-/

namespace LayeredFetch

/-! ### Layers and the request -/

namespace Request

variable {r : Request}

/-- Whether a request is valid does not depend on its fields. -/
@[simp] lemma verify_with_headers (h : Headers) :
    { r with headers := h }.verify = r.verify := rfl

/-- Revalidation changes nothing but fields. -/
lemma revalidating_eq (held : Option Tagged) :
    r.revalidating held = { r with headers := (r.revalidating held).headers } := by
  cases held <;> rfl

@[simp] lemma method_revalidating (held : Option Tagged) :
    (r.revalidating held).method = r.method := by rw [revalidating_eq]

@[simp] lemma uri_revalidating (held : Option Tagged) :
    (r.revalidating held).uri = r.uri := by rw [revalidating_eq]

@[simp] lemma verify_revalidating (held : Option Tagged) :
    (r.revalidating held).verify = r.verify := by rw [revalidating_eq, verify_with_headers]

/-- Revalidation takes nothing but the entity tag from what is held. -/
lemma revalidating_congr {held held' : Option Tagged} (r : Request)
    (h : held.map Tagged.etag = held'.map Tagged.etag) :
    r.revalidating held = r.revalidating held' := by
  cases held with
  | none =>
      obtain rfl : held' = none := Option.map_eq_none_iff.mp h.symm
      rfl
  | some e =>
      obtain ⟨e', rfl, he⟩ := Option.map_eq_some_iff.mp h.symm
      exact congrArg (r.withHeader "If-None-Match") he.symm

/-- Revalidation leaves the fields of other names alone. -/
lemma all_revalidating_of_ne {name : String} (held : Option Tagged)
    (h : Text.sameFold "If-None-Match" name = false) :
    (r.revalidating held).headers.all name = r.headers.all name := by
  cases held with
  | none => rfl
  | some e =>
      rw [revalidating, withHeader, Headers.all_insert, h]
      rfl

/-- The entity tag of what is held takes the place of every other. -/
lemma all_revalidating (e : Tagged) :
    (r.revalidating (some e)).headers.all "If-None-Match" = [e.etag] := by
  rw [revalidating, withHeader, Headers.all_insert, if_pos (by decide)]

end Request

namespace Token

variable {token : Token} {r : Request}

/-- Authentication changes nothing but fields. -/
lemma sign_eq : token.sign r = { r with headers := (token.sign r).headers } := by
  unfold sign
  split <;> rfl

@[simp] lemma method_sign : (token.sign r).method = r.method := by rw [sign_eq]

@[simp] lemma uri_sign : (token.sign r).uri = r.uri := by rw [sign_eq]

@[simp] lemma verify_sign : (token.sign r).verify = r.verify := by
  rw [sign_eq, Request.verify_with_headers]

/-- Authentication leaves the fields of other names alone. -/
lemma all_sign {name : String} (h : Text.sameFold "Authorization" name = false) :
    (token.sign r).headers.all name = r.headers.all name := by
  rw [sign]
  split
  · rw [Request.withHeader, Headers.all_insert, h]
    rfl
  · rfl

end Token

namespace Stack

variable {σ : Type} {t : Transport σ} {w m before : World σ} {uri : String} {r : Request}

/-- The request that leaves the innermost layer of a stack. -/
def outgoing (w : World σ) : Stack → Request → Request
  | [], r => r
  | .authenticate token :: inner, r => outgoing w inner (token.sign r)
  | .revalidate cache :: inner, r =>
      outgoing w inner (if r.method = .get then r.revalidating (w.held? cache r.uri) else r)

/-- What the layers of a stack make of the answer to a GET, `before` being the
world in which the request was made. -/
def incoming (before : World σ) (uri : String) : Stack → Fetched → World σ → Fetched × World σ
  | [], answer, w => (answer, w)
  | .authenticate _ :: inner, answer, w => incoming before uri inner answer w
  | .revalidate cache :: inner, answer, w =>
      let out := incoming before uri inner answer w
      out.2.settle cache uri (before.held? cache uri) out.1

/-- A stack refuses a request for a reason: one that revalidates checks every GET. -/
def Refuses (s : Stack) (r : Request) (e : RequestError) : Prop :=
  r.method = .get ∧ s.cacheNames ≠ [] ∧ r.verify = .error e

/-- A stack lets a request through. -/
def Admits (s : Stack) (r : Request) : Prop :=
  r.method = .get → s.cacheNames ≠ [] → r.verify = .ok ()

/-! ### Names of caches -/

@[simp] lemma cacheNames_nil : cacheNames [] = [] := rfl

@[simp] lemma cacheNames_authenticate (token : Token) (inner : Stack) :
    cacheNames (.authenticate token :: inner) = inner.cacheNames := rfl

@[simp] lemma cacheNames_revalidate (cache : String) (inner : Stack) :
    cacheNames (.revalidate cache :: inner) = cache :: inner.cacheNames := rfl

@[simp] lemma cacheNames_append (outer inner : Stack) :
    cacheNames (outer ++ inner) = outer.cacheNames ++ inner.cacheNames := by
  simp [cacheNames]

/-! ### The way in -/

/-- The layers of a stack change nothing but fields. -/
lemma outgoing_eq (s : Stack) :
    s.outgoing w r = { r with headers := (s.outgoing w r).headers } := by
  induction s generalizing r with
  | nil => rfl
  | cons layer inner ih =>
      cases layer with
      | authenticate token =>
          rw [outgoing, ih, Token.sign_eq]
      | revalidate cache =>
          rw [outgoing, ih]
          split
          · rw [Request.revalidating_eq]
          · rfl

@[simp] lemma method_outgoing (s : Stack) : (s.outgoing w r).method = r.method := by
  rw [outgoing_eq]

@[simp] lemma uri_outgoing (s : Stack) : (s.outgoing w r).uri = r.uri := by
  rw [outgoing_eq]

/-- The layers of a stack are gone through one part after the other. -/
lemma outgoing_append (outer inner : Stack) :
    outgoing w (outer ++ inner) r = inner.outgoing w (outer.outgoing w r) := by
  induction outer generalizing r with
  | nil => rfl
  | cons layer outer ih => cases layer <;> exact ih

/-- On the way in only the entity tags held under the URI of a GET count. -/
lemma outgoing_congr (s : Stack)
    (h : r.method = .get →
      ∀ cache, (w.held? cache r.uri).map Tagged.etag = (m.held? cache r.uri).map Tagged.etag) :
    s.outgoing w r = s.outgoing m r := by
  induction s generalizing r with
  | nil => rfl
  | cons layer inner ih =>
      cases layer with
      | authenticate token => exact ih (by simpa using h)
      | revalidate cache =>
          rw [outgoing, outgoing]
          split
          · next hget =>
              rw [r.revalidating_congr (h hget cache)]
              exact ih (by simpa using h)
          · exact ih h

/-- A request that no layer has something to revalidate for keeps its own entity
tags. -/
lemma all_outgoing_of_get_not_held (s : Stack)
    (h : r.method = .get → ∀ cache ∈ s.cacheNames, w.held? cache r.uri = none) :
    (s.outgoing w r).headers.all "If-None-Match" = r.headers.all "If-None-Match" := by
  induction s generalizing r with
  | nil => rfl
  | cons layer inner ih =>
      cases layer with
      | authenticate token =>
          have hinner := ih (r := token.sign r) (by simpa using h)
          rw [outgoing, hinner, Token.all_sign (by decide)]
      | revalidate cache =>
          have hinner := ih fun hget c hc => h hget c (List.mem_cons_of_mem cache hc)
          rw [outgoing]
          split
          · next hget =>
              rw [h hget cache List.mem_cons_self]
              exact hinner
          · exact hinner

/-- A request for what no layer holds keeps its own entity tags. -/
lemma all_outgoing_of_not_held (s : Stack)
    (h : ∀ cache ∈ s.cacheNames, w.held? cache r.uri = none) :
    (s.outgoing w r).headers.all "If-None-Match" = r.headers.all "If-None-Match" :=
  s.all_outgoing_of_get_not_held fun _ => h

/-- A GET for what a layer holds, and none inside it, carries the entity tag held
there and no other. -/
lemma all_outgoing_of_held {s outer inner : Stack} {cache : String} {e : Tagged}
    (hs : s = outer ++ .revalidate cache :: inner) (hget : r.method = .get)
    (he : w.held? cache r.uri = some e)
    (hinner : ∀ c ∈ inner.cacheNames, w.held? c r.uri = none) :
    (s.outgoing w r).headers.all "If-None-Match" = [e.etag] := by
  rw [hs, outgoing_append, outgoing, method_outgoing, uri_outgoing, if_pos hget, he,
    all_outgoing_of_not_held, Request.all_revalidating]
  simpa using hinner

/-! ### The way out -/

/-- On the way out only the caches of a stack count. -/
lemma incoming_eq (before : World σ) (uri : String) (s : Stack) (answer : Fetched)
    (w : World σ) :
    s.incoming before uri answer w =
      incoming before uri (s.cacheNames.map .revalidate) answer w := by
  induction s with
  | nil => rfl
  | cons layer inner ih =>
      cases layer with
      | authenticate token => exact ih
      | revalidate cache => rw [incoming, ih, cacheNames_revalidate, List.map_cons, incoming]

/-- An answer comes out through the inner layers first. -/
lemma incoming_append (outer inner : Stack) (answer : Fetched) :
    incoming before uri (outer ++ inner) answer w =
      outer.incoming before uri (inner.incoming before uri answer w).1
        (inner.incoming before uri answer w).2 := by
  induction outer with
  | nil => rfl
  | cons layer outer ih =>
      cases layer with
      | authenticate token => exact ih
      | revalidate cache => rw [List.cons_append, incoming, ih, incoming]

/-! ### The law -/

/-- A request is let through or refused. -/
lemma admits_or_refuses (s : Stack) (r : Request) : s.Admits r ∨ ∃ e, s.Refuses r e := by
  by_cases h : r.method = .get ∧ s.cacheNames ≠ []
  · cases hv : r.verify with
    | error e => exact .inr ⟨e, h.1, h.2, hv⟩
    | ok _ => exact .inl fun _ _ => hv
  · exact .inl fun hget hs => absurd ⟨hget, hs⟩ h

lemma admits_of_verify (s : Stack) (h : r.verify = .ok ()) : s.Admits r := fun _ _ => h

/-- **The law of a stack, refused**: a request that a stack refuses fails with the
reason, and nothing happens. -/
theorem request_of_refuses (s : Stack) {e : RequestError} (h : s.Refuses r e) :
    s.request t r w = (.error (.invalid e), w) := by
  obtain ⟨hget, hs, hv⟩ := h
  induction s generalizing r with
  | nil => exact absurd rfl hs
  | cons layer inner ih =>
      cases layer with
      | authenticate token =>
          exact ih (Token.method_sign.trans hget) hs (Token.verify_sign.trans hv)
      | revalidate cache => simp only [request, hget, if_true, hv]

/-- **The law of a stack**: a request that is let through is exchanged with the
transport as `outgoing` has it, and the answer to a GET comes out as `incoming`
has it. -/
theorem request_of_admits (s : Stack) (h : s.Admits r) :
    s.request t r w =
      match w.send t (s.outgoing w r) with
      | (.error e, w') => (.error e, w')
      | (.ok answer, w') =>
          if r.method = .get then
            (.ok (s.incoming w r.uri answer w').1, (s.incoming w r.uri answer w').2)
          else (.ok answer, w') := by
  induction s generalizing r with
  | nil =>
      simp only [request, outgoing, incoming, ite_self]
      rcases w.send t r with ⟨_ | _, _⟩ <;> rfl
  | cons layer inner ih =>
      cases layer with
      | authenticate token =>
          have hinner : Admits inner (token.sign r) := by
            simpa only [Admits, Token.method_sign, Token.verify_sign,
              cacheNames_authenticate] using h
          rw [request, ih hinner, Token.uri_sign]
          simp only [Token.method_sign]
          rfl
      | revalidate cache =>
          by_cases hget : r.method = .get
          · have hv := h hget (List.cons_ne_nil _ _)
            have hinner : Admits inner (r.revalidating (w.held? cache r.uri)) :=
              admits_of_verify inner ((Request.verify_revalidating _).trans hv)
            simp only [request, hget, if_true, hv, ih hinner, outgoing,
              Request.method_revalidating, Request.uri_revalidating]
            rcases w.send t (outgoing w inner (r.revalidating (w.held? cache r.uri))) with
              ⟨_ | _, _⟩ <;> rfl
          · have hinner : Admits inner r := fun hg => absurd hg hget
            simp only [request, hget, if_false, ih hinner, outgoing]

end Stack

end LayeredFetch
