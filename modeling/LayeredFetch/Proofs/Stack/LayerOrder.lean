import LayeredFetch.Proofs.Headers.Order
import LayeredFetch.Proofs.Stack.Fields
import LayeredFetch.Proofs.Stack.Simulation

/-!
Layers in another order.

A token and the entity tag of what is held go into fields of different names, so it makes no
difference to a request but for the order of its fields which of them is put in first.

* `Request.Same`: two requests are the same, up to the order of their fields. Layers keep that
  (`Same.outgoing`).
* `Stack.sorted` has the layers of a stack in a standard order: first those of
  authentication, then those of revalidation, each kind in the order of the stack. What
  leaves it is the same (`Stack.same_outgoing_sorted`).
* `Stack.rearranged`: so stacks with the same tokens and the same caches, in order, are alike.
-/

namespace LayeredFetch

/-- Two requests are the same, but for the order of their well-formed fields. -/
structure Request.Same (r r' : Request) : Prop where
  method : r.method = r'.method
  uri : r.uri = r'.uri
  body : r.body = r'.body
  wellFormed : r.headers.WellFormed
  wellFormed' : r'.headers.WellFormed
  headers : r.headers.same r'.headers = true

namespace Request

variable {r r' r'' : Request} {name other value value' : String}

namespace Same

/-- Requests with equal fields are the same, if they are so apart from those. -/
lemma of_equal (method : r.method = r'.method) (uri : r.uri = r'.uri) (body : r.body = r'.body)
    (h : r.headers.Equal r'.headers) : Same r r' :=
  ⟨method, uri, body, h.left, h.right, h.same⟩

lemma equal (h : Same r r') : r.headers.Equal r'.headers :=
  (Headers.equal_iff_same h.wellFormed h.wellFormed').mpr h.headers

lemma refl (h : r.headers.WellFormed) : Same r r := of_equal rfl rfl rfl (.refl h)

lemma symm (h : Same r r') : Same r' r :=
  of_equal h.method.symm h.uri.symm h.body.symm h.equal.symm

lemma trans (h : Same r r') (h' : Same r' r'') : Same r r'' :=
  of_equal (h.method.trans h'.method) (h.uri.trans h'.uri) (h.body.trans h'.body)
    (h.equal.trans h'.equal)

/-- The same field put into the same request gives the same request. -/
lemma withHeader (h : Same r r') (name value : String) :
    Same (r.withHeader name value) (r'.withHeader name value) :=
  of_equal h.method h.uri h.body (h.equal.insert name value)

end Same

/-- Fields of different names are put in in either order. -/
lemma same_withHeader_comm (h : r.headers.WellFormed)
    (hne : Text.sameFold name other = false) :
    Same ((r.withHeader name value).withHeader other value')
      ((r.withHeader other value').withHeader name value) :=
  Same.of_equal rfl rfl rfl (h.insert_comm hne value value')

namespace Same

/-! ### Layers -/

lemma sign (h : Same r r') (token : Token) : Same (token.sign r) (token.sign r') := by
  rw [Token.sign, Token.sign]
  cases token.authorization? with
  | none => exact h
  | some credentials => exact h.withHeader _ _

lemma revalidating (h : Same r r') (held : Option Tagged) :
    Same (r.revalidating held) (r'.revalidating held) := by
  cases held with
  | none => exact h
  | some e => exact h.withHeader _ _

/-- Of the same requests a stack lets out the same requests. -/
lemma outgoing {σ : Type} {w : World σ} (h : Same r r') (s : Stack) :
    Same (s.outgoing w r) (s.outgoing w r') := by
  induction s generalizing r r' with
  | nil => exact h
  | cons layer inner ih =>
      cases layer with
      | authenticate token => exact ih (h.sign token)
      | revalidate cache =>
          rw [Stack.outgoing, Stack.outgoing, ← h.method, ← h.uri]
          split
          · exact ih (h.revalidating _)
          · exact ih h

end Same

/-- A token may be presented before or after revalidation. -/
lemma same_sign_revalidating (h : r.headers.WellFormed) (token : Token)
    (held : Option Tagged) :
    Same (token.sign (r.revalidating held)) ((token.sign r).revalidating held) := by
  have hself : Same r r := .refl h
  rw [Token.sign, Token.sign]
  cases token.authorization? with
  | none => exact hself.revalidating held
  | some credentials =>
      cases held with
      | none => exact hself.withHeader _ _
      | some e => exact same_withHeader_comm h (by decide)

end Request

namespace Stack

open Request (Same)

variable {σ : Type} {w : World σ} {r : Request}

/-! ### Layers in a standard order -/

/-- The layers of a stack with those of authentication outside, each kind in order. -/
def sorted (s : Stack) : Stack :=
  s.tokens.map .authenticate ++ s.cacheNames.map .revalidate

/-- A layer of revalidation may stand inside or outside of those of authentication. -/
lemma same_outgoing_revalidate (h : r.headers.WellFormed) (tokens : List Token)
    (cache : String) :
    Same (outgoing w (.revalidate cache :: tokens.map .authenticate) r)
      (outgoing w (tokens.map .authenticate ++ [.revalidate cache]) r) := by
  induction tokens generalizing r with
  | nil => exact (Same.refl h).outgoing _
  | cons token tokens ih =>
      have hsigned : (token.sign r).headers.WellFormed := ((Same.refl h).sign token).wellFormed
      refine Same.trans ?_ (ih hsigned)
      rw [List.map_cons, outgoing, outgoing, outgoing, Token.method_sign, Token.uri_sign]
      split
      · exact (Request.same_sign_revalidating h token _).outgoing _
      · exact (Same.refl hsigned).outgoing _

/-- **What leaves a stack** is what leaves it with its layers in the standard order. -/
lemma same_outgoing_sorted (s : Stack) (h : r.headers.WellFormed) :
    Same (s.outgoing w r) (s.sorted.outgoing w r) := by
  induction s generalizing r with
  | nil => exact .refl h
  | cons layer inner ih =>
      cases layer with
      | authenticate token => exact ih ((Same.refl h).sign token).wellFormed
      | revalidate cache =>
          have hasked : (outgoing w [.revalidate cache] r).headers.WellFormed :=
            ((Same.refl h).outgoing _).wellFormed
          have hinner : Same (outgoing w (.revalidate cache :: inner) r)
              (outgoing w (.revalidate cache :: sorted inner) r) := ih hasked
          have hmoved := (same_outgoing_revalidate (w := w) h (tokens inner) cache).outgoing
            (w := w) ((cacheNames inner).map .revalidate)
          rw [← outgoing_append, ← outgoing_append, List.append_assoc] at hmoved
          exact hinner.trans hmoved

/-- A stack has the same layers in the standard order. -/
lemma perm_sorted (s : Stack) : List.Perm s s.sorted := by
  induction s with
  | nil => exact .nil
  | cons layer inner ih =>
      cases layer with
      | authenticate token => exact ih.cons _
      | revalidate cache => exact (ih.cons _).trans List.perm_middle.symm

/-- Requests that are the same but for the order of their fields, and stacks with the same
tokens and the same caches, each in the same order. -/
def rearranged : Simulation where
  likeRequests r r' := r.Same r'
  likeStacks s s' := s.tokens = s'.tokens ∧ s.cacheNames = s'.cacheNames
  headers {r r'} h := by
    obtain ⟨method, uri, headers, body⟩ := r
    obtain ⟨method', uri', headers', body'⟩ := r'
    obtain ⟨rfl, rfl, rfl, -⟩ := h
    rfl
  page _ := .refl Headers.wellFormed_empty
  caches hs := hs.2
  outgoing {_ s s' _ _} w hs hr := by
    have hsorted : s.sorted = s'.sorted := by rw [sorted, sorted, hs.1, hs.2]
    have hs' := s'.same_outgoing_sorted (w := w) hr.wellFormed'
    rw [← hsorted] at hs'
    exact ((s.same_outgoing_sorted hr.wellFormed).trans (hr.outgoing _)).trans hs'.symm

/-- A layer of authentication next to one of revalidation may change places with it. -/
lemma rearranged_swap (outer inner : Stack) (token : Token) (cache : String) :
    rearranged.likeStacks (outer ++ .authenticate token :: .revalidate cache :: inner)
      (outer ++ .revalidate cache :: .authenticate token :: inner) := by
  constructor
  · simp [tokens]
  · simp

end Stack

end LayeredFetch
