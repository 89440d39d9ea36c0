import LayeredFetch.Proofs.Stack.Passage

/-!
Worlds that layers cannot tell apart.

What a stack makes of an answer depends on the world by what is held under one URI only. So
two worlds in which that is the same, up to something that a layer never looks at, stay
so.

* `World.Likeness` says what a relation between worlds has to keep for this: for each thing
  that a layer does to a world, one law. `Likeness.incoming` is then the way out.
* `World.Likeness.request`: two requests that are exchanged alike give the same, through
  stacks with the same caches.
-/

namespace LayeredFetch

/-- A fetched value with its instance, if it is one, sent through a map. -/
def Fetched.map (f : Tagged → Tagged) : Fetched → Fetched
  | plain r => plain r
  | tagged e => tagged (f e)

/-- A map that changes no instance changes no value. -/
@[simp] lemma Fetched.map_id : Fetched.map id = id := by
  funext a
  cases a <;> rfl

namespace World

variable {σ : Type} {t : Transport σ} {f : Tagged → Tagged} {uri : String}
variable {W : World σ → World σ → Prop} {w m before before' : World σ}

/-- A relation between worlds that layers keep when they handle requests for a URI: related
worlds hold the same under it, up to what `f` forgets of an instance. -/
structure Likeness (f : Tagged → Tagged) (uri : String) (W : World σ → World σ → Prop) :
    Prop where
  /-- The entity tag and the resource are not forgotten. -/
  content : ∀ {e e'}, f e = f e' → e.etag = e'.etag ∧ e.resource = e'.resource
  held : ∀ {w m}, W w m → ∀ cache, (w.held? cache uri).map f = (m.held? cache uri).map f
  /-- New instances of one answer are the same. -/
  fresh : ∀ {w m}, W w m → ∀ etag r,
    f ⟨w.nextSerial, uri, etag, r⟩ = f ⟨m.nextSerial, uri, etag, r⟩
  mint : ∀ {w m}, W w m → W w.mint m.mint
  report : ∀ {w m}, W w m → ∀ e, W (w.report e) (m.report e)
  store : ∀ {w m}, W w m → ∀ cache {e e'}, f e = f e' →
    W (w.store cache uri e) (m.store cache uri e')

/-- Two outcomes are the same, in related worlds. -/
def Alike (f : Tagged → Tagged) (W : World σ → World σ → Prop) (x y : Fetched × World σ) :
    Prop :=
  x.1.map f = y.1.map f ∧ W x.2 y.2

namespace Likeness

/-- Values that are the same have the same resource. -/
lemma resource_eq (h : Likeness f uri W) {a a' : Fetched} (ha : a.map f = a'.map f) :
    a.resource = a'.resource := by
  cases a with
  | plain r =>
      cases a' with
      | plain r' => exact Fetched.plain.inj ha
      | tagged e' => cases ha
  | tagged e =>
      cases a' with
      | plain r' => cases ha
      | tagged e' => exact (h.content (Fetched.tagged.inj ha)).2

/-- Values become instances that are the same. -/
lemma enroll (h : Likeness f uri W) (hW : W w m) {a a' : Fetched} (ha : a.map f = a'.map f) :
    (w.enroll uri a).1.map f = (m.enroll uri a').1.map f ∧
      W (w.enroll uri a).2 (m.enroll uri a').2 := by
  cases a with
  | plain r =>
      cases a' with
      | tagged e' => cases ha
      | plain r' =>
          obtain rfl := Fetched.plain.inj ha
          rw [World.enroll, World.enroll, Fetched.tag?, Fetched.tag?, Fetched.isTaggable]
          cases r.etag? with
          | none => exact ⟨rfl, hW⟩
          | some etag => exact ⟨congrArg some (h.fresh hW etag r), h.mint hW⟩
  | tagged e =>
      cases a' with
      | plain r' => cases ha
      | tagged e' => exact ⟨congrArg some (Fetched.tagged.inj ha), hW⟩

/-- A layer settles answers alike. -/
lemma settle (h : Likeness f uri W) (hW : W w m) (cache : String) {held held' : Option Tagged}
    (hheld : held.map f = held'.map f) {a a' : Fetched} (ha : a.map f = a'.map f) :
    Alike f W (w.settle cache uri held a) (m.settle cache uri held' a') := by
  obtain ⟨hmade, hafter⟩ := h.enroll hW ha
  unfold World.settle
  rw [h.resource_eq ha]
  split
  · cases held with
    | none =>
        obtain rfl : held' = none := Option.map_eq_none_iff.mp hheld.symm
        exact ⟨ha, hW⟩
    | some e =>
        obtain ⟨e', rfl, he⟩ := Option.map_eq_some_iff.mp hheld.symm
        dsimp only
        rw [(h.content he).1]
        exact ⟨congrArg Fetched.tagged he.symm, h.report hW _⟩
  · split
    · generalize w.enroll uri a = x at hmade hafter ⊢
      generalize m.enroll uri a' = y at hmade hafter ⊢
      obtain ⟨made, w'⟩ := x
      obtain ⟨made', m'⟩ := y
      cases made with
      | none =>
          obtain rfl : made' = none := Option.map_eq_none_iff.mp hmade.symm
          exact ⟨ha, hafter⟩
      | some e =>
          obtain ⟨e', rfl, he⟩ := Option.map_eq_some_iff.mp hmade.symm
          dsimp only
          rw [(h.content he).1]
          exact ⟨congrArg Fetched.tagged he.symm,
            h.store (h.report hafter _) cache he.symm⟩
    · exact ⟨ha, hW⟩

/-- Answers come out of a stack alike. -/
lemma incoming (h : Likeness f uri W) (hW : W w m)
    (hbefore : ∀ cache, (before.held? cache uri).map f = (before'.held? cache uri).map f)
    (s : Stack) {a a' : Fetched} (ha : a.map f = a'.map f) :
    Alike f W (s.incoming before uri a w) (s.incoming before' uri a' m) := by
  induction s with
  | nil => exact ⟨ha, hW⟩
  | cons layer inner ih =>
      cases layer with
      | authenticate token => exact ih
      | revalidate cache => exact h.settle ih.2 cache (hbefore cache) ih.1

/-- **Requests that are exchanged alike give the same**, through stacks with the same
caches. -/
theorem request {r r' : Request} {s s' : Stack} (h : Likeness f r.uri W) (hW : W w m)
    (hcaches : s.cacheNames = s'.cacheNames) (hmethod : r.method = r'.method)
    (huri : r.uri = r'.uri) (hverify : r.verify = r'.verify)
    (hsent : (w.send t (s.outgoing w r)).1 = (m.send t (s'.outgoing m r')).1 ∧
      W (w.send t (s.outgoing w r)).2 (m.send t (s'.outgoing m r')).2) :
    (s.request t r w).1.map (Fetched.map f) = (s'.request t r' m).1.map (Fetched.map f) ∧
      W (s.request t r w).2 (s'.request t r' m).2 := by
  rcases s.admits_or_refuses r with hadmits | ⟨e, hrefuses⟩
  · have hadmits' : s'.Admits r' := by
      rw [Stack.Admits, ← hmethod, ← hcaches, ← hverify]
      exact hadmits
    obtain ⟨hanswer, hafter⟩ := hsent
    rw [Stack.request_of_admits s hadmits, Stack.request_of_admits s' hadmits', ← hmethod, ← huri]
    generalize w.send t (s.outgoing w r) = x at hanswer hafter ⊢
    generalize m.send t (s'.outgoing m r') = y at hanswer hafter ⊢
    obtain ⟨answer, w'⟩ := x
    obtain ⟨answer', m'⟩ := y
    obtain rfl : answer = answer' := hanswer
    cases answer with
    | error e => exact ⟨rfl, hafter⟩
    | ok a =>
        dsimp only
        split
        · rw [s.incoming_eq, s'.incoming_eq, ← hcaches]
          obtain ⟨hout, hend⟩ := h.incoming hafter (fun cache => h.held hW cache)
            (s.cacheNames.map .revalidate) (a := a) rfl
          exact ⟨congrArg Except.ok hout, hend⟩
        · exact ⟨rfl, hafter⟩
  · have hrefuses' : s'.Refuses r' e := by
      rw [Stack.Refuses, ← hmethod, ← hcaches, ← hverify]
      exact hrefuses
    rw [Stack.request_of_refuses s hrefuses, Stack.request_of_refuses s' hrefuses']
    exact ⟨rfl, hW⟩

end Likeness

end World

end LayeredFetch
