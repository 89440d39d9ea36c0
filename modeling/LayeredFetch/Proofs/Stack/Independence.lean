import LayeredFetch.Proofs.Stack.Failures
import LayeredFetch.Proofs.Stack.Likeness

/-!
Requests that do not get into each other's way.

A request reads and writes entries under its own URI only, and only if it is a GET.

* **What it writes.** `Stack.held?_request_of_ne`: every other entry of every cache is held
  as before.
* **What it reads.** `Stack.request_congr`: worlds that hold the same under its URI are as
  good as each other, over a server that gives a fixed answer to each request. Instances are
  the same here when they differ in their serial number only.
* `Stack.independent_calls_commute`: so two calls that are not both GETs of one URI may be
  made in either order, through any stacks.
-/

namespace LayeredFetch

/-- An instance without its serial number: all that two instances of the same content have
in common. -/
def Tagged.unnumbered (e : Tagged) : Tagged := { e with serial := 0 }

/-- A fetched value without the serial number of its instance. -/
def Fetched.unnumbered : Fetched → Fetched := Fetched.map Tagged.unnumbered

namespace World

variable {σ : Type} {w m : World σ} {uri other : String}

/-- Two worlds hold the same content under a URI. -/
def SameContent (uri : String) (w m : World σ) : Prop :=
  ∀ cache, (w.held? cache uri).map Tagged.unnumbered = (m.held? cache uri).map Tagged.unnumbered

namespace SameContent

lemma symm (h : SameContent uri w m) : SameContent uri m w := fun cache => (h cache).symm

lemma trans {m' : World σ} (h : SameContent uri w m) (h' : SameContent uri m m') :
    SameContent uri w m' := fun cache => (h cache).trans (h' cache)

end SameContent

/-- Layers that handle requests for a URI cannot tell such worlds apart. -/
lemma likeness_sameContent (uri : String) :
    Likeness Tagged.unnumbered uri (SameContent (σ := σ) uri) where
  content h := by
    simp only [Tagged.unnumbered, Tagged.mk.injEq, true_and] at h
    exact ⟨h.2.1, h.2.2⟩
  held h := h
  fresh _ _ _ := rfl
  mint h := h
  report h _ := h
  store h cache e e' he c := by
    rw [held?_store, held?_store]
    split
    · exact congrArg some he
    · exact h c

/-- A layer stores nothing under another URI. -/
lemma held?_settle_of_ne (h : other ≠ uri) (cache : String) (held : Option Tagged)
    (answer : Fetched) (c : String) :
    (w.settle cache uri held answer).2.held? c other = w.held? c other := by
  unfold settle
  split
  · cases held <;> rfl
  · split
    · have henroll : (w.enroll uri answer).2.held? c other = w.held? c other := by
        rw [held?, World.cache, caches_enroll, held?, World.cache]
      generalize w.enroll uri answer = made at henroll ⊢
      obtain ⟨made, w'⟩ := made
      cases made with
      | none => exact henroll
      | some e =>
          rw [held?_store, if_neg fun hin => h hin.2]
          exact henroll
    · rfl

end World

namespace Stack

open World (SameContent)

variable {σ : Type} {t : Transport σ} {w m before : World σ} {uri other : String}
variable {r : Request} {answer : Request → Except FetchError Resource}

/-! ### What a request writes -/

/-- What the transport answers to anything but a GET is what the request gives. -/
lemma fst_request_of_ne_get (s : Stack) (h : s.Admits r) (hget : r.method ≠ .get) :
    (s.request t r w).1 = (w.send t (s.outgoing w r)).1 := by
  rw [request_of_admits s h]
  rcases w.send t (s.outgoing w r) with ⟨_ | answer, w'⟩
  · rfl
  · exact congrArg Prod.fst (if_neg hget)

lemma held?_incoming_of_ne (h : other ≠ uri) (s : Stack) (answer : Fetched) (c : String) :
    (s.incoming before uri answer w).2.held? c other = w.held? c other := by
  induction s with
  | nil => rfl
  | cons layer inner ih =>
      cases layer with
      | authenticate token => exact ih
      | revalidate cache => rw [incoming, World.held?_settle_of_ne h, ih]

/-- **A request leaves everything else as it is**: what is held under other URIs, and
everything if it is not a GET. -/
lemma held?_request_of_ne (s : Stack) (h : ¬ (r.method = .get ∧ other = r.uri)) (c : String) :
    (s.request t r w).2.held? c other = w.held? c other := by
  rcases s.admits_or_refuses r with hadmits | ⟨e, hrefuses⟩
  · have hsend : (w.send t (s.outgoing w r)).2.held? c other = w.held? c other := rfl
    rw [request_of_admits s hadmits]
    generalize w.send t (s.outgoing w r) = sent at hsend ⊢
    obtain ⟨_ | answer, w'⟩ := sent
    · exact hsend
    · dsimp only
      split
      · next hget => exact (held?_incoming_of_ne (fun hu => h ⟨hget, hu⟩) s answer c).trans hsend
      · exact hsend
  · rw [request_of_refuses s hrefuses]

/-! ### What a request reads -/

section Fixed

variable (hfixed : ∀ server q, (t.perform server q).1.outcome = answer q)

include hfixed

/-- Over a server with fixed answers, what is sent is answered in all worlds alike. -/
lemma send_eq_of_fixed (w : World σ) (q : Request) :
    (w.send t q).1 = (answer q).map .plain :=
  congrArg (Except.map Fetched.plain) (hfixed w.server q)

/-- A request that is let through adds one exchange to the history, which depends on what
leaves the stack. -/
lemma exchanges_request_of_fixed (s : Stack) (h : s.Admits r) (w : World σ) :
    (s.request t r w).2.exchanges =
      w.exchanges ++ [⟨s.outgoing w r, answer (s.outgoing w r)⟩] := by
  obtain ⟨outcome, hsent⟩ := s.exchanged_of_admits (t := t) (w := w) h
  rw [hsent.exchanges_eq, ← hsent.outcome_eq, hfixed]

/-- **A request reads nothing else.** Whatever two worlds hold, if they hold the same content
under the URI of a GET, then it gives the same content in both, leaves the same content
there, and the same request reaches the transport. -/
lemma request_congr (s : Stack) (h : r.method = .get → SameContent r.uri w m) :
    (s.request t r w).1.map Fetched.unnumbered = (s.request t r m).1.map Fetched.unnumbered ∧
    (r.method = .get → SameContent r.uri (s.request t r w).2 (s.request t r m).2) ∧
    ∃ xs, (s.request t r w).2.exchanges = w.exchanges ++ xs ∧
      (s.request t r m).2.exchanges = m.exchanges ++ xs := by
  have hout : s.outgoing w r = s.outgoing m r := s.outgoing_congr fun hget cache => by
    have htag := congrArg (Option.map Tagged.etag) (h hget cache)
    rw [Option.map_map, Option.map_map] at htag
    exact htag
  have hanswer : (w.send t (s.outgoing w r)).1 = (m.send t (s.outgoing m r)).1 := by
    rw [send_eq_of_fixed hfixed, send_eq_of_fixed hfixed, hout]
  have hsent : ∃ xs, (s.request t r w).2.exchanges = w.exchanges ++ xs ∧
      (s.request t r m).2.exchanges = m.exchanges ++ xs := by
    rcases s.admits_or_refuses r with hadmits | ⟨e, hrefuses⟩
    · refine ⟨_, exchanges_request_of_fixed hfixed s hadmits w, ?_⟩
      rw [exchanges_request_of_fixed hfixed s hadmits m, hout]
    · refine ⟨[], ?_, ?_⟩ <;> rw [request_of_refuses s hrefuses, List.append_nil]
  by_cases hget : r.method = .get
  · have hsame : (w.send t (s.outgoing w r)).1 = (m.send t (s.outgoing m r)).1 ∧
        SameContent r.uri (w.send t (s.outgoing w r)).2 (m.send t (s.outgoing m r)).2 :=
      ⟨hanswer, h hget⟩
    obtain ⟨hresult, hafter⟩ :=
      (World.likeness_sameContent r.uri).request (h hget) rfl rfl rfl rfl hsame
    exact ⟨hresult, fun _ => hafter, hsent⟩
  · refine ⟨?_, fun hg => absurd hg hget, hsent⟩
    rcases s.admits_or_refuses r with hadmits | ⟨e, hrefuses⟩
    · rw [fst_request_of_ne_get s hadmits hget, fst_request_of_ne_get s hadmits hget, hanswer]
    · exact absurd hrefuses.1 hget

end Fixed

end Stack

/-! ### Calls -/

/-- A call is a GET of a URI. -/
def Call.Gets (c : Call) (uri : String) : Prop := c.draft.method = .get ∧ c.draft.uri = uri

namespace Stack

open World (SameContent)

variable {σ : Type} {t : Transport σ} {w m : World σ} {uri : String} {c : Call}
variable {answer : Request → Except FetchError Resource}

/-- A call leaves what is held under other URIs as it is. -/
lemma sameContent_call_of_not_gets (s : Stack) (h : ¬ c.Gets uri) :
    SameContent uri (s.call t c w).2 w := by
  intro cache
  rw [call]
  rcases c.request_eq_error_or_draft with ⟨e, hrequest⟩ | hrequest
  · rw [hrequest]
  · rw [hrequest]
    exact congrArg _ (s.held?_request_of_ne (fun hg => h ⟨hg.1, hg.2.symm⟩) cache)

section Fixed

variable (hfixed : ∀ server q, (t.perform server q).1.outcome = answer q)

include hfixed

/-- A call gives the same content, and adds the same to the history, wherever the same content
is held under the URI that it gets. -/
lemma call_congr (s : Stack) (c : Call) (h : ∀ uri, c.Gets uri → SameContent uri w m) :
    (s.call t c w).1.map Fetched.unnumbered = (s.call t c m).1.map Fetched.unnumbered ∧
    ∃ xs, (s.call t c w).2.exchanges = w.exchanges ++ xs ∧
      (s.call t c m).2.exchanges = m.exchanges ++ xs := by
  rw [call, call]
  rcases c.request_eq_error_or_draft with ⟨e, hrequest⟩ | hrequest
  · rw [hrequest]
    exact ⟨rfl, [], (List.append_nil _).symm, (List.append_nil _).symm⟩
  · rw [hrequest]
    obtain ⟨hresult, -, hsent⟩ :=
      s.request_congr hfixed (r := c.draft) fun hget => h _ ⟨hget, rfl⟩
    exact ⟨hresult, hsent⟩

/-- Where the same content is held under a URI, it is so after any call. -/
lemma sameContent_call (s : Stack) (c : Call) (h : SameContent uri w m) :
    SameContent uri (s.call t c w).2 (s.call t c m).2 := by
  by_cases hgets : c.Gets uri
  · obtain ⟨hget, rfl⟩ := hgets
    rw [call, call]
    rcases c.request_eq_error_or_draft with ⟨e, hrequest⟩ | hrequest
    · rw [hrequest]
      exact h
    · rw [hrequest]
      exact (s.request_congr hfixed fun _ => h).2.1 hget
  · exact (s.sameContent_call_of_not_gets hgets).trans
      (h.trans (s.sameContent_call_of_not_gets hgets).symm)

end Fixed

/-- **Independent calls commute.** Over a server that gives a fixed answer to each request,
take two calls that are not both GETs of one URI, made through any two stacks, from any world.
In either order each of them gives the same, the same requests are exchanged, each call its
own, and at the end every cache holds the same; always but for the serial numbers of
instances. -/
theorem independent_calls_commute (t : Transport σ)
    (answer : Request → Except FetchError Resource)
    (hfixed : ∀ server q, (t.perform server q).1.outcome = answer q) (s₁ s₂ : Stack)
    (c₁ c₂ : Call) (w : World σ)
    (hapart : ¬ (c₁.draft.method = .get ∧ c₂.draft.method = .get ∧
      c₁.draft.uri = c₂.draft.uri)) :
    (s₁.call t c₁ w).1.map Fetched.unnumbered =
      (s₁.call t c₁ (s₂.call t c₂ w).2).1.map Fetched.unnumbered ∧
    (s₂.call t c₂ (s₁.call t c₁ w).2).1.map Fetched.unnumbered =
      (s₂.call t c₂ w).1.map Fetched.unnumbered ∧
    (∃ xs ys,
      (s₁.call t c₁ w).2.exchanges = w.exchanges ++ xs ∧
      (s₂.call t c₂ (s₁.call t c₁ w).2).2.exchanges = w.exchanges ++ xs ++ ys ∧
      (s₂.call t c₂ w).2.exchanges = w.exchanges ++ ys ∧
      (s₁.call t c₁ (s₂.call t c₂ w).2).2.exchanges = w.exchanges ++ ys ++ xs) ∧
    ∀ cache uri,
      ((s₂.call t c₂ (s₁.call t c₁ w).2).2.held? cache uri).map Tagged.unnumbered =
        ((s₁.call t c₁ (s₂.call t c₂ w).2).2.held? cache uri).map Tagged.unnumbered := by
  -- no URI is got by both
  have hone : ∀ uri, ¬ c₁.Gets uri ∨ ¬ c₂.Gets uri := fun uri =>
    not_and_or.mp fun ⟨⟨hget₁, huri₁⟩, hget₂, huri₂⟩ =>
      hapart ⟨hget₁, hget₂, huri₁.trans huri₂.symm⟩
  have hafter₂ : ∀ uri, c₁.Gets uri → SameContent uri w (s₂.call t c₂ w).2 := fun uri h₁ =>
    (s₂.sameContent_call_of_not_gets ((hone uri).resolve_left (not_not_intro h₁))).symm
  have hafter₁ : ∀ uri, c₂.Gets uri → SameContent uri (s₁.call t c₁ w).2 w := fun uri h₂ =>
    s₁.sameContent_call_of_not_gets ((hone uri).resolve_right (not_not_intro h₂))
  obtain ⟨hresult₁, xs, hxs, hxs'⟩ := s₁.call_congr hfixed c₁ hafter₂
  obtain ⟨hresult₂, ys, hys, hys'⟩ := s₂.call_congr hfixed c₂ hafter₁
  refine ⟨hresult₁, hresult₂, ⟨xs, ys, hxs, hxs ▸ hys, hys', hys' ▸ hxs'⟩, fun cache uri => ?_⟩
  rcases hone uri with h₁ | h₂
  · have hfirst : SameContent uri (s₁.call t c₁ w).2 w := s₁.sameContent_call_of_not_gets h₁
    exact (s₂.sameContent_call hfixed c₂ hfirst).trans
      (s₁.sameContent_call_of_not_gets h₁).symm cache
  · have hfirst : SameContent uri w (s₂.call t c₂ w).2 :=
      (s₂.sameContent_call_of_not_gets h₂).symm
    exact (s₂.sameContent_call_of_not_gets h₂).trans
      (s₁.sameContent_call hfixed c₁ hfirst) cache

/-- A server that has a page under every URI, and counts the requests for them. -/
def library : Transport Nat where
  perform n q := (⟨.ok ⟨200, ⟨[("ETag", [q.uri])]⟩, .str q.uri⟩, []⟩, n + 1)

/-- A stack over a cache. -/
def reader : Stack := [.revalidate "pages"]

/-- Another stack over the same cache. -/
def member : Stack := [.authenticate ⟨.bearer, "a"⟩, .revalidate "pages"]

/-- Two pages got through different stacks over one cache: in either order the same page is
given, and held under a serial number that tells the order. -/
theorem independent_calls_commute_pages :
    (reader.call library (.get "http://h/1" ∅) (.initial 0)).1.map Fetched.unnumbered =
      (reader.call library (.get "http://h/1" ∅)
        (member.call library (.get "http://h/2" ∅) (.initial 0)).2).1.map Fetched.unnumbered ∧
    ((reader.call library (.get "http://h/1" ∅) (.initial 0)).2.held? "pages"
      "http://h/1").map Tagged.serial = some 0 ∧
    ((reader.call library (.get "http://h/1" ∅)
      (member.call library (.get "http://h/2" ∅) (.initial 0)).2).2.held? "pages"
      "http://h/1").map Tagged.serial = some 1 := by
  have hfixed : ∀ n q, (library.perform n q).1.outcome =
      .ok ⟨200, ⟨[("ETag", [q.uri])]⟩, .str q.uri⟩ := fun _ _ => rfl
  exact ⟨(independent_calls_commute library _ hfixed reader member (.get "http://h/1" ∅)
    (.get "http://h/2" ∅) (.initial 0) (by decide)).1, by decide +kernel, by decide +kernel⟩

end Stack

end LayeredFetch
