import LayeredFetch.Proofs.Session.Record

/-!
What the entries of caches vouch for.

* `Tagged.Genuine`: an entry is held under its own URI, which is absolute; it is a
  success, its entity tag is that of its own fields, and the transport gave it to a
  GET of that URI.
* `World.Genuine.request`: a request through any stack of layers keeps all entries
  of all caches genuine, whatever layer hands an instance to whatever other.
* `held_genuine`: so they are in every state that a run can reach.
-/

namespace LayeredFetch

/-- A valid request has an absolute URI. -/
lemma Request.isAbsolute_of_verify {r : Request} (h : r.verify = .ok ()) :
    Uri.isAbsolute r.uri = true := by
  by_contra habs
  rw [verify, if_pos (by simpa using habs)] at h
  cases h

/-- The first value of a name stands first in the first entry that matches. -/
lemma Headers.exists_find?_of_first? {h : Headers} {name value : String}
    (hfirst : h.first? name = some value) :
    ∃ spelled values, h.entries.find? (fun entry => Text.sameFold entry.1 name) =
      some (spelled, value :: values) := by
  obtain ⟨values, hget, hhead⟩ := Option.bind_eq_some_iff.mp hfirst
  obtain ⟨⟨spelled, found⟩, hfind, rfl⟩ := Option.map_eq_some_iff.mp hget
  obtain ⟨rest, rfl⟩ := List.head?_eq_some_iff.mp hhead
  exact ⟨spelled, rest, hfind⟩

/-- What an instance held under a URI vouches for, given the history of requests. -/
structure Tagged.Genuine (e : Tagged) (uri : String) (history : List Exchange) : Prop where
  uri_eq : e.uri = uri
  absolute : Uri.isAbsolute uri = true
  success : e.resource.isSuccess = true
  tag : e.resource.etag? = some e.etag
  given : ∃ x ∈ history,
    x.request.method = .get ∧ x.request.uri = uri ∧ x.outcome = .ok e.resource

/-- What an instance vouches for stays true as the history grows. -/
lemma Tagged.Genuine.append {e : Tagged} {uri : String} {xs : List Exchange}
    (h : e.Genuine uri xs) (ys : List Exchange) : e.Genuine uri (xs ++ ys) := by
  obtain ⟨x, hx, hgiven⟩ := h.given
  exact { h with given := ⟨x, List.mem_append_left ys hx, hgiven⟩ }

namespace World

variable {σ : Type} {t : Transport σ} {w w' : World σ}

/-- Every entry of every cache is genuine. -/
def Genuine (w : World σ) : Prop :=
  ∀ cache uri e, w.held? cache uri = some e → e.Genuine uri w.exchanges

lemma genuine_initial (server : σ) : (initial server).Genuine := by
  intro cache uri e h
  cases h

/-- Entries stay genuine while they stay where they are. -/
lemma Genuine.of_sameHeld (h : w.Genuine) (hheld : SameHeld w w') {ys : List Exchange}
    (hex : w'.exchanges = w.exchanges ++ ys) : w'.Genuine := by
  intro cache uri e he
  rw [hheld cache uri] at he
  rw [hex]
  exact (h cache uri e he).append ys

/-- Entries stay genuine when a genuine one is spread. -/
lemma Genuine.of_spread (h : w.Genuine) {caches : List String} {uri : String} {e : Tagged}
    (hspread : Spread w w' caches uri e) {ys : List Exchange}
    (hex : w'.exchanges = w.exchanges ++ ys) (he : e.Genuine uri w'.exchanges) :
    w'.Genuine := by
  intro cache u e' he'
  rw [hspread cache u] at he'
  split at he'
  · next hin =>
      obtain ⟨-, rfl⟩ := hin
      exact Option.some.inj he' ▸ he
  · rw [hex]
    exact (h cache u e' he').append ys

/-- **A request keeps all entries genuine**, through any stack. -/
lemma Genuine.request (h : w.Genuine) (s : Stack) (r : Request) :
    (s.request t r w).2.Genuine := by
  have hcourse := s.request_course (t := t) (r := r) fun c _ e he => (h c r.uri e he).success
  generalize (s.request t r w).1 = result at hcourse
  generalize (s.request t r w).2 = w' at hcourse ⊢
  cases hcourse with
  | refused => exact h
  | failed _ sent held => exact h.of_sameHeld held sent.exchanges_eq
  | passed _ sent held => exact h.of_sameHeld held sent.exchanges_eq
  | @fresh reply etag _ get valid _ sent success tag spread =>
      refine h.of_spread spread sent.exchanges_eq
        ⟨rfl, Request.isAbsolute_of_verify valid, success, tag, ?_⟩
      refine ⟨⟨s.outgoing w r, .ok reply⟩, ?_, ?_, s.uri_outgoing, rfl⟩
      · rw [sent.exchanges_eq]
        exact List.mem_append_right _ (List.mem_singleton_self _)
      · exact s.method_outgoing.trans get
  | current _ _ _ held _ sent _ spread =>
      refine h.of_spread spread sent.exchanges_eq ?_
      rw [sent.exchanges_eq]
      exact (h _ _ _ held).append _

/-- So does a call, whose request may not be valid. -/
lemma Genuine.call (h : w.Genuine) (s : Stack) (c : Call) : (s.call t c w).2.Genuine := by
  rw [Stack.call]
  cases c.request with
  | error e => exact h
  | ok r => exact h.request s r

/-- What stays when an entry is dropped is as genuine as before. -/
lemma Genuine.drop (h : w.Genuine) (cache uri : String) : (w.drop cache uri).Genuine := by
  intro c u e he
  rw [held?_drop] at he
  split at he
  · cases he
  · exact h c u e he

lemma Genuine.clear (h : w.Genuine) (cache : String) : (w.clear cache).Genuine := by
  intro c u e he
  rw [held?_clear] at he
  split at he
  · cases he
  · exact h c u e he

lemma Genuine.of_quiet (h : w.Genuine) (hq : w.Quiet w') : w'.Genuine :=
  h.of_sameHeld hq.held (hq.exchanges.trans (List.append_nil _).symm)

end World

namespace Session

variable {σ : Type} {t : Transport σ}

/-! ### A session for example -/

/-- A page with an entity tag. -/
def thePage : Resource := ⟨200, ⟨[("etag", ["v1"])]⟩, .str "page"⟩

/-- A server with that page, which it gives to whoever does not present the entity tag. -/
def onePage : Transport Unit where
  perform _ q :=
    if q.method = .get ∧ "v1" ∈ q.headers.all "If-None-Match" then
      (⟨.ok ⟨304, ∅, .null⟩, []⟩, ())
    else (⟨.ok thePage, []⟩, ())

/-- A request for the page. -/
def getPage : Request := ⟨.get, "http://h", ∅, none⟩

/-- A session that gets the page twice, through a view with one cache. -/
def twice : List (Step Unit) :=
  [⟨.view "site" [.revalidate "pages"], none⟩, ⟨.fetch "site" (.raw getPage), none⟩,
    ⟨.fetch "site" (.raw getPage), none⟩]

/-- The second of the two calls. -/
def secondFetch : Made Unit :=
  ⟨[.revalidate "pages"], .raw getPage, worldAfter onePage () (twice.take 2)⟩

lemma called_secondFetch : .called secondFetch ∈ recordOf onePage () twice :=
  List.mem_cons_of_mem _ List.mem_cons_self

/-! ### Every run -/

/-- That all entries are genuine is an invariant of every run. -/
lemma genuine_invariant (t : Transport σ) :
    Invariant t (fun _ => True) fun _ w => w.Genuine where
  quiet hP hq := hP.of_quiet hq
  called _ hP := hP.call _ _
  removed cache uri hP := hP.drop cache uri
  cleared cache hP := hP.clear cache

/-- All entries are genuine at the end of a run, and before every call on its record. -/
lemma genuine_run {server : σ} {steps : List (Step σ)} (hput : HandsOff steps) :
    (worldAfter t server steps).Genuine ∧
      ∀ m, .called m ∈ recordOf t server steps → m.world.Genuine :=
  (genuine_invariant t).along.run_initial hput
    ⟨World.genuine_initial server, fun _ hm => absurd hm List.not_mem_nil⟩

/-- While all entries are genuine, a call with a valid request takes one of the courses. -/
lemma Made.course {m : Made σ} {r : Request} (h : m.world.Genuine)
    (hr : m.call.request = .ok r) :
    Stack.Course t m.stack r m.world (m.result t) (m.after t) := by
  rw [Made.result, Made.after, Made.call_eq hr]
  exact m.stack.request_course fun c _ e he => (h c r.uri e he).success

/-- **What is held is genuine**: in every state that a run can reach, whatever a cache
holds under a URI has that URI, which is absolute; it is a success; its entity tag
is the first value of the first field that matches `ETag`; and the transport gave
just this resource to a GET of just this URI. -/
theorem held_genuine (t : Transport σ) (server : σ) (steps : List (Step σ))
    (hput : HandsOff steps) (cache uri : String) (e : Tagged)
    (he : (worldAfter t server steps).held? cache uri = some e) :
    e.uri = uri ∧ Uri.isAbsolute uri = true ∧
      (200 ≤ e.resource.status ∧ e.resource.status ≤ 299) ∧
      (∃ spelled values, e.resource.headers.entries.find?
          (fun entry => Text.sameFold entry.1 "ETag") = some (spelled, e.etag :: values)) ∧
      ∃ x ∈ (worldAfter t server steps).exchanges,
        x.request.method = .get ∧ x.request.uri = uri ∧ x.outcome = .ok e.resource := by
  have h := (genuine_run hput).1 cache uri e he
  have hstatus : 200 ≤ e.resource.status ∧ e.resource.status ≤ 299 := by
    simpa [Resource.isSuccess] using h.success
  exact ⟨h.uri_eq, h.absolute, hstatus, Headers.exists_find?_of_first? h.tag, h.given⟩

/-- After both fetches the cache holds the page, and it is genuine. -/
theorem held_genuine_twice :
    ∃ e, (worldAfter onePage () twice).held? "pages" "http://h" = some e ∧
      e.uri = "http://h" ∧
      ∃ x ∈ (worldAfter onePage () twice).exchanges,
        x.request.method = .get ∧ x.request.uri = "http://h" ∧
          x.outcome = .ok e.resource := by
  have hsome : ((worldAfter onePage () twice).held? "pages" "http://h").isSome = true := by
    decide +kernel
  obtain ⟨e, he⟩ := Option.isSome_iff_exists.mp hsome
  have hput : HandsOff twice := by decide
  obtain ⟨huri, -, -, -, hgiven⟩ :=
    held_genuine onePage () twice hput "pages" "http://h" e he
  exact ⟨e, he, huri, hgiven⟩

end Session

end LayeredFetch
