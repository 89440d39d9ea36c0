import LayeredFetch.Http.Client
import LayeredFetch.Proofs.Walk.Pages

/-!
Searching the pages of a walk is the plain loop over them.

* **The loop.** `Moment.Gives` is the loop that pulls one page after another: the pages that
  it has so far, and the moment of its next pull. Loops follow one another (`gives_append`).
* **The search.** It passes over pages without a match as the loop does (`Gives.find_eq`),
  looks at the entries of a page up to a match (`examine_of_first`), and ends with the loop,
  where it reports the error if there was one.
* **Warnings.** Nothing that a pull does is worth a warning (`Moment.warnings_after`), and the
  client never warns (`Http.Client.calm_transport`), so the one at the end of a search is the
  only one.
* `find_is_plain_loop`: all this for a walk that was pulled any number of times before.
-/

namespace LayeredFetch

/-! ### Warnings -/

/-- The transport never warns. -/
def Transport.Calm {σ : Type} (t : Transport σ) : Prop :=
  ∀ server q, ∀ e ∈ (t.perform server q).1.events, e.level = .debug

/-- The client never warns, whatever it is answered. -/
lemma Http.Client.calm_transport {ν : Type} (c : Client) (net : Network ν) :
    (c.transport net).Calm := by
  have hreceive : ∀ text? r response, ∀ e ∈ (receive text? r response).events,
      e.level = .debug := by
    intro text? r response e he
    rw [receive] at he
    dsimp only at he
    -- the fields that were left out come first, and the answer after them
    split at he
    · obtain ⟨_, -, rfl⟩ := List.mem_map.mp he
      rfl
    · rcases List.mem_append.mp he with he | he
      · obtain ⟨_, -, rfl⟩ := List.mem_map.mp he
        rfl
      · obtain rfl := List.mem_singleton.mp he
        rfl
  intro server q e he
  rw [transport] at he
  dsimp only at he
  split at he
  · cases he
  · split at he
    · cases he
    · split at he
      · cases he
      · exact hreceive net.text? q _ e he

namespace World

variable {σ : Type} {t : Transport σ} {w : World σ} {e : Event}

/-- The warnings in the history. -/
def warnings (w : World σ) : List Event := w.events.filter fun e => e.level == .warn

lemma warnings_report_of_debug (h : e.level = .debug) : (w.report e).warnings = w.warnings := by
  simp [warnings, report, h]

lemma warnings_report_of_warn (h : e.level = .warn) :
    (w.report e).warnings = w.warnings ++ [e] := by
  simp [warnings, report, h]

@[simp] lemma warnings_settle (cache uri : String) (held : Option Tagged) (answer : Fetched) :
    (w.settle cache uri held answer).2.warnings = w.warnings := by
  unfold settle
  split
  · cases held with
    | none => rfl
    | some e => exact warnings_report_of_debug rfl
  · split
    · have henroll : (w.enroll uri answer).2.warnings = w.warnings := by
        unfold enroll
        split <;> rfl
      split
      · next heq =>
          rw [heq] at henroll
          exact (warnings_report_of_debug rfl).trans henroll
      · next heq => rwa [heq] at henroll
    · rfl

/-- A transport that never warns adds no warnings. -/
lemma warnings_send (ht : t.Calm) (q : Request) : (w.send t q).2.warnings = w.warnings := by
  have hnone : ((t.perform w.server q).1.events.filter fun e => e.level == .warn) = [] := by
    refine List.filter_eq_nil_iff.mpr fun e he => ?_
    rw [ht _ q e he]
    decide
  rw [warnings, send, List.filter_append, hnone, List.append_nil, warnings]

end World

namespace Stack

variable {σ : Type} {t : Transport σ} {w before : World σ}

@[simp] lemma warnings_incoming (s : Stack) (uri : String) (answer : Fetched) :
    (s.incoming before uri answer w).2.warnings = w.warnings := by
  induction s with
  | nil => rfl
  | cons layer inner ih =>
      cases layer with
      | authenticate token => exact ih
      | revalidate cache => rw [incoming, World.warnings_settle, ih]

lemma warnings_request (ht : t.Calm) (s : Stack) (r : Request) :
    (s.request t r w).2.warnings = w.warnings := by
  have hsend := World.warnings_send (w := w) ht (s.outgoing w r)
  rcases s.admits_or_refuses r with hadmits | ⟨e, hrefuses⟩
  · rw [request_of_admits s hadmits]
    split
    · next heq => rwa [heq] at hsend
    · next heq =>
        rw [heq] at hsend
        split
        · rwa [warnings_incoming]
        · exact hsend
  · rw [request_of_refuses s hrefuses]

lemma warnings_call (ht : t.Calm) (s : Stack) (c : Call) :
    (s.call t c w).2.warnings = w.warnings := by
  rw [call]
  cases c.request with
  | error e => rfl
  | ok r => exact warnings_request ht s r

end Stack

namespace Walk

variable {σ : Type} {t : Transport σ} {s : Stack} {wanted : Json → Bool}

lemma warnings_advance (walk : Walk) (uri : String) (headers : Headers) (w : World σ) :
    (walk.advance uri headers w).2.warnings = w.warnings := by
  rw [advance]
  split
  · rfl
  · split
    · rfl
    · exact World.warnings_report_of_debug rfl

/-- Pulling a page is worth no warning. -/
lemma warnings_pull (ht : t.Calm) (s : Stack) (walk : Walk) (w : World σ) :
    (walk.pull t s w).2.2.warnings = w.warnings := by
  rw [pull]
  cases walk.next with
  | none => rfl
  | some uri =>
      have hcall := Stack.warnings_call ht s (.get uri .empty)
        (w := w.report (.fetchingPage (walk.pages + 1) uri))
      rw [World.warnings_report_of_debug rfl] at hcall
      dsimp only
      split
      · next heq => rwa [heq] at hcall
      · next heq =>
          rw [heq] at hcall
          split
          · exact hcall
          · split
            · exact hcall
            · rwa [warnings_advance]

/-! ### Looking at entries -/

/-- Entries are looked at up to the first that is wanted. -/
lemma examine_of_first {seen rest : List Json} {entry : Json}
    (hseen : ∀ e ∈ seen, wanted e = false) (hentry : wanted entry = true) :
    examine wanted (seen ++ entry :: rest) = (some entry, seen ++ [entry]) := by
  induction seen with
  | nil => simp [examine, hentry]
  | cons e seen ih =>
      obtain ⟨he, hseen⟩ := List.forall_mem_cons.mp hseen
      simp [examine, he, ih hseen]

/-- If none is wanted, all are looked at. -/
lemma examine_of_none {es : List Json} (hes : ∀ e ∈ es, wanted e = false) :
    examine wanted es = (none, es) := by
  induction es with
  | nil => rfl
  | cons e es ih =>
      obtain ⟨he, hes⟩ := List.forall_mem_cons.mp hes
      simp [examine, he, ih hes]

namespace Moment

variable {m m' m'' : Moment σ} {page : Fetched} {pages pages' : List Fetched}

/-! ### The loop -/

/-- The moment of the next pull. -/
def next (t : Transport σ) (s : Stack) (m : Moment σ) : Moment σ := ⟨m.rest t s, m.after t s⟩

/-- The page that a pull gives, if it gives one. -/
def page? (t : Transport σ) (s : Stack) (m : Moment σ) : Option Fetched :=
  match m.result t s with
  | .ok page => page
  | .error _ => none

lemma page?_of_ok {given : Option Fetched} (h : m.result t s = .ok given) :
    m.page? t s = given := by
  rw [page?, h]

lemma page?_of_error {e : PagingError} (h : m.result t s = .error e) : m.page? t s = none := by
  rw [page?, h]

/-- **The plain loop**: pulls, one right after another, give these pages, and then the walk is
at a later moment. -/
inductive Gives (t : Transport σ) (s : Stack) : Moment σ → List Fetched → Moment σ → Prop
  | refl (m : Moment σ) : Gives t s m [] m
  | step {m m' : Moment σ} {page : Fetched} {pages : List Fetched}
      (h : m.result t s = .ok (some page)) (h' : Gives t s (m.next t s) pages m') :
      Gives t s m (page :: pages) m'

/-- A request that reached the transport is the one for a page. -/
def RequestOf (t : Transport σ) (s : Stack) (page : Fetched) (x : Exchange) : Prop :=
  ∃ (m : Moment σ) (uri : String),
    m.Yields t s uri page ∧ x.request = s.outgoing m.world (.forPage uri)

/-- Loops follow one another. -/
lemma gives_append : m.Gives t s (pages ++ pages') m'' ↔
    ∃ m', m.Gives t s pages m' ∧ m'.Gives t s pages' m'' := by
  induction pages generalizing m with
  | nil =>
      constructor
      · exact fun h => ⟨m, .refl m, h⟩
      · rintro ⟨m', ⟨⟩, h⟩
        exact h
  | cons page pages ih =>
      constructor
      · intro h
        cases h with
        | step h h' =>
            obtain ⟨m', hpages, hpages'⟩ := ih.mp h'
            exact ⟨m', .step h hpages, hpages'⟩
      · rintro ⟨m', h, hpages'⟩
        cases h with
        | step h h' => exact .step h (ih.mpr ⟨m', h', hpages'⟩)

/-- A pull that gives a page yields it. -/
lemma exists_yields (h : m.result t s = .ok (some page)) :
    ∃ uri, m.Yields t s uri page := by
  cases hnext : m.walk.next with
  | none => cases (idle_of_over (t := t) (s := s) hnext).1.1.symm.trans h
  | some uri =>
      rcases course (t := t) (s := s) hnext with ⟨page', hyields, -⟩ | ⟨hfails, -⟩
      · obtain rfl := Option.some.inj (Except.ok.inj (hyields.result_eq.symm.trans h))
        exact ⟨uri, hyields⟩
      · obtain ⟨e, he⟩ := hfails.exists_error
        cases he.symm.trans h

/-- What a pull makes of an answer. -/
lemma result_of_answer {uri : String} (hnext : m.walk.next = some uri)
    (habs : Uri.isAbsolute uri = true) (hanswer : m.answer t s uri = .ok page) :
    m.result t s =
      if !page.resource.isSuccess then .error (.unexpectedStatus uri page.resource.status)
      else if page.resource.body.items?.isNone then .error (.notAList uri)
      else .ok (some page) := by
  obtain ⟨w, hrequest⟩ : ∃ w, s.request t (.forPage uri) (m.begun uri) = (.ok page, w) :=
    ⟨_, Prod.ext hanswer rfl⟩
  rw [result, pull_eq hnext habs, hrequest]
  dsimp only
  rw [apply_ite Prod.fst, apply_ite Prod.fst]

/-- A walk counts the pages that it gives. -/
lemma pages_rest (t : Transport σ) (s : Stack) (m : Moment σ) :
    (m.rest t s).pages = m.walk.pages + (m.page? t s).toList.length := by
  cases hnext : m.walk.next with
  | none =>
      obtain ⟨hidle, hrest⟩ := idle_of_over (t := t) (s := s) hnext
      simp [page?_of_ok hidle.1, hrest]
  | some uri =>
      rcases course (t := t) (s := s) hnext with ⟨page, hyields, hrest⟩ | ⟨hfails, hrest⟩
      · simp [page?_of_ok hyields.result_eq, hrest]
      · obtain ⟨e, he⟩ := hfails.exists_error
        simp [page?_of_error he, hrest, ended]

/-- The pages that a walk gave before one of its pulls are those that it counts then. -/
lemma pages_of_moments {walk : Walk} {changes : List (World σ → World σ)} {w : World σ}
    {i : Nat} (hm : (walk.moments t s changes w)[i]? = some m) :
    m.walk.pages =
      walk.pages + (((walk.moments t s changes w).take i).filterMap (page? t s)).length := by
  induction changes generalizing walk w i with
  | nil => cases hm
  | cons change changes ih =>
      rw [moments] at hm ⊢
      cases i with
      | zero =>
          obtain rfl := Option.some.inj hm
          rfl
      | succ i =>
          rw [ih hm, pages_rest, List.take_succ_cons, List.filterMap_cons]
          cases page? t s ⟨walk, change w⟩ with
          | none => simp
          | some page =>
              simp only [Option.toList_some, List.length_cons, List.length_nil]
              omega

namespace Gives

lemma pages_eq (h : m.Gives t s pages m') : m'.walk.pages = m.walk.pages + pages.length := by
  induction h with
  | refl m => rfl
  | @step m m' page pages h h' ih =>
      have hrest : (m.rest t s).pages = m.walk.pages + 1 := by
        rw [pages_rest, page?_of_ok h]
        rfl
      rw [ih, next, hrest, List.length_cons]
      omega

/-- The loop makes one request for each page, and no other. -/
lemma exchanges_eq (h : m.Gives t s pages m') :
    ∃ asked, m'.world.exchanges = m.world.exchanges ++ asked ∧
      List.Forall₂ (RequestOf t s) pages asked := by
  induction h with
  | refl m => exact ⟨[], (List.append_nil _).symm, .nil⟩
  | @step m m' page pages h h' ih =>
      obtain ⟨uri, hyields⟩ := exists_yields h
      obtain ⟨outcome, hone⟩ := hyields.asks
      obtain ⟨asked, hasked, hlater⟩ := ih
      refine ⟨⟨s.outgoing m.world (.forPage uri), outcome⟩ :: asked, ?_,
        .cons ⟨m, uri, hyields, rfl⟩ hlater⟩
      rw [hasked, next, hone, List.append_assoc, List.singleton_append]

end Gives

lemma warnings_after (ht : t.Calm) (s : Stack) (m : Moment σ) :
    (m.after t s).warnings = m.world.warnings := warnings_pull ht s m.walk m.world

lemma Gives.warnings_eq (ht : t.Calm) (h : m.Gives t s pages m') :
    m'.world.warnings = m.world.warnings := by
  induction h with
  | refl m => rfl
  | @step m m' page pages h h' ih => exact ih.trans (warnings_after ht s m)

/-! ### The search -/

/-- What a search comes to at a moment. -/
def find (t : Transport σ) (s : Stack) (wanted : Json → Bool) (limit : Nat) (m : Moment σ) :
    Search × World σ := m.walk.find t s wanted limit m.world

/-- A search that comes to the end of the pages ends. -/
lemma find_of_idle (h : m.result t s = .ok none) (limit : Nat) :
    m.find t s wanted (limit + 1) = (⟨none, [], true⟩, m.after t s) := by
  have hpull : m.walk.pull t s m.world = (.ok none, m.rest t s, m.after t s) :=
    Prod.ext h rfl
  rw [find, Walk.find, hpull]

/-- A search that comes to an error reports it and ends. -/
lemma find_of_error {e : PagingError} (h : m.result t s = .error e) (limit : Nat) :
    m.find t s wanted (limit + 1) =
      (⟨none, [], true⟩, (m.after t s).report (.walkFailed m.walk.pages e)) := by
  have hpull : m.walk.pull t s m.world = (.error e, m.rest t s, m.after t s) :=
    Prod.ext h rfl
  have hpages : (m.rest t s).pages = m.walk.pages := by
    rw [pages_rest, page?_of_error h]
    rfl
  rw [find, Walk.find, hpull]
  dsimp only
  rw [hpages]

/-- A search that comes to a page looks at its entries, and goes on if none is wanted. -/
lemma find_of_page (h : m.result t s = .ok (some page)) (limit : Nat) :
    m.find t s wanted (limit + 1) =
      match examine wanted (entries page) with
      | (some entry, seen) => (⟨some entry, seen, true⟩, m.after t s)
      | (none, seen) =>
          let later := (m.next t s).find t s wanted limit
          ({ later.1 with examined := seen ++ later.1.examined }, later.2) := by
  have hpull : m.walk.pull t s m.world = (.ok (some page), m.rest t s, m.after t s) :=
    Prod.ext h rfl
  rw [find, Walk.find, hpull]
  rfl

/-- **A search passes over pages without a match**, as the loop does. -/
lemma Gives.find_eq (h : m.Gives t s pages m')
    (hnone : ∀ e ∈ pages.flatMap entries, wanted e = false) (limit : Nat) :
    m.find t s wanted (pages.length + limit) =
      ({ (m'.find t s wanted limit).1 with
          examined := pages.flatMap entries ++ (m'.find t s wanted limit).1.examined },
        (m'.find t s wanted limit).2) := by
  induction h with
  | refl m => simp
  | @step m m' page pages h h' ih =>
      rw [List.flatMap_cons, List.forall_mem_append] at hnone
      have hlimit : (page :: pages).length + limit = (pages.length + limit) + 1 := by
        rw [List.length_cons]
        omega
      rw [hlimit, find_of_page h, examine_of_none hnone.1]
      dsimp only
      rw [ih hnone.2, List.flatMap_cons, List.append_assoc]

end Moment

/-- **A search is the plain loop over the pages still to come.** Let a walk be pulled any number
of times, whatever happens in between, and let the loop then give some pages.

If an entry of one of them is wanted, and no earlier one, the search gives it. It looks at the
entries up to this one, each once and in order, and leaves the world as the loop does after the
page of the entry, with one request for each page up to it. How the walk would go on makes no
difference.

If none is wanted and the loop comes to its end or to an error, the search gives nothing. It
looks at all entries, each once and in order, and leaves the world as the loop does; after an
error it warns, and tells how many pages the walk has given, those before the search included.
There are no other warnings, unless the transport has some. -/
theorem find_is_plain_loop (t : Transport σ) (s : Stack) (wanted : Json → Bool) (uri : String)
    (changes : List (World σ → World σ)) (w : World σ) (i : Nat) (m m' : Moment σ)
    (pages : List Fetched) (hm : ((start uri).moments t s changes w)[i]? = some m)
    (hpages : m.Gives t s pages m') :
    (∀ before page after seen entry rest limit, pages = before ++ page :: after →
      entries page = seen ++ entry :: rest →
      (∀ e ∈ before.flatMap entries ++ seen, wanted e = false) → wanted entry = true →
      before.length < limit →
      ∃ m₁, m.Gives t s (before ++ [page]) m₁ ∧ m₁.Gives t s after m' ∧
        m.walk.find t s wanted limit m.world =
          (⟨some entry, before.flatMap entries ++ seen ++ [entry], true⟩, m₁.world) ∧
        (∃ asked, m₁.world.exchanges = m.world.exchanges ++ asked ∧
          List.Forall₂ (Moment.RequestOf t s) (before ++ [page]) asked) ∧
        (t.Calm → m₁.world.warnings = m.world.warnings)) ∧
    ((∀ e ∈ pages.flatMap entries, wanted e = false) → ∀ limit, pages.length < limit →
      (m'.result t s = .ok none →
        m.walk.find t s wanted limit m.world =
          (⟨none, pages.flatMap entries, true⟩, m'.after t s) ∧
        (t.Calm → (m'.after t s).warnings = m.world.warnings)) ∧
      ∀ e failed, m'.result t s = .error e →
        failed = .walkFailed
          ((((start uri).moments t s changes w).take i).filterMap (Moment.page? t s) ++
            pages).length e →
        m.walk.find t s wanted limit m.world =
          (⟨none, pages.flatMap entries, true⟩, (m'.after t s).report failed) ∧
        (t.Calm →
          ((m'.after t s).report failed).warnings = m.world.warnings ++ [failed])) := by
  constructor
  · rintro before page after seen entry rest limit rfl hentries hfirst hentry hlimit
    obtain ⟨hbefore, hseen⟩ := List.forall_mem_append.mp hfirst
    obtain ⟨m₀, hloop, hrest⟩ := Moment.gives_append.mp hpages
    cases hrest with
    | step hpage hafter =>
        have hprefix : m.Gives t s (before ++ [page]) (m₀.next t s) :=
          Moment.gives_append.mpr ⟨m₀, hloop, .step hpage (.refl _)⟩
        refine ⟨m₀.next t s, hprefix, hafter, ?_, hprefix.exchanges_eq,
          fun ht => hprefix.warnings_eq ht⟩
        obtain ⟨k, rfl⟩ := Nat.exists_eq_add_of_lt hlimit
        have hfind := hloop.find_eq hbefore (k + 1)
        rw [Moment.find_of_page hpage, hentries, examine_of_first hseen hentry] at hfind
        rw [List.append_assoc]
        exact hfind
  · intro hnone limit hlimit
    obtain ⟨k, rfl⟩ := Nat.exists_eq_add_of_lt hlimit
    have hfind := hpages.find_eq hnone (k + 1)
    constructor
    · intro hend
      rw [Moment.find_of_idle hend, List.append_nil] at hfind
      exact ⟨hfind, fun ht => (m'.warnings_after ht s).trans (hpages.warnings_eq ht)⟩
    · rintro e failed hend rfl
      have hcount : m'.walk.pages =
          ((((start uri).moments t s changes w).take i).filterMap (Moment.page? t s) ++
            pages).length := by
        rw [hpages.pages_eq, Moment.pages_of_moments hm, List.length_append, start, Nat.zero_add]
      rw [Moment.find_of_error hend, List.append_nil, hcount] at hfind
      refine ⟨hfind, fun ht => ?_⟩
      rw [World.warnings_report_of_warn rfl, m'.warnings_after ht, hpages.warnings_eq ht]

/-- A list on two pages, of which the second names one that does not exist. -/
def brokenList (q : Request) : Resource :=
  if q.uri = "http://h/1" then ⟨200, ⟨[("Link", ["<http://h/2>; rel=next"])]⟩, .arr [.str "a"]⟩
  else if q.uri = "http://h/2" then
    ⟨200, ⟨[("Link", ["<http://h/3>; rel=next"])]⟩, .arr [.str "b", .str "c"]⟩
  else ⟨404, ∅, .null⟩

/-- The server with that list. -/
def brokenServer : Transport Unit := ⟨fun _ q => (⟨.ok (brokenList q), []⟩, ())⟩

/-- A walk over the list, when its first page was pulled. -/
def afterOne : Moment Unit := Moment.next brokenServer [] ⟨start "http://h/1", .initial ()⟩

/-- A search that starts then finds an entry of the second page, and stops there; a search for
what is on no page ends at the page that does not exist, and warns that two pages were given. -/
theorem find_is_plain_loop_broken :
    afterOne.walk.find brokenServer [] (fun e => e.text? == some "c") 1 afterOne.world =
      (⟨some (.str "c"), [.str "b", .str "c"], true⟩, (afterOne.next brokenServer []).world) ∧
    afterOne.walk.find brokenServer [] (fun e => e.text? == some "d") 2 afterOne.world =
      (⟨none, [.str "b", .str "c"], true⟩,
        ((afterOne.next brokenServer []).after brokenServer []).report
          (.walkFailed 2 (.unexpectedStatus "http://h/3" 404))) := by
  have hsecond : afterOne.answer brokenServer [] "http://h/2" =
      .ok (.plain (brokenList (.forPage "http://h/2"))) := rfl
  have hthird : (afterOne.next brokenServer []).answer brokenServer [] "http://h/3" =
      .ok (.plain (brokenList (.forPage "http://h/3"))) := rfl
  have hpage : afterOne.result brokenServer [] =
      .ok (some (.plain (brokenList (.forPage "http://h/2")))) := by
    rw [Moment.result_of_answer (by decide +kernel) (by decide +kernel) hsecond,
      if_neg (by decide +kernel), if_neg (by decide +kernel)]
  have hend : (afterOne.next brokenServer []).result brokenServer [] =
      .error (.unexpectedStatus "http://h/3" 404) := by
    rw [Moment.result_of_answer (by decide +kernel) (by decide +kernel) hthird,
      if_pos (by decide +kernel)]
    rfl
  have hentries : entries (.plain (brokenList (.forPage "http://h/2"))) =
      [.str "b"] ++ .str "c" :: [] := by
    simp [entries, brokenList, Request.forPage, Json.items?, Fetched.resource]
  have hloop : afterOne.Gives brokenServer []
      [.plain (brokenList (.forPage "http://h/2"))] (afterOne.next brokenServer []) :=
    .step hpage (.refl _)
  have hmoment : ((start "http://h/1").moments brokenServer [] [id, id] (.initial ()))[1]? =
      some afterOne := rfl
  constructor
  · obtain ⟨m, hm, -, hfind, -⟩ := (find_is_plain_loop brokenServer []
      (fun e => e.text? == some "c") "http://h/1" [id, id] (.initial ()) 1 _ _ _ hmoment hloop).1
      [] _ [] [.str "b"] (.str "c") [] 1 rfl hentries (by simp [Json.text?])
      (by simp [Json.text?]) (by decide)
    cases hm with
    | step _ hnil =>
        cases hnil
        exact hfind
  · have hfind := ((find_is_plain_loop brokenServer [] (fun e => e.text? == some "d")
      "http://h/1" [id, id] (.initial ()) 1 _ _ _ hmoment hloop).2
      (by simp [hentries, Json.text?]) 2 (by decide)).2 _ _ hend rfl
    have hcount : ((((start "http://h/1").moments brokenServer [] [id, id]
        (.initial ())).take 1).filterMap (Moment.page? brokenServer [])).length = 1 := by
      decide +kernel
    rw [List.length_append, hcount, List.flatMap_singleton, hentries] at hfind
    exact hfind.1

end Walk

end LayeredFetch
