import LayeredFetch.Proofs.Session.Record

/-!
The pages that a walk gives, pull after pull.

* **One pull.** A `Moment` is a walk together with the world in which its next page is
  pulled. It `Yields` a page, it `Fails`, or it is `Idle`; `Moment.course` says that there
  is no other way, and where the walk goes on.
* **Many pulls.** `moments` lists the pulls of a walk. Between two of them anything may
  happen to the world: other requests, changes of the server, entries put in and taken out.
* `pages_in_order`: the pulls of a walk first yield pages, each from the target that the
  page before announced, then stop once, and are idle from then on.
-/

namespace LayeredFetch

/-- The request for a page: a GET of its URI, without body and without fields. -/
def Request.forPage (uri : String) : Request := ⟨.get, uri, .empty, none⟩

lemma Request.verify_forPage {uri : String} (h : Uri.isAbsolute uri = true) :
    (Request.forPage uri).verify = .ok () := by
  simp [verify, forPage, h, Method.needsBody]

namespace Stack

variable {σ : Type} {t : Transport σ} {w w' : World σ} {r : Request}

/-- Asking for a page makes one request, unless the URI is not absolute. -/
lemma call_get (s : Stack) (uri : String) :
    s.call t (.get uri .empty) w =
      if Uri.isAbsolute uri = true then s.request t (.forPage uri) w
      else (.error (.invalid (.invalidUri uri)), w) := by
  have hbuilt : (Call.get uri .empty).request =
      (Request.forPage uri).verify.map fun _ => .forPage uri := rfl
  by_cases habs : Uri.isAbsolute uri = true
  · rw [call, hbuilt, Request.verify_forPage habs, if_pos habs]
    rfl
  · have hverify : (Request.forPage uri).verify = .error (.invalidUri uri) := by
      simp [Request.verify, Request.forPage, habs]
    rw [call, hbuilt, hverify, if_neg habs]
    rfl

/-- A request for a page that may be made is one exchange with the transport. -/
lemma exchanged_forPage (s : Stack) {uri : String} (habs : Uri.isAbsolute uri = true) :
    ∃ outcome, World.Exchanged t w (s.request t (.forPage uri) w).2
      (s.outgoing w (.forPage uri)) outcome :=
  s.exchanged_of_admits (s.admits_of_verify (Request.verify_forPage habs))

end Stack

namespace Walk

variable {σ : Type} {t : Transport σ} {s : Stack}

/-! ### One pull -/

/-- Where a page says that the walk goes on: its target for `next`, if that is absolute. -/
def onward (page : Fetched) : Option String :=
  (Links.ofHeaders page.resource.headers).next.filter Uri.isAbsolute

/-- A walk goes on where the page says, with one more page. -/
lemma advance_fst (walk : Walk) (uri : String) (page : Fetched) (w : World σ) :
    (walk.advance uri page.resource.headers w).1 = ⟨onward page, walk.pages + 1⟩ := by
  rw [advance, onward]
  cases (Links.ofHeaders page.resource.headers).next with
  | none => rfl
  | some target =>
      by_cases habs : Uri.isAbsolute target = true
      · simp [Option.filter_some, habs]
      · simp [Option.filter_some, habs, ended]

/-- A walk, in the world in which its next page is pulled. -/
structure Moment (σ : Type) where
  walk : Walk
  world : World σ

namespace Moment

variable {m : Moment σ} {uri : String}

/-- What the pull gives. -/
def result (t : Transport σ) (s : Stack) (m : Moment σ) : Except PagingError (Option Fetched) :=
  (m.walk.pull t s m.world).1

/-- The walk after the pull. -/
def rest (t : Transport σ) (s : Stack) (m : Moment σ) : Walk := (m.walk.pull t s m.world).2.1

/-- The world after the pull. -/
def after (t : Transport σ) (s : Stack) (m : Moment σ) : World σ :=
  (m.walk.pull t s m.world).2.2

/-- The world once it is reported that a page is to be fetched. -/
def begun (m : Moment σ) (uri : String) : World σ :=
  m.world.report (.fetchingPage (m.walk.pages + 1) uri)

/-- What the stack gives when it is asked for a page. -/
def answer (t : Transport σ) (s : Stack) (m : Moment σ) (uri : String) :
    Except FetchError Fetched := (s.request t (.forPage uri) (m.begun uri)).1

/-- One request reaches the transport, what the layers make of the request for a page. -/
def Asks (t : Transport σ) (s : Stack) (m : Moment σ) (uri : String) : Prop :=
  ∃ outcome, (m.after t s).exchanges =
    m.world.exchanges ++ [⟨s.outgoing m.world (.forPage uri), outcome⟩]

/-- The pull gives a page, which is what the one request for it was answered: a success
with a list of entries. -/
structure Yields (t : Transport σ) (s : Stack) (m : Moment σ) (uri : String)
    (page : Fetched) : Prop where
  result_eq : m.result t s = .ok (some page)
  asks : m.Asks t s uri
  answer_eq : m.answer t s uri = .ok page
  success : page.resource.isSuccess = true
  list : ∃ entries, page.resource.body.items? = some entries

/-- The pull fails on the page at a URI, after at most one request for it. -/
inductive Fails (t : Transport σ) (s : Stack) (m : Moment σ) (uri : String) : Prop
  /-- The page cannot be asked for. -/
  | refused (relative : Uri.isAbsolute uri = false)
      (idle : (m.after t s).exchanges = m.world.exchanges)
      (result_eq : m.result t s = .error (.fetch (.invalid (.invalidUri uri))))
  /-- There is no answer, for a reason that is passed on. -/
  | unanswered {e : FetchError} (asks : m.Asks t s uri) (answer_eq : m.answer t s uri = .error e)
      (result_eq : m.result t s = .error (.fetch e))
  /-- The answer is not a success. -/
  | unexpected {page : Fetched} (asks : m.Asks t s uri)
      (answer_eq : m.answer t s uri = .ok page) (status : page.resource.isSuccess = false)
      (result_eq : m.result t s = .error (.unexpectedStatus uri page.resource.status))
  /-- The answer is a success without a list. -/
  | notAList {page : Fetched} (asks : m.Asks t s uri) (answer_eq : m.answer t s uri = .ok page)
      (success : page.resource.isSuccess = true) (body : page.resource.body.items? = none)
      (result_eq : m.result t s = .error (.notAList uri))

/-- The pull gives nothing, and nothing at all happens. -/
def Idle (t : Transport σ) (s : Stack) (m : Moment σ) : Prop :=
  m.result t s = .ok none ∧ m.after t s = m.world

/-- A failure is an error. -/
lemma Fails.exists_error (h : m.Fails t s uri) :
    ∃ e, m.result t s = .error e := by
  cases h with
  | refused _ _ result_eq => exact ⟨_, result_eq⟩
  | unanswered _ _ result_eq => exact ⟨_, result_eq⟩
  | unexpected _ _ _ result_eq => exact ⟨_, result_eq⟩
  | notAList _ _ _ _ result_eq => exact ⟨_, result_eq⟩

/-- A failure is not the end of the pages. -/
lemma Fails.result_ne (h : m.Fails t s uri) : m.result t s ≠ .ok none := by
  intro hnone
  obtain ⟨e, he⟩ := h.exists_error
  cases he.symm.trans hnone

/-- A walk that is over stays as it is. -/
lemma idle_of_over (h : m.walk.next = none) : m.Idle t s ∧ m.rest t s = m.walk := by
  have hpull : m.walk.pull t s m.world = (.ok none, m.walk, m.world) := by
    rw [pull, h]
  exact ⟨⟨congrArg Prod.fst hpull, congrArg (·.2.2) hpull⟩, congrArg (·.2.1) hpull⟩

/-- What a pull makes of the answer to its one request. -/
lemma pull_eq (hnext : m.walk.next = some uri) (habs : Uri.isAbsolute uri = true) :
    m.walk.pull t s m.world =
      match s.request t (.forPage uri) (m.begun uri) with
      | (.error e, w) => (.error (.fetch e), ended m.walk.pages, w)
      | (.ok page, w) =>
          if !page.resource.isSuccess then
            (.error (.unexpectedStatus uri page.resource.status), ended m.walk.pages, w)
          else if page.resource.body.items?.isNone then
            (.error (.notAList uri), ended m.walk.pages, w)
          else (.ok (some page), m.walk.advance uri page.resource.headers w) := by
  rw [pull, hnext]
  dsimp only
  rw [Stack.call_get, if_pos habs]
  rfl

/-- A pull of a page that may be asked for makes the one request for it. -/
lemma asks_of_next (hnext : m.walk.next = some uri) (habs : Uri.isAbsolute uri = true) :
    m.Asks t s uri := by
  obtain ⟨outcome, hsent⟩ := s.exchanged_forPage (t := t) (w := m.begun uri) habs
  have hexchanges : (m.after t s).exchanges =
      (s.request t (.forPage uri) (m.begun uri)).2.exchanges := by
    rw [after, pull_eq hnext habs]
    rcases s.request t (.forPage uri) (m.begun uri) with ⟨e | page, w⟩
    · rfl
    · dsimp only
      split
      · rfl
      · split
        · rfl
        · exact (quiet_advance uri page.resource.headers).exchanges
  have hout : s.outgoing (m.begun uri) (.forPage uri) = s.outgoing m.world (.forPage uri) :=
    s.outgoing_congr fun _ _ => rfl
  refine ⟨outcome, ?_⟩
  rw [hexchanges, hsent.exchanges_eq, hout]
  rfl

/-- A pull of a page that cannot be asked for fails, and nothing is sent. -/
lemma pull_of_relative (hnext : m.walk.next = some uri) (hrel : ¬ Uri.isAbsolute uri = true) :
    m.walk.pull t s m.world =
      (.error (.fetch (.invalid (.invalidUri uri))), ended m.walk.pages, m.begun uri) := by
  rw [pull, hnext]
  dsimp only
  rw [Stack.call_get, if_neg hrel]
  rfl

lemma fails_of_relative (hnext : m.walk.next = some uri) (hrel : ¬ Uri.isAbsolute uri = true) :
    m.Fails t s uri ∧ m.rest t s = ended m.walk.pages := by
  have hpull := pull_of_relative (t := t) (s := s) hnext hrel
  have hidle : (m.after t s).exchanges = m.world.exchanges := by
    rw [after, hpull]
    rfl
  exact ⟨.refused (eq_false_of_ne_true hrel) hidle (congrArg Prod.fst hpull),
    congrArg (·.2.1) hpull⟩

/-- **The course of a pull** of a walk that is not over. It yields the page at the URI where
the walk goes on, and then goes on where that page says, or fails there and is over. -/
theorem course (hnext : m.walk.next = some uri) :
    (∃ page, m.Yields t s uri page ∧ m.rest t s = ⟨onward page, m.walk.pages + 1⟩) ∨
      (m.Fails t s uri ∧ m.rest t s = ended m.walk.pages) := by
  by_cases habs : Uri.isAbsolute uri = true
  · have hasks : m.Asks t s uri := asks_of_next hnext habs
    have hpull := pull_eq (t := t) (s := s) hnext habs
    rcases hanswer : s.request t (.forPage uri) (m.begun uri) with ⟨e | page, w⟩
    · rw [hanswer] at hpull
      exact .inr ⟨.unanswered hasks (congrArg Prod.fst hanswer) (congrArg Prod.fst hpull),
        congrArg (·.2.1) hpull⟩
    · have hpage : m.answer t s uri = .ok page := congrArg Prod.fst hanswer
      rw [hanswer] at hpull
      dsimp only at hpull
      cases hsuccess : page.resource.isSuccess with
      | false =>
          rw [hsuccess] at hpull
          exact .inr ⟨.unexpected hasks hpage hsuccess (congrArg Prod.fst hpull),
            congrArg (·.2.1) hpull⟩
      | true =>
          cases hitems : page.resource.body.items? with
          | none =>
              rw [hsuccess, hitems] at hpull
              exact .inr ⟨.notAList hasks hpage hsuccess hitems (congrArg Prod.fst hpull),
                congrArg (·.2.1) hpull⟩
          | some entries =>
              rw [hsuccess, hitems] at hpull
              have hyields : m.Yields t s uri page :=
                ⟨congrArg Prod.fst hpull, hasks, hpage, hsuccess, entries, hitems⟩
              refine .inl ⟨page, hyields, ?_⟩
              rw [rest, hpull]
              exact advance_fst m.walk uri page w
  · exact .inr (fails_of_relative hnext habs)

/-- A walk is over exactly when the next pull gives nothing. -/
lemma hasNext_eq_false_iff : m.walk.hasNext = false ↔ m.result t s = .ok none := by
  cases hnext : m.walk.next with
  | none => simp [hasNext, hnext, (idle_of_over (t := t) (s := s) hnext).1.1]
  | some uri =>
      have hresult : m.result t s ≠ .ok none := by
        rcases course (t := t) (s := s) hnext with ⟨page, hyields, -⟩ | ⟨hfails, -⟩
        · rw [hyields.result_eq]
          simp
        · exact hfails.result_ne
      simp [hasNext, hnext, hresult]

end Moment

/-! ### Many pulls -/

/-- The pulls of a walk, one after another; `changes` is what happens to the world before
each of them. -/
def moments (t : Transport σ) (s : Stack) :
    Walk → List (World σ → World σ) → World σ → List (Moment σ)
  | _, [], _ => []
  | walk, change :: changes, w =>
      let m : Moment σ := ⟨walk, change w⟩
      m :: moments t s (m.rest t s) changes (m.after t s)

lemma length_moments (walk : Walk) (changes : List (World σ → World σ)) (w : World σ) :
    (walk.moments t s changes w).length = changes.length := by
  induction changes generalizing walk w with
  | nil => rfl
  | cons change changes ih => rw [moments, List.length_cons, ih, List.length_cons]

/-- Once a walk is over, it is over at every later pull. -/
lemma moments_of_over {walk : Walk} (h : walk.next = none)
    (changes : List (World σ → World σ)) (w : World σ) :
    ∀ m ∈ walk.moments t s changes w, m.walk = walk ∧ m.Idle t s := by
  induction changes generalizing w with
  | nil => exact fun m hm => absurd hm List.not_mem_nil
  | cons change changes ih =>
      obtain ⟨hidle, hrest⟩ := Moment.idle_of_over (t := t) (s := s) (m := ⟨walk, change w⟩) h
      intro m hm
      rw [moments, hrest] at hm
      rcases List.mem_cons.mp hm with rfl | hm
      · exact ⟨rfl, hidle⟩
      · exact ih _ m hm

/-- Where a walk that began at a URI looks for the page of an index: at its beginning, or
where the page before says. -/
def address (uri : String) (pages : List Fetched) : Nat → Option String
  | 0 => some uri
  | i + 1 => pages[i]?.bind onward

/-- **The course of a walk** that goes on at a URI after so many pages: the pulls, and the
pages that they yield. -/
structure Course (t : Transport σ) (s : Stack) (uri : String) (before : Nat)
    (ms : List (Moment σ)) (pages : List Fetched) : Prop where
  length_le : pages.length ≤ ms.length
  /-- The first pulls yield the pages. -/
  yields : ∀ i m page, ms[i]? = some m → pages[i]? = some page →
    ∃ u, address uri pages i = some u ∧ m.Yields t s u page
  /-- The next one gives nothing or fails, as the last page says. -/
  stops : ∀ m, ms[pages.length]? = some m →
    (address uri pages pages.length = none → m.Idle t s) ∧
      ∀ u, address uri pages pages.length = some u → m.Fails t s u
  /-- All others give nothing. -/
  idle : ∀ i m, pages.length < i → ms[i]? = some m → m.Idle t s
  /-- The walk counts the pages. -/
  counts : ∀ i m, ms[i]? = some m → m.walk.pages = before + (pages.take i).length

namespace Course

variable {uri : String} {n : Nat} {m : Moment σ} {ms : List (Moment σ)} {page : Fetched}

lemma nil : Course t s uri n [] [] where
  length_le := Nat.le_refl _
  yields _ _ _ hm _ := by cases hm
  stops _ hm := by cases hm
  idle _ _ _ hm := by cases hm
  counts _ _ hm := by cases hm

/-- A walk that fails stays over. -/
lemma failed (hcount : m.walk.pages = n) (h : m.Fails t s uri)
    (hms : ∀ m' ∈ ms, m'.walk = ended n ∧ m'.Idle t s) : Course t s uri n (m :: ms) [] where
  length_le := Nat.zero_le _
  yields _ _ _ _ hpage := by cases hpage
  stops m' hm' := by
    obtain rfl := Option.some.inj hm'
    constructor
    · intro hnone
      cases hnone
    · intro u hu
      exact Option.some.inj hu ▸ h
  idle i m' hi hm' := by
    cases i with
    | zero => exact absurd hi (Nat.lt_irrefl _)
    | succ i => exact (hms m' (List.mem_of_getElem? hm')).2
  counts i m' hm' := by
    cases i with
    | zero =>
        obtain rfl := Option.some.inj hm'
        exact hcount
    | succ i => rw [(hms m' (List.mem_of_getElem? hm')).1]; rfl

/-- A walk whose page names no other page is over. -/
lemma last (hcount : m.walk.pages = n) (h : m.Yields t s uri page) (honward : onward page = none)
    (hms : ∀ m' ∈ ms, m'.walk = ended (n + 1) ∧ m'.Idle t s) :
    Course t s uri n (m :: ms) [page] where
  length_le := Nat.succ_le_succ (Nat.zero_le _)
  yields i m' page' hm' hpage' := by
    cases i with
    | zero =>
        obtain rfl := Option.some.inj hm'
        obtain rfl := Option.some.inj hpage'
        exact ⟨uri, rfl, h⟩
    | succ i => cases hpage'
  stops m' hm' := by
    constructor
    · intro _
      exact (hms m' (List.mem_of_getElem? hm')).2
    · intro u hu
      cases honward.symm.trans hu
  idle i m' hi hm' := by
    cases i with
    | zero => exact absurd hi (Nat.not_lt_zero _)
    | succ i => exact (hms m' (List.mem_of_getElem? hm')).2
  counts i m' hm' := by
    cases i with
    | zero =>
        obtain rfl := Option.some.inj hm'
        exact hcount
    | succ i =>
        rw [(hms m' (List.mem_of_getElem? hm')).1]
        simp [ended]

/-- Where a walk looks for a page is said by the pages after the first. -/
lemma address_cons {next : String} {pages : List Fetched} (honward : onward page = some next)
    (i : Nat) : address uri (page :: pages) (i + 1) = address next pages i := by
  cases i with
  | zero => exact honward
  | succ i => rfl

/-- A walk whose page names another page goes on there. -/
lemma cons {next : String} {pages : List Fetched} (hcount : m.walk.pages = n)
    (h : m.Yields t s uri page) (honward : onward page = some next)
    (hms : Course t s next (n + 1) ms pages) : Course t s uri n (m :: ms) (page :: pages) where
  length_le := Nat.succ_le_succ hms.length_le
  yields i m' page' hm' hpage' := by
    cases i with
    | zero =>
        obtain rfl := Option.some.inj hm'
        obtain rfl := Option.some.inj hpage'
        exact ⟨uri, rfl, h⟩
    | succ i =>
        rw [address_cons honward]
        exact hms.yields i m' page' hm' hpage'
  stops m' hm' := by
    rw [List.length_cons, address_cons honward]
    exact hms.stops m' hm'
  idle i m' hi hm' := by
    cases i with
    | zero => exact absurd hi (Nat.not_lt_zero _)
    | succ i => exact hms.idle i m' (Nat.lt_of_succ_lt_succ hi) hm'
  counts i m' hm' := by
    cases i with
    | zero =>
        obtain rfl := Option.some.inj hm'
        exact hcount
    | succ i =>
        rw [hms.counts i m' hm', List.take_succ_cons, List.length_cons]
        omega

end Course

/-- **Every walk takes a course.** -/
theorem exists_course (changes : List (World σ → World σ)) (uri : String) (n : Nat)
    (w : World σ) : ∃ pages, Course t s uri n (moments t s ⟨some uri, n⟩ changes w) pages := by
  induction changes generalizing uri n w with
  | nil => exact ⟨[], Course.nil⟩
  | cons change changes ih =>
      rw [moments]
      rcases Moment.course (t := t) (s := s) (m := ⟨⟨some uri, n⟩, change w⟩) rfl with
        ⟨page, hyields, hrest⟩ | ⟨hfails, hrest⟩
      · rw [hrest]
        cases honward : onward page with
        | none => exact ⟨[page], .last rfl hyields honward (moments_of_over rfl _ _)⟩
        | some next =>
            obtain ⟨pages, hpages⟩ := ih next (n + 1)
              (Moment.after t s ⟨⟨some uri, n⟩, change w⟩)
            exact ⟨page :: pages, .cons rfl hyields honward hpages⟩
      · rw [hrest]
        exact ⟨[], .failed rfl hfails (moments_of_over rfl _ _)⟩

/-- **The pages of a walk come in order**, however often it is pulled and whatever happens
between the pulls. The first pulls yield pages: successes with a list, each the answer to
one request, a plain GET of the URI where the walk began or which the page before names as
next, if that is absolute. The next pull gives nothing and makes no request if there is no
such URI, and otherwise fails there with at most one request. All others give nothing and
change nothing. The walk counts the pages yielded so far, and has a next page exactly when
the next pull gives something. -/
theorem pages_in_order (t : Transport σ) (s : Stack) (uri : String)
    (changes : List (World σ → World σ)) (w : World σ) :
    ((start uri).moments t s changes w).length = changes.length ∧
    ∃ pages : List Fetched, pages.length ≤ changes.length ∧
      (∀ i m page, ((start uri).moments t s changes w)[i]? = some m → pages[i]? = some page →
        ∃ u, address uri pages i = some u ∧ m.Yields t s u page) ∧
      (∀ m, ((start uri).moments t s changes w)[pages.length]? = some m →
        (address uri pages pages.length = none → m.Idle t s) ∧
          ∀ u, address uri pages pages.length = some u → m.Fails t s u) ∧
      (∀ i m, pages.length < i → ((start uri).moments t s changes w)[i]? = some m →
        m.Idle t s) ∧
      ∀ i m, ((start uri).moments t s changes w)[i]? = some m →
        m.walk.pages = (pages.take i).length ∧
          (m.walk.hasNext = false ↔ m.result t s = .ok none) := by
  have hlength := length_moments (t := t) (s := s) (start uri) changes w
  obtain ⟨pages, hpages⟩ := exists_course (t := t) (s := s) changes uri 0 w
  refine ⟨hlength, pages, hlength ▸ hpages.length_le, hpages.yields, hpages.stops, hpages.idle,
    fun i m hm => ⟨?_, Moment.hasNext_eq_false_iff⟩⟩
  rw [hpages.counts i m hm, Nat.zero_add]

end Walk

end LayeredFetch
