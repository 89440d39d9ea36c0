import LayeredFetch.Proofs.Cache.Transparency
import LayeredFetch.Proofs.Walk.Pages

/-!
Walks through caches.

A walk takes its next link from whatever copy of a page it is handed, and what it pulls
changes the caches that its later pulls read. Over a server that is honest about entity tags
this makes no difference.

* `Transport.Steady`: the server has one full reply, or one failure, for each request, and
  is honest about it.
* `Session.content_request`: what a GET gives through a stack is the full reply to
  the request of the stack without caches, whatever the caches hold.
* `Session.pull_congr` and `Session.find_congr`: two walks in step, through stacks with the
  same tokens, stay in step; `Session.caching_keeps_walks` is that for the stack without
  caches.
-/

namespace LayeredFetch

/-! ### Steady servers -/

/-- A server that has one full reply, or one failure, for each request. -/
structure Transport.Steady {σ : Type} (t : Transport σ)
    (full : Request → Except FetchError Resource) : Prop where
  /-- Entity tags make no difference to what it has. -/
  unconditional : ∀ q, full q.unconditional = full q
  /-- No full reply says that nothing changed. -/
  status : ∀ {q f}, full q = .ok f → f.status ≠ 304
  /-- A failure is given as it is. -/
  failure : ∀ {q e}, full q = .error e → ∀ server, (t.perform server q).1.outcome = .error e
  /-- A full reply is given honestly. -/
  honest : ∀ {q f}, full q = .ok f → ∀ server,
    ∃ reply, (t.perform server q).1.outcome = .ok reply ∧ HonestAnswer q f (.ok reply)
  /-- One tag stands for one content of a URI. -/
  tag : ∀ {q q' f f' etag}, q.method = .get → q'.method = .get → q.uri = q'.uri →
    full q = .ok f → full q' = .ok f' → f.isSuccess = true → f'.isSuccess = true →
    f.etag? = some etag → f'.etag? = some etag → f = f'

namespace Transport.Steady

variable {σ : Type} {t : Transport σ} {full : Request → Except FetchError Resource}
variable {server : σ} {q r : Request} {reply : Resource} {e : FetchError}

/-- A failure is what the server has. -/
lemma full_of_error (h : t.Steady full) (hout : (t.perform server q).1.outcome = .error e) :
    full q = .error e := by
  cases hfull : full q with
  | error e' => exact (h.failure hfull server).symm.trans hout
  | ok f =>
      obtain ⟨reply, hreply, -⟩ := h.honest hfull server
      cases hreply.symm.trans hout

/-- A reply is an honest answer. -/
lemma exists_full (h : t.Steady full) (hout : (t.perform server q).1.outcome = .ok reply) :
    ∃ f, full q = .ok f ∧ HonestAnswer q f (.ok reply) := by
  cases hfull : full q with
  | error e => cases (h.failure hfull server).symm.trans hout
  | ok f =>
      obtain ⟨reply', hreply, hanswer⟩ := h.honest hfull server
      obtain rfl := Except.ok.inj (hreply.symm.trans hout)
      exact ⟨f, rfl, hanswer⟩

/-- A reply that does not say that nothing changed is the full reply. -/
lemma full_of_ok (h : t.Steady full) (hout : (t.perform server q).1.outcome = .ok reply)
    (hstatus : reply.status ≠ 304) : full q = .ok reply := by
  obtain ⟨f, hfull, hanswer⟩ := h.exists_full hout
  rw [hfull, hanswer.eq_full hstatus]

end Transport.Steady

namespace Stack

variable {σ : Type} {w w' : World σ} {s s' : Stack}

/-- Without caches, a stack makes the same of a request in every world. -/
lemma outgoing_uncached (s : Stack) (r : Request) (w w' : World σ) :
    s.uncached.outgoing w r = s.uncached.outgoing w' r := by
  induction s generalizing r with
  | nil => rfl
  | cons layer inner ih =>
      cases layer with
      | authenticate token => exact ih (token.sign r)
      | revalidate cache => exact ih r

/-- There are no caches to be taken out twice. -/
lemma uncached_uncached (s : Stack) : s.uncached.uncached = s.uncached := by
  rw [uncached, uncached, List.filter_filter]
  exact List.filter_congr fun layer _ => by cases layer <;> rfl

end Stack

namespace Session

variable {σ : Type} {t : Transport σ} {full : Request → Except FetchError Resource}
variable {w w' : World σ} {s s' : Stack}

/-! ### One request -/

/-- The caches hold what the transport gave, and the history tells the same. -/
def Faithful (t : Transport σ) (w : World σ) : Prop := w.Genuine ∧ Performed t w

/-- That is an invariant of every run. -/
lemma faithful_invariant (t : Transport σ) :
    Invariant t (fun _ => True) fun _ w => Faithful t w :=
  (genuine_invariant t).and (performed_invariant t)

/-- What a cache holds is the full reply to some GET of its URI. -/
lemma exists_full_of_held (h : t.Steady full) (hw : Faithful t w) {cache uri : String}
    {e : Tagged} (he : w.held? cache uri = some e) :
    ∃ q, q.method = .get ∧ q.uri = uri ∧ full q = .ok e.resource := by
  have hgenuine := hw.1 cache uri e he
  obtain ⟨x, hx, hget, huri, hgiven⟩ := hgenuine.given
  obtain ⟨server, hperformed⟩ := hw.2 x hx
  exact ⟨x.request, hget, huri, h.full_of_ok (hperformed.trans hgiven)
    (Resource.status_ne_of_isSuccess hgenuine.success)⟩

/-- **A GET gives the full reply** to the request of the stack without caches, whatever the
caches hold: the content of the reply, or the failure. -/
theorem content_request (h : t.Steady full) (hw : Faithful t w) (s : Stack) {r : Request}
    (hget : r.method = .get) (hvalid : r.verify = .ok ())
    (hown : r.headers.contains "If-None-Match" = false) :
    (s.request t r w).1.map Fetched.resource = full (s.uncached.outgoing w r) := by
  have hplain : (s.outgoing w r).unconditional = s.uncached.outgoing w r := by
    rw [Stack.unconditional_outgoing, Request.unconditional_of_not_contains hown]
  have hcourse := s.request_course (t := t) (r := r) fun c _ e he => (hw.1 c r.uri e he).success
  rw [← hplain, h.unconditional]
  generalize (s.request t r w).1 = result at hcourse ⊢
  generalize (s.request t r w).2 = after at hcourse
  cases hcourse with
  | refused hrefuses => cases hrefuses.2.2.symm.trans hvalid
  | failed _ sent => exact (h.full_of_error sent.outcome_eq).symm
  | @passed reply _ _ sent _ _ _ unheld =>
      refine (h.full_of_ok sent.outcome_eq fun h304 => ?_).symm
      -- no layer held anything, so no entity tag was presented
      have hunheld := unheld hget (Resource.isNotModified_iff.mpr h304)
      have hnone := s.all_outgoing_of_not_held hunheld
      obtain ⟨f, hfull, hanswer⟩ := h.exists_full sent.outcome_eq
      obtain ⟨-, -, tag, -, hpresented⟩ := hanswer.exists_tag (h.status hfull) h304
      rw [hnone, Headers.all_of_not_contains hown] at hpresented
      cases hpresented
  | @fresh reply etag _ _ _ _ sent success =>
      exact (h.full_of_ok sent.outcome_eq (Resource.status_ne_of_isSuccess success)).symm
  | @current reply outer inner cache e _ _ _ split held unheld sent notModified =>
      have hgenuine := hw.1 cache r.uri e held
      obtain ⟨q, hq, huri, hold⟩ := exists_full_of_held h hw held
      obtain ⟨f, hfull, hanswer⟩ := h.exists_full sent.outcome_eq
      obtain ⟨hget', hsuccess, tag, htag, hpresented⟩ :=
        hanswer.exists_tag (h.status hfull) (Resource.isNotModified_iff.mp notModified)
      rw [Stack.all_outgoing_of_held split hget held unheld, List.mem_singleton] at hpresented
      have hsame : e.resource = f :=
        h.tag hq hget' (huri.trans s.uri_outgoing.symm) hold hfull hgenuine.success hsuccess
          hgenuine.tag (hpresented ▸ htag)
      rw [hfull, ← hsame]
      rfl

/-- Asked for a page, two stacks with the same tokens give the same content. -/
lemma content_call (h : t.Steady full) (hw : Faithful t w) (hw' : Faithful t w')
    (hs : s.uncached = s'.uncached) (uri : String) :
    (s.call t (.get uri .empty) w).1.map Fetched.resource =
      (s'.call t (.get uri .empty) w').1.map Fetched.resource := by
  rw [Stack.call_get, Stack.call_get]
  split
  · next habs =>
      have hvalid := Request.verify_forPage habs
      have hown : (Request.forPage uri).headers.contains "If-None-Match" = false := rfl
      rw [content_request h hw s rfl hvalid hown, content_request h hw' s' rfl hvalid hown, hs,
        s'.outgoing_uncached]
  · rfl

/-! ### Walks in step -/

lemma Faithful.report (hw : Faithful t w) (e : Event) : Faithful t (w.report e) :=
  @(faithful_invariant t).quiet [] _ _ hw (World.quiet_report e)

lemma Faithful.pull (hw : Faithful t w) (s : Stack) (walk : Walk) :
    Faithful t (walk.pull t s w).2.2 :=
  @Invariant.pull _ _ _ _ [] _ (faithful_invariant t) _ trivial walk hw

/-- Two outcomes with the same content are the same error, or values with the same content. -/
lemma map_eq_map_cases {ε α β : Type} {f : α → β} {x y : Except ε α} (h : x.map f = y.map f) :
    (∃ e, x = .error e ∧ y = .error e) ∨ ∃ a b, x = .ok a ∧ y = .ok b ∧ f a = f b := by
  cases x with
  | error e =>
      cases y with
      | error e' =>
          obtain rfl := Except.error.inj h
          exact .inl ⟨e, rfl, rfl⟩
      | ok b => cases h
  | ok a =>
      cases y with
      | error e' => cases h
      | ok b => exact .inr ⟨a, b, rfl, rfl, Except.ok.inj h⟩

/-- **Two walks in step stay in step**: they pull the same content, and go on in the same
way. -/
lemma pull_congr (h : t.Steady full) (hw : Faithful t w) (hw' : Faithful t w')
    (hs : s.uncached = s'.uncached) (walk : Walk) :
    (walk.pull t s w).1.map (Option.map Fetched.resource) =
        (walk.pull t s' w').1.map (Option.map Fetched.resource) ∧
      (walk.pull t s w).2.1 = (walk.pull t s' w').2.1 := by
  rw [Walk.pull, Walk.pull]
  cases walk.next with
  | none => exact ⟨rfl, rfl⟩
  | some uri =>
      have hcontent := content_call h (hw.report (.fetchingPage (walk.pages + 1) uri))
        (hw'.report (.fetchingPage (walk.pages + 1) uri)) hs uri
      dsimp only
      rcases hx : s.call t (.get uri .empty) (w.report (.fetchingPage (walk.pages + 1) uri)) with
        ⟨result, after⟩
      rcases hy : s'.call t (.get uri .empty)
        (w'.report (.fetchingPage (walk.pages + 1) uri)) with ⟨result', after'⟩
      rw [hx, hy] at hcontent
      rcases map_eq_map_cases hcontent with ⟨e, rfl, rfl⟩ | ⟨page, page', rfl, rfl, hsame⟩
      · exact ⟨rfl, rfl⟩
      · dsimp only
        rw [hsame]
        split
        · exact ⟨rfl, rfl⟩
        · split
          · exact ⟨rfl, rfl⟩
          · refine ⟨congrArg (fun r => Except.ok (some r)) hsame, ?_⟩
            dsimp only
            rw [walk.advance_fst, walk.advance_fst]

/-- The URIs that a world was asked for, in order. -/
def asked (w : World σ) : List String := w.exchanges.map (·.request.uri)

/-- A pull asks for the URI where the walk goes on, if that is absolute. -/
lemma asked_pull (s : Stack) (walk : Walk) (w : World σ) :
    asked (walk.pull t s w).2.2 = asked w ++ walk.next.toList.filter Uri.isAbsolute := by
  let m : Walk.Moment σ := ⟨walk, w⟩
  show asked (m.after t s) = _
  cases hnext : walk.next with
  | none =>
      rw [(Walk.Moment.idle_of_over (m := m) hnext).1.2]
      exact (List.append_nil _).symm
  | some uri =>
      by_cases habs : Uri.isAbsolute uri = true
      · obtain ⟨outcome, hasks⟩ := Walk.Moment.asks_of_next (t := t) (s := s) (m := m) hnext habs
        simp [asked, hasks, habs, m, Request.forPage]
      · rw [Walk.Moment.after, Walk.Moment.pull_of_relative hnext habs]
        simp [asked, habs, m, Walk.Moment.begun, World.report]

/-- **Two searches in step** come to the same, after the same requests. -/
lemma find_congr (h : t.Steady full) (hs : s.uncached = s'.uncached) (wanted : Json → Bool)
    (limit : Nat) (walk : Walk) (hw : Faithful t w) (hw' : Faithful t w') :
    (walk.find t s wanted limit w).1 = (walk.find t s' wanted limit w').1 ∧
      ∃ uris, asked (walk.find t s wanted limit w).2 = asked w ++ uris ∧
        asked (walk.find t s' wanted limit w').2 = asked w' ++ uris := by
  induction limit generalizing walk w w' with
  | zero => exact ⟨rfl, [], (List.append_nil _).symm, (List.append_nil _).symm⟩
  | succ limit ih =>
      obtain ⟨hcontent, hwalk⟩ := pull_congr h hw hw' hs walk
      have hafter := hw.pull s walk
      have hafter' := hw'.pull s' walk
      have hasked := asked_pull (t := t) s walk w
      have hasked' := asked_pull (t := t) s' walk w'
      rw [Walk.find, Walk.find]
      generalize walk.next.toList.filter Uri.isAbsolute = first at hasked hasked'
      generalize walk.pull t s w = x at hcontent hwalk hafter hasked ⊢
      generalize walk.pull t s' w' = y at hcontent hwalk hafter' hasked' ⊢
      obtain ⟨result, rest, after⟩ := x
      obtain ⟨result', rest', after'⟩ := y
      obtain rfl : rest = rest' := hwalk
      rcases map_eq_map_cases hcontent with ⟨e, rfl, rfl⟩ | ⟨page, page', rfl, rfl, hsame⟩
      · exact ⟨rfl, first, hasked, hasked'⟩
      · cases page with
        | none =>
            obtain rfl : page' = none := Option.map_eq_none_iff.mp hsame.symm
            exact ⟨rfl, first, hasked, hasked'⟩
        | some page =>
            obtain ⟨page', rfl, hpage⟩ := Option.map_eq_some_iff.mp hsame.symm
            have hentries : Walk.entries page' = Walk.entries page :=
              congrArg (fun r : Resource => r.body.items?.getD []) hpage
            dsimp only
            rw [hentries]
            rcases Walk.examine wanted (Walk.entries page) with ⟨_ | entry, seen⟩
            · obtain ⟨hlater, uris, huris, huris'⟩ := ih rest hafter hafter'
              refine ⟨congrArg (fun later : Search =>
                { later with examined := seen ++ later.examined }) hlater, first ++ uris, ?_, ?_⟩
              · rw [← List.append_assoc, ← hasked]
                exact huris
              · rw [← List.append_assoc, ← hasked']
                exact huris'
            · exact ⟨rfl, first, hasked, hasked'⟩

/-- What a pull tells: the content of the page, and which URIs were asked for. -/
def told (t : Transport σ) (s : Stack) (m : Walk.Moment σ) :
    Except PagingError (Option Resource) × List String :=
  ((m.result t s).map (Option.map Fetched.resource),
    (asked (m.after t s)).drop (asked m.world).length)

/-- Two walks in step tell the same, pull after pull. -/
lemma moments_congr (h : t.Steady full) (hs : s.uncached = s'.uncached) (n : Nat) (walk : Walk)
    (hw : Faithful t w) (hw' : Faithful t w') :
    (walk.moments t s (List.replicate n id) w).map (told t s) =
      (walk.moments t s' (List.replicate n id) w').map (told t s') := by
  induction n generalizing walk w w' with
  | zero => rfl
  | succ n ih =>
      obtain ⟨hcontent, hwalk⟩ := pull_congr h hw hw' hs walk
      have htold : told t s ⟨walk, w⟩ = told t s' ⟨walk, w'⟩ := by
        refine Prod.ext hcontent ?_
        show (asked (walk.pull t s w).2.2).drop _ = (asked (walk.pull t s' w').2.2).drop _
        rw [asked_pull, asked_pull, List.drop_left, List.drop_left]
      have hlater := ih (walk.pull t s w).2.1 (hw.pull s walk) (hw'.pull s' walk)
      refine congrArg₂ List.cons htold (hlater.trans ?_)
      rw [hwalk]
      rfl

/-- **Caching keeps walks as they are.** Over a steady server a walk through a stack, with
caches as any run left them, tells the same as the walk through the stack without its caches:
at each pull the same content, the same error or the same end, and the same URIs asked for. A
search comes to the same, after the same requests. -/
theorem caching_keeps_walks (t : Transport σ) (full : Request → Except FetchError Resource)
    (h : t.Steady full) (server server' : σ) (steps steps' : List (Step σ))
    (hput : HandsOff steps) (hput' : HandsOff steps') (s : Stack) (walk : Walk) :
    (∀ n, (walk.moments t s (List.replicate n id) (worldAfter t server steps)).map (told t s) =
      (walk.moments t s.uncached (List.replicate n id) (worldAfter t server' steps')).map
        (told t s.uncached)) ∧
    ∀ wanted limit,
      (walk.find t s wanted limit (worldAfter t server steps)).1 =
        (walk.find t s.uncached wanted limit (worldAfter t server' steps')).1 ∧
      ∃ uris,
        asked (walk.find t s wanted limit (worldAfter t server steps)).2 =
          asked (worldAfter t server steps) ++ uris ∧
        asked (walk.find t s.uncached wanted limit (worldAfter t server' steps')).2 =
          asked (worldAfter t server' steps') ++ uris := by
  have hreachable : ∀ {server : σ} {steps : List (Step σ)}, HandsOff steps →
      Faithful t (worldAfter t server steps) := fun hput =>
    ⟨(genuine_run hput).1, exchanges_performed hput⟩
  have hs : s.uncached = s.uncached.uncached := s.uncached_uncached.symm
  exact ⟨fun n => moments_congr h hs n walk (hreachable hput) (hreachable hput'),
    fun wanted limit =>
      find_congr h hs wanted limit walk (hreachable hput) (hreachable hput')⟩

/-- A list on two pages, of which the first has an entity tag and names the second. -/
def shelf (q : Request) : Resource :=
  if q.uri = "http://h/1" then
    ⟨200, ⟨[("etag", ["v1"]), ("link", ["<http://h/2>; rel=\"next\""])]⟩, .arr [.str "a"]⟩
  else ⟨200, ∅, .arr [.str "b"]⟩

/-- The server with that list. -/
def library : Transport Unit where
  perform _ q :=
    if q.method = .get ∧ q.uri = "http://h/1" ∧ "v1" ∈ q.headers.all "If-None-Match" then
      (⟨.ok ⟨304, ∅, .null⟩, []⟩, ())
    else (⟨.ok (shelf q), []⟩, ())

lemma steady_library : library.Steady fun q => .ok (shelf q) where
  unconditional _ := rfl
  status {q f} hf := by
    obtain rfl := Except.ok.inj hf
    rw [shelf]
    split <;> decide
  failure hf := by cases hf
  honest {q f} hf _ := by
    obtain rfl := Except.ok.inj hf
    by_cases h : q.method = .get ∧ q.uri = "http://h/1" ∧ "v1" ∈ q.headers.all "If-None-Match"
    · have hshelf : shelf q = _ := if_pos h.2.1
      refine ⟨_, congrArg (fun r : Reply × Unit => r.1.outcome) (if_pos h), ?_⟩
      rw [hshelf]
      exact .current h.1 (by decide) (by decide) h.2.2 rfl
    · exact ⟨_, congrArg (fun r : Reply × Unit => r.1.outcome) (if_neg h), .full⟩
  tag _ _ huri hf hf' _ _ _ _ := by
    obtain rfl := Except.ok.inj hf
    obtain rfl := Except.ok.inj hf'
    rw [shelf, shelf, huri]

/-- A session that gets the first page through a cache. -/
def visited : List (Step Unit) :=
  [⟨.view "site" [.revalidate "pages"], none⟩, ⟨.fetch "site" (.get "http://h/1" ∅), none⟩]

/-- The statuses of the replies in a history. -/
def statuses (w : World Unit) : List (Option Nat) :=
  w.exchanges.map fun x => x.outcome.toOption.map Resource.status

/-- After that session a walk over the list is answered that the first page did not change, and
tells the same as a walk without the cache. -/
theorem caching_keeps_walks_visited :
    ((Walk.start "http://h/1").moments library [.revalidate "pages"] (List.replicate 3 id)
        (worldAfter library () visited)).map (told library [.revalidate "pages"]) =
      ((Walk.start "http://h/1").moments library [] (List.replicate 3 id)
        (worldAfter library () [])).map (told library []) ∧
    statuses ((Walk.start "http://h/1").find library [.revalidate "pages"] (fun _ => false) 3
      (worldAfter library () visited)).2 = [some 200, some 304, some 200] ∧
    statuses ((Walk.start "http://h/1").find library [] (fun _ => false) 3
      (worldAfter library () [])).2 = [some 200, some 200] :=
  ⟨(caching_keeps_walks library _ steady_library () () visited [] (by decide) (by decide)
      [.revalidate "pages"] (.start "http://h/1")).1 3,
    by decide +kernel, by decide +kernel⟩

end Session

end LayeredFetch
