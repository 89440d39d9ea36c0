import LayeredFetch.Proofs.Stack.Passage

/-!
The courses that a request can take through a stack, and what each of them changes.

* `World.Exchanged` is one exchange with the transport; `World.Spread` is one
  instance put under one URI into some caches.
* `Stack.Course` has one constructor for each course: the request is *refused*, the
  exchange *failed*, the reply is *passed* on, a *fresh* instance is made of it, or
  the *current* instance stands for it.
* `Stack.request_course`: these are all, as long as the caches hold successes only.
  Without that an outer layer could take a held instance for a reply that nothing
  changed.
-/

namespace LayeredFetch

/-- Whether a reply to a GET is one to be held: a success with an entity tag. -/
def Resource.isCacheable (r : Resource) : Bool := r.isSuccess && r.etag?.isSome

/-- That nothing changed is said by one status. -/
lemma Resource.isNotModified_iff {r : Resource} :
    r.isNotModified = true ↔ r.status = 304 := by
  rw [isNotModified, beq_iff_eq]

/-- A success does not say that nothing changed. -/
lemma Resource.isNotModified_of_isSuccess {r : Resource} (h : r.isSuccess = true) :
    r.isNotModified = false := by
  simp only [isSuccess, Bool.and_eq_true, decide_eq_true_eq] at h
  simp only [isNotModified, beq_eq_false_iff_ne]
  omega

/-- A reply that nothing changed is not one to be held. -/
lemma Resource.isCacheable_of_isNotModified {r : Resource} (h : r.isNotModified = true) :
    r.isCacheable = false := by
  by_contra hc
  rw [Bool.not_eq_false, isCacheable, Bool.and_eq_true] at hc
  rw [isNotModified_of_isSuccess hc.1] at h
  cases h

namespace World

variable {σ : Type} {t : Transport σ} {w w' w'' before : World σ}
variable {cache uri : String} {held : Option Tagged} {e : Tagged} {reply : Resource}

/-! ### What an exchange and a new entry change -/

/-- One request reaches the transport: what it answers, what becomes of the server,
and the entry in the history. -/
structure Exchanged (t : Transport σ) (w w' : World σ) (q : Request)
    (outcome : Except FetchError Resource) : Prop where
  outcome_eq : (t.perform w.server q).1.outcome = outcome
  server_eq : w'.server = (t.perform w.server q).2
  exchanges_eq : w'.exchanges = w.exchanges ++ [⟨q, outcome⟩]

/-- The caches hold the same instances in both worlds. -/
def SameHeld (w w' : World σ) : Prop := ∀ c u, w'.held? c u = w.held? c u

/-- In the later world some caches hold an instance under a URI; everything else is
held as before. -/
def Spread (w w' : World σ) (caches : List String) (uri : String) (e : Tagged) : Prop :=
  ∀ c u, w'.held? c u = if c ∈ caches ∧ u = uri then some e else w.held? c u

lemma Spread.refl (w : World σ) (uri : String) (e : Tagged) : Spread w w [] uri e := by
  intro c u
  simp

lemma Spread.trans {A B : List String} (h : Spread w w' A uri e)
    (h' : Spread w' w'' B uri e) : Spread w w'' (B ++ A) uri e := by
  intro c u
  rw [h' c u, h c u]
  by_cases hB : c ∈ B ∧ u = uri
  · simp [hB]
  · by_cases hA : c ∈ A ∧ u = uri
    · simp [hA]
    · rw [if_neg hB, if_neg hA, if_neg]
      rintro ⟨hc, hu⟩
      rcases List.mem_append.mp hc with hc | hc
      · exact hB ⟨hc, hu⟩
      · exact hA ⟨hc, hu⟩

/-- Spreading starts from what is held, however that came about. -/
lemma Spread.of_sameHeld {A : List String} (h : SameHeld w w') (h' : Spread w' w'' A uri e) :
    Spread w w'' A uri e := by
  intro c u
  rw [h' c u, h c u]

lemma spread_store (h : SameHeld w w') : Spread w (w'.store cache uri e) [cache] uri e := by
  intro c u
  rw [held?_store, h c u]
  simp

/-- Sending changes the server and the history, and nothing that is held. -/
lemma exchanged_send {q : Request} {outcome : Except FetchError Resource}
    (h : (t.perform w.server q).1.outcome = outcome) :
    w.send t q = (outcome.map .plain, (w.send t q).2) ∧
      Exchanged t w (w.send t q).2 q outcome ∧ SameHeld w (w.send t q).2 ∧
      (w.send t q).2.nextSerial = w.nextSerial := by
  subst h
  exact ⟨rfl, ⟨rfl, rfl, rfl⟩, fun _ _ => rfl, rfl⟩

/-- What comes out of the layers leaves the exchange as it was. -/
lemma Exchanged.trans {q : Request} {outcome : Except FetchError Resource}
    (h : Exchanged t w w' q outcome) (hserver : w''.server = w'.server)
    (hexchanges : w''.exchanges = w'.exchanges) : Exchanged t w w'' q outcome :=
  ⟨h.outcome_eq, hserver.trans h.server_eq, hexchanges.trans h.exchanges_eq⟩

/-- An exchange is told by the entry that it adds to the history. -/
lemma Exchanged.eq_of_exchanges {q q' : Request}
    {outcome outcome' : Except FetchError Resource} (h : Exchanged t w w' q outcome)
    (h' : w'.exchanges = w.exchanges ++ [⟨q', outcome'⟩]) : q = q' ∧ outcome = outcome' := by
  have hadded : [Exchange.mk q outcome] = [⟨q', outcome'⟩] :=
    List.append_cancel_left (h.exchanges_eq.symm.trans h')
  exact Exchange.mk.inj (List.singleton_inj.mp hadded)

/-- It is the only entry that is new. -/
lemma Exchanged.eq_of_mem_drop {q : Request} {outcome : Except FetchError Resource}
    (h : Exchanged t w w' q outcome) {x : Exchange}
    (hx : x ∈ w'.exchanges.drop w.exchanges.length) : x = ⟨q, outcome⟩ := by
  rw [h.exchanges_eq, List.drop_left] at hx
  exact List.mem_singleton.mp hx

/-! ### Settling, answer by answer -/

@[simp] lemma server_settle (answer : Fetched) :
    (w.settle cache uri held answer).2.server = w.server := by
  unfold settle enroll
  split
  · split <;> rfl
  · split
    · split
      · next heq =>
          obtain ⟨-, rfl⟩ := Prod.mk.inj heq
          split <;> rfl
      · next heq =>
          obtain ⟨-, rfl⟩ := Prod.mk.inj heq
          split <;> rfl
    · rfl

@[simp] lemma exchanges_settle (answer : Fetched) :
    (w.settle cache uri held answer).2.exchanges = w.exchanges := by
  unfold settle
  split
  · split <;> rfl
  · split
    · have henroll : (w.enroll uri answer).2.exchanges = w.exchanges :=
        exchanges_enroll answer
      split
      · next heq => rwa [heq] at henroll
      · next heq => rwa [heq] at henroll
    · rfl

/-- Nothing changed, and there is an instance to stand for it. -/
lemma settle_held {answer : Fetched} (h : answer.resource.isNotModified = true) :
    w.settle cache uri (some e) answer = (.tagged e, w.report (.notModified uri e.etag)) := by
  simp only [settle, h, if_true]

/-- An instance that comes from an inner layer goes into the cache as it is. -/
lemma settle_tagged (h : e.resource.isSuccess = true) :
    w.settle cache uri held (.tagged e) =
      (.tagged e, (w.report (.caching uri e.etag)).store cache uri e) := by
  have hn := Resource.isNotModified_of_isSuccess h
  simp only [settle, Fetched.resource, hn, h, Bool.false_eq_true, if_false, if_true, enroll,
    Fetched.tag?, Fetched.isTaggable]

/-- A plain success with an entity tag becomes a new instance. -/
lemma settle_fresh {etag : String} (h : reply.isSuccess = true)
    (he : reply.etag? = some etag) :
    w.settle cache uri held (.plain reply) =
      (.tagged ⟨w.nextSerial, uri, etag, reply⟩,
        (w.mint.report (.caching uri etag)).store cache uri
          ⟨w.nextSerial, uri, etag, reply⟩) := by
  have hn := Resource.isNotModified_of_isSuccess h
  simp only [settle, Fetched.resource, hn, h, Bool.false_eq_true, if_false, if_true, enroll,
    Fetched.tag?, Fetched.isTaggable, he, Option.map_some, Option.isSome_some]

/-- Any other plain reply is passed on. -/
lemma settle_passed (hn : reply.isNotModified = true → held = none)
    (hc : reply.isCacheable = false) :
    w.settle cache uri held (.plain reply) = (.plain reply, w) := by
  by_cases h304 : reply.isNotModified = true
  · simp only [settle, Fetched.resource, h304, if_true, hn h304]
  · by_cases hs : reply.isSuccess = true
    · have he : reply.etag? = none := by
        simpa [Resource.isCacheable, hs] using hc
      simp [settle, Fetched.resource, h304, hs, enroll, Fetched.tag?, Fetched.isTaggable, he]
    · simp only [settle, Fetched.resource, h304, hs, Bool.false_eq_true, if_false]

end World

namespace Stack

open World (Exchanged SameHeld Spread)

variable {σ : Type} {t : Transport σ} {w before : World σ} {uri : String} {r : Request}
variable {e : Tagged} {reply : Resource}

/-! ### Coming out, answer by answer -/

@[simp] lemma server_incoming (s : Stack) (answer : Fetched) :
    (s.incoming before uri answer w).2.server = w.server := by
  induction s with
  | nil => rfl
  | cons layer inner ih =>
      cases layer with
      | authenticate token => exact ih
      | revalidate cache => rw [incoming, World.server_settle, ih]

@[simp] lemma exchanges_incoming (s : Stack) (answer : Fetched) :
    (s.incoming before uri answer w).2.exchanges = w.exchanges := by
  induction s with
  | nil => rfl
  | cons layer inner ih =>
      cases layer with
      | authenticate token => exact ih
      | revalidate cache => rw [incoming, World.exchanges_settle, ih]

/-- A request that is let through is one exchange with the transport. -/
lemma exchanged_of_admits (s : Stack) (h : s.Admits r) :
    ∃ outcome, Exchanged t w (s.request t r w).2 (s.outgoing w r) outcome := by
  refine ⟨(t.perform w.server (s.outgoing w r)).1.outcome, ?_⟩
  obtain ⟨hsend, hsent, -⟩ :=
    World.exchanged_send (w := w) (t := t) (q := s.outgoing w r) rfl
  rw [request_of_admits s h, hsend]
  split
  · next heq => exact (Prod.mk.inj heq).2 ▸ hsent
  · next heq =>
      obtain ⟨-, rfl⟩ := Prod.mk.inj heq
      split
      · exact hsent.trans (server_incoming s _) (exchanges_incoming s _)
      · exact hsent

/-- A request changes nothing, or is one exchange with the transport. -/
lemma exchanged_request (s : Stack) (r : Request) (w : World σ) :
    (s.request t r w).2 = w ∨
      ∃ outcome, Exchanged t w (s.request t r w).2 (s.outgoing w r) outcome := by
  rcases s.admits_or_refuses r with hadmits | ⟨e, hrefuses⟩
  · exact .inr (s.exchanged_of_admits hadmits)
  · rw [request_of_refuses s hrefuses]
    exact .inl rfl

/-- So does a call, with the request that it stands for. -/
lemma exchanged_call (s : Stack) (c : Call) (w : World σ) :
    (s.call t c w).2 = w ∨
      ∃ r outcome, c.request = .ok r ∧
        Exchanged t w (s.call t c w).2 (s.outgoing w r) outcome := by
  rw [call]
  cases c.request with
  | error e => exact .inl rfl
  | ok r =>
      rcases s.exchanged_request r w with hsame | ⟨outcome, hsent⟩
      · exact .inl hsame
      · exact .inr ⟨r, outcome, rfl, hsent⟩

/-- A reply that no layer has a use for is passed on. -/
lemma incoming_passed (s : Stack)
    (hn : reply.isNotModified = true → ∀ c ∈ s.cacheNames, before.held? c uri = none)
    (hc : s.cacheNames ≠ [] → reply.isCacheable = false) :
    s.incoming before uri (.plain reply) w = (.plain reply, w) := by
  induction s with
  | nil => rfl
  | cons layer inner ih =>
      cases layer with
      | authenticate token => exact ih hn hc
      | revalidate cache =>
          have hc' : reply.isCacheable = false := hc (List.cons_ne_nil _ _)
          have hn' : reply.isNotModified = true →
              ∀ c ∈ cacheNames inner, before.held? c uri = none :=
            fun h c hm => hn h c (List.mem_cons_of_mem cache hm)
          rw [incoming, ih hn' fun _ => hc']
          exact World.settle_passed (fun h => hn h cache List.mem_cons_self) hc'

/-- An instance goes into every cache that it passes. -/
lemma incoming_tagged (s : Stack) (h : e.resource.isSuccess = true) :
    (s.incoming before uri (.tagged e) w).1 = .tagged e ∧
      Spread w (s.incoming before uri (.tagged e) w).2 s.cacheNames uri e ∧
      (s.incoming before uri (.tagged e) w).2.nextSerial = w.nextSerial := by
  induction s with
  | nil => exact ⟨rfl, Spread.refl w uri e, rfl⟩
  | cons layer inner ih =>
      obtain ⟨hanswer, hspread, hserial⟩ := ih
      cases layer with
      | authenticate token => exact ⟨hanswer, hspread, hserial⟩
      | revalidate cache =>
          rw [incoming, hanswer, World.settle_tagged h]
          exact ⟨rfl, hspread.trans (World.spread_store fun _ _ => rfl), hserial⟩

/-- Of the layers that revalidate and have some property, one is the innermost. -/
lemma exists_innermost (s : Stack) (P : String → Prop) (h : ∃ c ∈ s.cacheNames, P c) :
    ∃ (outer : Stack) (cache : String) (inner : Stack),
      s = outer ++ .revalidate cache :: inner ∧ P cache ∧ ∀ c ∈ inner.cacheNames, ¬ P c := by
  induction s with
  | nil => simp at h
  | cons layer inner ih =>
      by_cases hin : ∃ c ∈ cacheNames inner, P c
      · obtain ⟨outer, cache, rest, rfl, hP, hrest⟩ := ih hin
        exact ⟨layer :: outer, cache, rest, rfl, hP, hrest⟩
      · cases layer with
        | authenticate token => exact absurd h hin
        | revalidate cache =>
            obtain ⟨c, hc, hP⟩ := h
            rcases List.mem_cons.mp hc with rfl | hc
            · exact ⟨[], c, inner, rfl, hP, fun c' hc' hP' => hin ⟨c', hc', hP'⟩⟩
            · exact absurd ⟨c, hc, hP⟩ hin

/-! ### The courses -/

/-- **The courses of a request** `r` through a stack `s` in a world `w`: what it
gives, and the world afterwards. -/
inductive Course (t : Transport σ) (s : Stack) (r : Request) (w : World σ) :
    Except FetchError Fetched → World σ → Prop
  /-- The request does not reach the transport. -/
  | refused {e : RequestError} (h : s.Refuses r e) : Course t s r w (.error (.invalid e)) w
  /-- The transport gives no reply. -/
  | failed {e : FetchError} {w' : World σ} (admits : s.Admits r)
      (sent : Exchanged t w w' (s.outgoing w r) (.error e)) (held : SameHeld w w')
      (serial : w'.nextSerial = w.nextSerial) : Course t s r w (.error e) w'
  /-- The reply is given as it came. -/
  | passed {reply : Resource} {w' : World σ} (admits : s.Admits r)
      (sent : Exchanged t w w' (s.outgoing w r) (.ok reply)) (held : SameHeld w w')
      (serial : w'.nextSerial = w.nextSerial)
      (useless : r.method = .get → s.cacheNames ≠ [] → reply.isCacheable = false)
      (unheld : r.method = .get → reply.isNotModified = true →
        ∀ c ∈ s.cacheNames, w.held? c r.uri = none) : Course t s r w (.ok (.plain reply)) w'
  /-- The reply becomes a new instance, which every cache of the stack now holds. -/
  | fresh {reply : Resource} {etag : String} {w' : World σ} (get : r.method = .get)
      (valid : r.verify = .ok ()) (caches : s.cacheNames ≠ [])
      (sent : Exchanged t w w' (s.outgoing w r) (.ok reply)) (success : reply.isSuccess = true)
      (tag : reply.etag? = some etag)
      (spread : Spread w w' s.cacheNames r.uri ⟨w.nextSerial, r.uri, etag, reply⟩)
      (serial : w'.nextSerial = w.nextSerial + 1) :
      Course t s r w (.ok (.tagged ⟨w.nextSerial, r.uri, etag, reply⟩)) w'
  /-- Nothing changed: the innermost instance held is given, and the caches outside
  of the one that held it now hold it too. -/
  | current {reply : Resource} {outer inner : Stack} {cache : String} {e : Tagged}
      {w' : World σ} (get : r.method = .get) (valid : r.verify = .ok ())
      (split : s = outer ++ .revalidate cache :: inner) (held : w.held? cache r.uri = some e)
      (unheld : ∀ c ∈ inner.cacheNames, w.held? c r.uri = none)
      (sent : Exchanged t w w' (s.outgoing w r) (.ok reply))
      (notModified : reply.isNotModified = true)
      (spread : Spread w w' outer.cacheNames r.uri e)
      (serial : w'.nextSerial = w.nextSerial) : Course t s r w (.ok (.tagged e)) w'

/-- What comes out of a stack that makes a new instance of the reply. -/
lemma incoming_fresh (before w : World σ) (uri : String) {etag : String} (s : Stack)
    (hs : s.cacheNames ≠ []) (h : reply.isSuccess = true) (he : reply.etag? = some etag) :
    (s.incoming before uri (.plain reply) w).1 = .tagged ⟨w.nextSerial, uri, etag, reply⟩ ∧
      Spread w (s.incoming before uri (.plain reply) w).2 s.cacheNames uri
        ⟨w.nextSerial, uri, etag, reply⟩ ∧
      (s.incoming before uri (.plain reply) w).2.nextSerial = w.nextSerial + 1 := by
  -- the innermost of all layers that revalidate makes the instance
  obtain ⟨c, hc⟩ := List.exists_mem_of_ne_nil _ hs
  obtain ⟨outer, cache, inner, rfl, -, hinner⟩ :=
    s.exists_innermost (fun _ => True) ⟨c, hc, trivial⟩
  have hnone : inner.cacheNames = [] :=
    List.eq_nil_iff_forall_not_mem.mpr fun c' hc' => hinner c' hc' trivial
  have hpass : inner.incoming before uri (.plain reply) w = (.plain reply, w) :=
    inner.incoming_passed (fun _ c' hc' => absurd trivial (hinner c' hc'))
      fun hne => absurd hnone hne
  rw [incoming_append, incoming, hpass, World.settle_fresh h he, cacheNames_append,
    cacheNames_revalidate, hnone]
  obtain ⟨hanswer, hspread, hserial⟩ :=
    outer.incoming_tagged (e := ⟨w.nextSerial, uri, etag, reply⟩) h
  exact ⟨hanswer, (World.spread_store fun _ _ => rfl).trans hspread, hserial⟩

/-- What comes out of a stack that has an instance to stand for the reply. -/
lemma incoming_current (w : World σ) (outer : Stack) {inner : Stack} {cache : String}
    (hheld : before.held? cache uri = some e) (hsuccess : e.resource.isSuccess = true)
    (hinner : ∀ c ∈ inner.cacheNames, before.held? c uri = none)
    (h : reply.isNotModified = true) :
    let out := incoming before uri (outer ++ .revalidate cache :: inner) (.plain reply) w
    out.1 = .tagged e ∧ Spread w out.2 outer.cacheNames uri e ∧
      out.2.nextSerial = w.nextSerial := by
  have hpass : inner.incoming before uri (.plain reply) w = (.plain reply, w) :=
    inner.incoming_passed (fun _ => hinner) fun _ => Resource.isCacheable_of_isNotModified h
  intro out
  have hout : out = outer.incoming before uri (.tagged e)
      (w.report (.notModified uri e.etag)) := by
    have hnow : (Fetched.plain reply).resource.isNotModified = true := h
    rw [show out = _ from incoming_append outer (.revalidate cache :: inner) (.plain reply),
      incoming, hpass, hheld, World.settle_held hnow]
  rw [hout]
  obtain ⟨hanswer, hspread, hserial⟩ := outer.incoming_tagged hsuccess
  exact ⟨hanswer, Spread.of_sameHeld (fun _ _ => rfl) hspread, hserial⟩

/-- The course of a GET that is replied to depends on whether the reply is to be held,
and on whether an instance is held that it speaks of. -/
lemma incoming_course {w₁ : World σ} (s : Stack) (hget : r.method = .get)
    (hadmits : s.Admits r) (hsent : Exchanged t w w₁ (s.outgoing w r) (.ok reply))
    (hheld : SameHeld w w₁) (hserial : w₁.nextSerial = w.nextSerial)
    (hsound : ∀ c ∈ s.cacheNames, ∀ e,
      w.held? c r.uri = some e → e.resource.isSuccess = true) :
    Course t s r w (.ok (s.incoming w r.uri (.plain reply) w₁).1)
      (s.incoming w r.uri (.plain reply) w₁).2 := by
  have hsent' : Exchanged t w (s.incoming w r.uri (.plain reply) w₁).2 (s.outgoing w r)
      (.ok reply) := hsent.trans (server_incoming s _) (exchanges_incoming s _)
  by_cases hfresh : s.cacheNames ≠ [] ∧ reply.isCacheable = true
  · obtain ⟨hs, hc⟩ := hfresh
    obtain ⟨hsuccess, htag⟩ := Bool.and_eq_true_iff.mp hc
    obtain ⟨etag, htag⟩ := Option.isSome_iff_exists.mp htag
    obtain ⟨hanswer, hspread, hnext⟩ :=
      incoming_fresh w w₁ r.uri s hs hsuccess htag
    rw [hserial] at hanswer hspread hnext
    rw [hanswer]
    exact .fresh hget (hadmits hget hs) hs hsent' hsuccess htag
      (Spread.of_sameHeld hheld hspread) hnext
  by_cases hcurrent : reply.isNotModified = true ∧
      ∃ c ∈ s.cacheNames, ∃ e, w.held? c r.uri = some e
  · obtain ⟨hnm, hsome⟩ := hcurrent
    obtain ⟨outer, cache, inner, rfl, ⟨e, he⟩, hinner⟩ :=
      s.exists_innermost (fun c => ∃ e, w.held? c r.uri = some e) hsome
    have hnone : ∀ c ∈ inner.cacheNames, w.held? c r.uri = none := fun c hc =>
      Option.eq_none_iff_forall_ne_some.mpr fun e' he' => hinner c hc ⟨e', he'⟩
    have hmem : cache ∈ cacheNames (outer ++ .revalidate cache :: inner) := by simp
    obtain ⟨hanswer, hspread, hnext⟩ :=
      incoming_current w₁ outer he (hsound cache hmem e he) hnone hnm
    rw [hanswer]
    exact .current hget (hadmits hget (List.ne_nil_of_mem hmem)) rfl he hnone hsent' hnm
      (Spread.of_sameHeld hheld hspread) (hnext.trans hserial)
  · have huseless : s.cacheNames ≠ [] → reply.isCacheable = false := fun hs =>
      eq_false_of_ne_true fun hc => hfresh ⟨hs, hc⟩
    have hunheld : reply.isNotModified = true →
        ∀ c ∈ s.cacheNames, w.held? c r.uri = none := by
      intro hnm c hc
      refine Option.eq_none_iff_forall_ne_some.mpr fun e he => ?_
      exact hcurrent ⟨hnm, c, hc, e, he⟩
    rw [s.incoming_passed hunheld huseless] at hsent' ⊢
    exact .passed hadmits hsent' hheld hserial (fun _ => huseless) fun _ => hunheld

/-- **Every request takes one of the courses**, as long as what the caches of the
stack hold under its URI are successes. -/
theorem request_course (s : Stack)
    (hsound : ∀ c ∈ s.cacheNames, ∀ e,
      w.held? c r.uri = some e → e.resource.isSuccess = true) :
    Course t s r w (s.request t r w).1 (s.request t r w).2 := by
  rcases s.admits_or_refuses r with hadmits | ⟨e, hrefuses⟩
  · rw [request_of_admits s hadmits]
    cases hreply : (t.perform w.server (s.outgoing w r)).1.outcome with
    | error e =>
        obtain ⟨hsend, hsent, hheld, hserial⟩ := World.exchanged_send hreply
        rw [hsend]
        exact .failed hadmits hsent hheld hserial
    | ok reply =>
        obtain ⟨hsend, hsent, hheld, hserial⟩ := World.exchanged_send hreply
        rw [hsend]
        by_cases hget : r.method = .get
        · simp only [Except.map, if_pos hget]
          exact incoming_course s hget hadmits hsent hheld hserial hsound
        · simp only [Except.map, if_neg hget]
          exact .passed hadmits hsent hheld hserial (fun hg => absurd hg hget)
            fun hg => absurd hg hget
  · rw [request_of_refuses s hrefuses]
    exact .refused hrefuses

end Stack

end LayeredFetch
