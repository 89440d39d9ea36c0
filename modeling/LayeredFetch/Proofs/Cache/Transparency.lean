import LayeredFetch.Proofs.Cache.Entries

/-!
Caching makes no difference.

A server is honest if it says that nothing changed only to those who present the tag
of what it would give otherwise, and if one tag always stands for one content.

* `Stack.unconditional_outgoing`: apart from the entity tag, the request that leaves a
  stack is the one that would leave the same stack without caches.
* `Honest` is about the exchanges of one run; what the server would give may depend on
  the time and on every field of the request but the entity tag.
* `caching_transparent`: in a run with honest answers, every GET without an entity tag
  of its own gives what the server would have given to the stack without caches.
-/

namespace LayeredFetch

/-! ### Requests without their entity tags -/

namespace Request

variable {r : Request}

/-- The request without entity tags. -/
def unconditional (r : Request) : Request :=
  { r with headers := (r.headers.remove "If-None-Match").2 }

/-- Revalidation concerns nothing but entity tags. -/
lemma unconditional_revalidating (held : Option Tagged) :
    (r.revalidating held).unconditional = r.unconditional := by
  cases held with
  | none => rfl
  | some e =>
      have hfields : ((r.headers.insert "If-None-Match" e.etag).remove "If-None-Match").2 =
          (r.headers.remove "If-None-Match").2 := Headers.remove_insert_self (by decide)
      exact congrArg (fun h => { r with headers := h }) hfields

lemma unconditional_of_not_contains (h : r.headers.contains "If-None-Match" = false) :
    r.unconditional = r := by
  rw [unconditional, Headers.remove_of_not_contains h]

end Request

/-- Authentication has nothing to do with entity tags. -/
lemma Token.unconditional_sign (token : Token) (r : Request) :
    (token.sign r).unconditional = token.sign r.unconditional := by
  rw [sign, sign]
  cases token.authorization? with
  | none => rfl
  | some credentials =>
      have hfields :
          ((r.headers.insert "Authorization" credentials).remove "If-None-Match").2 =
          (r.headers.remove "If-None-Match").2.insert "Authorization" credentials :=
        Headers.remove_insert_of_ne (by decide)
      exact congrArg (fun h => { r with headers := h }) hfields

namespace Stack

variable {σ : Type} {w : World σ}

/-- The layers of a stack that do not revalidate. -/
def uncached (s : Stack) : Stack :=
  s.filter fun
    | .authenticate _ => true
    | .revalidate _ => false

/-- **On the way in** caches change nothing but the entity tag: apart from it, the request
is the one that leaves the same stack without caches. -/
theorem unconditional_outgoing (s : Stack) (r : Request) :
    (s.outgoing w r).unconditional = s.uncached.outgoing w r.unconditional := by
  induction s generalizing r with
  | nil => rfl
  | cons layer inner ih =>
      cases layer with
      | authenticate token =>
          rw [outgoing, ih, Token.unconditional_sign]
          rfl
      | revalidate cache =>
          rw [outgoing, ih]
          split
          · rw [Request.unconditional_revalidating]
            rfl
          · rfl

end Stack

/-! ### Honest answers -/

/-- The honest answers to a request for which a server has a full reply: that reply, a
failure, or that nothing changed, to a GET that presents the tag of a full reply that
is a success. -/
inductive HonestAnswer (q : Request) (full : Resource) : Except FetchError Resource → Prop
  | full : HonestAnswer q full (.ok full)
  | failure (e : FetchError) : HonestAnswer q full (.error e)
  | current {tag : String} {reply : Resource} (get : q.method = .get)
      (success : full.isSuccess = true) (tagged : full.etag? = some tag)
      (presented : tag ∈ q.headers.all "If-None-Match") (status : reply.status = 304) :
      HonestAnswer q full (.ok reply)

/-- The answers in a history are honest: `full n` gives the full reply to a request without
entity tags that arrives as the `n`-th, and `agree` tells which contents count as the
same. -/
structure Honest (agree : Resource → Resource → Prop) (full : Nat → Request → Resource)
    (history : List Exchange) : Prop where
  /-- Every request is answered with its full reply in mind. -/
  answer : ∀ n x, history[n]? = some x →
    HonestAnswer x.request (full n x.request.unconditional) x.outcome
  /-- No full reply says that nothing changed. -/
  full_status : ∀ n x, history[n]? = some x → (full n x.request.unconditional).status ≠ 304
  /-- One tag stands for one content of a URI. -/
  tag : ∀ i j x y etag, history[i]? = some x → history[j]? = some y →
    x.request.method = .get → y.request.method = .get → x.request.uri = y.request.uri →
    (full i x.request.unconditional).isSuccess = true →
    (full j y.request.unconditional).isSuccess = true →
    (full i x.request.unconditional).etag? = some etag →
    (full j y.request.unconditional).etag? = some etag →
    agree (full i x.request.unconditional) (full j y.request.unconditional)

/-- An honest answer that does not say that nothing changed is the full reply. -/
lemma HonestAnswer.eq_full {q : Request} {full reply : Resource}
    (h : HonestAnswer q full (.ok reply)) (hstatus : reply.status ≠ 304) : reply = full := by
  cases h with
  | full => rfl
  | current _ _ _ _ status => exact absurd status hstatus

/-- An honest answer that nothing changed, from a server that never gives just that, speaks
of a success with a tag that was presented. -/
lemma HonestAnswer.exists_tag {q : Request} {full reply : Resource}
    (h : HonestAnswer q full (.ok reply)) (hfull : full.status ≠ 304)
    (hstatus : reply.status = 304) :
    q.method = .get ∧ full.isSuccess = true ∧
      ∃ tag, full.etag? = some tag ∧ tag ∈ q.headers.all "If-None-Match" := by
  cases h with
  | full => exact absurd hstatus hfull
  | current get success tagged presented => exact ⟨get, success, _, tagged, presented⟩

/-- A success does not have the status that says that nothing changed. -/
lemma Resource.status_ne_of_isSuccess {r : Resource} (h : r.isSuccess = true) :
    r.status ≠ 304 := by
  intro h304
  have hnm := isNotModified_of_isSuccess h
  rw [isNotModified_iff.mpr h304] at hnm
  cases hnm

namespace Honest

variable {agree : Resource → Resource → Prop} {full : Nat → Request → Resource}
variable {history past : List Exchange} {q : Request} {reply : Resource} {n : Nat}

/-- Nothing is answered to have changed for a request without an entity tag. -/
lemma status_ne (h : Honest agree full history) (hsent : history[n]? = some ⟨q, .ok reply⟩)
    (hnone : q.headers.all "If-None-Match" = []) : reply.status ≠ 304 := by
  intro hstatus
  obtain ⟨-, -, tag, -, hpresented⟩ :=
    (h.answer n _ hsent).exists_tag (h.full_status n _ hsent) hstatus
  rw [hnone] at hpresented
  cases hpresented

/-- Any other answer is the full reply. -/
lemma eq_full (h : Honest agree full history) (hsent : history[n]? = some ⟨q, .ok reply⟩)
    (hstatus : reply.status ≠ 304) : reply = full n q.unconditional :=
  (h.answer n _ hsent).eq_full hstatus

/-- A genuine instance is a full reply of an earlier time. -/
lemma exists_full_of_genuine (h : Honest agree full history) (hpast : past <+: history)
    {e : Tagged} {uri : String} (he : e.Genuine uri past) :
    ∃ k x, history[k]? = some x ∧ x.request.method = .get ∧ x.request.uri = uri ∧
      e.resource = full k x.request.unconditional := by
  obtain ⟨⟨q, outcome⟩, hx, hget, huri, rfl⟩ := he.given
  obtain ⟨k, hk, hkx⟩ := List.mem_iff_getElem.mp hx
  have hentry := List.prefix_iff_getElem?.mp hpast k hk
  rw [hkx] at hentry
  exact ⟨k, _, hentry, hget, huri,
    h.eq_full hentry (Resource.status_ne_of_isSuccess he.success)⟩

/-- **A genuine instance stands for the full reply** of the present whenever an honest
server answers that nothing changed, if the entity tag of the instance is the only one
that was presented. -/
lemma agree_of_genuine (h : Honest agree full history) (hpast : past <+: history) {e : Tagged}
    (he : e.Genuine q.uri past) (hsent : history[n]? = some ⟨q, .ok reply⟩)
    (hstatus : reply.status = 304) (htag : q.headers.all "If-None-Match" = [e.etag]) :
    agree e.resource (full n q.unconditional) := by
  obtain ⟨k, x, hx, hget, huri, hfull⟩ := h.exists_full_of_genuine hpast he
  obtain ⟨hget', hsuccess, tag, htagged, hpresented⟩ :=
    (h.answer n _ hsent).exists_tag (h.full_status n _ hsent) hstatus
  rw [htag, List.mem_singleton] at hpresented
  have hagree := h.tag k n x _ e.etag hx hsent hget hget' huri
  rw [← hfull] at hagree
  exact hagree he.success hsuccess he.tag (hpresented ▸ htagged)

end Honest

/-- An exchange stands in every longer history where the earlier ones end. -/
lemma World.Exchanged.getElem?_of_isPrefix {σ : Type} {t : Transport σ} {w w' : World σ}
    {q : Request} {outcome : Except FetchError Resource} {history : List Exchange}
    (h : w.Exchanged t w' q outcome) (hbegin : w'.exchanges <+: history) :
    history[w.exchanges.length]? = some ⟨q, outcome⟩ := by
  rw [h.exchanges_eq] at hbegin
  obtain ⟨later, rfl⟩ := hbegin
  rw [List.append_assoc, List.getElem?_append_right (Nat.le_refl _), Nat.sub_self]
  rfl

namespace Session

variable {σ : Type}

/-- **Caching is transparent.** Let the answers in the history of a run be honest. Then a
GET of that run without an entity tag of its own is refused as not valid, or one request
reaches the transport: the one that the stack without its caches would have sent, but for
an entity tag. If the transport fails, the call fails in the same way. Otherwise the call
gives the content of the full reply to the request of the stack without caches. -/
theorem caching_transparent (t : Transport σ) (server : σ) (steps : List (Step σ))
    (hput : HandsOff steps) (agree : Resource → Resource → Prop) (hrefl : ∀ a, agree a a)
    (full : Nat → Request → Resource)
    (hhonest : Honest agree full (worldAfter t server steps).exchanges)
    (m : Made σ) (hm : .called m ∈ recordOf t server steps) (r : Request)
    (hr : m.call.request = .ok r) (hget : r.method = .get)
    (hown : r.headers.contains "If-None-Match" = false) :
    (∃ e, r.verify = .error e ∧ m.result t = .error (.invalid e) ∧
      (m.after t).exchanges = m.world.exchanges) ∨
    ∃ q outcome, (m.after t).exchanges = m.world.exchanges ++ [⟨q, outcome⟩] ∧
      q.unconditional = m.stack.uncached.outgoing m.world r ∧
      match outcome with
      | .error e => m.result t = .error e
      | .ok _ => ∃ f, m.result t = .ok f ∧ agree f.resource
          (full m.world.exchanges.length (m.stack.uncached.outgoing m.world r)) := by
  have hgenuine := (genuine_run hput).2 m hm
  have hbegin := Made.after_isPrefix hput hm
  have hcourse := m.course (t := t) hgenuine hr
  have hplain : (m.stack.outgoing m.world r).unconditional =
      m.stack.uncached.outgoing m.world r := by
    rw [Stack.unconditional_outgoing, Request.unconditional_of_not_contains hown]
  rw [← hplain]
  generalize m.result t = result at hcourse ⊢
  generalize m.after t = after at hcourse hbegin ⊢
  cases hcourse with
  | refused h => exact .inl ⟨_, h.2.2, rfl, rfl⟩
  | failed _ sent => exact .inr ⟨_, _, sent.exchanges_eq, rfl, rfl⟩
  | @passed reply _ _ sent _ _ _ unheld =>
      refine .inr ⟨_, _, sent.exchanges_eq, rfl, _, rfl, ?_⟩
      have hentry := sent.getElem?_of_isPrefix hbegin
      have hstatus : reply.status ≠ 304 := by
        intro h304
        -- no layer held anything, so no entity tag was presented
        have hunheld := unheld hget (Resource.isNotModified_iff.mpr h304)
        have hnone := m.stack.all_outgoing_of_not_held hunheld
        rw [Headers.all_of_not_contains hown] at hnone
        exact hhonest.status_ne hentry hnone h304
      rw [← hhonest.eq_full hentry hstatus]
      exact hrefl reply
  | @fresh reply _ _ _ _ _ sent success =>
      refine .inr ⟨_, _, sent.exchanges_eq, rfl, _, rfl, ?_⟩
      have hentry := sent.getElem?_of_isPrefix hbegin
      rw [← hhonest.eq_full hentry (Resource.status_ne_of_isSuccess success)]
      exact hrefl reply
  | @current reply _ _ _ e _ _ _ split held unheld sent notModified =>
      refine .inr ⟨_, _, sent.exchanges_eq, rfl, _, rfl, ?_⟩
      have hentry := sent.getElem?_of_isPrefix hbegin
      have hpast : m.world.exchanges <+: after.exchanges := by
        rw [sent.exchanges_eq]
        exact List.prefix_append _ _
      have hheld : e.Genuine (m.stack.outgoing m.world r).uri m.world.exchanges := by
        rw [Stack.uri_outgoing]
        exact hgenuine _ _ _ held
      have htag := Stack.all_outgoing_of_held split hget held unheld
      exact hhonest.agree_of_genuine (hpast.trans hbegin) hheld hentry
        (Resource.isNotModified_iff.mp notModified) htag

/-- The server with one page is honest in every run. -/
lemma honest_onePage {steps : List (Step Unit)} (hput : HandsOff steps) :
    Honest Eq (fun _ _ => thePage) (worldAfter onePage () steps).exchanges where
  answer n x hx := by
    obtain ⟨s, hs⟩ := exchanges_performed hput x (List.mem_of_getElem? hx)
    rw [← hs, onePage]
    dsimp only
    split
    · next h => exact .current h.1 (by decide) (by decide) h.2 rfl
    · exact .full
  full_status _ _ _ := by decide
  tag := by
    intros
    rfl

/-- The second call of the session `twice` gives the page, though it is not sent again. -/
theorem caching_transparent_twice :
    ∃ f, secondFetch.result onePage = .ok f ∧ f.resource = thePage := by
  have hput : HandsOff twice := by decide
  have hok : (secondFetch.result onePage).toOption.isSome = true := by decide +kernel
  rcases caching_transparent onePage () twice hput Eq (fun _ => rfl) (fun _ _ => thePage)
    (honest_onePage hput) secondFetch called_secondFetch getPage rfl rfl (by decide) with
    ⟨e, -, hrefused, -⟩ | ⟨q, outcome, -, -, hresult⟩
  · rw [hrefused] at hok
    cases hok
  · cases outcome with
    | error e =>
        rw [show secondFetch.result onePage = .error e from hresult] at hok
        cases hok
    | ok reply => exact hresult

end Session

end LayeredFetch
