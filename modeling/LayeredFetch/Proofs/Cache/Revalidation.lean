import LayeredFetch.Proofs.Cache.Entries

/-!
What a reply that nothing changed stands for.

The entity tag that is sent is chosen on the way in, where every layer replaces the
one before it, and the copy that is given is chosen on the way out.

* `notModified_resolved`: both choices fall on the innermost layer that holds
  something, in every state that a run can reach. The layers inside it have nothing
  to send and nothing to give; those outside take over the instance it gives.
-/

namespace LayeredFetch.Session

variable {σ : Type}

/-- **A reply that nothing changed is resolved to the copy that was revalidated**, on
every call of every run. If a layer of the stack holds something under the URI, then
the innermost such layer gives the instance that it holds, and the tag of this
instance is the only one that was sent; the caches of the layers outside of it hold
the instance from then on, and nothing else changes in any cache. If no layer does,
the reply itself is given, and no cache changes. -/
theorem notModified_resolved (t : Transport σ) (server : σ) (steps : List (Step σ))
    (hput : HandsOff steps) (m : Made σ) (hm : .called m ∈ recordOf t server steps)
    (r q : Request) (reply : Resource) (hr : m.call.request = .ok r) (hget : r.method = .get)
    (hsent : (m.after t).exchanges = m.world.exchanges ++ [⟨q, .ok reply⟩])
    (hstatus : reply.status = 304) :
    ((∃ c ∈ m.stack.cacheNames, (m.world.held? c r.uri).isSome = true) →
      ∃ (outer : Stack) (cache : String) (inner : Stack) (e : Tagged),
        m.stack = outer ++ .revalidate cache :: inner ∧
        m.world.held? cache r.uri = some e ∧
        (∀ c ∈ inner.cacheNames, m.world.held? c r.uri = none) ∧
        m.result t = .ok (.tagged e) ∧
        q.headers.all "If-None-Match" = [e.etag] ∧
        ∀ c u, (m.after t).held? c u =
          if c ∈ outer.cacheNames ∧ u = r.uri then some e else m.world.held? c u) ∧
    ((∀ c ∈ m.stack.cacheNames, m.world.held? c r.uri = none) →
      m.result t = .ok (.plain reply) ∧
        ∀ c u, (m.after t).held? c u = m.world.held? c u) := by
  have hnm : reply.isNotModified = true := Resource.isNotModified_iff.mpr hstatus
  have hcourse := m.course (t := t) ((genuine_run hput).2 m hm) hr
  generalize m.result t = result at hcourse ⊢
  generalize m.after t = after at hcourse hsent ⊢
  cases hcourse with
  | refused =>
      -- the request did not reach the transport
      cases List.self_eq_append_right.mp hsent
  | failed _ sent =>
      cases (sent.eq_of_exchanges hsent).2
  | passed _ sent held _ _ unheld =>
      obtain ⟨-, houtcome⟩ := sent.eq_of_exchanges hsent
      obtain rfl := Except.ok.inj houtcome
      refine ⟨fun ⟨c, hc, hsome⟩ => ?_, fun _ => ⟨rfl, held⟩⟩
      rw [unheld hget hnm c hc] at hsome
      cases hsome
  | fresh _ _ _ sent success =>
      obtain ⟨-, houtcome⟩ := sent.eq_of_exchanges hsent
      obtain rfl := Except.ok.inj houtcome
      rw [Resource.isNotModified_of_isSuccess success] at hnm
      cases hnm
  | @current _ outer inner cache e _ _ _ split held unheld sent _ spread =>
      obtain ⟨rfl, -⟩ := sent.eq_of_exchanges hsent
      have htag : (m.stack.outgoing m.world r).headers.all "If-None-Match" = [e.etag] :=
        Stack.all_outgoing_of_held split hget held unheld
      refine ⟨fun _ => ⟨outer, cache, inner, e, split, held, unheld, rfl, htag, spread⟩,
        fun hnone => ?_⟩
      have hmem : cache ∈ m.stack.cacheNames := by simp [split]
      rw [hnone cache hmem] at held
      cases held

/-- The second fetch is answered that nothing changed, and gives the instance that the
first one made. -/
theorem notModified_resolved_twice :
    ∃ (q : Request) (reply : Resource) (e : Tagged),
      (secondFetch.after onePage).exchanges =
        secondFetch.world.exchanges ++ [⟨q, .ok reply⟩] ∧
      reply.status = 304 ∧ secondFetch.result onePage = .ok (.tagged e) ∧
      q.headers.all "If-None-Match" = [e.etag] := by
  have hdeed : ((Deed.called secondFetch).exchanges onePage).map
      (fun x => x.outcome.toOption.map Resource.status) = [some 304] := by decide +kernel
  obtain ⟨⟨q, outcome⟩, hx, hreply⟩ := List.map_eq_singleton_iff.mp hdeed
  obtain ⟨reply, hok, hstatus⟩ := Option.map_eq_some_iff.mp hreply
  obtain rfl : outcome = .ok reply := by
    cases outcome with
    | error e => cases hok
    | ok found => exact congrArg Except.ok (Option.some.inj hok)
  have hsent := secondFetch.exchanges_after (t := onePage)
  rw [hx] at hsent
  have hput : HandsOff twice := by decide
  have hheld : (secondFetch.world.held? "pages" getPage.uri).isSome = true := by
    decide +kernel
  obtain ⟨_, _, _, e, -, -, -, hresult, htag, -⟩ :=
    (notModified_resolved onePage () twice hput secondFetch called_secondFetch getPage q
      reply rfl rfl hsent hstatus).1 ⟨"pages", List.mem_cons_self, hheld⟩
  exact ⟨q, reply, e, hsent, hstatus, hresult, htag⟩

end LayeredFetch.Session
