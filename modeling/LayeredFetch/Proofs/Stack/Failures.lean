import LayeredFetch.Proofs.Stack.Course

/-!
Calls that fail.

* `Call.draft` is the request of a call before it is checked. `Call.Rejected` says which
  calls are not made: a verb with a request that is not valid, and a GET that is not valid,
  through a stack that revalidates.
* A stack that lets a request through fails exactly as the transport does
  (`Stack.request_of_error`), and never after a reply (`Stack.request_of_ok`). No layer
  stands between the failure and the caller, and none has put anything into a cache by then.
* `Stack.call_fails_cleanly`: so a call is rejected and nothing happens, or it is one request
  that fails if and only if the transport fails; and a call that fails changes no cache.
-/

namespace LayeredFetch

/-! ### Calls that are not made -/

namespace Call

variable {c : Call} {s : Stack} {e : RequestError}

/-- The request of a call, before it is checked. -/
def draft : Call → Request
  | get uri headers => ⟨.get, uri, headers, none⟩
  | post uri body => ⟨.post, uri, .empty, some body⟩
  | put uri body => ⟨.put, uri, .empty, some body⟩
  | patch uri body => ⟨.patch, uri, .empty, some body⟩
  | delete uri => ⟨.delete, uri, .empty, none⟩
  | raw r => r

/-- Whether a call is one of the verbs, which check their request. -/
def isVerb : Call → Bool
  | raw _ => false
  | _ => true

/-- A verb makes its request if that is valid, and a raw call makes its request. -/
lemma request_eq (c : Call) :
    c.request = if c.isVerb then c.draft.verify.map fun _ => c.draft else .ok c.draft := by
  cases c <;> rfl

/-- So a call makes its request, or none. -/
lemma request_eq_error_or_draft (c : Call) :
    (∃ e, c.request = .error e) ∨ c.request = .ok c.draft := by
  rw [request_eq]
  split
  · cases c.draft.verify with
    | error e => exact .inl ⟨e, rfl⟩
    | ok _ => exact .inr rfl
  · exact .inr rfl

/-- A stack does not make a call, for a reason: its request is not valid, and somebody checks
it, the verb or a layer that revalidates. -/
def Rejected (s : Stack) (c : Call) (e : RequestError) : Prop :=
  c.draft.verify = .error e ∧ (c.isVerb = true ∨ c.draft.method = .get ∧ s.cacheNames ≠ [])

/-- A call that is not rejected makes its request, and the stack lets it through. -/
lemma admits_of_not_rejected (h : ∀ e, ¬ c.Rejected s e) :
    c.request = .ok c.draft ∧ s.Admits c.draft := by
  cases hv : c.draft.verify with
  | error e =>
      have hraw : c.isVerb = false := eq_false_of_ne_true fun hverb => h e ⟨hv, .inl hverb⟩
      refine ⟨by rw [request_eq, hraw, if_neg Bool.false_ne_true], fun hget hs => ?_⟩
      exact absurd ⟨hv, .inr ⟨hget, hs⟩⟩ (h e)
  | ok _ =>
      refine ⟨?_, s.admits_of_verify hv⟩
      rw [request_eq, hv]
      exact ite_self _

end Call

namespace Stack

variable {σ : Type} {t : Transport σ} {w : World σ} {r : Request} {c : Call}

/-- **A rejected call** fails with the reason, and nothing happens. -/
lemma call_of_rejected (s : Stack) {e : RequestError} (h : c.Rejected s e) :
    s.call t c w = (.error (.invalid e), w) := by
  obtain ⟨hv, hcheck⟩ := h
  rw [call, Call.request_eq]
  cases hverb : c.isVerb with
  | true =>
      rw [if_pos rfl, hv]
      rfl
  | false =>
      obtain ⟨hget, hs⟩ := hcheck.resolve_left (by simp [hverb])
      rw [if_neg Bool.false_ne_true]
      exact s.request_of_refuses ⟨hget, hs, hv⟩

/-! ### Failures of the transport -/

/-- Where the transport fails, the request fails in the same way, and only the server and the
history have changed. -/
lemma request_of_error (s : Stack) (h : s.Admits r) {e : FetchError}
    (he : (t.perform w.server (s.outgoing w r)).1.outcome = .error e) :
    s.request t r w = (.error e, (w.send t (s.outgoing w r)).2) := by
  rw [request_of_admits s h, (World.exchanged_send he).1]
  rfl

/-- Where the transport replies, whatever the status, the request gives something. -/
lemma request_of_ok (s : Stack) (h : s.Admits r) {reply : Resource}
    (hreply : (t.perform w.server (s.outgoing w r)).1.outcome = .ok reply) :
    ∃ f, (s.request t r w).1 = .ok f := by
  rw [request_of_admits s h, (World.exchanged_send hreply).1]
  by_cases hget : r.method = .get
  · simp only [Except.map, if_pos hget]
    exact ⟨_, rfl⟩
  · simp only [Except.map, if_neg hget]
    exact ⟨_, rfl⟩

/-- **A request fails if and only if the transport does**, with the same error. -/
lemma error_iff_of_admits (s : Stack) (h : s.Admits r) {outcome : Except FetchError Resource}
    (ho : (t.perform w.server (s.outgoing w r)).1.outcome = outcome) (e : FetchError) :
    (s.request t r w).1 = .error e ↔ outcome = .error e := by
  subst ho
  cases houtcome : (t.perform w.server (s.outgoing w r)).1.outcome with
  | error e' =>
      rw [s.request_of_error h houtcome]
      simp
  | ok reply =>
      obtain ⟨f, hf⟩ := s.request_of_ok h houtcome
      rw [hf]
      simp

/-- A request that fails leaves all caches as they were. -/
lemma caches_of_error (s : Stack) (h : s.Admits r) {e : FetchError}
    (he : (s.request t r w).1 = .error e) : (s.request t r w).2.caches = w.caches := by
  rw [s.request_of_error h ((s.error_iff_of_admits h rfl e).mp he)]
  rfl

/-- **Calls fail cleanly.** A call that is rejected fails with just the reason, and nothing at
all happens. Every other call is one exchange with the transport; it fails if and only if the
transport fails, with the same error, and gives something for a reply of any status. And
whenever a call fails, all caches are as they were. -/
theorem call_fails_cleanly (t : Transport σ) (s : Stack) (c : Call) (w : World σ) :
    (∀ e, c.Rejected s e → s.call t c w = (.error (.invalid e), w)) ∧
    ((∀ e, ¬ c.Rejected s e) →
      ∃ outcome, w.Exchanged t (s.call t c w).2 (s.outgoing w c.draft) outcome ∧
        (∀ e, (s.call t c w).1 = .error e ↔ outcome = .error e) ∧
        ∀ reply, outcome = .ok reply → ∃ f, (s.call t c w).1 = .ok f) ∧
    ∀ e, (s.call t c w).1 = .error e → (s.call t c w).2.caches = w.caches := by
  refine ⟨fun e h => s.call_of_rejected h, fun h => ?_, fun e he => ?_⟩
  · obtain ⟨hrequest, hadmits⟩ := Call.admits_of_not_rejected h
    have hmade : s.call t c w = s.request t c.draft w := by rw [call, hrequest]
    obtain ⟨outcome, hsent⟩ := s.exchanged_of_admits (t := t) (w := w) hadmits
    rw [hmade]
    exact ⟨outcome, hsent, s.error_iff_of_admits hadmits hsent.outcome_eq,
      fun reply hreply => s.request_of_ok hadmits (hsent.outcome_eq.trans hreply)⟩
  · by_cases h : ∃ e', c.Rejected s e'
    · obtain ⟨e', h⟩ := h
      rw [s.call_of_rejected h]
    · obtain ⟨hrequest, hadmits⟩ := Call.admits_of_not_rejected (not_exists.mp h)
      have hmade : s.call t c w = s.request t c.draft w := by rw [call, hrequest]
      rw [hmade] at he ⊢
      exact s.caches_of_error hadmits he

end Stack

end LayeredFetch
