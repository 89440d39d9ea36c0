import LayeredFetch.Proofs.Session.Record
import LayeredFetch.Proofs.Stack.Fields

/-!
The credentials under which a session acts.

* `State.stackOf?` is the stack that an action goes through: the view of a fetch, or the
  stack that a walk was begun on.
* `State.requests_of_step`: whatever a stack makes of every request that it lets through
  is true of all that reaches the transport in a step, however many pages that step pulls.
* `State.innermost_credentials`: so a step through a view presents one token, and it is
  the view's own if and only if no layer below presents something else.
-/

namespace LayeredFetch.Session

variable {σ : Type} {t : Transport σ}

/-- Since a world, only requests of some kind were added to the history. -/
def Adds (Q : Request → Prop) (w w' : World σ) : Prop :=
  ∃ added, w'.exchanges = w.exchanges ++ added ∧ ∀ x ∈ added, Q x.request

lemma Adds.refl (Q : Request → Prop) (w : World σ) : Adds Q w w :=
  ⟨[], (List.append_nil _).symm, fun _ hx => absurd hx List.not_mem_nil⟩

lemma Adds.trans {Q : Request → Prop} {w w' w'' : World σ} (h : Adds Q w w')
    (h' : Adds Q w' w'') : Adds Q w w'' := by
  obtain ⟨xs, hxs, hQ⟩ := h
  obtain ⟨ys, hys, hQ'⟩ := h'
  refine ⟨xs ++ ys, by rw [hys, hxs, List.append_assoc], fun x hx => ?_⟩
  rcases List.mem_append.mp hx with hx | hx
  · exact hQ x hx
  · exact hQ' x hx

/-- A call adds only what its stack lets out. -/
lemma adds_call {Q : Request → Prop} {s : Stack} (hQ : ∀ r w, Q (s.outgoing (σ := σ) w r))
    (c : Call) (w : World σ) : Adds Q w (s.call t c w).2 := by
  rcases s.exchanged_call (t := t) c w with hsame | ⟨r, outcome, -, hsent⟩
  · rw [hsame]
    exact Adds.refl Q w
  · refine ⟨_, hsent.exchanges_eq, fun x hx => ?_⟩
    rw [List.mem_singleton.mp hx]
    exact hQ r w

/-- What a single stack lets out is an invariant of all calls through it. -/
lemma adds_invariant (t : Transport σ) {Q : Request → Prop} {s : Stack}
    (hQ : ∀ r w, Q (s.outgoing (σ := σ) w r)) (w₀ : World σ) :
    Invariant t (· = s) fun _ w => Adds Q w₀ w where
  quiet hP hq := by
    obtain ⟨xs, hxs, hadded⟩ := hP
    exact ⟨xs, hq.exchanges.trans hxs, hadded⟩
  called {_ m} hs hP := by
    subst hs
    exact hP.trans (adds_call hQ m.call m.world)
  removed _ _ hP := hP
  cleared _ hP := hP

namespace State

variable {s : State σ}

/-- The stack that an action goes through. -/
def stackOf? (s : State σ) : Action σ → Option Stack
  | .fetch view _ => s.views.get? view
  | .pull name => (s.tours.get? name).map Tour.stack
  | .find name _ _ => (s.tours.get? name).map Tour.stack
  | _ => none

/-- An action through a stack adds only what the stack lets out. -/
lemma adds_perform {Q : Request → Prop} {stack : Stack} (a : Action σ)
    (hstack : s.stackOf? a = some stack) (hQ : ∀ r w, Q (stack.outgoing (σ := σ) w r)) :
    Adds Q s.world (s.perform t a).2.world := by
  have hinv := adds_invariant t hQ s.world
  have hstart := Adds.refl Q s.world
  cases a with
  | fetch view call =>
      have hview : s.views.get? view = some stack := hstack
      rw [perform, withView, hview]
      exact adds_call hQ call s.world
  | pull name =>
      obtain ⟨tour, htour, rfl⟩ := Option.map_eq_some_iff.mp hstack
      rw [perform, withTour, htour]
      exact @Invariant.pull _ _ _ _ [] _ hinv _ rfl tour.walk hstart
  | find name wanted limit =>
      obtain ⟨tour, htour, rfl⟩ := Option.map_eq_some_iff.mp hstack
      rw [perform, withTour, htour]
      exact @Invariant.find _ _ _ _ [] _ hinv _ rfl wanted limit tour.walk hstart
  | _ => cases hstack

/-- **Every request of a step** is one that its stack lets out. -/
theorem requests_of_step {Q : Request → Prop} {stack : Stack} (step : Step σ)
    (hstack : s.stackOf? step.action = some stack)
    (hQ : ∀ r w, Q (stack.outgoing (σ := σ) w r)) :
    ∀ x ∈ (s.step t step).1.exchanges, Q x.request := by
  intro x hx
  obtain ⟨added, hadded, hall⟩ := adds_perform (t := t) step.action hstack hQ
  have hreport : (s.step t step).1.exchanges = added := by
    show (s.perform t step.action).2.world.exchanges.drop s.world.exchanges.length = added
    rw [hadded, List.drop_left]
  exact hall x (hreport ▸ hx)

/-- **A view presents the innermost credentials of its stack**, alone, whatever the caches
hold and whatever the caller wrote: those of a token below its own if there is one that
presents something. So they are its own if and only if nothing else is presented below. -/
theorem innermost_credentials (t : Transport σ) (s : State σ) (step : Step σ) (token : Token)
    (inner : Stack) (own : String)
    (hstack : s.stackOf? step.action = some (.authenticate token :: inner))
    (hown : token.authorization? = some own) :
    ∀ x ∈ (s.step t step).1.exchanges,
      x.request.headers.all "Authorization" = [inner.credentials.getLast?.getD own] ∧
      (x.request.headers.all "Authorization" = [own] ↔
        ∀ other ∈ inner.credentials.getLast?, other = own) := by
  have houtgoing : ∀ r w, (Stack.outgoing (σ := σ) w (.authenticate token :: inner) r).headers.all
      "Authorization" = [inner.credentials.getLast?.getD own] := by
    intro r w
    rw [Stack.all_authorization_outgoing, Stack.credentials_authenticate_of_some inner hown,
      List.getLast?_cons]
    rfl
  intro x hx
  have hx := requests_of_step (Q := fun q => q.headers.all "Authorization" =
    [inner.credentials.getLast?.getD own]) step hstack houtgoing x hx
  refine ⟨hx, ?_⟩
  rw [hx]
  cases inner.credentials.getLast? with
  | none => simp
  | some other => simp

/-- A session with two views. One wraps a token around a cache and a blank token, the other a
token around another one. -/
def wrapped : State Unit :=
  ((State.initial ()).run Stack.unplugged
    [⟨.view "guarded" [.authenticate ⟨.bearer, "outer"⟩, .revalidate "pages",
        .authenticate ⟨.token, " "⟩], none⟩,
      ⟨.view "twice" [.authenticate ⟨.bearer, "outer"⟩, .authenticate ⟨.token, "inner"⟩],
        none⟩]).2

/-- Through the first view a forged request carries the token of the view. -/
theorem innermost_credentials_guarded :
    (wrapped.step Stack.unplugged ⟨.fetch "guarded" (.raw Stack.forged), none⟩).1.exchanges.length
      = 1 ∧
    ∀ x ∈ (wrapped.step Stack.unplugged
        ⟨.fetch "guarded" (.raw Stack.forged), none⟩).1.exchanges,
      x.request.headers.all "Authorization" = ["Bearer outer"] := by
  refine ⟨by decide +kernel, fun x hx => ?_⟩
  have hstack : wrapped.stackOf? (.fetch "guarded" (.raw Stack.forged)) =
      some [.authenticate ⟨.bearer, "outer"⟩, .revalidate "pages",
        .authenticate ⟨.token, " "⟩] := by
    decide +kernel
  have hown : Token.authorization? ⟨.bearer, "outer"⟩ = some "Bearer outer" := by
    decide +kernel
  have hbelow : Stack.credentials [.revalidate "pages", .authenticate ⟨.token, " "⟩] = [] := by
    decide +kernel
  refine (innermost_credentials Stack.unplugged wrapped _ _ _ _ hstack hown x hx).2.mpr ?_
  rw [hbelow]
  intro other hother
  cases hother

/-- Through the second view a request carries the token that is wrapped, not the token of the
view. -/
theorem wrapped_token_presented :
    wrapped.stackOf? (.fetch "twice" (.get "http://h" ∅)) =
      some [.authenticate ⟨.bearer, "outer"⟩, .authenticate ⟨.token, "inner"⟩] ∧
    Token.authorization? ⟨.bearer, "outer"⟩ = some "Bearer outer" ∧
    (wrapped.step Stack.unplugged ⟨.fetch "twice" (.get "http://h" ∅), none⟩).1.exchanges.map
      (fun x => x.request.headers.all "Authorization") = [["token inner"]] := by
  decide +kernel

end State

end LayeredFetch.Session
