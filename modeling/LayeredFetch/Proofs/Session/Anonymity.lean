import LayeredFetch.Proofs.Cache.Entries
import LayeredFetch.Proofs.Session.Simulation
import LayeredFetch.Proofs.Stack.Anonymity

/-!
Sessions without their tokens.

* `Step.anonymous` is a step that sets up the same view, or does the same with it, with
  blank tokens. Two runs differ in their tokens only if their steps are the same without.
* `anonymously` is the simulation of a session by the session without tokens, and
  `State.Mirrors` relates their states: the worlds mirror each other, views and walks go
  through the stacks without their tokens, and the same values are kept.
* `State.tokens_do_not_leak`: over a server that is blind to credentials, two runs that
  differ in their tokens only tell the same, but for the tokens that a view is shown with.
-/

namespace LayeredFetch

namespace Session

variable {σ : Type}

/-! ### Steps and what they tell, without tokens -/

/-- The walk through the stack without its tokens. -/
def Tour.anonymous (tour : Tour) : Tour := { tour with stack := tour.stack.anonymous }

/-- The action with blank tokens. -/
def Action.anonymous : Action σ → Action σ
  | .view name stack => .view name stack.anonymous
  | .withToken like name _ => .withToken like name .anonymous
  | a => a

/-- The step with blank tokens. -/
def Step.anonymous (step : Step σ) : Step σ := { step with action := step.action.anonymous }

/-- A layer as it is shown, without its token. -/
def LayerView.anonymous : LayerView → LayerView
  | token _ => token .anonymous
  | cache size => cache size

/-- What a step gives, without tokens: only a description of a view tells them. -/
def Outcome.anonymous : Outcome → Outcome
  | .layers views => .layers (views.map LayerView.anonymous)
  | outcome => outcome

/-- What there is to tell about a step, without credentials. -/
def Report.anonymous (r : Report) : Report :=
  { r with
    outcome := r.outcome.anonymous
    exchanges := r.exchanges.map Exchange.anonymous }

lemma Action.anonymous_eq_adjust {a : Action σ} {f : σ → σ} :
    a.anonymous = .adjust f ↔ a = .adjust f := by
  cases a <;> simp [anonymous]

/-- Steps that are the same without tokens make the same changes to the server. -/
lemma changes_map_anonymous (steps : List (Step σ)) :
    Changes (steps.map Step.anonymous) = Changes steps := by
  funext f
  simp [Changes, Step.anonymous, Action.anonymous_eq_adjust]

/-! ### The simulation without tokens -/

/-- Sessions that are the same without tokens. -/
def anonymously : Simulation where
  toSimulation := Stack.anonymously
  likeTokens _ token' := token' = .anonymous
  likeViews views views' := views.map LayerView.anonymous = views'.map LayerView.anonymous
  withToken {s s' token token'} hs htoken := by
    obtain rfl : s' = s.anonymous := hs
    obtain rfl := htoken
    cases s with
    | nil => exact .none
    | cons layer inner =>
        cases layer with
        | authenticate old => exact .some rfl
        | revalidate cache => exact .none
  view {_ s s'} state hs := by
    obtain rfl : s' = s.anonymous := hs
    rw [Stack.anonymous, List.map_map, List.map_map, List.map_map]
    refine List.map_congr_left fun layer _ => ?_
    cases layer <;> rfl

/-- Walks are alike if the one is the other without tokens. -/
lemma tours_anonymously : anonymously.Tours = fun a b => b = a.anonymous := by
  funext a b
  refine propext ⟨fun h => ?_, fun h => h ▸ ⟨rfl, rfl⟩⟩
  obtain ⟨stack, walk⟩ := b
  obtain ⟨hstack, hwalk⟩ := h
  obtain rfl : stack = a.stack.anonymous := hstack
  obtain rfl : a.walk = walk := hwalk
  rfl

/-- A step is like the step with blank tokens. -/
lemma Step.like_anonymous {C : (σ → σ) → Prop} (step : Step σ)
    (hstep : ∀ f, step.action = .adjust f → C f) :
    anonymously.Steps C step step.anonymous := by
  refine ⟨?_, rfl⟩
  rw [Step.anonymous]
  cases haction : step.action with
  | view name stack => exact .view name rfl
  | withToken view name token => exact .withToken view name rfl
  | fetch view call => exact .fetch view fun _ _ => rfl
  | adjust change => exact .adjust (hstep change haction)
  | _ => exact .other _ rfl

/-- What like steps give is the same without tokens. -/
lemma Simulation.Outcomes.anonymous_eq {o o' : Outcome} (h : anonymously.Outcomes o o') :
    o.anonymous = o'.anonymous := by
  cases h with
  | same => rfl
  | layers hshown => exact congrArg Outcome.layers hshown

/-- Like reports are the same without credentials. -/
lemma Simulation.Reports.anonymous_eq {r r' : Report} (h : anonymously.Reports r r') :
    r.anonymous = r'.anonymous := by
  have hexchanges : r.exchanges.map Exchange.anonymous = r'.exchanges.map Exchange.anonymous := by
    rw [← List.forall₂_eq_eq_eq, List.forall₂_map_left_iff, List.forall₂_map_right_iff,
      ← Exchange.like_anonymously]
    exact h.exchanges
  simp only [Report.anonymous, h.outcome.anonymous_eq, hexchanges, h.events, h.cacheSizes]

namespace State

variable {t : Transport σ} {C : (σ → σ) → Prop} {s m : State σ}

/-- A state, and the state of the session without tokens. -/
structure Mirrors (t : Transport σ) (C : (σ → σ) → Prop) (s m : State σ) : Prop where
  world : World.Mirrors t C s.world m.world
  views : ∀ name, m.views.get? name = (s.views.get? name).map Stack.anonymous
  tours : ∀ name, m.tours.get? name = (s.tours.get? name).map Tour.anonymous
  kept : s.kept = m.kept

/-- Such are the states of two sessions that differ in credentials and tokens only. -/
lemma mirrors_iff_coupled : Mirrors t C s m ↔ Coupled t anonymously C [] [] s m := by
  have hviews : (∀ name, m.views.get? name = (s.views.get? name).map Stack.anonymous) ↔
      s.views.Like anonymously.likeStacks m.views := Table.like_iff_map
  have htours : (∀ name, m.tours.get? name = (s.tours.get? name).map Tour.anonymous) ↔
      s.tours.Like anonymously.Tours m.tours := by
    rw [tours_anonymously]
    exact Table.like_iff_map
  constructor
  · intro h
    exact ⟨World.mirrors_iff_coupled.mp h.world, hviews.mp h.views, htours.mp h.tours, h.kept⟩
  · intro h
    exact ⟨World.mirrors_iff_coupled.mpr h.world, hviews.mpr h.views, htours.mpr h.tours,
      h.kept⟩

/-- A run with blank tokens tells the same, but for credentials. -/
lemma agree_run (h : Mirrors t C s m) (steps : List (Step σ))
    (hsteps : ∀ f, Changes steps f → C f) :
    (s.run t steps).1.map Report.anonymous =
        (m.run t (steps.map Step.anonymous)).1.map Report.anonymous ∧
      Mirrors t C (s.run t steps).2 (m.run t (steps.map Step.anonymous)).2 := by
  have hlike : List.Forall₂ (anonymously.Steps C) steps (steps.map Step.anonymous) := by
    rw [List.forall₂_map_right_iff, List.forall₂_same]
    exact fun step hstep => step.like_anonymous fun f hf => hsteps f ⟨step, hstep, hf⟩
  obtain ⟨hreports, hend⟩ := (mirrors_iff_coupled.mp h).run (t := t) hlike
  refine ⟨?_, mirrors_iff_coupled.mpr hend⟩
  rw [← List.forall₂_eq_eq_eq, List.forall₂_map_left_iff, List.forall₂_map_right_iff]
  exact hreports.imp fun _ _ hreport => hreport.anonymous_eq

/-- **Tokens do not leak.** Two runs over a server whose replies do not depend on credentials,
with the same steps but for the tokens that are given to layers, tell the same in every
report, keep the same values, hold the same in every cache and report the same events. And
the same requests reach the transport, but for credentials. -/
theorem tokens_do_not_leak (t : Transport σ) (server : σ) (steps steps' : List (Step σ))
    (hblind : t.Blind (Changes steps) server)
    (hsame : steps.map Step.anonymous = steps'.map Step.anonymous) :
    ((initial server).run t steps).1.map Report.anonymous =
      ((initial server).run t steps').1.map Report.anonymous ∧
    ((initial server).run t steps).2.kept = ((initial server).run t steps').2.kept ∧
    ((initial server).run t steps).2.world.caches =
      ((initial server).run t steps').2.world.caches ∧
    ((initial server).run t steps).2.world.events =
      ((initial server).run t steps').2.world.events ∧
    ((initial server).run t steps).2.world.exchanges.map Exchange.anonymous =
      ((initial server).run t steps').2.world.exchanges.map Exchange.anonymous := by
  have hstart : Mirrors t (Changes steps) (initial server) (initial server) :=
    ⟨⟨hblind, rfl, rfl, rfl, rfl⟩, fun _ => rfl, fun _ => rfl, rfl⟩
  have hchanges : Changes steps' = Changes steps := by
    rw [← changes_map_anonymous, ← hsame, changes_map_anonymous]
  -- both runs are compared with the one run without tokens
  obtain ⟨hreports, hend⟩ := agree_run hstart steps fun _ hf => hf
  obtain ⟨hreports', hend'⟩ := agree_run hstart steps' fun _ hf => hchanges ▸ hf
  rw [← hsame] at hreports' hend'
  exact ⟨hreports.trans hreports'.symm, hend.kept.trans hend'.kept.symm,
    hend.world.caches.trans hend'.world.caches.symm,
    hend.world.events.trans hend'.world.events.symm,
    hend.world.exchanges.trans hend'.world.exchanges.symm⟩

/-- The server with one page, which writes down the credentials that it gets. -/
def ledger : Transport (List (List String)) where
  perform seen q := ((onePage.perform () q).1, seen ++ [q.headers.all "Authorization"])

/-- A session that gets the page twice, under two tokens; the caller writes credentials of
its own into the first request. -/
def signedIn (token later : Token) : List (Step (List (List String))) :=
  [⟨.view "site" [.authenticate token, .revalidate "pages"], none⟩,
    ⟨.withToken "site" "later" later, none⟩,
    ⟨.fetch "site" (.get "http://h" ⟨[("authorization", ["mine"])]⟩), some "page"⟩,
    ⟨.fetch "later" (.raw getPage), none⟩]

/-- Whatever the two tokens are, the session tells the same, although the server gets other
credentials. -/
theorem tokens_do_not_leak_signedIn :
    ((initial []).run ledger (signedIn ⟨.bearer, "a"⟩ ⟨.token, ""⟩)).1.map Report.anonymous =
      ((initial []).run ledger (signedIn ⟨.token, " "⟩ ⟨.token, "b"⟩)).1.map
        Report.anonymous ∧
    ((initial []).run ledger (signedIn ⟨.bearer, "a"⟩ ⟨.token, ""⟩)).2.world.server =
      [["Bearer a"], []] ∧
    ((initial []).run ledger (signedIn ⟨.token, " "⟩ ⟨.token, "b"⟩)).2.world.server =
      [["mine"], ["token b"]] := by
  have hblind : ledger.Blind (Changes (signedIn ⟨.bearer, "a"⟩ ⟨.token, ""⟩)) [] := by
    refine Transport.alike_of_reply_eq _ ?_ [] []
    intro a b q q' hq
    have hfield : q.headers.all "If-None-Match" = q'.headers.all "If-None-Match" :=
      Request.all_eq_of_anonymous (by decide) hq
    simp only [ledger, onePage, Request.method_eq_of_anonymous hq, hfield]
  exact ⟨(tokens_do_not_leak ledger [] _ (signedIn ⟨.token, " "⟩ ⟨.token, "b"⟩) hblind rfl).1,
    by decide +kernel, by decide +kernel⟩

end State

end Session

end LayeredFetch
