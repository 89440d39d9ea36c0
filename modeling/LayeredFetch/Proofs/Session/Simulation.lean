import LayeredFetch.Proofs.Stack.Simulation
import LayeredFetch.Session

/-!
Two sessions over one server, step by step.

* `Session.Simulation` adds to a simulation of stacks what a session does with stacks besides
  asking: it replaces tokens, and shows layers.
* `State.Coupled` relates the states of two sessions whose views and walks go through like
  stacks. `Coupled.perform` is one action, by its kind, `Coupled.step` a step with its report,
  and `Coupled.run` a whole run: like steps tell the same, in like reports.
-/

namespace LayeredFetch

/-! ### Tables of like values -/

namespace Table

variable {α β : Type} {R : α → β → Prop} {a : Table α} {b : Table β}

/-- Two tables have like values under the same names. -/
def Like (R : α → β → Prop) (a : Table α) (b : Table β) : Prop :=
  ∀ name, Option.Rel R (a.get? name) (b.get? name)

/-- A table is like itself if its values are. -/
lemma like_self {a : Table α} {R : α → α → Prop} (hR : ∀ x, R x x) : Like R a a := by
  intro name
  cases a.get? name with
  | none => exact .none
  | some x => exact .some (hR x)

/-- Values that are like their images are so in tables with the same names. -/
lemma like_iff_map {f : α → β} :
    (∀ name, b.get? name = (a.get? name).map f) ↔ Like (fun x y => y = f x) a b := by
  refine forall_congr' fun name => ?_
  cases a.get? name <;> cases b.get? name <;> simp

/-- Tables stay alike when like values are put in, -/
lemma Like.insert (h : Like R a b) (name : String) {x : α} {y : β} (hxy : R x y) :
    Like R (a.insert name x) (b.insert name y) := by
  intro other
  rw [get?_insert, get?_insert]
  split
  · exact .some hxy
  · exact h other

/-- and when values are taken out. -/
lemma Like.erase (h : Like R a b) (name : String) : Like R (a.erase name) (b.erase name) := by
  intro other
  rw [get?_erase, get?_erase]
  split
  · exact .none
  · exact h other

end Table

namespace Session

/-! ### Simulations -/

/-- Stacks, requests and tokens that are alike, and what is shown of like stacks. -/
structure Simulation extends Stack.Simulation where
  likeTokens : Token → Token → Prop
  likeViews : List LayerView → List LayerView → Prop
  /-- Like stacks stay so when like tokens are put into their outermost layers. -/
  withToken : ∀ {s s' token token'}, likeStacks s s' → likeTokens token token' →
    Option.Rel likeStacks (s.withToken? token) (s'.withToken? token')
  view : ∀ {σ : Type} {s s'} (state : State σ), likeStacks s s' →
    likeViews (s.map state.viewLayer) (s'.map state.viewLayer)

/-- The changes to the server among some steps. -/
def Changes {σ : Type} (steps : List (Step σ)) (f : σ → σ) : Prop :=
  ∃ step ∈ steps, step.action = .adjust f

/-- An action without a stack, a token, a request or a change of the server of its own. -/
def Action.isIndifferent {σ : Type} : Action σ → Bool
  | .view _ _ | .withToken _ _ _ | .fetch _ _ | .adjust _ => false
  | _ => true

namespace Simulation

/-- Two walks go on in the same way, through like stacks. -/
structure Tours (S : Simulation) (a b : Tour) : Prop where
  stack : S.likeStacks a.stack b.stack
  walk : a.walk = b.walk

/-- Two actions differ in like stacks and tokens only, and make requests and changes of the
kinds that are allowed. -/
inductive Actions (S : Simulation) {σ : Type} (C : (σ → σ) → Prop) :
    Action σ → Action σ → Prop
  | view (name : String) {s s' : Stack} (h : S.likeStacks s s') :
      Actions S C (.view name s) (.view name s')
  | withToken (view name : String) {token token' : Token} (h : S.likeTokens token token') :
      Actions S C (.withToken view name token) (.withToken view name token')
  | fetch (view : String) {call : Call} (h : S.Admits call) :
      Actions S C (.fetch view call) (.fetch view call)
  | adjust {change : σ → σ} (h : C change) : Actions S C (.adjust change) (.adjust change)
  | other (a : Action σ) (h : a.isIndifferent = true) : Actions S C a a

/-- Two steps do so, and keep what they make under the same name. -/
structure Steps (S : Simulation) {σ : Type} (C : (σ → σ) → Prop) (a b : Step σ) : Prop where
  action : S.Actions C a.action b.action
  keepAs : a.keepAs = b.keepAs

/-- Two steps give the same, unless they show like stacks. -/
inductive Outcomes (S : Simulation) : Outcome → Outcome → Prop
  | same (o : Outcome) : Outcomes S o o
  | layers {views views' : List LayerView} (h : S.likeViews views views') :
      Outcomes S (.layers views) (.layers views')

/-- There is the same to tell about two steps, but for like requests and like stacks. -/
structure Reports (S : Simulation) (a b : Report) : Prop where
  outcome : S.Outcomes a.outcome b.outcome
  exchanges : List.Forall₂ (Exchange.Like S.likeRequests) a.exchanges b.exchanges
  events : a.events = b.events
  cacheSizes : a.cacheSizes = b.cacheSizes

/-- What is shown of a stack is no value that is kept. -/
lemma Outcomes.made?_eq {S : Simulation} {o o' : Outcome} (h : S.Outcomes o o') :
    o.made? = o'.made? := by
  cases h with
  | same => rfl
  | layers => rfl

end Simulation

namespace State

variable {σ : Type} {t : Transport σ} {S : Simulation} {C : (σ → σ) → Prop}
variable {past past' : List Exchange} {s m : State σ} {name : String}

/-! ### One step -/

/-- The states of two sessions over one server whose views and walks go through like
stacks. -/
structure Coupled (t : Transport σ) (S : Simulation) (C : (σ → σ) → Prop)
    (past past' : List Exchange) (s m : State σ) : Prop where
  world : World.Coupled t S.toSimulation C past past' s.world m.world
  views : s.views.Like S.likeStacks m.views
  tours : s.tours.Like S.Tours m.tours
  kept : s.kept = m.kept

/-- Two steps gave the same, and left such states. -/
def Agree (t : Transport σ) (S : Simulation) (C : (σ → σ) → Prop)
    (past past' : List Exchange) (x y : Outcome × State σ) : Prop :=
  S.Outcomes x.1 y.1 ∧ Coupled t S C past past' x.2 y.2

namespace Coupled

/-- What gives the same leaves such states. -/
lemma agree (h : Coupled t S C past past' s m) (o : Outcome) :
    Agree t S C past past' (o, s) (o, m) := ⟨.same o, h⟩

lemma withKept {go go' : Fetched → Outcome × State σ} (h : Coupled t S C past past' s m)
    (hgo : ∀ f, Agree t S C past past' (go f) (go' f)) :
    Agree t S C past past' (s.withKept name go) (m.withKept name go') := by
  rw [State.withKept, State.withKept, ← h.kept]
  cases s.kept.get? name with
  | none => exact h.agree _
  | some f => exact hgo f

lemma withView {go go' : Stack → Outcome × State σ} (h : Coupled t S C past past' s m)
    (hgo : ∀ stack stack', S.likeStacks stack stack' →
      Agree t S C past past' (go stack) (go' stack')) :
    Agree t S C past past' (s.withView name go) (m.withView name go') := by
  have hviews := h.views name
  rw [State.withView, State.withView]
  cases hs : s.views.get? name <;> cases hm : m.views.get? name <;> rw [hs, hm] at hviews
  · exact h.agree _
  · cases hviews
  · cases hviews
  · cases hviews with
    | some hstack => exact hgo _ _ hstack

lemma withTour {go go' : Tour → Outcome × State σ} (h : Coupled t S C past past' s m)
    (hgo : ∀ tour tour', S.Tours tour tour' → Agree t S C past past' (go tour) (go' tour')) :
    Agree t S C past past' (s.withTour name go) (m.withTour name go') := by
  have htours := h.tours name
  rw [State.withTour, State.withTour]
  cases hs : s.tours.get? name <;> cases hm : m.tours.get? name <;> rw [hs, hm] at htours
  · exact h.agree _
  · cases htours
  · cases htours
  · cases htours with
    | some htour => exact hgo _ _ htour

/-- Like stacks open the same caches. -/
lemma setView (h : Coupled t S C past past' s m) (name : String) {stack stack' : Stack}
    (hstack : S.likeStacks stack stack') :
    Coupled t S C past past' (s.setView name stack) (m.setView name stack') := by
  refine { h with world := ?_, views := h.views.insert name hstack }
  show World.Coupled t S.toSimulation C past past'
    (stack.cacheNames.foldl World.openCache s.world)
    (stack'.cacheNames.foldl World.openCache m.world)
  rw [← S.caches hstack]
  exact List.foldl_rel h.world fun cache _ _ _ hw => hw.openCache cache

/-- Layers are shown with the same caches. -/
lemma viewLayer_eq (h : Coupled t S C past past' s m) : s.viewLayer = m.viewLayer := by
  funext layer
  cases layer with
  | authenticate token => rfl
  | revalidate cache => rw [viewLayer, viewLayer, h.world.cache]

/-- An action with no stack of its own gives the same. -/
lemma perform_other (h : Coupled t S C past past' s m) (a : Action σ)
    (ha : a.isIndifferent = true) :
    Agree t S C past past' (s.perform t a) (m.perform t a) := by
  cases a with
  | make resource => exact h.agree _
  | derive source changes => exact h.withKept fun f => h.agree _
  | rebuild source changes =>
      refine h.withKept fun f => ?_
      rw [h.world.serial]
      split
      · exact ⟨.same _, { h with world := h.world.mint }⟩
      · exact h.agree _
  | rebuildTagged source changes =>
      refine h.withKept fun f => ?_
      cases f with
      | plain resource => exact h.agree _
      | tagged old =>
          dsimp only
          rw [h.world.serial]
          exact ⟨.same _, { h with world := h.world.mint }⟩
  | tag source uri =>
      refine h.withKept fun f => ?_
      obtain ⟨hmade, hafter⟩ := h.world.enroll uri f
      dsimp only
      rw [hmade]
      exact ⟨.same _, { h with world := hafter }⟩
  | «show» source => exact h.withKept fun f => h.agree _
  | compare left right => exact h.withKept fun f => h.withKept fun g => h.agree _
  | put source cache uri =>
      refine h.withKept fun f => ?_
      cases f with
      | plain resource => exact h.agree _
      | tagged made =>
          dsimp only
          rw [h.world.held?]
          exact ⟨.same _, { h with world := h.world.store cache uri made }⟩
  | lookup cache uri =>
      rw [perform, perform, h.world.held?]
      exact ⟨.same _, { h with world := h.world.openCache cache }⟩
  | remove cache uri =>
      rw [perform, perform, h.world.held?]
      exact ⟨.same _, { h with world := h.world.drop cache uri }⟩
  | clear cache => exact ⟨.same _, { h with world := h.world.clear cache }⟩
  | copyView view name =>
      exact h.withView fun stack stack' hstack => (h.setView name hstack).agree _
  | describe view =>
      refine h.withView fun stack stack' hstack => ⟨.layers ?_, h⟩
      rw [← h.viewLayer_eq]
      exact S.view s hstack
  | walk view name uri =>
      exact h.withView fun stack stack' hstack =>
        ⟨.same _, { h with tours := h.tours.insert name ⟨hstack, rfl⟩ }⟩
  | pull name =>
      refine h.withTour fun tour tour' htour => ?_
      obtain ⟨hresult, hwalk, hafter⟩ := h.world.pull htour.stack tour.walk
      dsimp only
      rw [← htour.walk, ← hresult, ← hwalk]
      exact ⟨.same _, { h with
        world := hafter
        tours := h.tours.insert name ⟨htour.stack, rfl⟩ }⟩
  | find name wanted limit =>
      refine h.withTour fun tour tour' htour => ?_
      obtain ⟨hsearch, hafter⟩ := h.world.find htour.stack wanted limit tour.walk
      dsimp only
      rw [← htour.walk, ← hsearch]
      exact ⟨.same _, { h with world := hafter, tours := h.tours.erase name }⟩
  | view | withToken | fetch | adjust => cases ha

/-- **Like actions** give the same, and leave such states. -/
lemma perform (h : Coupled t S C past past' s m) {a a' : Action σ} (ha : S.Actions C a a') :
    Agree t S C past past' (s.perform t a) (m.perform t a') := by
  cases ha with
  | view name hstack => exact (h.setView name hstack).agree _
  | withToken view name htoken =>
      refine h.withView fun stack stack' hstack => ?_
      have hstack' := S.withToken hstack htoken
      generalize stack.withToken? _ = new at hstack' ⊢
      generalize stack'.withToken? _ = new' at hstack' ⊢
      cases hstack' with
      | none => exact h.agree _
      | some hnew => exact (h.setView name hnew).agree _
  | fetch view hcall =>
      refine h.withView fun stack stack' hstack => ?_
      obtain ⟨hresult, hafter⟩ := h.world.call hstack hcall
      dsimp only
      rw [← hresult]
      exact ⟨.same _, { h with world := hafter }⟩
  | adjust hchange =>
      exact ⟨.same _, { h with world :=
        { h.world with server := h.world.server.change hchange } }⟩
  | other a ha => exact h.perform_other a ha

/-- Like steps tell the same. -/
lemma step (h : Coupled t S C past past' s m) {step step' : Step σ}
    (hstep : S.Steps C step step') :
    S.Reports (s.step t step).1 (m.step t step').1 ∧
      Coupled t S C past past' (s.step t step).2 (m.step t step').2 := by
  obtain ⟨houtcome, hafter⟩ := h.perform hstep.action
  refine ⟨⟨houtcome, h.world.exchanges.drop hafter.world.exchanges, ?_, ?_⟩,
    { hafter with kept := ?_ }⟩
  · simp only [State.step, h.world.events, hafter.world.events]
  · simp only [State.step, hafter.world.caches]
  · simp only [State.step, hstep.keepAs, houtcome.made?_eq, hafter.kept]

/-- **Like runs** tell the same. -/
theorem run (h : Coupled t S C past past' s m) {steps steps' : List (Step σ)}
    (hsteps : List.Forall₂ (S.Steps C) steps steps') :
    List.Forall₂ S.Reports (s.run t steps).1 (m.run t steps').1 ∧
      Coupled t S C past past' (s.run t steps).2 (m.run t steps').2 := by
  induction hsteps generalizing s m with
  | nil => exact ⟨.nil, h⟩
  | cons hstep _ ih =>
      obtain ⟨hreport, hafter⟩ := h.step hstep
      obtain ⟨hreports, hend⟩ := ih hafter
      exact ⟨.cons hreport hreports, hend⟩

end Coupled

end State

end Session

end LayeredFetch
