import LayeredFetch.Proofs.Stack.Course
import LayeredFetch.Session

/-!
The record of a run: what is done to the caches, in order.

* `Deed` is one thing that a step does: a call on a stack, in the world it is made
  in, or the removal of entries. A walk makes one call for each page that it pulls,
  and a search as many as it looks at pages.
* `State.record` lists the deeds of a run; `exchanges_worldAfter` says that no
  request reaches the transport without a call on the record.
* `Invariant` is what every single deed keeps; `Invariant.run` is the induction over
  runs that every fact about reachable states goes through.
-/

namespace LayeredFetch

namespace World

variable {σ : Type} {w w' : World σ}

/-- A change that has nothing to do with requests and entries. -/
structure Quiet (w w' : World σ) : Prop where
  held : SameHeld w w'
  exchanges : w'.exchanges = w.exchanges
  serial : w.nextSerial ≤ w'.nextSerial

lemma Quiet.refl (w : World σ) : Quiet w w := ⟨fun _ _ => rfl, rfl, Nat.le_refl _⟩

lemma Quiet.trans {w'' : World σ} (h : Quiet w w') (h' : Quiet w' w'') : Quiet w w'' :=
  ⟨fun c u => (h'.held c u).trans (h.held c u), h'.exchanges.trans h.exchanges,
    Nat.le_trans h.serial h'.serial⟩

lemma quiet_report (e : Event) : Quiet w (w.report e) := ⟨fun _ _ => rfl, rfl, Nat.le_refl _⟩

lemma quiet_mint : Quiet w w.mint := ⟨fun _ _ => rfl, rfl, Nat.le_succ _⟩

lemma quiet_enroll (uri : String) (f : Fetched) : Quiet w (w.enroll uri f).2 := by
  rw [enroll]
  split
  · exact quiet_mint
  · exact Quiet.refl w

lemma quiet_openCache (cache : String) : Quiet w (w.openCache cache) :=
  ⟨fun c u => by rw [held?, cache_openCache, held?], rfl, Nat.le_refl _⟩

lemma quiet_serve (server : σ) : Quiet w { w with server } :=
  ⟨fun _ _ => rfl, rfl, Nat.le_refl _⟩

end World

namespace Walk

variable {σ : Type} {w : World σ} {walk : Walk}

/-- Going on to the next page makes no request. -/
lemma quiet_advance (uri : String) (h : Headers) : w.Quiet (walk.advance uri h w).2 := by
  rw [advance]
  split
  · exact World.Quiet.refl w
  · split
    · exact World.Quiet.refl w
    · exact World.quiet_report _

end Walk

namespace Session

variable {σ : Type} {t : Transport σ}

/-! ### Deeds -/

/-- A call on a stack, in the world that it is made in. -/
structure Made (σ : Type) where
  stack : Stack
  call : Call
  world : World σ

namespace Made

/-- What a call gives. -/
def result (t : Transport σ) (m : Made σ) : Except FetchError Fetched :=
  (m.stack.call t m.call m.world).1

/-- The world after a call. -/
def after (t : Transport σ) (m : Made σ) : World σ := (m.stack.call t m.call m.world).2

/-- A call whose request is valid makes that request. -/
lemma call_eq {m : Made σ} {r : Request} (h : m.call.request = .ok r) :
    m.stack.call t m.call m.world = m.stack.request t r m.world := by
  rw [Stack.call, h]

end Made

/-- One thing that a step does to the caches. -/
inductive Deed (σ : Type) where
  | called (m : Made σ)
  | removed (cache uri : String)
  | cleared (cache : String)

/-- The call that pulling a page makes. -/
def pullDeeds (s : Stack) (walk : Walk) (w : World σ) : List (Deed σ) :=
  match walk.next with
  | none => []
  | some uri => [.called ⟨s, .get uri .empty, w.report (.fetchingPage (walk.pages + 1) uri)⟩]

/-- The calls that a search makes, page by page. -/
def findDeeds (t : Transport σ) (s : Stack) (wanted : Json → Bool) :
    (limit : Nat) → Walk → World σ → List (Deed σ)
  | 0, _, _ => []
  | limit + 1, walk, w =>
      pullDeeds s walk w ++
        match walk.pull t s w with
        | (.ok (some page), walk, w) =>
            if (Walk.examine wanted (Walk.entries page)).1.isSome then []
            else findDeeds t s wanted limit walk w
        | _ => []

namespace State

/-- What an action does to the caches. -/
def deeds (t : Transport σ) (s : State σ) : Action σ → List (Deed σ)
  | .fetch view call =>
      (s.views.get? view).elim [] fun stack => [.called ⟨stack, call, s.world⟩]
  | .pull name =>
      (s.tours.get? name).elim [] fun tour => pullDeeds tour.stack tour.walk s.world
  | .find name wanted limit =>
      (s.tours.get? name).elim [] fun tour =>
        findDeeds t tour.stack wanted limit tour.walk s.world
  | .remove cache uri => [.removed cache uri]
  | .clear cache => [.cleared cache]
  | _ => []

/-- The record of a run. -/
def record (t : Transport σ) (s : State σ) : List (Step σ) → List (Deed σ)
  | [] => []
  | step :: rest => s.deeds t step.action ++ (s.step t step).2.record t rest

end State

/-- The world at the end of a run from the beginning. -/
def worldAfter (t : Transport σ) (server : σ) (steps : List (Step σ)) : World σ :=
  ((State.initial server).run t steps).2.world

/-- The record of a run from the beginning. -/
def recordOf (t : Transport σ) (server : σ) (steps : List (Step σ)) : List (Deed σ) :=
  (State.initial server).record t steps

/-- Whether an action puts a value into a cache by hand. -/
def Action.isPut : Action σ → Bool
  | .put _ _ _ => true
  | _ => false

/-- No step puts a value into a cache by hand. -/
def HandsOff (steps : List (Step σ)) : Prop := ∀ step ∈ steps, step.action.isPut = false

instance (steps : List (Step σ)) : Decidable (HandsOff steps) :=
  inferInstanceAs (Decidable (∀ step ∈ steps, step.action.isPut = false))

/-- Every view that a step sets up is a stack of some kind. -/
def ViewsIn (V : Stack → Prop) (steps : List (Step σ)) : Prop :=
  ∀ step ∈ steps, ∀ name stack, step.action = .view name stack → V stack

/-! ### Steps that are no deeds -/

namespace State

variable {s : State σ} {name : String}

lemma quiet_withKept {go : Fetched → Outcome × State σ}
    (h : ∀ f, s.world.Quiet (go f).2.world) : s.world.Quiet (s.withKept name go).2.world := by
  rw [withKept]
  cases s.kept.get? name with
  | none => exact World.Quiet.refl _
  | some f => exact h f

lemma quiet_withView {go : Stack → Outcome × State σ}
    (h : ∀ stack, s.world.Quiet (go stack).2.world) :
    s.world.Quiet (s.withView name go).2.world := by
  rw [withView]
  cases s.views.get? name with
  | none => exact World.Quiet.refl _
  | some stack => exact h stack

/-- Setting up a view opens caches, and puts nothing into them. -/
lemma quiet_setView (stack : Stack) : s.world.Quiet (s.setView name stack).world :=
  List.foldlRecOn stack.cacheNames World.openCache (World.Quiet.refl s.world)
    fun _ hw cache _ => hw.trans (World.quiet_openCache cache)

end State

/-! ### What every deed keeps -/

/-- A property of records and worlds that every deed keeps, when calls are made on
stacks of some kind only. -/
structure Invariant (t : Transport σ) (V : Stack → Prop)
    (P : List (Deed σ) → World σ → Prop) : Prop where
  quiet : ∀ {ds w w'}, P ds w → w.Quiet w' → P ds w'
  called : ∀ {ds} {m : Made σ}, V m.stack → P ds m.world → P (ds ++ [.called m]) (m.after t)
  removed : ∀ {ds w} cache uri, P ds w → P (ds ++ [.removed cache uri]) (w.drop cache uri)
  cleared : ∀ {ds w} cache, P ds w → P (ds ++ [.cleared cache]) (w.clear cache)

/-- Every view and every walk of a session goes through a stack of some kind. -/
structure State.Through (V : Stack → Prop) (s : State σ) : Prop where
  views : ∀ name stack, s.views.get? name = some stack → V stack
  tours : ∀ name tour, s.tours.get? name = some tour → V tour.stack

/-- Another token in the outermost layer makes a stack of the same kind. -/
def TokenFree (V : Stack → Prop) : Prop :=
  ∀ stack token stack', V stack → Stack.withToken? stack token = some stack' → V stack'

variable {V : Stack → Prop} {P : List (Deed σ) → World σ → Prop} {ds : List (Deed σ)}
variable {s : State σ} {w : World σ}

namespace Invariant

/-- Pulling a page keeps an invariant. -/
lemma pull (h : Invariant t V P) {stack : Stack} (hV : V stack) (walk : Walk) (hP : P ds w) :
    P (ds ++ pullDeeds stack walk w) (walk.pull t stack w).2.2 := by
  rw [pullDeeds, Walk.pull]
  cases walk.next with
  | none => rwa [List.append_nil]
  | some uri =>
      let begun := w.report (.fetchingPage (walk.pages + 1) uri)
      have hcalled : P (ds ++ [.called ⟨stack, .get uri .empty, begun⟩])
          (stack.call t (.get uri .empty) begun).2 :=
        h.called (m := ⟨stack, .get uri .empty, begun⟩) hV (h.quiet hP (World.quiet_report _))
      dsimp only
      split
      · next heq => rwa [heq] at hcalled
      · next heq =>
          rw [heq] at hcalled
          split
          · exact hcalled
          · split
            · exact hcalled
            · exact h.quiet hcalled (Walk.quiet_advance _ _)

/-- A search keeps an invariant: it pulls pages, and reports at most one failure. -/
lemma find (h : Invariant t V P) {stack : Stack} (hV : V stack) (wanted : Json → Bool)
    (limit : Nat) (walk : Walk) (hP : P ds w) :
    P (ds ++ findDeeds t stack wanted limit walk w) (walk.find t stack wanted limit w).2 := by
  induction limit generalizing walk w ds with
  | zero => rwa [findDeeds, List.append_nil]
  | succ limit ih =>
      have hpull := h.pull hV walk hP
      rw [findDeeds, Walk.find, ← List.append_assoc]
      rcases hout : walk.pull t stack w with ⟨(e | _ | page), walk', w'⟩
      · rw [hout] at hpull
        rw [List.append_nil]
        exact h.quiet hpull (World.quiet_report _)
      · rw [hout] at hpull
        rwa [List.append_nil]
      · rw [hout] at hpull
        dsimp only at hpull ⊢
        rcases hexam : Walk.examine wanted (Walk.entries page) with ⟨_ | entry, seen⟩
        · exact ih walk' hpull
        · rwa [Option.isSome_some, if_pos rfl, List.append_nil]

/-- Every action keeps an invariant, unless it puts something into a cache by hand. -/
lemma perform (h : Invariant t V P) (hs : s.Through V) (hP : P ds s.world) (a : Action σ)
    (hput : a.isPut = false) : P (ds ++ s.deeds t a) (s.perform t a).2.world := by
  -- an action that is no deed leaves the record as it is
  have idle : ∀ {w'}, s.world.Quiet w' → P (ds ++ []) w' := fun hq => by
    rw [List.append_nil]
    exact h.quiet hP hq
  cases a with
  | make resource => exact idle (World.Quiet.refl _)
  | derive source changes => exact idle (State.quiet_withKept fun _ => World.Quiet.refl _)
  | rebuild source changes =>
      refine idle (State.quiet_withKept fun f => ?_)
      split
      · exact World.quiet_mint
      · exact World.Quiet.refl _
  | rebuildTagged source changes =>
      refine idle (State.quiet_withKept fun f => ?_)
      cases f with
      | plain r => exact World.Quiet.refl _
      | tagged old => exact World.quiet_mint
  | tag source uri => exact idle (State.quiet_withKept fun f => World.quiet_enroll uri f)
  | «show» source => exact idle (State.quiet_withKept fun _ => World.Quiet.refl _)
  | compare left right =>
      refine idle (State.quiet_withKept fun f => ?_)
      exact State.quiet_withKept fun _ => World.Quiet.refl _
  | put source cache uri => exact absurd hput (by simp [Action.isPut])
  | lookup cache uri => exact idle (World.quiet_openCache cache)
  | remove cache uri => exact h.removed cache uri hP
  | clear cache => exact h.cleared cache hP
  | adjust change => exact idle (World.quiet_serve _)
  | view name stack => exact idle (State.quiet_setView stack)
  | withToken view name token =>
      refine idle (State.quiet_withView fun stack => ?_)
      split
      · exact State.quiet_setView _
      · exact World.Quiet.refl _
  | copyView view name =>
      exact idle (State.quiet_withView fun stack => State.quiet_setView stack)
  | describe view => exact idle (State.quiet_withView fun _ => World.Quiet.refl _)
  | walk view name uri => exact idle (State.quiet_withView fun _ => World.Quiet.refl _)
  | fetch view call =>
      rw [State.deeds, State.perform, State.withView]
      cases hview : s.views.get? view with
      | none => simpa using hP
      | some stack =>
          have hV := hs.views view stack hview
          exact h.called (m := ⟨stack, call, s.world⟩) hV hP
  | pull name =>
      rw [State.deeds, State.perform, State.withTour]
      cases htour : s.tours.get? name with
      | none => simpa using hP
      | some tour => exact h.pull (hs.tours name tour htour) tour.walk hP
  | find name wanted limit =>
      rw [State.deeds, State.perform, State.withTour]
      cases htour : s.tours.get? name with
      | none => simpa using hP
      | some tour => exact h.find (hs.tours name tour htour) wanted limit tour.walk hP

end Invariant

/-- What every deed keeps of the world also holds before every call on the record. -/
lemma Invariant.along {Q : World σ → Prop} (h : Invariant t V fun _ w => Q w) :
    Invariant t V fun ds w => Q w ∧ ∀ m, .called m ∈ ds → Q m.world where
  quiet hP hq := ⟨@h.quiet [] _ _ hP.1 hq, hP.2⟩
  called {_ m} hV hP := by
    refine ⟨@h.called [] m hV hP.1, fun m' hm' => ?_⟩
    rcases List.mem_append.mp hm' with hm' | hm'
    · exact hP.2 m' hm'
    · injection List.mem_singleton.mp hm' with hm'
      exact hm' ▸ hP.1
  removed cache uri hP :=
    ⟨@h.removed [] _ cache uri hP.1, fun m hm => hP.2 m (by simpa using hm)⟩
  cleared cache hP :=
    ⟨@h.cleared [] _ cache hP.1, fun m hm => hP.2 m (by simpa using hm)⟩

/-- Two properties that every deed keeps are kept together. -/
lemma Invariant.and {Q : List (Deed σ) → World σ → Prop} (h : Invariant t V P)
    (h' : Invariant t V Q) : Invariant t V fun ds w => P ds w ∧ Q ds w where
  quiet hP hq := ⟨h.quiet hP.1 hq, h'.quiet hP.2 hq⟩
  called hV hP := ⟨h.called hV hP.1, h'.called hV hP.2⟩
  removed cache uri hP := ⟨h.removed cache uri hP.1, h'.removed cache uri hP.2⟩
  cleared cache hP := ⟨h.cleared cache hP.1, h'.cleared cache hP.2⟩

/-! ### Runs -/

namespace State.Through

lemma setView (hs : s.Through V) (name : String) {stack : Stack} (h : V stack) :
    (s.setView name stack).Through V := by
  refine ⟨fun other stack' hother => ?_, hs.tours⟩
  rw [State.setView, Table.get?_insert] at hother
  split at hother
  · exact Option.some.inj hother ▸ h
  · exact hs.views other stack' hother

lemma setTour (hs : s.Through V) (w : World σ) (name : String) {tour : Tour}
    (h : V tour.stack) :
    State.Through V { s with world := w, tours := s.tours.insert name tour } := by
  refine ⟨hs.views, fun other tour' hother => ?_⟩
  rw [Table.get?_insert] at hother
  split at hother
  · exact Option.some.inj hother ▸ h
  · exact hs.tours other tour' hother

lemma withKept (hs : s.Through V) {name : String} {go : Fetched → Outcome × State σ}
    (h : ∀ f, (go f).2.Through V) : (s.withKept name go).2.Through V := by
  rw [State.withKept]
  cases s.kept.get? name with
  | none => exact hs
  | some f => exact h f

lemma withView (hs : s.Through V) {name : String} {go : Stack → Outcome × State σ}
    (h : ∀ stack, V stack → (go stack).2.Through V) : (s.withView name go).2.Through V := by
  rw [State.withView]
  cases hview : s.views.get? name with
  | none => exact hs
  | some stack => exact h stack (hs.views name stack hview)

lemma withTour (hs : s.Through V) {name : String} {go : Tour → Outcome × State σ}
    (h : ∀ tour, V tour.stack → (go tour).2.Through V) :
    (s.withTour name go).2.Through V := by
  rw [State.withTour]
  cases htour : s.tours.get? name with
  | none => exact hs
  | some tour => exact h tour (hs.tours name tour htour)

/-- A session goes on through stacks of the same kind. -/
lemma perform (hV : TokenFree V) (hs : s.Through V) (a : Action σ)
    (ha : ∀ name stack, a = .view name stack → V stack) : (s.perform t a).2.Through V := by
  have same : ∀ w : World σ, State.Through V { s with world := w } :=
    fun _ => ⟨hs.views, hs.tours⟩
  cases a with
  | make resource => exact hs
  | derive source changes => exact hs.withKept fun _ => hs
  | rebuild source changes =>
      refine hs.withKept fun f => ?_
      split
      · exact same _
      · exact hs
  | rebuildTagged source changes =>
      refine hs.withKept fun f => ?_
      cases f with
      | plain r => exact hs
      | tagged old => exact same _
  | tag source uri => exact hs.withKept fun f => same _
  | «show» source => exact hs.withKept fun _ => hs
  | compare left right => exact hs.withKept fun _ => hs.withKept fun _ => hs
  | put source cache uri =>
      refine hs.withKept fun f => ?_
      cases f with
      | plain r => exact hs
      | tagged made => exact same _
  | lookup cache uri => exact same _
  | remove cache uri => exact same _
  | clear cache => exact same _
  | adjust change => exact same _
  | view name stack => exact hs.setView name (ha name stack rfl)
  | withToken view name token =>
      refine hs.withView fun stack hstack => ?_
      split
      · next heq => exact hs.setView name (hV stack token _ hstack heq)
      · exact hs
  | copyView view name => exact hs.withView fun stack hstack => hs.setView name hstack
  | describe view => exact hs.withView fun _ _ => hs
  | fetch view call => exact hs.withView fun _ _ => same _
  | walk view name uri => exact hs.withView fun stack hstack => hs.setTour s.world name hstack
  | pull name => exact hs.withTour fun tour htour => hs.setTour _ name htour
  | find name wanted limit =>
      refine hs.withTour fun tour htour => ⟨hs.views, fun other tour' hother => ?_⟩
      rw [Table.get?_erase] at hother
      split at hother
      · cases hother
      · exact hs.tours other tour' hother

end State.Through

/-- A session begins without views and walks. -/
lemma State.through_initial (V : Stack → Prop) (server : σ) :
    (State.initial server).Through V := by
  constructor
  · intro name stack h
    cases h
  · intro name tour h
    cases h

/-- **The induction over runs**: what every deed keeps holds of the record of a run
and of the world at its end. -/
theorem Invariant.run (h : Invariant t V P) (hV : TokenFree V) (steps : List (Step σ))
    (hput : HandsOff steps) (hviews : ViewsIn V steps) (hs : s.Through V)
    (hP : P ds s.world) :
    P (ds ++ s.record t steps) (s.run t steps).2.world := by
  induction steps generalizing s ds with
  | nil => rwa [State.record, List.append_nil]
  | cons step rest ih =>
      have hperform := h.perform hs hP step.action (hput step List.mem_cons_self)
      have hafter := State.Through.perform (t := t) hV hs step.action
        (hviews step List.mem_cons_self)
      -- keeping a value changes neither views nor walks
      have hthrough : (s.step t step).2.Through V := ⟨hafter.views, hafter.tours⟩
      have hput' : HandsOff rest := fun step' hstep' =>
        hput step' (List.mem_cons_of_mem step hstep')
      have hviews' : ViewsIn V rest := fun step' hstep' =>
        hviews step' (List.mem_cons_of_mem step hstep')
      rw [State.record, ← List.append_assoc]
      exact ih hput' hviews' hthrough hperform

/-- The record of a longer run continues that of the shorter one. -/
lemma recordOf_append (server : σ) (steps more : List (Step σ)) :
    recordOf t server (steps ++ more) =
      recordOf t server steps ++ ((State.initial server).run t steps).2.record t more := by
  rw [recordOf, recordOf]
  generalize State.initial server = s
  induction steps generalizing s with
  | nil => rfl
  | cons step rest ih =>
      rw [List.cons_append, State.record, State.record, ih, List.append_assoc]
      rfl

/-- The induction over runs from the beginning, through any stacks. -/
theorem Invariant.run_initial (h : Invariant t (fun _ => True) P) {server : σ}
    {steps : List (Step σ)} (hput : HandsOff steps) (hP : P [] (.initial server)) :
    P (recordOf t server steps) (worldAfter t server steps) :=
  h.run (fun _ _ _ _ _ => trivial) steps hput (fun _ _ _ _ _ => trivial)
    (State.through_initial _ server) hP

/-- A world that a run from the beginning comes to: at its end, or before one of the calls on
its record. -/
def Reached (t : Transport σ) (server : σ) (steps : List (Step σ)) (w : World σ) : Prop :=
  w = worldAfter t server steps ∨ ∃ m, .called m ∈ recordOf t server steps ∧ w = m.world

/-- What every deed keeps holds wherever a run comes. -/
theorem Invariant.reached {Q : World σ → Prop} (h : Invariant t (fun _ => True) fun _ w => Q w)
    {server : σ} {steps : List (Step σ)} (hput : HandsOff steps) (hQ : Q (.initial server))
    (hw : Reached t server steps w) : Q w := by
  obtain ⟨hend, hcalls⟩ :=
    h.along.run_initial hput ⟨hQ, fun _ hm => absurd hm List.not_mem_nil⟩
  rcases hw with rfl | ⟨m, hm, rfl⟩
  · exact hend
  · exact hcalls m hm

/-! ### The record and the history -/

/-- The requests that reach the transport in a deed. -/
def Deed.exchanges (t : Transport σ) : Deed σ → List Exchange
  | .called m => (m.after t).exchanges.drop m.world.exchanges.length
  | _ => []

/-- A call adds its exchanges to the history. -/
lemma Made.exchanges_after (m : Made σ) :
    (m.after t).exchanges = m.world.exchanges ++ (Deed.called m).exchanges t := by
  rw [Deed.exchanges]
  rcases m.stack.exchanged_call (t := t) m.call m.world with hsame | ⟨r, outcome, -, hsent⟩
  · rw [Made.after, hsame, List.drop_length, List.append_nil]
  · rw [Made.after, hsent.exchanges_eq, List.drop_left]

/-- **The record is complete**: the requests that reached the transport are those of
the deeds on the record, in order. -/
theorem exchanges_worldAfter {server : σ} {steps : List (Step σ)} (hput : HandsOff steps) :
    (worldAfter t server steps).exchanges =
      (recordOf t server steps).flatMap (Deed.exchanges t) := by
  have hinv : Invariant t (fun _ => True)
      fun ds w => w.exchanges = ds.flatMap (Deed.exchanges t) :=
    { quiet := fun hP hq => hq.exchanges.trans hP
      called := fun {ds m} _ hP => by
        rw [m.exchanges_after, hP, List.flatMap_append, List.flatMap_singleton]
      removed := fun {ds w} cache uri hP => by
        rw [List.flatMap_append, ← hP]
        exact (List.append_nil _).symm
      cleared := fun {ds w} cache hP => by
        rw [List.flatMap_append, ← hP]
        exact (List.append_nil _).symm }
  exact hinv.run_initial hput rfl

/-- Each outcome in the history is what the transport gave for that request in some state of
the server. -/
def Performed (t : Transport σ) (w : World σ) : Prop :=
  ∀ x ∈ w.exchanges, ∃ s, (t.perform s x.request).1.outcome = x.outcome

/-- That the history is the transport's is an invariant of every run. -/
lemma performed_invariant (t : Transport σ) :
    Invariant t (fun _ => True) fun _ w => Performed t w where
  quiet hP hq x hx := hP x (hq.exchanges ▸ hx)
  called {_ m} _ hP x hx := by
    rcases m.stack.exchanged_call (t := t) m.call m.world with hsame | ⟨r, outcome, -, sent⟩
    · rw [Made.after, hsame] at hx
      exact hP x hx
    · rw [Made.after, sent.exchanges_eq] at hx
      rcases List.mem_append.mp hx with hx | hx
      · exact hP x hx
      · rw [List.mem_singleton.mp hx]
        exact ⟨m.world.server, sent.outcome_eq⟩
  removed _ _ hP := hP
  cleared _ hP := hP

/-- **The history is the transport's**, in every run. -/
theorem exchanges_performed {server : σ} {steps : List (Step σ)} (hput : HandsOff steps) :
    Performed t (worldAfter t server steps) :=
  (performed_invariant t).run_initial hput fun _ hx => absurd hx List.not_mem_nil

/-- What a call on the record leaves in the history stays there. -/
theorem Made.after_isPrefix {server : σ} {steps : List (Step σ)} (hput : HandsOff steps)
    {m : Made σ} (hm : .called m ∈ recordOf t server steps) :
    (m.after t).exchanges <+: (worldAfter t server steps).exchanges := by
  have hinv : Invariant t (fun _ => True)
      fun ds w => ∀ m, .called m ∈ ds → (m.after t).exchanges <+: w.exchanges :=
    { quiet := fun hP hq m hm => hq.exchanges ▸ hP m hm
      called := fun {ds m} _ hP m' hm' => by
        rcases List.mem_append.mp hm' with hm' | hm'
        · rw [m.exchanges_after]
          exact (hP m' hm').trans (List.prefix_append _ _)
        · injection List.mem_singleton.mp hm' with hm'
          exact hm' ▸ List.prefix_rfl
      removed := fun {ds w} cache uri hP m' hm' =>
        hP m' (by simpa using hm')
      cleared := fun {ds w} cache hP m' hm' =>
        hP m' (by simpa using hm') }
  exact hinv.run_initial hput (fun _ hm => absurd hm List.not_mem_nil) m hm

end Session

end LayeredFetch
