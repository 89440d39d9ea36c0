import LayeredFetch.Proofs.Session.Credentials
import LayeredFetch.Proofs.Stack.Instances

/-!
The instances of a session.

* `State.births` are the instances that an action makes: one for the copy of an instance, one
  for a plain value with an entity tag that is tagged, and for requests those that their stack
  makes of them. `State.register` lists those of a run, in order.
* `State.Within`: whatever a session keeps, and whatever its caches hold, is listed under its
  number. `Within.perform` is one action, by its kind; no other instance is ever given.
* `State.instances_never_change`: so in every run whatever appears is the entry of the
  register that its number says, and a new instance is different from all before.
-/

namespace LayeredFetch.Session

variable {σ : Type} {t : Transport σ}

/-! ### What appears, and what is made -/

/-- The instances that are seen in what a step gives. -/
def Outcome.instances : Outcome → List Tagged
  | value made => (made.bind Fetched.tagged?).toList
  | copy made _ => [made]
  | entry held => held.toList
  | replaced old => old.toList
  | fetched result => (result.toOption.bind Fetched.tagged?).toList
  | page result _ => (result.toOption.join.bind Fetched.tagged?).toList
  | _ => []

/-- A value that a step made is seen in what it gives. -/
lemma Outcome.mem_instances_of_made? {o : Outcome} {e : Tagged}
    (h : o.made? = some (.tagged e)) : e ∈ o.instances := by
  cases o with
  | value made =>
      obtain rfl : made = some (.tagged e) := h
      exact List.mem_singleton_self e
  | copy made notBefore =>
      obtain rfl : made = e := by simpa [made?] using h
      exact List.mem_singleton_self made
  | entry held =>
      obtain rfl : held = some e := by simpa [made?] using h
      exact List.mem_singleton_self e
  | fetched result =>
      cases result with
      | error e => cases h
      | ok f =>
          obtain rfl : f = .tagged e := by simpa [made?] using h
          exact List.mem_singleton_self e
  | page result walk =>
      cases result with
      | error e => cases h
      | ok f =>
          obtain rfl : f = some (.tagged e) := h
          exact List.mem_singleton_self e
  | _ => cases h

/-- Whether an action is about pages. -/
def Action.isPaging : Action σ → Bool
  | .pull _ | .find _ _ _ => true
  | _ => false

namespace State

/-- The instances that a session keeps, and those that its caches hold. -/
def Shows (s : State σ) (e : Tagged) : Prop :=
  (∃ name, s.kept.get? name = some (.tagged e)) ∨
    ∃ cache uri, s.world.held? cache uri = some e

/-- An instance appears in a run: it is there at the beginning or later on, or it is seen in
what a step gives. -/
def Appears (t : Transport σ) (s : State σ) (e : Tagged) : List (Step σ) → Prop
  | [] => s.Shows e
  | step :: rest =>
      s.Shows e ∨ e ∈ (s.step t step).1.outcome.instances ∨
        (s.step t step).2.Appears t e rest

/-- The instances that an action makes, in order. -/
def births (t : Transport σ) (s : State σ) : Action σ → List Tagged
  | .rebuild source changes | .rebuildTagged source changes =>
      (((s.kept.get? source).bind Fetched.tagged?).map
        (Tagged.rebuild s.world.nextSerial changes)).toList
  | .tag source uri =>
      (((s.kept.get? source).filter Fetched.isTaggable).bind
        (Fetched.tag? s.world.nextSerial uri)).toList
  | a =>
      (s.stackOf? a).elim [] fun stack =>
        stack.made s.world.nextSerial
          ((s.perform t a).2.world.exchanges.drop s.world.exchanges.length)

/-- The instances that a run makes, in order. -/
def register (t : Transport σ) (s : State σ) : List (Step σ) → List Tagged
  | [] => []
  | step :: rest => s.births t step.action ++ (s.step t step).2.register t rest

/-! ### One step -/

variable {s : State σ} {entries : List Tagged} {name source : String}

/-- A plain value with an entity tag becomes one new instance. -/
lemma perform_tag_plain (uri : String) {r : Resource} {etag : String}
    (hsource : s.kept.get? source = some (.plain r)) (htag : r.etag? = some etag) :
    s.births t (.tag source uri) = [⟨s.world.nextSerial, uri, etag, r⟩] ∧
      s.perform t (.tag source uri) =
        (.value (some (.tagged ⟨s.world.nextSerial, uri, etag, r⟩)), s.mint) := by
  simp [births, perform, withKept, hsource, htag, World.enroll, Option.filter,
    Fetched.isTaggable, Fetched.tag?, mint]

/-- A plain value without one does not. -/
lemma perform_tag_untaggable (uri : String) {r : Resource}
    (hsource : s.kept.get? source = some (.plain r)) (htag : r.etag? = none) :
    s.births t (.tag source uri) = [] ∧ s.perform t (.tag source uri) = (.value none, s) := by
  simp [births, perform, withKept, hsource, htag, World.enroll, Fetched.isTaggable, Fetched.tag?]

/-- An instance is given as it is, whatever the URI. -/
lemma perform_tag_instance (uri : String) {e : Tagged}
    (hsource : s.kept.get? source = some (.tagged e)) :
    s.births t (.tag source uri) = [] ∧
      s.perform t (.tag source uri) = (.value (some (.tagged e)), s) := by
  simp [births, perform, withKept, hsource, World.enroll, Fetched.isTaggable, Fetched.tag?]

/-- Whatever a session shows is listed, and the next number is that of the next entry. -/
structure Within (entries : List Tagged) (s : State σ) : Prop where
  world : s.world.Within entries
  kept : ∀ name f, s.kept.get? name = some f → f.Listed entries

/-- An action gave what is listed, and left such a state. -/
def Lists (entries : List Tagged) (x : Outcome × State σ) : Prop :=
  (∀ e ∈ x.1.instances, e.Listed entries) ∧ x.2.Within entries

/-- Where nothing is made, nothing is added to the entries. -/
lemma Lists.nil {x : Outcome × State σ} (h : Lists entries x) : Lists (entries ++ []) x := by
  rwa [List.append_nil]

/-- An action without a stack makes nothing, or one instance, which takes the next number and
is given. -/
lemma births_of_no_stack {a : Action σ} (ha : s.stackOf? a = none) :
    s.births t a = [] ∨ ∃ e o, s.births t a = [e] ∧ e.serial = s.world.nextSerial ∧
      s.perform t a = (o, s.mint) ∧ o.made? = some (.tagged e) := by
  cases a with
  | rebuild source changes =>
      rw [births, perform, withKept]
      cases s.kept.get? source with
      | none => exact .inl rfl
      | some f =>
          cases f with
          | plain r => exact .inl rfl
          | tagged old => exact .inr ⟨_, _, rfl, rfl, rfl, rfl⟩
  | rebuildTagged source changes =>
      rw [births, perform, withKept]
      cases s.kept.get? source with
      | none => exact .inl rfl
      | some f =>
          cases f with
          | plain r => exact .inl rfl
          | tagged old => exact .inr ⟨_, _, rfl, rfl, rfl, rfl⟩
  | tag source uri =>
      cases hsource : s.kept.get? source with
      | none =>
          rw [births, hsource]
          exact .inl rfl
      | some f =>
          cases f with
          | plain r =>
              cases htag : r.etag? with
              | none => exact .inl (perform_tag_untaggable uri hsource htag).1
              | some etag =>
                  obtain ⟨hbirths, hperform⟩ := perform_tag_plain uri hsource htag
                  exact .inr ⟨_, _, hbirths, rfl, hperform, rfl⟩
          | tagged e => exact .inl (perform_tag_instance uri hsource).1
  | fetch | pull | find =>
      left
      simp only [births, ha, Option.elim_none]
  | _ => exact .inl rfl

/-- An action through a stack makes the instances of its exchanges. -/
lemma births_of_stack {a : Action σ} {stack : Stack} (ha : s.stackOf? a = some stack) :
    s.births t a = stack.made s.world.nextSerial
      ((s.perform t a).2.world.exchanges.drop s.world.exchanges.length) := by
  cases a with
  | fetch | pull | find => simp only [births, ha, Option.elim_some]
  | _ => cases ha

/-- What an action makes is numbered in order, from the next number on. -/
lemma map_serial_births (s : State σ) (a : Action σ) :
    (s.births t a).map Tagged.serial =
      List.range' s.world.nextSerial (s.births t a).length := by
  cases hstack : s.stackOf? a with
  | none =>
      rcases births_of_no_stack (t := t) hstack with hnone | ⟨e, o, hone, hserial, -⟩
      · rw [hnone]
        rfl
      · rw [hone, ← hserial]
        rfl
  | some stack =>
      rw [births_of_stack hstack]
      exact stack.map_serial_made _ _

namespace Within

/-- Setting up a view opens caches, and puts nothing into them. -/
lemma setView (h : s.Within entries) (name : String) (stack : Stack) :
    (s.setView name stack).Within entries := by
  refine ⟨?_, h.kept⟩
  exact List.foldlRecOn stack.cacheNames World.openCache h.world
    fun _ hw cache _ => hw.openCache cache

/-- A session shows nothing new when its caches do not. -/
lemma withWorld (h : s.Within entries) {w : World σ} (hw : w.Within entries) :
    State.Within entries { s with world := w } := ⟨hw, h.kept⟩

/-- An outcome without an instance shows nothing new, -/
lemma lists (h : s.Within entries) {o : Outcome} (ho : o.instances = []) :
    Lists entries (o, s) := by
  refine ⟨fun e he => ?_, h⟩
  rw [ho] at he
  cases he

/-- and one with a new instance makes that the next entry. -/
lemma born (h : s.Within entries) {o : Outcome} {e : Tagged} (ho : o.instances = [e])
    (he : e.serial = s.world.nextSerial) : Lists (entries ++ [e]) (o, s.mint) := by
  refine ⟨fun e' he' => ?_, h.world.mint e, fun name f hf e' he' => ?_⟩
  · rw [ho] at he'
    rw [List.mem_singleton.mp he']
    exact .concat (he.trans h.world.serial)
  · exact (h.kept name f hf e' he').append _

/-- What is done with a value that is kept is done with a listed one. -/
lemma withKept (h : s.Within entries) {go : Fetched → Outcome × State σ}
    (hgo : ∀ f, f.Listed entries → Lists entries (go f)) :
    Lists entries (s.withKept name go) := by
  rw [State.withKept]
  cases hname : s.kept.get? name with
  | none => exact h.lists rfl
  | some f => exact hgo f (h.kept name f hname)

lemma withView (h : s.Within entries) {go : Stack → Outcome × State σ}
    (hgo : ∀ stack, Lists entries (go stack)) : Lists entries (s.withView name go) := by
  rw [State.withView]
  cases s.views.get? name with
  | none => exact h.lists rfl
  | some stack => exact hgo stack

/-- To show what a cache held is to show nothing new. -/
lemma lists_held (h : s.Within entries) (cache uri : String) {o : Outcome} {w : World σ}
    (ho : o.instances = (s.world.held? cache uri).toList) (hw : w.Within entries) :
    Lists entries (o, { s with world := w }) := by
  refine ⟨fun e he => h.world.held cache uri e ?_, hw, h.kept⟩
  rw [ho] at he
  exact Option.mem_toList.mp he

/-- What is asked through a stack makes the instances of its exchanges. -/
lemma lists_of_makes (h : s.Within entries) {stack : Stack} {w : World σ}
    {given : Option Fetched} {xs : List Exchange} (hmakes : stack.Makes entries s.world w given xs)
    {o : Outcome} {after : State σ} (ho : o.instances = (given.bind Fetched.tagged?).toList)
    (hworld : after.world = w) (hkept : after.kept = s.kept) :
    Lists (entries ++ stack.made s.world.nextSerial
      (after.world.exchanges.drop s.world.exchanges.length)) (o, after) := by
  rw [hworld, hmakes.exchanges, List.drop_left, h.world.serial]
  refine ⟨fun e he => ?_, hworld ▸ hmakes.within, fun name f hf e he => ?_⟩
  · rw [ho] at he
    obtain ⟨f, hf, he⟩ := Option.bind_eq_some_iff.mp (Option.mem_toList.mp he)
    cases f with
    | plain r => cases he
    | tagged e' =>
        cases he
        exact hmakes.given _ hf e rfl
  · exact (h.kept name f (hkept ▸ hf) e he).append _

/-- **Every action makes its own instances** and shows no others but those that there were. -/
lemma perform (h : s.Within entries) (a : Action σ) :
    Lists (entries ++ s.births t a) (s.perform t a) := by
  cases a with
  | make resource => exact (h.lists rfl).nil
  | derive source changes => exact (h.withKept fun f _ => h.lists rfl).nil
  | rebuild source changes =>
      rw [births, State.perform, State.withKept]
      cases s.kept.get? source with
      | none => exact (h.lists rfl).nil
      | some f =>
          cases f with
          | plain r => exact (h.lists rfl).nil
          | tagged old => exact h.born rfl rfl
  | rebuildTagged source changes =>
      rw [births, State.perform, State.withKept]
      cases s.kept.get? source with
      | none => exact (h.lists rfl).nil
      | some f =>
          cases f with
          | plain r => exact (h.lists rfl).nil
          | tagged old => exact h.born rfl rfl
  | tag source uri =>
      cases hsource : s.kept.get? source with
      | none =>
          rw [births, State.perform, State.withKept, hsource]
          exact (h.lists rfl).nil
      | some f =>
          cases f with
          | plain r =>
              cases htag : r.etag? with
              | none =>
                  obtain ⟨hbirths, hperform⟩ := perform_tag_untaggable uri hsource htag
                  rw [hbirths, hperform]
                  exact (h.lists rfl).nil
              | some etag =>
                  obtain ⟨hbirths, hperform⟩ := perform_tag_plain uri hsource htag
                  rw [hbirths, hperform]
                  exact h.born rfl rfl
          | tagged e =>
              obtain ⟨hbirths, hperform⟩ := perform_tag_instance uri hsource
              rw [hbirths, hperform]
              refine Lists.nil ⟨fun e' he' => ?_, h⟩
              rw [List.mem_singleton.mp he']
              exact h.kept source _ hsource e rfl
  | «show» source =>
      refine (h.withKept fun f hf => ⟨fun e he => ?_, h⟩).nil
      cases f with
      | plain r => cases he
      | tagged e' =>
          rw [List.mem_singleton.mp he]
          exact hf e' rfl
  | compare left right =>
      exact (h.withKept fun f _ => h.withKept fun g _ => h.lists rfl).nil
  | put source cache uri =>
      refine (h.withKept fun f hf => ?_).nil
      cases f with
      | plain r => exact h.lists rfl
      | tagged e => exact h.lists_held cache uri rfl (h.world.store cache uri (hf e rfl))
  | lookup cache uri => exact (h.lists_held cache uri rfl (h.world.openCache cache)).nil
  | remove cache uri => exact (h.lists_held cache uri rfl (h.world.drop cache uri)).nil
  | clear cache => exact ((h.withWorld (h.world.clear cache)).lists rfl).nil
  | adjust change =>
      have hserved : { s.world with server := change s.world.server }.Within entries :=
        h.world.of_held rfl fun _ _ _ he => he
      exact ((h.withWorld hserved).lists (o := .nothing) rfl).nil
  | view name stack => exact ((h.setView name stack).lists rfl).nil
  | withToken view name token =>
      refine (h.withView fun stack => ?_).nil
      split
      · exact (h.setView name _).lists rfl
      · exact h.lists rfl
  | copyView view name => exact (h.withView fun stack => (h.setView name stack).lists rfl).nil
  | describe view => exact (h.withView fun stack => h.lists rfl).nil
  | fetch view call =>
      simp only [births, stackOf?, State.perform, State.withView]
      cases s.views.get? view with
      | none => exact (h.lists rfl).nil
      | some stack =>
          obtain ⟨xs, hmakes, -⟩ := h.world.call (t := t) stack call
          exact h.lists_of_makes hmakes rfl rfl rfl
  | walk view name uri =>
      refine (h.withView fun stack => ?_).nil
      exact ⟨fun _ he => absurd he List.not_mem_nil, h.world, h.kept⟩
  | pull name =>
      simp only [births, stackOf?, State.perform, State.withTour]
      cases s.tours.get? name with
      | none => exact (h.lists rfl).nil
      | some tour =>
          obtain ⟨xs, hmakes⟩ := h.world.pull (t := t) tour.stack tour.walk
          exact h.lists_of_makes hmakes rfl rfl rfl
  | find name wanted limit =>
      simp only [births, stackOf?, State.perform, State.withTour]
      cases s.tours.get? name with
      | none => exact (h.lists rfl).nil
      | some tour =>
          obtain ⟨xs, hmakes⟩ := h.world.find (t := t) tour.stack wanted limit tour.walk
          exact h.lists_of_makes hmakes rfl rfl rfl

/-- An action that is not about pages gives the instance that it makes, and all caches of its
stack, if it has one, hold it. -/
lemma given_of_births (h : s.Within entries) {a : Action σ} (ha : a.isPaging = false) :
    ∀ e ∈ s.births t a, (s.perform t a).1.made? = some (.tagged e) ∧
      ∀ stack ∈ s.stackOf? a, ∀ cache ∈ stack.cacheNames,
        (s.perform t a).2.world.held? cache e.uri = some e := by
  intro e he
  cases hstack : s.stackOf? a with
  | none =>
      rcases births_of_no_stack (t := t) hstack with hnone | ⟨e', o, hone, -, hperform, hmade⟩
      · rw [hnone] at he
        cases he
      · rw [hone, List.mem_singleton] at he
        rw [hperform, he]
        exact ⟨hmade, fun _ hs => absurd hs (Option.not_mem_none _)⟩
  | some stack =>
      rw [births_of_stack hstack] at he
      cases a with
      | fetch view call =>
          have hview : s.views.get? view = some stack := hstack
          simp only [State.perform, State.withView, hview, Option.elim_some] at he ⊢
          obtain ⟨xs, hmakes, hgiven⟩ := h.world.call (t := t) stack call
          rw [hmakes.exchanges, List.drop_left, h.world.serial] at he
          obtain ⟨hresult, hheld⟩ := hgiven e he
          rw [hresult]
          refine ⟨rfl, ?_⟩
          rintro _ ⟨⟩
          exact hheld
      | pull | find => cases ha
      | _ => cases hstack

/-- A step shows no others either, when it keeps what it made. -/
lemma step (h : s.Within entries) (step : Step σ) :
    (∀ e ∈ (s.step t step).1.outcome.instances, e.Listed (entries ++ s.births t step.action)) ∧
      (s.step t step).2.Within (entries ++ s.births t step.action) := by
  obtain ⟨houtcome, hafter⟩ := h.perform (t := t) step.action
  refine ⟨houtcome, hafter.world, fun name f hf => ?_⟩
  rw [State.step] at hf
  dsimp only at hf
  split at hf
  · next kept made hkeep hmade =>
      rw [Table.get?_insert] at hf
      split at hf
      · rintro e rfl
        obtain rfl := Option.some.inj hf
        exact houtcome e (Outcome.mem_instances_of_made? hmade)
      · exact hafter.kept name f hf
  · exact hafter.kept name f hf

/-! ### Runs -/

lemma listed_of_shows (h : s.Within entries) {e : Tagged} (he : s.Shows e) :
    e.Listed entries := by
  rcases he with ⟨name, hkept⟩ | ⟨cache, uri, hheld⟩
  · exact h.kept name _ hkept e rfl
  · exact h.world.held cache uri e hheld

/-- A run shows its own instances and those that there were. -/
lemma run (h : s.Within entries) (steps : List (Step σ)) :
    (s.run t steps).2.Within (entries ++ s.register t steps) := by
  induction steps generalizing s entries with
  | nil => exact (List.append_nil entries).symm ▸ h
  | cons step rest ih =>
      rw [register, ← List.append_assoc]
      exact ih (h.step step).2

/-- **Whatever appears in a run** is listed under its number. -/
lemma listed_of_appears (h : s.Within entries) {steps : List (Step σ)} {e : Tagged}
    (he : s.Appears t e steps) : e.Listed (entries ++ s.register t steps) := by
  induction steps generalizing s entries with
  | nil => exact (h.listed_of_shows he).append _
  | cons step rest ih =>
      obtain ⟨houtcome, hafter⟩ := h.step (t := t) step
      rw [register, ← List.append_assoc]
      rcases he with he | he | he
      · exact ((h.listed_of_shows he).append _).append _
      · exact (houtcome e he).append _
      · exact ih hafter he

/-- The instances of a run are numbered in order, from the next number on. -/
lemma map_serial_register (h : s.Within entries) (steps : List (Step σ)) :
    (s.register t steps).map Tagged.serial =
      List.range' entries.length (s.register t steps).length := by
  induction steps generalizing s entries with
  | nil => rfl
  | cons step rest ih =>
      have hlater := ih (h.step (t := t) step).2
      rw [List.length_append] at hlater
      rw [register, List.map_append, hlater, map_serial_births, h.world.serial, List.length_append,
        List.range'_append_1]

end Within

/-- A session begins without instances. -/
lemma within_initial (server : σ) : (initial server).Within [] := by
  refine ⟨⟨rfl, fun cache uri e he => ?_⟩, fun name f hf => ?_⟩
  · cases he
  · cases hf

/-- **Instances never change, and new ones are new.** Take any run. Two appearances of an
instance, told by its number, are equal, wherever they are seen; and only instances of the
register appear. Step by step, tagging an instance gives it as it is and changes nothing; the
instances that a step makes, as the register has them, have numbers that no instance had before;
no other numbers are taken; and an action that is not about pages gives the instance that it
makes, and all caches that it goes through hold it. -/
theorem instances_never_change (t : Transport σ) (server : σ) (steps : List (Step σ)) :
    (∀ e e', (initial server).Appears t e steps → (initial server).Appears t e' steps →
      e.serial = e'.serial → e = e') ∧
    (∀ e, (initial server).Appears t e steps → e ∈ (initial server).register t steps) ∧
    ∀ before step rest, steps = before ++ step :: rest →
      let s := ((initial server).run t before).2
      (∀ source uri e, step.action = .tag source uri → s.kept.get? source = some (.tagged e) →
        s.perform t step.action = (.value (some (.tagged e)), s)) ∧
      ((s.births t step.action).map Tagged.serial).Nodup ∧
      (∀ e ∈ s.births t step.action, ∀ e' ∈ (initial server).register t before,
        e.serial ≠ e'.serial) ∧
      (s.step t step).2.world.nextSerial =
        s.world.nextSerial + (s.births t step.action).length ∧
      (step.action.isPaging = false → ∀ e ∈ s.births t step.action,
        (s.step t step).1.outcome.made? = some (.tagged e) ∧
        ∀ stack ∈ s.stackOf? step.action, ∀ cache ∈ stack.cacheNames,
          (s.step t step).2.world.held? cache e.uri = some e) := by
  have hlisted : ∀ e, (initial server).Appears t e steps →
      e.Listed ((initial server).register t steps) := fun e he =>
    (within_initial server).listed_of_appears he
  refine ⟨fun e e' he he' => (hlisted e he).eq_of_serial_eq (hlisted e' he'),
    fun e he => List.mem_of_getElem? (hlisted e he), ?_⟩
  intro before step rest hsplit s
  have hs : s.Within ((initial server).register t before) := (within_initial server).run before
  refine ⟨fun source uri e haction hsource => ?_, ?_, ?_, ?_, hs.given_of_births⟩
  · rw [haction]
    exact (perform_tag_instance uri hsource).2
  · rw [map_serial_births]
    exact List.nodup_range'
  · intro e he e' he'
    have hnew := List.mem_map_of_mem (f := Tagged.serial) he
    have hold := List.mem_map_of_mem (f := Tagged.serial) he'
    rw [map_serial_births, hs.world.serial, List.mem_range'_1] at hnew
    rw [(within_initial server).map_serial_register, List.mem_range'_1, List.length_nil,
      Nat.zero_add] at hold
    omega
  · rw [(hs.step step).2.world.serial, List.length_append, hs.world.serial]

/-- A copy without changes is another instance, and an instance that is tagged is the same,
under its own URI. -/
example :
    ((initial ()).run Stack.unplugged
      [⟨.make ⟨200, ⟨[("ETag", ["v1"])]⟩, .null⟩, some "page"⟩,
        ⟨.tag "page" "http://h", some "held"⟩, ⟨.rebuild "held" [], none⟩,
        ⟨.tag "held" "http://other", none⟩]).1.map
          (fun report => report.outcome.instances.map fun e => (e.serial, e.uri)) =
      [[], [(0, "http://h")], [(1, "http://h")], [(0, "http://h")]] := by
  decide +kernel

end State

end LayeredFetch.Session
