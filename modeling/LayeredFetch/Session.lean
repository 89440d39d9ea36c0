import LayeredFetch.Walk

/-!
Sessions: runs of steps over one server.

A session names its stacks of layers (views), its walks, its caches and the values
it keeps. A step changes them, and a `Report` tells what it gave, which requests
reached the transport during it, and what was reported.
-/

namespace LayeredFetch.Session

/-- A walk, with the stack that it goes through. -/
structure Tour where
  stack : Stack
  walk : Walk

/-- The state of a session over a server with states `σ`. -/
structure State (σ : Type) where
  world : World σ
  views : Table Stack
  tours : Table Tour
  kept : Table Fetched

/-- The state at the beginning. -/
def State.initial {σ : Type} (server : σ) : State σ := ⟨.initial server, .empty, .empty, .empty⟩

/-! ### Steps -/

/-- What a step does. Names come first. -/
inductive Action (σ : Type) where
  /-- Makes a plain value. -/
  | make (resource : Resource)
  /-- Makes a plain copy of a value's resource. -/
  | derive (source : String) (changes : List Resource.Change)
  /-- Makes a copy of a value, tagged if the value is. -/
  | rebuild (source : String) (changes : List Resource.Change)
  /-- Makes a copy of a value if it is tagged. -/
  | rebuildTagged (source : String) (changes : List Resource.Change)
  /-- Makes a value tagged, if it can be. -/
  | tag (source uri : String)
  /-- Shows a value. -/
  | show (source : String)
  /-- Compares the resources of two values. -/
  | compare (left right : String)
  /-- Puts a tagged value into a cache. -/
  | put (source cache uri : String)
  /-- Shows what a cache holds. -/
  | lookup (cache uri : String)
  | remove (cache uri : String)
  | clear (cache : String)
  /-- Changes the server behind the transport. -/
  | adjust (change : σ → σ)
  /-- Sets up a view. -/
  | view (name : String) (stack : Stack)
  /-- Sets up a view like another one, with another token in its outermost layer. -/
  | withToken (view name : String) (token : Token)
  /-- Sets up a view like another one. -/
  | copyView (view name : String)
  /-- Shows the layers of a view. -/
  | describe (view : String)
  | fetch (view : String) (call : Call)
  /-- Begins a walk through a view. -/
  | walk (view name uri : String)
  | pull (tour : String)
  /-- Ends a walk with a search over at most `limit` pages. -/
  | find (tour : String) (wanted : Json → Bool) (limit : Nat)

/-- A step: an action, and the name under which the value that it makes is kept. -/
structure Step (σ : Type) where
  action : Action σ
  keepAs : Option String

/-- A layer as it is shown. -/
inductive LayerView where
  | token (t : Token)
  | cache (size : Nat)

/-- What a step gives. -/
inductive Outcome where
  | nothing
  /-- A name stands for nothing. -/
  | unknown (name : String)
  | value (made : Option Fetched)
  /-- A copy of a tagged value; `notBefore` says that it was not made earlier than
  its source. -/
  | copy (made : Tagged) (notBefore : Bool)
  | verdict (equal : Bool)
  | entry (held : Option Tagged)
  | replaced (old : Option Tagged)
  | layers (outermostFirst : List LayerView)
  | fetched (result : Except FetchError Fetched)
  | begun (walk : Walk)
  | page (result : Except PagingError (Option Fetched)) (walk : Walk)
  | search (s : Search)

/-- The value that a step made. -/
def Outcome.made? : Outcome → Option Fetched
  | value made => made
  | copy made _ => some (.tagged made)
  | entry held => held.map .tagged
  | fetched (.ok f) => some f
  | page (.ok f) _ => f
  | _ => none

/-- What there is to tell about a step. -/
structure Report where
  outcome : Outcome
  exchanges : List Exchange
  events : List Event
  /-- The number of entries of each cache, by name. -/
  cacheSizes : List (String × Nat)

/-! ### What a step does -/

namespace State

variable {σ : Type}

/-- Goes on with the value kept under a name. -/
def withKept (s : State σ) (name : String) (go : Fetched → Outcome × State σ) :
    Outcome × State σ :=
  (s.kept.get? name).elim (.unknown name, s) go

/-- Goes on with the view of a name. -/
def withView (s : State σ) (name : String) (go : Stack → Outcome × State σ) :
    Outcome × State σ :=
  (s.views.get? name).elim (.unknown name, s) go

/-- Goes on with the walk of a name. -/
def withTour (s : State σ) (name : String) (go : Tour → Outcome × State σ) :
    Outcome × State σ :=
  (s.tours.get? name).elim (.unknown name, s) go

/-- The state after the number of a new instance is taken. -/
def mint (s : State σ) : State σ := { s with world := s.world.mint }

/-- The state with a view under a name; its caches are opened. -/
def setView (s : State σ) (name : String) (stack : Stack) : State σ :=
  { s with
    world := stack.cacheNames.foldl World.openCache s.world
    views := s.views.insert name stack }

/-- A layer as it is shown. -/
def viewLayer (s : State σ) : Layer → LayerView
  | .authenticate token => .token token
  | .revalidate cache => .cache (s.world.cache cache).size

/-- Performs an action. -/
def perform (t : Transport σ) (s : State σ) : Action σ → Outcome × State σ
  | .make resource => (.value (some (.plain resource)), s)
  | .derive source changes =>
      s.withKept source fun f => (.value (some (.plain (f.resource.derive changes))), s)
  | .rebuild source changes =>
      s.withKept source fun f =>
        (.value (some (f.rebuild s.world.nextSerial changes)),
          if f.tagged?.isSome then s.mint else s)
  | .rebuildTagged source changes =>
      s.withKept source fun
        | .plain _ => (.value none, s)
        | .tagged old =>
            let made := old.rebuild s.world.nextSerial changes
            (.copy made (decide (old.serial ≤ made.serial)), s.mint)
  | .tag source uri =>
      s.withKept source fun f =>
        let (made, world) := s.world.enroll uri f
        (.value (made.map .tagged), { s with world })
  | .show source => s.withKept source fun f => (.value (some f), s)
  | .compare left right =>
      s.withKept left fun f =>
        s.withKept right fun g => (.verdict (f.resource.same g.resource), s)
  | .put source cache uri =>
      s.withKept source fun
        | .plain _ => (.nothing, s)
        | .tagged made =>
            (.replaced (s.world.held? cache uri), { s with world := s.world.store cache uri made })
  | .lookup cache uri =>
      (.entry (s.world.held? cache uri), { s with world := s.world.openCache cache })
  | .remove cache uri =>
      (.entry (s.world.held? cache uri), { s with world := s.world.drop cache uri })
  | .clear cache => (.nothing, { s with world := s.world.clear cache })
  | .adjust change =>
      (.nothing, { s with world := { s.world with server := change s.world.server } })
  | .view name stack => (.nothing, s.setView name stack)
  | .withToken view name token =>
      s.withView view fun stack =>
        match stack.withToken? token with
        | some stack => (.nothing, s.setView name stack)
        | none => (.unknown view, s)
  | .copyView view name => s.withView view fun stack => (.nothing, s.setView name stack)
  | .describe view => s.withView view fun stack => (.layers (stack.map s.viewLayer), s)
  | .fetch view call =>
      s.withView view fun stack =>
        let (result, world) := stack.call t call s.world
        (.fetched result, { s with world })
  | .walk view name uri =>
      s.withView view fun stack =>
        let walk := Walk.start uri
        (.begun walk, { s with tours := s.tours.insert name ⟨stack, walk⟩ })
  | .pull name =>
      s.withTour name fun tour =>
        let (result, walk, world) := tour.walk.pull t tour.stack s.world
        (.page result walk, { s with world, tours := s.tours.insert name { tour with walk } })
  | .find name wanted limit =>
      s.withTour name fun tour =>
        let (search, world) := tour.walk.find t tour.stack wanted limit s.world
        (.search search, { s with world, tours := s.tours.erase name })

/-- Performs a step, and reports on it. -/
def step (t : Transport σ) (s : State σ) (step : Step σ) : Report × State σ :=
  let (outcome, after) := s.perform t step.action
  let kept :=
    match step.keepAs, outcome.made? with
    | some name, some made => after.kept.insert name made
    | _, _ => after.kept
  let report : Report := {
    outcome
    exchanges := after.world.exchanges.drop s.world.exchanges.length
    events := after.world.events.drop s.world.events.length
    cacheSizes := after.world.caches.entries.map fun (name, cache) => (name, cache.size) }
  (report, { after with kept })

/-- Performs steps one after another, and reports on each. -/
def run (t : Transport σ) (s : State σ) : List (Step σ) → List Report × State σ
  | [] => ([], s)
  | step :: rest =>
      let (report, s) := s.step t step
      let (reports, s) := s.run t rest
      (report :: reports, s)

end State

end LayeredFetch.Session
