import LayeredFetch.Proofs.Cache.Entries
import LayeredFetch.Proofs.Session.Simulation
import LayeredFetch.Proofs.Stack.Failures
import LayeredFetch.Proofs.Stack.LayerOrder

/-!
Sessions with layers in another order.

* `rearranged` is the simulation of a session by one whose stacks have the same tokens and the
  same caches. Layers are shown in another order, and a token may not be replaced by it, since
  then another one may be outermost.
* `Report.Same` is what can then be told of a step: the requests are the same, up to the order
  of their fields, and everything else is equal.
* `State.layer_order_makes_no_difference`: a view with two adjacent layers of different kinds
  exchanged tells the same in every run.
-/

namespace LayeredFetch.Session

variable {σ : Type}

/-- Sessions whose stacks have the same tokens and the same caches, each in the same order. -/
def rearranged : Simulation where
  toSimulation := Stack.rearranged
  likeTokens _ _ := False
  likeViews := List.Perm
  withToken _ h := h.elim
  view {_ s s'} state hs := by
    have hsorted : s.sorted = s'.sorted := by rw [Stack.sorted, Stack.sorted, hs.1, hs.2]
    exact (s.perm_sorted.trans (hsorted ▸ s'.perm_sorted.symm)).map _

/-- There is the same to tell about two steps, but for the order of the fields of requests,
and of the layers that a step shows. -/
structure Report.Same (a b : Report) : Prop where
  outcome : a.outcome = b.outcome ∨
    ∃ views views', a.outcome = .layers views ∧ b.outcome = .layers views' ∧ views.Perm views'
  exchanges : List.Forall₂ (Exchange.Like Request.Same) a.exchanges b.exchanges
  events : a.events = b.events
  cacheSizes : a.cacheSizes = b.cacheSizes

/-- Whether an action replaces a token. -/
def Action.replacesToken : Action σ → Bool
  | .withToken _ _ _ => true
  | _ => false

/-- The request of a fetch has well-formed fields. -/
def Action.IsWellFormed : Action σ → Prop
  | .fetch _ call => call.draft.headers.WellFormed
  | _ => True

/-- Such outcomes are given by sessions with layers in another order. -/
lemma Simulation.Outcomes.eq_or_perm {o o' : Outcome} (h : rearranged.Outcomes o o') :
    o = o' ∨ ∃ views views', o = .layers views ∧ o' = .layers views' ∧ views.Perm views' := by
  cases h with
  | same => exact .inl rfl
  | layers hviews => exact .inr ⟨_, _, rfl, rfl, hviews⟩

/-- Such reports are told by sessions with layers in another order. -/
lemma Simulation.Reports.same {a b : Report} (h : rearranged.Reports a b) : a.Same b where
  outcome := h.outcome.eq_or_perm
  exchanges := h.exchanges
  events := h.events
  cacheSizes := h.cacheSizes

/-- A step is like itself if it replaces no token and its request is well-formed. -/
lemma Step.like_self {C : (σ → σ) → Prop} (step : Step σ)
    (htoken : step.action.replacesToken = false)
    (hcall : step.action.IsWellFormed)
    (hchange : ∀ f, step.action = .adjust f → C f) : rearranged.Steps C step step := by
  refine ⟨?_, rfl⟩
  cases haction : step.action with
  | view name stack => exact .view name ⟨rfl, rfl⟩
  | withToken view name token =>
      rw [haction] at htoken
      cases htoken
  | fetch view call =>
      refine .fetch view fun r hr => ?_
      rcases call.request_eq_error_or_draft with ⟨e, hrequest⟩ | hrequest
      · rw [hrequest] at hr
        cases hr
      · rw [hrequest] at hr
        cases hr
        rw [haction] at hcall
        exact .refl hcall
  | adjust change => exact .adjust (hchange change haction)
  | _ => exact .other _ rfl

namespace State

/-- **The order of layers makes no difference.** Take a view with a layer of authentication
next to one of revalidation, and the view with the two exchanged, set up in any state of a
session over a server whose replies do not depend on the order of the fields of requests.
Whatever is done from there on, except for replacing tokens, the two sessions tell the same
in every report: they give the same, report the same events, and the same requests reach the
transport, up to the order of their fields. They keep the same values, and at the end every
cache is the same. -/
theorem layer_order_makes_no_difference (t : Transport σ) (s : State σ) (name : String)
    (outer inner : Stack) (token : Token) (cache : String) (steps : List (Step σ))
    (hserver : t.Indistinct Request.Same (Changes steps) s.world.server s.world.server)
    (htokens : ∀ step ∈ steps, step.action.replacesToken = false)
    (hcalls : ∀ step ∈ steps, step.action.IsWellFormed) :
    let first := (s.setView name
      (outer ++ .authenticate token :: .revalidate cache :: inner)).run t steps
    let second := (s.setView name
      (outer ++ .revalidate cache :: .authenticate token :: inner)).run t steps
    List.Forall₂ Report.Same first.1 second.1 ∧ first.2.kept = second.2.kept ∧
      first.2.world.caches = second.2.world.caches := by
  have hstart : Coupled t rearranged (Changes steps) s.world.exchanges s.world.exchanges s s :=
    { world := ⟨hserver, rfl, rfl, .refl _ _ _, rfl⟩
      views := Table.like_self fun _ => ⟨rfl, rfl⟩
      tours := Table.like_self fun _ => ⟨⟨rfl, rfl⟩, rfl⟩
      kept := rfl }
  have hsteps : List.Forall₂ (rearranged.Steps (Changes steps)) steps steps :=
    List.forall₂_same.mpr fun step hstep => step.like_self (htokens step hstep)
      (hcalls step hstep) fun _ hf => ⟨step, hstep, hf⟩
  obtain ⟨hreports, hend⟩ :=
    (hstart.setView name (Stack.rearranged_swap outer inner token cache)).run hsteps
  exact ⟨hreports.imp fun _ _ hreport => hreport.same, hend.kept, hend.world.caches⟩

/-- A session that gets a page twice, with a field of its own. -/
def visits : List (Step Unit) :=
  [⟨.fetch "site" (.get "http://h" ⟨[("Accept", ["text"])]⟩), some "page"⟩,
    ⟨.fetch "site" (.get "http://h" ⟨[("Accept", ["text"])]⟩), some "page"⟩,
    ⟨.describe "site", none⟩]

/-- The session tells the same over both orders of two layers, although the fields of the
second request come in another order. -/
theorem layer_order_makes_no_difference_visits :
    List.Forall₂ Report.Same
      (((initial ()).setView "site"
        [.authenticate ⟨.bearer, "a"⟩, .revalidate "pages"]).run onePage visits).1
      (((initial ()).setView "site"
        [.revalidate "pages", .authenticate ⟨.bearer, "a"⟩]).run onePage visits).1 ∧
    (((initial ()).setView "site" [.authenticate ⟨.bearer, "a"⟩, .revalidate "pages"]).run
      onePage visits).2.world.exchanges.map (fun x => x.request.headers.entries.map Prod.fst) =
      [["Accept", "Authorization"], ["Accept", "Authorization", "If-None-Match"]] ∧
    (((initial ()).setView "site" [.revalidate "pages", .authenticate ⟨.bearer, "a"⟩]).run
      onePage visits).2.world.exchanges.map (fun x => x.request.headers.entries.map Prod.fst) =
      [["Accept", "Authorization"], ["Accept", "If-None-Match", "Authorization"]] := by
  have hserver : onePage.Indistinct Request.Same (Changes visits) () () := by
    refine Transport.indistinct_of_reply_eq _ ?_ () ()
    intro a b q q' hq
    have hfield := hq.wellFormed.all_eq_of_same hq.wellFormed' hq.headers "If-None-Match"
    simp only [onePage, hq.method, hfield]
  have hfields : Headers.WellFormed ⟨[("Accept", ["text"])]⟩ := ⟨by decide, by decide⟩
  have hcalls : ∀ step ∈ visits, step.action.IsWellFormed :=
    List.forall_mem_cons.mpr ⟨hfields, List.forall_mem_cons.mpr
      ⟨hfields, List.forall_mem_singleton.mpr trivial⟩⟩
  exact ⟨(layer_order_makes_no_difference onePage (initial ()) "site" [] [] ⟨.bearer, "a"⟩
    "pages" visits hserver (by decide) hcalls).1, by decide +kernel, by decide +kernel⟩

end State

end LayeredFetch.Session
