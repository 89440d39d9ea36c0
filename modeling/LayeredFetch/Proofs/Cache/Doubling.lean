import LayeredFetch.Proofs.Cache.Entries
import LayeredFetch.Proofs.Headers.Order
import LayeredFetch.Proofs.Stack.Likeness

/-!
A cache that two layers in a row use.

The inner layer changes the cache between the moment when the outer one reads it and the moment
when the outer one writes it. But it sends what the outer one would send, and what it gives is
what the cache then holds, or something that no layer has a use for.

* `World.Agrees`: two worlds are the same but for what was reported in them and for the order in
  which their caches keep entries. Everything that layers do keeps that (`Agrees.likeness`).
  `World.Agreeing`: the same is given, and such worlds are left.
* `Stack.Interchangeable`: over caches that hold successes only, two stacks cannot be told apart.
  Then they cannot be within other layers either (`Interchangeable.append`), nor by any sequence of
  calls (`Interchangeable.trail`).
* `Stack.interchangeable_doubled` is the one step: of two layers in a row that use one cache, the
  outer one makes no difference.
* `caching_twice_is_caching_once`: so it makes none to any sequence of calls.
-/

namespace LayeredFetch

/-- An entity tag that is put in twice is put in once. -/
lemma Request.revalidating_revalidating (r : Request) (held : Option Tagged) :
    (r.revalidating held).revalidating held = r.revalidating held := by
  cases held with
  | none => rfl
  | some e =>
      have hfields := r.headers.insert_insert_self "If-None-Match" e.etag e.etag
      exact congrArg (fun h => { r with headers := h }) hfields

namespace World

variable {σ : Type} {t : Transport σ} {w m m' : World σ} {cache uri : String}

/-! ### Worlds that agree -/

/-- Two worlds are the same, but for their events and the order of entries in caches. -/
structure Agrees (w m : World σ) : Prop where
  server : w.server = m.server
  held : ∀ cache uri, w.held? cache uri = m.held? cache uri
  serial : w.nextSerial = m.nextSerial
  exchanges : w.exchanges = m.exchanges

namespace Agrees

lemma refl (w : World σ) : w.Agrees w := ⟨rfl, fun _ _ => rfl, rfl, rfl⟩

lemma trans (h : w.Agrees m) (h' : m.Agrees m') : w.Agrees m' :=
  ⟨h.server.trans h'.server, fun c u => (h.held c u).trans (h'.held c u),
    h.serial.trans h'.serial, h.exchanges.trans h'.exchanges⟩

lemma mint (h : w.Agrees m) : w.mint.Agrees m.mint :=
  { h with serial := congrArg (· + 1) h.serial }

/-- Whatever is reported, and wherever. -/
lemma report (h : w.Agrees m) (e e' : Event) : (w.report e).Agrees (m.report e') :=
  ⟨h.server, h.held, h.serial, h.exchanges⟩

lemma store (h : w.Agrees m) (cache uri : String) (e : Tagged) :
    (w.store cache uri e).Agrees (m.store cache uri e) := by
  refine { h with held := fun c u => ?_ }
  rw [held?_store, held?_store, h.held]

/-- To store what is held is to change nothing. -/
lemma store_held {e : Tagged} (h : w.held? cache uri = some e) :
    (w.store cache uri e).Agrees w := by
  refine ⟨rfl, fun c u => ?_, rfl, rfl⟩
  rw [held?_store]
  split
  · next hin => rw [hin.1, hin.2, h]
  · rfl

/-- Layers cannot tell such worlds apart. -/
lemma likeness (uri : String) : Likeness id uri (Agrees (σ := σ)) where
  content h := by
    obtain rfl := h
    exact ⟨rfl, rfl⟩
  held h cache := by rw [h.held]
  fresh h etag r := by rw [h.serial]
  mint h := h.mint
  report h e := h.report e e
  store h cache e e' he := by
    obtain rfl := he
    exact h.store cache uri e

end Agrees

/-- The same is given, in worlds that agree. -/
structure Agreeing {α : Type} (x y : α × World σ) : Prop where
  given : x.1 = y.1
  after : x.2.Agrees y.2

namespace Agreeing

variable {α : Type} {x y z : α × World σ}

lemma refl (x : α × World σ) : Agreeing x x := ⟨rfl, Agrees.refl x.2⟩

lemma trans (h : Agreeing x y) (h' : Agreeing y z) : Agreeing x z :=
  ⟨h.given.trans h'.given, h.after.trans h'.after⟩

end Agreeing

/-- The same request is answered in the same way. -/
lemma Agrees.send (h : w.Agrees m) (q : Request) : Agreeing (w.send t q) (m.send t q) := by
  obtain ⟨hserver, hheld, hserial, hexchanges⟩ := h
  constructor
  · simp only [World.send, hserver]
  · simp only [World.send, hserver, hexchanges]
    exact ⟨rfl, hheld, hserial, rfl⟩

/-! ### Worlds that hold successes -/

/-- Everything that is held is a success. -/
def Sound (w : World σ) : Prop :=
  ∀ cache uri e, w.held? cache uri = some e → e.resource.isSuccess = true

namespace Sound

/-- It stays so when a success is spread. -/
lemma of_spread (h : w.Sound) {caches : List String} {e : Tagged}
    (hspread : w.Spread m caches uri e) (he : e.resource.isSuccess = true) : m.Sound := by
  intro c u e' he'
  rw [hspread c u] at he'
  split at he'
  · exact Option.some.inj he' ▸ he
  · exact h c u e' he'

/-- **It stays so** in every request, through any stack. -/
lemma request (h : w.Sound) (s : Stack) (r : Request) : (s.request t r w).2.Sound := by
  have hcourse := s.request_course (t := t) (r := r) fun c _ e he => h c r.uri e he
  generalize (s.request t r w).1 = result at hcourse
  generalize (s.request t r w).2 = w' at hcourse ⊢
  cases hcourse with
  | refused => exact h
  | failed _ _ held => exact fun c u e he => h c u e (held c u ▸ he)
  | passed _ _ held => exact fun c u e he => h c u e (held c u ▸ he)
  | fresh _ _ _ _ success _ spread => exact h.of_spread spread success
  | current _ _ _ held _ _ _ spread => exact h.of_spread spread (h _ _ _ held)

/-- So in every call. -/
lemma call (h : w.Sound) (s : Stack) (c : Call) : (s.call t c w).2.Sound := by
  rw [Stack.call]
  cases c.request with
  | error e => exact h
  | ok r => exact h.request s r

end Sound

end World

namespace Stack

open World (Agrees Agreeing Sound)

variable {s s' : Stack}

/-! ### Stacks that cannot be told apart -/

/-- Two stacks give the same, and leave worlds that agree, whatever is requested in worlds that
agree and hold successes only. -/
def Interchangeable (s s' : Stack) : Prop :=
  ∀ {σ : Type} (t : Transport σ) (r : Request) (w m : World σ), w.Agrees m → w.Sound →
    Agreeing (s.request t r w) (s'.request t r m)

namespace Interchangeable

/-- A stack does the same in all worlds that agree. -/
lemma refl (s : Stack) : Interchangeable s s := by
  intro σ t r w m h _
  have hsame : s.outgoing w r = s.outgoing m r := s.outgoing_congr fun _ cache => by rw [h.held]
  have hsent : Agreeing (w.send t (s.outgoing w r)) (m.send t (s.outgoing m r)) := by
    rw [hsame]
    exact h.send _
  obtain ⟨hresult, hafter⟩ :=
    (Agrees.likeness r.uri).request h rfl rfl rfl rfl ⟨hsent.given, hsent.after⟩
  rw [Fetched.map_id, Except.map_id] at hresult
  exact ⟨hresult, hafter⟩

/-- A layer around them makes no difference. -/
lemma cons (h : Interchangeable s s') (layer : Layer) :
    Interchangeable (layer :: s) (layer :: s') := by
  intro σ t r w m hagrees hsound
  cases layer with
  | authenticate token => exact h t (token.sign r) w m hagrees hsound
  | revalidate cache =>
      rw [request, request, ← hagrees.held]
      split
      · cases r.verify with
        | error e => exact ⟨rfl, hagrees⟩
        | ok _ =>
            obtain ⟨hresult, hafter⟩ :=
              h t (r.revalidating (w.held? cache r.uri)) w m hagrees hsound
            dsimp only
            generalize request t s _ w = x at hresult hafter ⊢
            generalize request t s' _ m = y at hresult hafter ⊢
            obtain ⟨result, w'⟩ := x
            obtain ⟨result', m'⟩ := y
            obtain rfl : result = result' := hresult
            cases result with
            | error e => exact ⟨rfl, hafter⟩
            | ok answer =>
                have hheld : (w.held? cache r.uri).map id = (w.held? cache r.uri).map id := rfl
                obtain ⟨hanswer, hsettled⟩ :=
                  (Agrees.likeness r.uri).settle hafter cache hheld (a := answer) rfl
                rw [Fetched.map_id] at hanswer
                exact ⟨congrArg Except.ok hanswer, hsettled⟩
      · exact h t r w m hagrees hsound

/-- Nor do many. -/
lemma append (h : Interchangeable s s') (outer : Stack) :
    Interchangeable (outer ++ s) (outer ++ s') := by
  induction outer with
  | nil => exact h
  | cons layer outer ih => exact ih.cons layer

/-- So calls give the same. -/
lemma call (h : Interchangeable s s') {σ : Type} {t : Transport σ} {w m : World σ}
    (hagrees : w.Agrees m) (hsound : w.Sound) (c : Call) :
    Agreeing (s.call t c w) (s'.call t c m) := by
  rw [Stack.call, Stack.call]
  cases c.request with
  | error e => exact ⟨rfl, hagrees⟩
  | ok r => exact h t r w m hagrees hsound

end Interchangeable

/-- What calls through a stack give, one after the other, with the world after each. -/
def trail {σ : Type} (t : Transport σ) (s : Stack) :
    List Call → World σ → List (Except FetchError Fetched × World σ)
  | [], _ => []
  | c :: calls, w => s.call t c w :: trail t s calls (s.call t c w).2

/-- **Any sequence of calls** gives the same, and leaves worlds that agree after each of them. -/
lemma Interchangeable.trail (h : Interchangeable s s') {σ : Type} {t : Transport σ}
    {w m : World σ} (hagrees : w.Agrees m) (hsound : w.Sound) (calls : List Call) :
    List.Forall₂ Agreeing (s.trail t calls w) (s'.trail t calls m) := by
  induction calls generalizing w m with
  | nil => exact .nil
  | cons c calls ih =>
      have hcall := h.call (t := t) hagrees hsound c
      exact .cons hcall (ih hcall.after (hsound.call s c))

/-! ### Two layers in a row -/

section

variable {σ : Type} {t : Transport σ} {w w' : World σ} {cache : String} {inner : Stack}
variable {r : Request} {e : Tagged} {answer : Fetched}

/-- What a layer does with a valid GET. -/
lemma request_revalidate (hget : r.method = .get) (hv : r.verify = .ok ()) :
    request t (.revalidate cache :: inner) r w =
      match request t inner (r.revalidating (w.held? cache r.uri)) w with
      | (.error e, w') => (.error e, w')
      | (.ok answer, w') =>
          (.ok (w'.settle cache r.uri (w.held? cache r.uri) answer).1,
            (w'.settle cache r.uri (w.held? cache r.uri) answer).2) := by
  rcases hinner : request t inner (r.revalidating (w.held? cache r.uri)) w with ⟨_ | answer, w'⟩
  · simp only [request, hget, if_true, hv, hinner]
  · simp only [request, hget, if_true, hv, hinner]

/-- A layer sends the entity tag that it would send if the request had it already. -/
lemma request_revalidating (hget : r.method = .get) (hv : r.verify = .ok ()) :
    request t (.revalidate cache :: inner) (r.revalidating (w.held? cache r.uri)) w =
      request t (.revalidate cache :: inner) r w := by
  rw [request_revalidate hget hv, request_revalidate ((r.method_revalidating _).trans hget)
    ((r.verify_revalidating _).trans hv), r.uri_revalidating, r.revalidating_revalidating]

/-- An instance that a layer gives is a success, and its cache holds it afterwards, whether it
was held before or has only now been made. -/
lemma Course.held_of_tagged (hsound : w.Sound)
    (h : Course t (.revalidate cache :: inner) r w (.ok (.tagged e)) w') :
    w'.held? cache r.uri = some e ∧ e.resource.isSuccess = true := by
  cases h with
  | fresh _ _ _ _ success _ spread =>
      refine ⟨?_, success⟩
      rw [spread, if_pos ⟨List.mem_cons_self, rfl⟩]
  | @current _ outer _ cache' _ _ _ _ split held _ _ _ spread =>
      refine ⟨?_, hsound _ _ _ held⟩
      rw [spread]
      cases outer with
      | nil =>
          -- the layer is the innermost one that held the instance
          cases split
          simpa using held
      | cons layer outer =>
          cases split
          rw [if_pos ⟨List.mem_cons_self, rfl⟩]

/-- A layer has no use for a plain answer that another one with its cache has given. -/
lemma Course.settle_plain {reply : Resource} (hget : r.method = .get)
    (h : Course t (.revalidate cache :: inner) r w (.ok (.plain reply)) w') :
    w'.settle cache r.uri (w.held? cache r.uri) (.plain reply) = (.plain reply, w') := by
  cases h with
  | passed _ _ _ _ useless unheld =>
      exact World.settle_passed (fun hnm => unheld hget hnm cache List.mem_cons_self)
        (useless hget (List.cons_ne_nil _ _))

/-- **What a layer gives needs no settling** with the same cache, though that may hold something
else now than it did when the request came. -/
lemma Course.settle_again (hsound : w.Sound) (hget : r.method = .get)
    (h : Course t (.revalidate cache :: inner) r w (.ok answer) w') :
    Agreeing (w'.settle cache r.uri (w.held? cache r.uri) answer) (answer, w') := by
  cases answer with
  | plain reply =>
      rw [h.settle_plain hget]
      exact Agreeing.refl _
  | tagged e =>
      obtain ⟨hheld, hsuccess⟩ := h.held_of_tagged hsound
      rw [World.settle_tagged hsuccess]
      have hreported : (w'.report (.caching r.uri e.etag)).Agrees w' :=
        ⟨rfl, fun _ _ => rfl, rfl, rfl⟩
      exact ⟨rfl, (Agrees.store_held (w := w'.report _) hheld).trans hreported⟩

/-- Two layers in a row with one cache do what one of them does. -/
lemma request_doubled (hsound : w.Sound) (cache : String) (inner : Stack) (r : Request) :
    Agreeing (request t (.revalidate cache :: .revalidate cache :: inner) r w)
      (request t (.revalidate cache :: inner) r w) := by
  by_cases hget : r.method = .get
  · cases hv : r.verify with
    | error e =>
        have hrefuses : ∀ inner, Refuses (.revalidate cache :: inner) r e := fun _ =>
          ⟨hget, List.cons_ne_nil _ _, hv⟩
        rw [request_of_refuses _ (hrefuses _), request_of_refuses _ (hrefuses _)]
        exact Agreeing.refl _
    | ok _ =>
        have hcourse := request_course (t := t) (w := w) (r := r) (.revalidate cache :: inner)
          fun c _ e he => hsound c r.uri e he
        rw [request_revalidate hget hv, request_revalidating hget hv]
        generalize request t (.revalidate cache :: inner) r w = out at hcourse ⊢
        obtain ⟨result, w'⟩ := out
        cases result with
        | error e => exact Agreeing.refl _
        | ok answer =>
            obtain ⟨hanswer, hafter⟩ := hcourse.settle_again hsound hget
            exact ⟨congrArg Except.ok hanswer, hafter⟩
  · have hsame : request t (.revalidate cache :: .revalidate cache :: inner) r w =
        request t (.revalidate cache :: inner) r w := by
      rw [request, if_neg hget]
    rw [hsame]
    exact Agreeing.refl _

end

/-- **The outer of two layers in a row makes no difference** if they use one cache. -/
theorem interchangeable_doubled (cache : String) (inner : Stack) :
    Interchangeable (.revalidate cache :: .revalidate cache :: inner)
      (.revalidate cache :: inner) := by
  intro σ t r w m hagrees hsound
  have hsame := Interchangeable.refl (.revalidate cache :: inner) t r w m hagrees hsound
  exact (request_doubled hsound cache inner r).trans hsame

end Stack

/-! ### Any sequence of calls -/

/-- In some run, where only calls through stacks put anything into caches, a cache comes to hold
an instance under a URI. -/
def Tagged.Attainable (e : Tagged) (uri : String) : Prop :=
  ∃ (τ : Type) (t : Transport τ) (server : τ) (steps : List (Session.Step τ)) (cache : String),
    Session.HandsOff steps ∧ (Session.worldAfter t server steps).held? cache uri = some e

/-- Every entry of every cache is attainable, each perhaps in a run of its own. -/
def World.Attainable {σ : Type} (w : World σ) : Prop :=
  ∀ cache uri e, w.held? cache uri = some e → e.Attainable uri

/-- Only successes are attainable. -/
lemma World.Attainable.sound {σ : Type} {w : World σ} (h : w.Attainable) : w.Sound := by
  intro cache uri e he
  obtain ⟨τ, t, server, steps, cache', hput, he'⟩ := h cache uri e he
  exact ((Session.genuine_run hput).1 cache' uri e he').success

/-- What a run ends with is attainable. -/
lemma Session.attainable_worldAfter {σ : Type} (t : Transport σ) (server : σ)
    {steps : List (Step σ)} (hput : HandsOff steps) : (worldAfter t server steps).Attainable :=
  fun cache _ _ he => ⟨σ, t, server, steps, cache, hput, he⟩

namespace Stack

variable {σ : Type}

/-- **Caching twice with one cache is caching once.** Let a stack have two layers in a row that
revalidate against one cache, and let the caches hold what is attainable. Then each of any
calls gives the same as through the stack without the outer one of these layers, down to the
serial number of an instance. The two worlds agree after each call: the same requests have
reached the transport, with the same fields, and every cache holds the same. -/
theorem caching_twice_is_caching_once (t : Transport σ) (outer inner : Stack) (cache : String)
    (w : World σ) (hw : w.Attainable) (calls : List Call) :
    List.Forall₂ World.Agreeing
      ((outer ++ .revalidate cache :: .revalidate cache :: inner).trail t calls w)
      ((outer ++ .revalidate cache :: inner).trail t calls w) := by
  have hdoubled : Interchangeable (outer ++ .revalidate cache :: .revalidate cache :: inner)
      (outer ++ .revalidate cache :: inner) :=
    Interchangeable.append (interchangeable_doubled cache inner) outer
  exact hdoubled.trail (World.Agrees.refl w) hw.sound calls

/-- The cache holds a page. It is asked for, something is deleted, another page is asked for, and
a request that is not valid is made. -/
theorem caching_twice_is_caching_once_page :
    let w := Session.worldAfter Session.onePage () Session.twice
    let calls : List Call := [.raw Session.getPage, .delete "http://h", .get "http://h/2" ∅,
      .raw { Session.getPage with body := some .null }]
    let doubled := trail Session.onePage [.revalidate "pages", .revalidate "pages"] calls w
    List.Forall₂ World.Agreeing doubled
        (trail Session.onePage [.revalidate "pages"] calls w) ∧
      (w.held? "pages" "http://h").isSome = true ∧
      doubled.map (fun x => x.1.toOption.map (·.resource.status)) =
        [some 200, some 200, some 200, none] ∧
      doubled.map (fun x => x.2.exchanges.length) = [3, 4, 5, 5] := by
  intro w calls doubled
  have hw : w.Attainable := Session.attainable_worldAfter Session.onePage () (by decide)
  refine ⟨caching_twice_is_caching_once Session.onePage [] [] "pages" w hw calls, ?_, ?_, ?_⟩
  all_goals decide +kernel

end Stack

end LayeredFetch
