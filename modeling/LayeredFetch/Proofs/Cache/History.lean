import Mathlib.Data.List.Induction
import LayeredFetch.Proofs.Cache.Entries

/-!
Caches as histories, when every view has a single cache.

* `Made.Enters` is the one thing that puts an instance into a cache: a GET, valid,
  answered with a success that carries an entity tag. `Deed.Forgets` is the one
  thing that takes an instance out.
* `Made.held_after`: what is held after a call is what the call entered, or else what
  was held before.
* `held_history`: what a cache holds is read off the record, as the instance that
  the last deed to concern it entered.
-/

namespace LayeredFetch

/-! ### The last of its kind -/

/-- Some element of a list has `P`, and none after it has `Q`. -/
def Since {α : Type} (P Q : α → Prop) (xs : List α) : Prop :=
  ∃ before a after, xs = before ++ a :: after ∧ P a ∧ ∀ b ∈ after, ¬ Q b

section Since

variable {α : Type} {P Q : α → Prop} {xs : List α}

lemma not_since_nil : ¬ Since P Q [] := by
  rintro ⟨before, a, after, h, -⟩
  cases before <;> cases h

/-- With one more element, that element is the one, or does not come between. -/
lemma since_concat (x : α) : Since P Q (xs ++ [x]) ↔ P x ∨ ¬ Q x ∧ Since P Q xs := by
  constructor
  · rintro ⟨before, a, after, h, ha, hafter⟩
    rcases List.eq_nil_or_concat after with rfl | ⟨after, b, rfl⟩
    · obtain ⟨-, hx⟩ := List.append_inj' h rfl
      rw [List.singleton_inj.mp hx]
      exact .inl ha
    · have hsplit : xs ++ [x] = (before ++ a :: after) ++ [b] := by simpa using h
      obtain ⟨rfl, hx⟩ := List.append_inj' hsplit rfl
      rw [List.singleton_inj.mp hx]
      exact .inr ⟨hafter b (by simp), before, a, after, rfl, ha,
        fun c hc => hafter c (by simp [hc])⟩
  · rintro (hx | ⟨hx, before, a, after, rfl, ha, hafter⟩)
    · exact ⟨xs, x, [], rfl, hx, by simp⟩
    · refine ⟨before, a, after ++ [x], by simp, ha, fun b hb => ?_⟩
      rcases List.mem_append.mp hb with hb | hb
      · exact hafter b hb
      · rwa [List.mem_singleton.mp hb]

/-- Nothing changes where no element has `Q` and none has `P`. -/
lemma since_append {ys : List α} (h : ∀ b ∈ ys, ¬ P b ∧ ¬ Q b) :
    Since P Q (xs ++ ys) ↔ Since P Q xs := by
  induction ys generalizing xs with
  | nil => rw [List.append_nil]
  | cons y ys ih =>
      obtain ⟨hP, hQ⟩ := h y List.mem_cons_self
      rw [List.append_cons, ih fun b hb => h b (List.mem_cons_of_mem y hb), since_concat]
      simp [hP, hQ]

/-- The element is found together with what it has `P` for. -/
lemma since_exists {ι : Type} {P : ι → α → Prop} :
    Since (fun a => ∃ i, P i a) Q xs ↔ ∃ i, Since (P i) Q xs := by
  constructor
  · rintro ⟨before, a, after, h, ⟨i, hi⟩, hafter⟩
    exact ⟨i, before, a, after, h, hi, hafter⟩
  · rintro ⟨i, before, a, after, h, hi, hafter⟩
    exact ⟨before, a, after, h, ⟨i, hi⟩, hafter⟩

/-- Of the elements with `P` the last is as good as any. -/
lemma since_last : Since P Q xs ↔ Since P (fun a => Q a ∨ P a) xs := by
  induction xs using List.reverseRecOn with
  | nil => exact iff_of_false not_since_nil not_since_nil
  | append_singleton xs x ih =>
      rw [since_concat, since_concat, ih]
      by_cases hP : P x
      · simp [hP]
      · simp [hP]

end Since

namespace Session

open World (SameHeld Spread)

variable {σ : Type} {t : Transport σ}

/-! ### What puts an instance in, and what takes it out -/

/-- A call enters an instance into a cache: it is a GET, it is valid, the stack uses the
cache, and the answer is a success with an entity tag. The instance is the answer,
under that tag, with the next serial number. -/
structure Made.Enters (t : Transport σ) (m : Made σ) (cache : String)
    (e : Tagged) : Prop where
  uses : cache ∈ m.stack.cacheNames
  request : ∃ r, m.call.request = .ok r ∧
    r.method = .get ∧ r.uri = e.uri ∧ r.verify = .ok ()
  answered : ∃ q, (m.after t).exchanges = m.world.exchanges ++ [⟨q, .ok e.resource⟩]
  success : e.resource.isSuccess = true
  tag : e.resource.headers.first? "ETag" = some e.etag
  serial : e.serial = m.world.nextSerial

namespace Deed

/-- A deed enters an instance into a cache if it is a call that does. -/
def Enters (t : Transport σ) (cache : String) (e : Tagged) : Deed σ → Prop
  | called m => m.Enters t cache e
  | removed _ _ => False
  | cleared _ => False

/-- A deed takes out what a cache holds under a URI. -/
def Forgets (cache uri : String) : Deed σ → Prop
  | called _ => False
  | removed c u => c = cache ∧ u = uri
  | cleared c => c = cache

/-- A deed enters an instance into a cache under a URI. -/
def EntersAt (t : Transport σ) (cache uri : String) (d : Deed σ) : Prop :=
  ∃ e, e.uri = uri ∧ d.Enters t cache e

/-- A deed concerns what a cache holds under a URI. -/
def Concerns (t : Transport σ) (cache uri : String) (d : Deed σ) : Prop :=
  d.Forgets cache uri ∨ d.EntersAt t cache uri

variable {t : Transport σ} {c u cache uri : String}

@[simp] lemma concerns_removed :
    (removed c u : Deed σ).Concerns t cache uri ↔ c = cache ∧ u = uri := by
  simp [Concerns, Forgets, EntersAt, Enters]

@[simp] lemma concerns_cleared : (cleared c : Deed σ).Concerns t cache uri ↔ c = cache := by
  simp [Concerns, Forgets, EntersAt, Enters]

end Deed

/-! ### One call -/

variable {m : Made σ} {cache uri : String} {e : Tagged}

/-- What a call enters is one to be held. -/
lemma Made.Enters.isCacheable (h : m.Enters t cache e) : e.resource.isCacheable = true := by
  rw [Resource.isCacheable, h.success, Resource.etag?, h.tag]
  rfl

/-- What a call enters, it asks for. -/
lemma Made.Enters.get_and_uri (h : m.Enters t cache e) {r : Request}
    (hr : m.call.request = .ok r) : r.method = .get ∧ r.uri = e.uri := by
  obtain ⟨r', hr', hget, huri, -⟩ := h.request
  obtain rfl := Except.ok.inj (hr.symm.trans hr')
  exact ⟨hget, huri⟩

/-- What a call enters is what the transport answered. -/
lemma Made.Enters.outcome_eq (h : m.Enters t cache e) {q : Request}
    {outcome : Except FetchError Resource}
    (sent : m.world.Exchanged t (m.after t) q outcome) : outcome = .ok e.resource := by
  obtain ⟨q', hanswered⟩ := h.answered
  exact (sent.eq_of_exchanges hanswered).2

/-- A call through a stack with one cache enters nothing and changes nothing, or enters one
instance and puts it into that cache. -/
lemma Made.idle_or_enters (hgen : m.world.Genuine) (hone : m.stack.cacheNames.length = 1) :
    (SameHeld m.world (m.after t) ∧ ∀ cache e, ¬ m.Enters t cache e) ∨
      ∃ e, Spread m.world (m.after t) m.stack.cacheNames e.uri e ∧
        ∀ cache e', m.Enters t cache e' ↔ cache ∈ m.stack.cacheNames ∧ e' = e := by
  cases hr : m.call.request with
  | error e =>
      refine .inl ⟨fun _ _ => ?_, fun cache e' h => ?_⟩
      · rw [Made.after, Stack.call, hr]
      · obtain ⟨r, hr', -⟩ := h.request
        cases hr.symm.trans hr'
  | ok r =>
      have hcourse := m.course (t := t) hgen hr
      generalize m.result t = result at hcourse
      generalize hafter : m.after t = after at hcourse ⊢
      cases hcourse with
      | refused =>
          refine .inl ⟨fun _ _ => rfl, fun cache e h => ?_⟩
          obtain ⟨q, hanswered⟩ := h.answered
          rw [hafter] at hanswered
          cases List.self_eq_append_right.mp hanswered
      | failed _ sent held =>
          refine .inl ⟨held, fun cache e h => ?_⟩
          cases h.outcome_eq (hafter ▸ sent)
      | passed _ sent held _ useless =>
          refine .inl ⟨held, fun cache e h => ?_⟩
          obtain rfl := Except.ok.inj (h.outcome_eq (hafter ▸ sent))
          have hget := (h.get_and_uri hr).1
          cases h.isCacheable.symm.trans (useless hget (List.ne_nil_of_mem h.uses))
      | @fresh reply etag _ get valid _ sent success tag spread =>
          refine .inr ⟨⟨m.world.nextSerial, r.uri, etag, reply⟩, spread, fun cache e => ?_⟩
          constructor
          · intro h
            have huri := (h.get_and_uri hr).2
            have hreply : reply = e.resource := Except.ok.inj (h.outcome_eq (hafter ▸ sent))
            have htag : etag = e.etag :=
              Option.some.inj (tag.symm.trans ((congrArg Resource.etag? hreply).trans h.tag))
            refine ⟨h.uses, ?_⟩
            rw [← h.serial, huri, htag, hreply]
          · rintro ⟨huses, rfl⟩
            exact ⟨huses, ⟨r, hr, get, rfl, valid⟩, ⟨_, hafter ▸ sent.exchanges_eq⟩,
              success, tag, rfl⟩
      | @current _ outer _ _ _ _ _ _ split _ _ sent notModified spread =>
          -- there is no layer outside of the one that held the instance
          refine .inl ⟨fun c u => ?_, fun cache e h => ?_⟩
          · rw [split, Stack.cacheNames_append, Stack.cacheNames_revalidate,
              List.length_append, List.length_cons] at hone
            have houter : Stack.cacheNames outer = [] :=
              List.eq_nil_of_length_eq_zero (by omega)
            rw [spread c u, houter]
            simp
          · obtain rfl := Except.ok.inj (h.outcome_eq (hafter ▸ sent))
            cases h.isCacheable.symm.trans (Resource.isCacheable_of_isNotModified notModified)

/-- **What is held after a call** through a stack with one cache is what the call entered,
or else what was held before. -/
lemma Made.held_after (hgen : m.world.Genuine) (hone : m.stack.cacheNames.length = 1) :
    (m.after t).held? cache uri = some e ↔
      (e.uri = uri ∧ m.Enters t cache e) ∨
        ¬ (Deed.called m).Concerns t cache uri ∧ m.world.held? cache uri = some e := by
  rcases m.idle_or_enters (t := t) hgen hone with ⟨hheld, hnone⟩ | ⟨e₀, hspread, henters⟩
  · have hidle : ¬ (Deed.called m).Concerns t cache uri := by
      rintro (h | ⟨e', -, h⟩)
      · exact h
      · exact hnone cache e' h
    rw [hheld cache uri]
    refine ⟨fun h => .inr ⟨hidle, h⟩, ?_⟩
    rintro (⟨-, h⟩ | ⟨-, h⟩)
    · exact absurd h (hnone cache e)
    · exact h
  · rw [hspread cache uri, henters]
    by_cases hin : cache ∈ m.stack.cacheNames ∧ uri = e₀.uri
    · obtain ⟨hcache, rfl⟩ := hin
      have hconcerns : (Deed.called m).Concerns t cache e₀.uri :=
        .inr ⟨e₀, rfl, (henters cache e₀).mpr ⟨hcache, rfl⟩⟩
      rw [if_pos ⟨hcache, rfl⟩]
      constructor
      · intro h
        obtain rfl := Option.some.inj h
        exact .inl ⟨rfl, hcache, rfl⟩
      · rintro (⟨-, -, rfl⟩ | ⟨hidle, -⟩)
        · rfl
        · exact absurd hconcerns hidle
    · have hidle : ¬ (Deed.called m).Concerns t cache uri := by
        rintro (h | ⟨e', huri, h⟩)
        · exact h
        · obtain ⟨hcache, rfl⟩ := (henters cache e').mp h
          exact hin ⟨hcache, huri.symm⟩
      rw [if_neg hin]
      refine ⟨fun h => .inr ⟨hidle, h⟩, ?_⟩
      rintro (⟨huri, hcache, rfl⟩ | ⟨-, h⟩)
      · exact absurd ⟨hcache, huri.symm⟩ hin
      · exact h

/-! ### Every run -/

/-- That what is held is what the last deed to concern it entered is an invariant of every
run whose views have one cache each. -/
lemma history_invariant (t : Transport σ) :
    Invariant t (fun s => s.cacheNames.length = 1) fun ds w =>
      w.Genuine ∧ ∀ cache uri e, w.held? cache uri = some e ↔
        Since (fun d => e.uri = uri ∧ d.Enters t cache e) (Deed.Concerns t cache uri) ds where
  quiet hP hq := by
    refine ⟨hP.1.of_quiet hq, fun cache uri e => ?_⟩
    rw [hq.held cache uri]
    exact hP.2 cache uri e
  called {ds m} hone hP := by
    refine ⟨hP.1.call _ _, fun cache uri e => ?_⟩
    rw [m.held_after hP.1 hone, since_concat, hP.2 cache uri e]
    rfl
  removed {ds w} c u hP := by
    refine ⟨hP.1.drop c u, fun cache uri e => ?_⟩
    rw [since_concat, ← hP.2 cache uri e, World.held?_drop]
    simp only [Deed.Enters, and_false, false_or, Deed.concerns_removed]
    split
    · next h => simp [h]
    · next h => exact ⟨fun he => ⟨fun h' => h ⟨h'.1.symm, h'.2.symm⟩, he⟩, And.right⟩
  cleared {ds w} c hP := by
    refine ⟨hP.1.clear c, fun cache uri e => ?_⟩
    rw [since_concat, ← hP.2 cache uri e, World.held?_clear]
    simp only [Deed.Enters, and_false, false_or, Deed.concerns_cleared]
    split
    · next h => simp [h]
    · next h => exact ⟨fun he => ⟨fun h' => h h'.symm, he⟩, And.right⟩

/-- Another token leaves the caches of a stack as they are. -/
lemma tokenFree_cacheNames (n : Nat) : TokenFree fun s => s.cacheNames.length = n := by
  intro stack token stack' h h'
  cases stack with
  | nil => cases h'
  | cons layer inner =>
      cases layer with
      | authenticate old =>
          obtain rfl := Option.some.inj h'
          exact h
      | revalidate cache => cases h'

/-- What is held at the end of a run is what the last deed to concern it entered. -/
lemma held_iff_since {server : σ} {steps : List (Step σ)} (hput : HandsOff steps)
    (hviews : ViewsIn (fun s => s.cacheNames.length = 1) steps) :
    (worldAfter t server steps).held? cache uri = some e ↔
      Since (fun d => e.uri = uri ∧ d.Enters t cache e) (Deed.Concerns t cache uri)
        (recordOf t server steps) := by
  have hinitial : ∀ cache uri e, (World.initial server).held? cache uri = some e ↔
      Since (fun d => e.uri = uri ∧ d.Enters t cache e) (Deed.Concerns t cache uri) [] := by
    intro cache uri e
    exact iff_of_false nofun not_since_nil
  exact ((history_invariant t).run (tokenFree_cacheNames 1) steps hput hviews
    (State.through_initial _ server) ⟨World.genuine_initial server, hinitial⟩).2 cache uri e

/-- **A cache is the history of the answers to be held**, in every run whose views have one
cache each. A cache holds something under a URI if and only if some call entered an
instance there and no later deed took it out. What it holds is then the instance that
the last such call entered. And as long as no deed concerns this cache and this URI,
the very same instance stays. -/
theorem held_history (t : Transport σ) (server : σ) (steps : List (Step σ))
    (hput : HandsOff steps) (hviews : ViewsIn (fun s => s.cacheNames.length = 1) steps)
    (cache uri : String) :
    (((worldAfter t server steps).held? cache uri).isSome = true ↔
      Since (Deed.EntersAt t cache uri) (Deed.Forgets cache uri) (recordOf t server steps)) ∧
    (∀ e, (worldAfter t server steps).held? cache uri = some e ↔
      Since (fun d => e.uri = uri ∧ d.Enters t cache e) (Deed.Concerns t cache uri)
        (recordOf t server steps)) ∧
    ∀ more, HandsOff more → ViewsIn (fun s => s.cacheNames.length = 1) more →
      (∀ d ∈ ((State.initial server).run t steps).2.record t more, ¬ d.Concerns t cache uri) →
      (worldAfter t server (steps ++ more)).held? cache uri =
        (worldAfter t server steps).held? cache uri := by
  refine ⟨?_, fun e => held_iff_since hput hviews, fun more hput' hviews' hidle => ?_⟩
  · rw [since_last, Option.isSome_iff_exists]
    calc
      (∃ e, (worldAfter t server steps).held? cache uri = some e) ↔
          ∃ e : Tagged, Since (fun d => e.uri = uri ∧ d.Enters t cache e)
            (Deed.Concerns t cache uri) (recordOf t server steps) :=
        exists_congr fun e => held_iff_since hput hviews
      _ ↔ Since (Deed.EntersAt t cache uri) (Deed.Concerns t cache uri)
            (recordOf t server steps) := since_exists.symm
  · have hput'' : HandsOff (steps ++ more) := by
      intro step hstep
      exact (List.mem_append.mp hstep).elim (hput step) (hput' step)
    have hviews'' : ViewsIn (fun s => s.cacheNames.length = 1) (steps ++ more) := by
      intro step hstep
      exact (List.mem_append.mp hstep).elim (hviews step) (hviews' step)
    refine Option.ext fun e => ?_
    rw [held_iff_since hput'' hviews'', held_iff_since hput hviews, recordOf_append]
    refine since_append fun d hd => ⟨fun henters => ?_, hidle d hd⟩
    exact hidle d hd (.inr ⟨e, henters⟩)

/-- The view of the session `twice` has one cache. -/
lemma viewsIn_twice : ViewsIn (fun s => s.cacheNames.length = 1) twice := by
  intro step hstep name stack hview
  simp only [twice, List.mem_cons, List.not_mem_nil, or_false] at hstep
  rcases hstep with rfl | rfl | rfl
  · cases hview
    rfl
  · cases hview
  · cases hview

/-- In the session `twice` the page came into the cache by a call, and was not taken out. -/
theorem held_history_twice :
    Since (Deed.EntersAt onePage "pages" "http://h") (Deed.Forgets "pages" "http://h")
      (recordOf onePage () twice) := by
  have hput : HandsOff twice := by decide
  have hheld : ((worldAfter onePage () twice).held? "pages" "http://h").isSome = true := by
    decide +kernel
  exact (held_history onePage () twice hput viewsIn_twice "pages" "http://h").1.mp hheld

end Session

end LayeredFetch
