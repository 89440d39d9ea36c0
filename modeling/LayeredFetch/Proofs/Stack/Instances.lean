import LayeredFetch.Proofs.Stack.Course
import LayeredFetch.Walk

/-!
Instances, in the order in which they are made.

The serial number of an instance is its place in a register of all that were made. What has the
number of an entry is that entry, so two instances with the same number are the same.

* `Tagged.Listed`: an instance is the entry of a register that its number says.
  `World.Within`: this holds of whatever a cache holds, and the next number is that of the
  next entry.
* `Stack.instance?` is what a stack makes of an exchange: one instance of a GET that was
  answered with a success with an entity tag, if the stack revalidates, and otherwise none.
  `Stack.made` lists the instances of several exchanges, numbered in order.
* `Stack.Makes`: a part of a run makes the instances of its exchanges and no others. So does a
  request (`World.Within.request`), and all that is asked by requests.
-/

namespace LayeredFetch

/-! ### Registers -/

/-- An instance is the entry of a register that its serial number says. -/
def Tagged.Listed (e : Tagged) (register : List Tagged) : Prop := register[e.serial]? = some e

namespace Tagged.Listed

variable {e e' : Tagged} {register : List Tagged}

/-- **Two instances with the same number are the same.** -/
lemma eq_of_serial_eq (h : e.Listed register) (h' : e'.Listed register)
    (hserial : e.serial = e'.serial) : e = e' := by
  rw [Listed, hserial] at h
  exact Option.some.inj (h.symm.trans h')

/-- Entries stay where they are. -/
lemma append (h : e.Listed register) (more : List Tagged) : e.Listed (register ++ more) := by
  obtain ⟨hlt, -⟩ := List.getElem?_eq_some_iff.mp h
  rw [Listed, List.getElem?_append_left hlt]
  exact h

/-- A new entry stands at the end. -/
lemma concat (h : e.serial = register.length) : e.Listed (register ++ [e]) := by
  rw [Listed, h, List.getElem?_concat_length]

end Tagged.Listed

/-- A value that no layer makes an instance of: an entry of a register, or a plain one that is
not to be held. -/
def Fetched.Settled (register : List Tagged) : Fetched → Prop
  | plain r => r.isCacheable = false
  | tagged e => e.Listed register

/-- A fetched instance is an entry of a register. -/
def Fetched.Listed (register : List Tagged) (f : Fetched) : Prop :=
  ∀ e, f = .tagged e → e.Listed register

/-- There is nothing to list of a plain value. -/
lemma Fetched.listed_plain {register : List Tagged} (r : Resource) :
    (plain r).Listed register := by
  intro e he
  cases he

lemma Fetched.Settled.listed {register : List Tagged} {f : Fetched} (h : f.Settled register) :
    f.Listed register := by
  rintro e rfl
  exact h

namespace World

variable {σ : Type} {t : Transport σ} {w w' before : World σ} {register : List Tagged}
variable {cache uri : String} {held : Option Tagged} {e : Tagged}

/-- Whatever the caches hold is listed, and the next number is that of the next entry. -/
structure Within (register : List Tagged) (w : World σ) : Prop where
  serial : w.nextSerial = register.length
  held : ∀ cache uri e, w.held? cache uri = some e → e.Listed register

namespace Within

/-- What holds nothing new is within the same register. -/
lemma of_held (h : w.Within register) (hserial : w'.nextSerial = w.nextSerial)
    (hheld : ∀ cache uri e, w'.held? cache uri = some e → w.held? cache uri = some e) :
    w'.Within register :=
  ⟨hserial.trans h.serial, fun cache uri e he => h.held cache uri e (hheld cache uri e he)⟩

lemma report (h : w.Within register) (e : Event) : (w.report e).Within register :=
  h.of_held rfl fun _ _ _ he => he

lemma openCache (h : w.Within register) (cache : String) :
    (w.openCache cache).Within register :=
  h.of_held rfl fun c u e he => by rwa [held?, cache_openCache] at he

lemma drop (h : w.Within register) (cache uri : String) : (w.drop cache uri).Within register :=
  h.of_held rfl fun c u e he => by
    rw [held?_drop] at he
    split at he
    · cases he
    · exact he

lemma clear (h : w.Within register) (cache : String) : (w.clear cache).Within register :=
  h.of_held rfl fun c u e he => by
    rw [held?_clear] at he
    split at he
    · cases he
    · exact he

lemma send (h : w.Within register) (q : Request) : (w.send t q).2.Within register :=
  h.of_held rfl fun _ _ _ he => he

/-- A listed instance may be put into a cache. -/
lemma store (h : w.Within register) (cache uri : String) (he : e.Listed register) :
    (w.store cache uri e).Within register where
  serial := h.serial
  held c u e' he' := by
    rw [held?_store] at he'
    split at he'
    · exact Option.some.inj he' ▸ he
    · exact h.held c u e' he'

/-- A new instance is the next entry. -/
lemma mint (h : w.Within register) (e : Tagged) : w.mint.Within (register ++ [e]) where
  serial := by
    rw [List.length_append, ← h.serial]
    rfl
  held c u e' he' := (h.held c u e' he').append [e]

/-- A layer makes no instance of what is settled. -/
lemma settle (h : w.Within register) (cache uri : String)
    (hheld : ∀ e, held = some e → e.Listed register) {a : Fetched} (ha : a.Settled register) :
    (w.settle cache uri held a).1.Settled register ∧
      (w.settle cache uri held a).2.Within register := by
  by_cases hn : a.resource.isNotModified = true
  · cases held with
    | none =>
        have hpassed : w.settle cache uri none a = (a, w) := by
          rw [World.settle, if_pos hn]
        rw [hpassed]
        exact ⟨ha, h⟩
    | some e =>
        rw [settle_held hn]
        exact ⟨hheld e rfl, h.report _⟩
  · cases a with
    | plain r =>
        have hpassed : w.settle cache uri held (.plain r) = (.plain r, w) :=
          settle_passed (fun hn' => absurd hn' hn) ha
        rw [hpassed]
        exact ⟨ha, h⟩
    | tagged e =>
        by_cases hs : (Fetched.tagged e).resource.isSuccess = true
        · rw [settle_tagged hs]
          exact ⟨ha, (h.report _).store cache uri ha⟩
        · have hpassed : w.settle cache uri held (.tagged e) = (.tagged e, w) := by
            unfold World.settle
            rw [if_neg hn, if_neg hs]
          rw [hpassed]
          exact ⟨ha, h⟩

/-- Nor does a stack, on the way out. -/
lemma incoming (h : w.Within register)
    (hbefore : ∀ cache uri e, before.held? cache uri = some e → e.Listed register) (uri : String)
    (s : Stack) {a : Fetched} (ha : a.Settled register) :
    (s.incoming before uri a w).1.Settled register ∧
      (s.incoming before uri a w).2.Within register := by
  induction s with
  | nil => exact ⟨ha, h⟩
  | cons layer inner ih =>
      cases layer with
      | authenticate token => exact ih
      | revalidate cache => exact ih.2.settle cache uri (hbefore cache uri) ih.1

end Within

end World

/-! ### What stacks make -/

namespace Stack

variable {σ : Type} {t : Transport σ} {s : Stack} {w w' w'' : World σ} {r : Request}
variable {register : List Tagged}

/-- The instance, of a given number, that a stack makes of an exchange. -/
def instance? (s : Stack) (serial : Nat) (x : Exchange) : Option Tagged :=
  match x.outcome with
  | .error _ => none
  | .ok reply =>
      if x.request.method = .get ∧ s.cacheNames ≠ [] ∧ reply.isSuccess = true then
        reply.etag?.map fun etag => ⟨serial, x.request.uri, etag, reply⟩
      else none

/-- The instances that a stack makes of exchanges, numbered in order from a number on. -/
def made (s : Stack) (serial : Nat) : List Exchange → List Tagged
  | [] => []
  | x :: xs =>
      match s.instance? serial x with
      | some e => e :: s.made (serial + 1) xs
      | none => s.made serial xs

/-- Instances are made of one exchange after the other. -/
lemma made_append (s : Stack) (serial : Nat) (xs ys : List Exchange) :
    s.made serial (xs ++ ys) =
      s.made serial xs ++ s.made (serial + (s.made serial xs).length) ys := by
  induction xs generalizing serial with
  | nil => rfl
  | cons x xs ih =>
      rw [List.cons_append, made, made]
      cases s.instance? serial x with
      | none => exact ih serial
      | some e =>
          dsimp only
          rw [ih, List.length_cons, List.cons_append, Nat.add_right_comm, Nat.add_assoc]

/-- They are numbered in order. -/
lemma map_serial_made (s : Stack) (serial : Nat) (xs : List Exchange) :
    (s.made serial xs).map Tagged.serial = List.range' serial (s.made serial xs).length := by
  induction xs generalizing serial with
  | nil => rfl
  | cons x xs ih =>
      rw [made]
      cases hx : s.instance? serial x with
      | none => exact ih serial
      | some e =>
          have he : e.serial = serial := by
            unfold instance? at hx
            split at hx
            · cases hx
            · split at hx
              · obtain ⟨etag, -, rfl⟩ := Option.map_eq_some_iff.mp hx
                rfl
              · cases hx
          exact congrArg₂ List.cons he (ih (serial + 1))

/-- Of one exchange a stack makes its instance, -/
lemma made_of_some {serial : Nat} {x : Exchange} {e : Tagged}
    (hx : s.instance? serial x = some e) : s.made serial [x] = [e] := by
  rw [made, hx, made]

/-- if there is one. -/
lemma made_of_none {serial : Nat} {x : Exchange} (hx : s.instance? serial x = none) :
    s.made serial [x] = [] := by
  rw [made, hx]
  rfl

/-- A part of a run adds exchanges to the history, makes the instances of these and no others,
and gives a listed one if it gives one. -/
structure Makes (s : Stack) (register : List Tagged) (w w' : World σ) (given : Option Fetched)
    (xs : List Exchange) : Prop where
  exchanges : w'.exchanges = w.exchanges ++ xs
  within : w'.Within (register ++ s.made register.length xs)
  given : ∀ f ∈ given, f.Listed (register ++ s.made register.length xs)

namespace Makes

variable {given given' : Option Fetched} {xs ys : List Exchange}

/-- Nothing is made without an exchange. -/
lemma nil (h : w.Within register) : s.Makes register w w none [] where
  exchanges := (List.append_nil _).symm
  within := (List.append_nil register).symm ▸ h
  given _ hf := absurd hf (Option.not_mem_none _)

/-- Parts of a run follow each other. -/
lemma trans (h : s.Makes register w w' given xs)
    (h' : s.Makes (register ++ s.made register.length xs) w' w'' given' ys) :
    s.Makes register w w'' given' (xs ++ ys) := by
  have hmade : register ++ s.made register.length (xs ++ ys) =
      register ++ s.made register.length xs ++
        s.made (register ++ s.made register.length xs).length ys := by
    rw [made_append, List.append_assoc, List.length_append]
  exact ⟨by rw [h'.exchanges, h.exchanges, List.append_assoc], hmade ▸ h'.within,
    hmade ▸ h'.given⟩

/-- What is reported makes nothing, -/
lemma report (h : s.Makes register w w' given xs) (e : Event) :
    s.Makes register w (w'.report e) given xs :=
  { h with within := h.within.report e }

/-- and giving nothing makes nothing. -/
lemma forget (h : s.Makes register w w' given xs) : s.Makes register w w' none xs :=
  { h with given := fun _ hf => absurd hf (Option.not_mem_none _) }

end Makes

/-- An exchange that no instance is made of leaves the register as it is. -/
lemma makes_of_instance?_none {x : Exchange} {given : Option Fetched}
    (hx : s.instance? register.length x = none) (hexchanges : w'.exchanges = w.exchanges ++ [x])
    (hwithin : w'.Within register) (hgiven : ∀ f ∈ given, f.Listed register) :
    s.Makes register w w' given [x] := by
  have hmade : register ++ s.made register.length [x] = register := by
    rw [made_of_none hx, List.append_nil]
  exact ⟨hexchanges, hmade.symm ▸ hwithin, hmade.symm ▸ hgiven⟩

/-- A stack gives an instance, and all of its caches hold it. -/
def Gives (s : Stack) (x : Except FetchError Fetched × World σ) (e : Tagged) : Prop :=
  x.1 = .ok (.tagged e) ∧ ∀ cache ∈ s.cacheNames, x.2.held? cache e.uri = some e

/-- A GET that is replied to makes the one instance of its reply, and gives and holds it, or
makes none. -/
lemma makes_get (h : w.Within register) (s : Stack) (hget : r.method = .get) {reply : Resource}
    {w₁ : World σ} (hsent : w₁.exchanges = w.exchanges ++ [⟨s.outgoing w r, .ok reply⟩])
    (hheld : World.SameHeld w w₁) (hserial : w₁.nextSerial = w.nextSerial) :
    s.Makes register w (s.incoming w r.uri (.plain reply) w₁).2
        (some (s.incoming w r.uri (.plain reply) w₁).1) [⟨s.outgoing w r, .ok reply⟩] ∧
      ∀ e ∈ s.made register.length [⟨s.outgoing w r, .ok reply⟩],
        s.Gives (.ok (s.incoming w r.uri (.plain reply) w₁).1,
          (s.incoming w r.uri (.plain reply) w₁).2) e := by
  have hw₁ : w₁.Within register := h.of_held hserial fun c u e he => hheld c u ▸ he
  have hexchanges : (s.incoming w r.uri (.plain reply) w₁).2.exchanges =
      w.exchanges ++ [⟨s.outgoing w r, .ok reply⟩] := (exchanges_incoming s _).trans hsent
  have hinstance : s.instance? register.length ⟨s.outgoing w r, .ok reply⟩ =
      if s.cacheNames ≠ [] ∧ reply.isSuccess = true then
        reply.etag?.map fun etag => ⟨register.length, r.uri, etag, reply⟩ else none := by
    simp only [instance?, method_outgoing, uri_outgoing, hget, true_and]
  by_cases hfresh : s.cacheNames ≠ [] ∧ reply.isCacheable = true
  · obtain ⟨hs, hc⟩ := hfresh
    obtain ⟨hsuccess, htag⟩ := Bool.and_eq_true_iff.mp hc
    obtain ⟨etag, htag⟩ := Option.isSome_iff_exists.mp htag
    obtain ⟨hanswer, hspread, hnext⟩ := incoming_fresh w w₁ r.uri s hs hsuccess htag
    rw [if_pos ⟨hs, hsuccess⟩, htag, Option.map_some] at hinstance
    rw [hw₁.serial] at hanswer hspread hnext
    have hnew : (Tagged.mk register.length r.uri etag reply).Listed
        (register ++ [⟨register.length, r.uri, etag, reply⟩]) := .concat rfl
    have hmade : s.made register.length [⟨s.outgoing w r, .ok reply⟩] =
        [⟨register.length, r.uri, etag, reply⟩] := made_of_some hinstance
    refine ⟨⟨hexchanges, ?_, ?_⟩, ?_⟩
    · rw [hmade]
      refine ⟨by rw [hnext, List.length_append]; rfl, fun c u e he => ?_⟩
      rw [hspread c u] at he
      split at he
      · exact Option.some.inj he ▸ hnew
      · exact (hw₁.held c u e he).append _
    · rw [hmade, hanswer]
      rintro f ⟨⟩ e ⟨⟩
      exact hnew
    · rw [hmade, hanswer]
      intro e he
      rw [List.mem_singleton.mp he]
      refine ⟨rfl, fun c hc => ?_⟩
      rw [hspread c r.uri, if_pos ⟨hc, rfl⟩]
  · have hnone : s.instance? register.length ⟨s.outgoing w r, .ok reply⟩ = none := by
      rw [hinstance]
      split
      · next hs =>
          have huseless : reply.isCacheable = false :=
            eq_false_of_ne_true fun hc => hfresh ⟨hs.1, hc⟩
          have htag : reply.etag? = none := by simpa [Resource.isCacheable, hs.2] using huseless
          rw [htag]
          rfl
      · rfl
    obtain ⟨hlisted, hwithin⟩ : (s.incoming w r.uri (.plain reply) w₁).1.Listed register ∧
        (s.incoming w r.uri (.plain reply) w₁).2.Within register := by
      by_cases hs : s.cacheNames = []
      · rw [s.incoming_passed (by simp [hs]) fun hne => absurd hs hne]
        exact ⟨Fetched.listed_plain reply, hw₁⟩
      · obtain ⟨hsettled, hwithin⟩ := hw₁.incoming h.held r.uri s (a := .plain reply)
          (eq_false_of_ne_true fun hc => hfresh ⟨hs, hc⟩)
        exact ⟨hsettled.listed, hwithin⟩
    refine ⟨makes_of_instance?_none hnone hexchanges hwithin ?_, ?_⟩
    · rintro f ⟨⟩
      exact hlisted
    · rw [made_of_none hnone]
      exact fun _ he => absurd he List.not_mem_nil

end Stack

namespace World.Within

open Stack (Makes)

variable {σ : Type} {t : Transport σ} {w : World σ} {r : Request} {register : List Tagged}

/-- **A request makes the instances of its exchange and no others.** If it makes one, it gives
that one, and all caches of the stack hold it. -/
theorem request (h : w.Within register) (s : Stack) (r : Request) :
    ∃ xs, s.Makes register w (s.request t r w).2 (s.request t r w).1.toOption xs ∧
      ∀ e ∈ s.made register.length xs, s.Gives (s.request t r w) e := by
  rcases s.admits_or_refuses r with hadmits | ⟨e, hrefuses⟩
  · rw [Stack.request_of_admits s hadmits]
    cases hreply : (t.perform w.server (s.outgoing w r)).1.outcome with
    | error e =>
        obtain ⟨hsend, hsent, -, -⟩ := World.exchanged_send hreply
        rw [hsend]
        have hnone : s.instance? register.length ⟨s.outgoing w r, .error e⟩ = none := rfl
        refine ⟨_, Stack.makes_of_instance?_none hnone hsent.exchanges_eq (h.send _)
          (fun _ hf => absurd hf (Option.not_mem_none _)), ?_⟩
        rw [Stack.made_of_none hnone]
        exact fun _ he => absurd he List.not_mem_nil
    | ok reply =>
        obtain ⟨hsend, hsent, hheld, hserial⟩ := World.exchanged_send hreply
        rw [hsend]
        by_cases hget : r.method = .get
        · simp only [Except.map, if_pos hget]
          obtain ⟨hmakes, hgiven⟩ :=
            Stack.makes_get h s hget hsent.exchanges_eq hheld hserial
          exact ⟨_, hmakes, hgiven⟩
        · simp only [Except.map, if_neg hget]
          have hnone : s.instance? register.length ⟨s.outgoing w r, .ok reply⟩ = none :=
            if_neg fun hx => hget (s.method_outgoing.symm.trans hx.1)
          refine ⟨_, Stack.makes_of_instance?_none hnone hsent.exchanges_eq (h.send _) ?_, ?_⟩
          · rintro f ⟨⟩
            exact Fetched.listed_plain reply
          · rw [Stack.made_of_none hnone]
            exact fun _ he => absurd he List.not_mem_nil
  · rw [Stack.request_of_refuses s hrefuses]
    exact ⟨[], .nil h, fun _ he => absurd he List.not_mem_nil⟩

/-- So does a call. -/
lemma call (h : w.Within register) (s : Stack) (c : Call) :
    ∃ xs, s.Makes register w (s.call t c w).2 (s.call t c w).1.toOption xs ∧
      ∀ e ∈ s.made register.length xs, s.Gives (s.call t c w) e := by
  rw [Stack.call]
  cases c.request with
  | error e => exact ⟨[], .nil h, fun _ he => absurd he List.not_mem_nil⟩
  | ok r => exact h.request s r

/-- Pulling a page makes the instances of its exchange, whether or not it gives the page. -/
lemma pull (h : w.Within register) (s : Stack) (walk : Walk) :
    ∃ xs, s.Makes register w (walk.pull t s w).2.2 (walk.pull t s w).1.toOption.join xs := by
  rw [Walk.pull]
  cases walk.next with
  | none => exact ⟨[], .nil h⟩
  | some uri =>
      obtain ⟨xs, hmakes, -⟩ := (h.report (.fetchingPage (walk.pages + 1) uri)).call (t := t) s
        (.get uri .empty)
      have hmakes : s.Makes register w _ _ xs := ⟨hmakes.exchanges, hmakes.within, hmakes.given⟩
      refine ⟨xs, ?_⟩
      dsimp only
      generalize s.call t (.get uri .empty) _ = out at hmakes ⊢
      obtain ⟨_ | page, w'⟩ := out
      · exact hmakes
      · dsimp only
        split
        · exact hmakes.forget
        · split
          · exact hmakes.forget
          · rw [Walk.advance]
            split
            · exact hmakes
            · split
              · exact hmakes
              · exact hmakes.report _

/-- A search makes the instances of all the pages that it pulls. -/
lemma find (h : w.Within register) (s : Stack) (wanted : Json → Bool) (limit : Nat)
    (walk : Walk) :
    ∃ xs, s.Makes register w (walk.find t s wanted limit w).2 none xs := by
  induction limit generalizing walk w register with
  | zero => exact ⟨[], .nil h⟩
  | succ limit ih =>
      obtain ⟨xs, hmakes⟩ := h.pull (t := t) s walk
      rw [Walk.find]
      generalize walk.pull t s w = out at hmakes ⊢
      obtain ⟨_ | _ | page, walk', w'⟩ := out
      · exact ⟨xs, hmakes.report _⟩
      · exact ⟨xs, hmakes⟩
      · dsimp only
        rcases Walk.examine wanted (Walk.entries page) with ⟨_ | entry, seen⟩
        · obtain ⟨ys, hlater⟩ := ih hmakes.within walk'
          exact ⟨xs ++ ys, hmakes.trans hlater⟩
        · exact ⟨xs, hmakes.forget⟩

end World.Within

end LayeredFetch
