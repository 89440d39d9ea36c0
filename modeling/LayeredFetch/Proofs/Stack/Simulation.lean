import Mathlib.Data.List.Forall2
import LayeredFetch.Proofs.Stack.Likeness
import LayeredFetch.Walk

/-!
Two runs over one server, request by request.

* **Observation.** `Transport.replies` is what a server replies to what it is put through.
  `Transport.Indistinct` says of two states of a server that like requests never tell them
  apart.
* **Simulation.** `Stack.Simulation` says which requests and which stacks are alike: like
  stacks over the same caches let like requests out.
* `World.Coupled` relates the worlds of two runs that differ in like requests and like stacks
  only. All that is done to worlds keeps it, and whatever is asked through like stacks gives
  the same: a request (`Coupled.request`), a call, a page (`Coupled.pull`) and a search
  (`Coupled.find`).
-/

namespace LayeredFetch

/-! ### What can be told of a server -/

/-- What a server is put through. -/
inductive Input (σ : Type) where
  | request (q : Request)
  /-- A change from outside. -/
  | change (f : σ → σ)

/-- Two inputs are like requests, or the same change. -/
inductive Input.Like {σ : Type} (Q : Request → Request → Prop) : Input σ → Input σ → Prop
  | request {q q' : Request} (h : Q q q') : Like Q (.request q) (.request q')
  | change (f : σ → σ) : Like Q (.change f) (.change f)

namespace Transport

variable {σ : Type}

/-- The replies of a server to the requests among its inputs. -/
def replies (t : Transport σ) : σ → List (Input σ) → List Reply
  | _, [] => []
  | a, .request q :: rest => (t.perform a q).1 :: t.replies (t.perform a q).2 rest
  | a, .change f :: rest => t.replies (f a) rest

/-- Two states of a server that no sequences of like requests, and of changes of some kind
`C`, can tell apart. -/
def Indistinct (t : Transport σ) (Q : Request → Request → Prop) (C : (σ → σ) → Prop)
    (a b : σ) : Prop :=
  ∀ xs ys : List (Input σ), (∀ f, .change f ∈ xs → C f) →
    List.Forall₂ (Input.Like Q) xs ys → t.replies a xs = t.replies b ys

namespace Indistinct

variable {t : Transport σ} {Q : Request → Request → Prop} {C : (σ → σ) → Prop} {a b : σ}
variable {q q' : Request}

/-- Such servers reply alike to like requests, -/
lemma reply_eq (h : t.Indistinct Q C a b) (hq : Q q q') :
    (t.perform a q).1 = (t.perform b q').1 := by
  have hone := h [.request q] [.request q'] (by simp) (.cons (.request hq) .nil)
  exact (List.cons.inj hone).1

/-- and cannot be told apart afterwards. -/
lemma perform (h : t.Indistinct Q C a b) (hq : Q q q') :
    t.Indistinct Q C (t.perform a q).2 (t.perform b q').2 := by
  intro xs ys hxs hlike
  have hall := h (.request q :: xs) (.request q' :: ys) (by simpa using hxs)
    (.cons (.request hq) hlike)
  exact (List.cons.inj hall).2

lemma change (h : t.Indistinct Q C a b) {f : σ → σ} (hf : C f) :
    t.Indistinct Q C (f a) (f b) := by
  intro xs ys hxs hlike
  refine h (.change f :: xs) (.change f :: ys) ?_ (.cons (.change f) hlike)
  intro g hg
  rcases List.mem_cons.mp hg with hg | hg
  · cases hg
    exact hf
  · exact hxs g hg

end Indistinct

/-- A server whose replies tell nothing of its state, and of a request only what it has in
common with like ones, is the same in all states. -/
lemma indistinct_of_reply_eq {t : Transport σ} {Q : Request → Request → Prop}
    (C : (σ → σ) → Prop)
    (h : ∀ {a b q q'}, Q q q' → (t.perform a q).1 = (t.perform b q').1) (a b : σ) :
    t.Indistinct Q C a b := by
  intro xs ys hany hlike
  clear hany
  induction hlike generalizing a b with
  | nil => rfl
  | cons hinput _ ih =>
      cases hinput with
      | request hq => exact congrArg₂ List.cons (h hq) (ih _ _)
      | change f => exact ih _ _

end Transport

/-! ### Histories -/

/-- Two exchanges of like requests, with the same outcome. -/
structure Exchange.Like (Q : Request → Request → Prop) (x y : Exchange) : Prop where
  request : Q x.request y.request
  outcome : x.outcome = y.outcome

/-- Since some time in the past two histories grew by like exchanges. -/
def Exchange.LikeSince (Q : Request → Request → Prop) (past past' now now' : List Exchange) :
    Prop :=
  ∃ xs ys, now = past ++ xs ∧ now' = past' ++ ys ∧ List.Forall₂ (Like Q) xs ys

namespace Exchange.LikeSince

variable {Q : Request → Request → Prop} {past past' now now' later later' : List Exchange}

lemma refl (Q : Request → Request → Prop) (past past' : List Exchange) :
    LikeSince Q past past' past past' :=
  ⟨[], [], (List.append_nil _).symm, (List.append_nil _).symm, .nil⟩

/-- All of a history is new to one that began without any. -/
lemma nil_iff : LikeSince Q [] [] now now' ↔ List.Forall₂ (Like Q) now now' := by
  constructor
  · rintro ⟨xs, ys, rfl, rfl, hlike⟩
    exact hlike
  · exact fun hlike => ⟨now, now', rfl, rfl, hlike⟩

/-- They go on to grow by like exchanges, -/
lemma concat (h : LikeSince Q past past' now now') {x y : Exchange} (hxy : Like Q x y) :
    LikeSince Q past past' (now ++ [x]) (now' ++ [y]) := by
  obtain ⟨xs, ys, rfl, rfl, hlike⟩ := h
  exact ⟨xs ++ [x], ys ++ [y], List.append_assoc _ _ _, List.append_assoc _ _ _,
    List.rel_append hlike (.cons hxy .nil)⟩

/-- and between two later times they grew by like exchanges, too. -/
lemma drop (h : LikeSince Q past past' now now') (h' : LikeSince Q past past' later later') :
    List.Forall₂ (Like Q) (later.drop now.length) (later'.drop now'.length) := by
  obtain ⟨xs, ys, rfl, rfl, hlike⟩ := h
  obtain ⟨xs', ys', rfl, rfl, hlike'⟩ := h'
  rw [List.length_append, List.length_append, List.drop_length_add_append,
    List.drop_length_add_append, hlike.length_eq]
  exact List.forall₂_drop _ hlike'

end Exchange.LikeSince

/-! ### Simulations -/

/-- Requests and stacks that are alike. -/
structure Stack.Simulation where
  likeRequests : Request → Request → Prop
  likeStacks : Stack → Stack → Prop
  /-- Like requests differ in their fields only. -/
  headers : ∀ {r r'}, likeRequests r r' → r' = { r with headers := r'.headers }
  /-- A request for a page is like itself. -/
  page : ∀ uri, likeRequests ⟨.get, uri, .empty, none⟩ ⟨.get, uri, .empty, none⟩
  caches : ∀ {s s'}, likeStacks s s' → s.cacheNames = s'.cacheNames
  /-- Like stacks let like requests out. -/
  outgoing : ∀ {σ : Type} {s s' r r'} (w : World σ), likeStacks s s' → likeRequests r r' →
    likeRequests (s.outgoing w r) (s'.outgoing w r')

namespace Stack.Simulation

variable {S : Stack.Simulation} {r r' : Request}

lemma method_eq (h : S.likeRequests r r') : r.method = r'.method := by rw [S.headers h]

lemma uri_eq (h : S.likeRequests r r') : r.uri = r'.uri := by rw [S.headers h]

lemma verify_eq (h : S.likeRequests r r') : r.verify = r'.verify :=
  (Request.verify_with_headers r'.headers).symm.trans (congrArg Request.verify (S.headers h)).symm

/-- The request of a call, if it is made, is like itself. -/
def Admits (S : Stack.Simulation) (c : Call) : Prop :=
  ∀ r, c.request = .ok r → S.likeRequests r r

lemma admits_page (S : Stack.Simulation) (uri : String) : S.Admits (.get uri .empty) := by
  intro r hr
  have hbuilt : (Call.get uri .empty).request =
      (Request.mk .get uri .empty none).verify.map fun _ => ⟨.get, uri, .empty, none⟩ := rfl
  rw [hbuilt] at hr
  cases hv : (Request.mk .get uri .empty none).verify with
  | error e =>
      rw [hv] at hr
      cases hr
  | ok _ =>
      rw [hv] at hr
      cases hr
      exact S.page uri

end Stack.Simulation

namespace World

open Stack (Simulation)

variable {σ : Type} {t : Transport σ} {S : Simulation} {C : (σ → σ) → Prop}
variable {past past' : List Exchange} {w m : World σ}

/-- The worlds of two runs over one server that differ in like requests and like stacks only,
since their histories were `past` and `past'`. -/
structure Coupled (t : Transport σ) (S : Simulation) (C : (σ → σ) → Prop)
    (past past' : List Exchange) (w m : World σ) : Prop where
  server : t.Indistinct S.likeRequests C w.server m.server
  caches : w.caches = m.caches
  serial : w.nextSerial = m.nextSerial
  exchanges : Exchange.LikeSince S.likeRequests past past' w.exchanges m.exchanges
  events : w.events = m.events

namespace Coupled

lemma cache (h : Coupled t S C past past' w m) (name : String) : w.cache name = m.cache name := by
  rw [World.cache, World.cache, h.caches]

lemma held? (h : Coupled t S C past past' w m) (cache uri : String) :
    w.held? cache uri = m.held? cache uri := by
  rw [World.held?, World.held?, h.cache]

lemma report (h : Coupled t S C past past' w m) (e : Event) :
    Coupled t S C past past' (w.report e) (m.report e) :=
  { h with events := congrArg (· ++ [e]) h.events }

lemma mint (h : Coupled t S C past past' w m) : Coupled t S C past past' w.mint m.mint :=
  { h with serial := congrArg (· + 1) h.serial }

/-- Of all that is done to caches, setting one up as another is the only thing. -/
lemma setCache (h : Coupled t S C past past' w m) (name : String) (c : Cache) :
    Coupled t S C past past' (w.setCache name c) (m.setCache name c) :=
  { h with caches := congrArg (·.insert name c) h.caches }

lemma openCache (h : Coupled t S C past past' w m) (name : String) :
    Coupled t S C past past' (w.openCache name) (m.openCache name) := by
  rw [World.openCache, World.openCache, h.cache]
  exact h.setCache name _

lemma store (h : Coupled t S C past past' w m) (cache uri : String) (e : Tagged) :
    Coupled t S C past past' (w.store cache uri e) (m.store cache uri e) := by
  rw [World.store, World.store, h.cache]
  exact h.setCache cache _

lemma drop (h : Coupled t S C past past' w m) (cache uri : String) :
    Coupled t S C past past' (w.drop cache uri) (m.drop cache uri) := by
  rw [World.drop, World.drop, h.cache]
  exact h.setCache cache _

lemma clear (h : Coupled t S C past past' w m) (cache : String) :
    Coupled t S C past past' (w.clear cache) (m.clear cache) := h.setCache cache .empty

/-- Layers cannot tell such worlds apart. -/
lemma likeness (t : Transport σ) (S : Simulation) (C : (σ → σ) → Prop)
    (past past' : List Exchange) (uri : String) :
    Likeness id uri (Coupled t S C past past') where
  content h := by
    obtain rfl := h
    exact ⟨rfl, rfl⟩
  held h cache := by rw [h.held?]
  fresh h etag r := by rw [h.serial]
  mint h := h.mint
  report h e := h.report e
  store h cache e e' he := by
    obtain rfl := he
    exact h.store cache uri e

/-- Values become the same instances. -/
lemma enroll (h : Coupled t S C past past' w m) (uri : String) (f : Fetched) :
    (w.enroll uri f).1 = (m.enroll uri f).1 ∧
      Coupled t S C past past' (w.enroll uri f).2 (m.enroll uri f).2 := by
  obtain ⟨hmade, hafter⟩ := (likeness t S C past past' uri).enroll h (a := f) rfl
  rw [Option.map_id, id, id] at hmade
  exact ⟨hmade, hafter⟩

/-- Like requests are answered in the same way. -/
lemma send (h : Coupled t S C past past' w m) {r r' : Request} (hr : S.likeRequests r r') :
    (w.send t r).1 = (m.send t r').1 ∧
      Coupled t S C past past' (w.send t r).2 (m.send t r').2 := by
  have hreply := h.server.reply_eq hr
  refine ⟨congrArg (fun reply => reply.outcome.map Fetched.plain) hreply,
    { h with
      server := h.server.perform hr
      exchanges := h.exchanges.concat ⟨hr, congrArg Reply.outcome hreply⟩
      events := ?_ }⟩
  show w.events ++ _ = m.events ++ _
  rw [h.events, hreply]

/-- **Like requests through like stacks** give the same. -/
theorem request (h : Coupled t S C past past' w m) {s s' : Stack} (hs : S.likeStacks s s')
    {r r' : Request} (hr : S.likeRequests r r') :
    (s.request t r w).1 = (s'.request t r' m).1 ∧
      Coupled t S C past past' (s.request t r w).2 (s'.request t r' m).2 := by
  have hsame : s'.outgoing w r' = s'.outgoing m r' :=
    s'.outgoing_congr fun _ cache => by rw [h.held?]
  have hsent := h.send (hsame ▸ S.outgoing w hs hr)
  obtain ⟨hresult, hafter⟩ := (likeness t S C past past' r.uri).request h (S.caches hs)
    (S.method_eq hr) (S.uri_eq hr) (S.verify_eq hr) hsent
  refine ⟨?_, hafter⟩
  rwa [Fetched.map_id, Except.map_id] at hresult

/-- So does a call. -/
lemma call (h : Coupled t S C past past' w m) {s s' : Stack} (hs : S.likeStacks s s') {c : Call}
    (hc : S.Admits c) :
    (s.call t c w).1 = (s'.call t c m).1 ∧
      Coupled t S C past past' (s.call t c w).2 (s'.call t c m).2 := by
  rw [Stack.call, Stack.call]
  cases hrequest : c.request with
  | error e => exact ⟨rfl, h⟩
  | ok r => exact h.request hs (hc r hrequest)

/-! ### Walks -/

lemma advance (h : Coupled t S C past past' w m) (walk : Walk) (uri : String)
    (headers : Headers) :
    (walk.advance uri headers w).1 = (walk.advance uri headers m).1 ∧
      Coupled t S C past past' (walk.advance uri headers w).2
        (walk.advance uri headers m).2 := by
  rw [Walk.advance, Walk.advance]
  split
  · exact ⟨rfl, h⟩
  · split
    · exact ⟨rfl, h⟩
    · exact ⟨rfl, h.report _⟩

/-- A walk through like stacks gives the same page, and goes on in the same way. -/
lemma pull (h : Coupled t S C past past' w m) {s s' : Stack} (hs : S.likeStacks s s')
    (walk : Walk) :
    (walk.pull t s w).1 = (walk.pull t s' m).1 ∧
      (walk.pull t s w).2.1 = (walk.pull t s' m).2.1 ∧
      Coupled t S C past past' (walk.pull t s w).2.2 (walk.pull t s' m).2.2 := by
  rw [Walk.pull, Walk.pull]
  cases walk.next with
  | none => exact ⟨rfl, rfl, h⟩
  | some uri =>
      obtain ⟨hresult, hafter⟩ :=
        (h.report (.fetchingPage (walk.pages + 1) uri)).call hs (S.admits_page uri)
      dsimp only
      rcases hx : s.call t (.get uri .empty) (w.report (.fetchingPage (walk.pages + 1) uri)) with
        ⟨result, w'⟩
      rcases hy : s'.call t (.get uri .empty)
        (m.report (.fetchingPage (walk.pages + 1) uri)) with ⟨result', m'⟩
      rw [hx, hy] at hresult hafter
      obtain rfl : result = result' := hresult
      cases result with
      | error e => exact ⟨rfl, rfl, hafter⟩
      | ok page =>
          dsimp only
          split
          · exact ⟨rfl, rfl, hafter⟩
          · split
            · exact ⟨rfl, rfl, hafter⟩
            · exact ⟨rfl, hafter.advance walk uri page.resource.headers⟩

/-- So does a search, however many pages it takes. -/
lemma find (h : Coupled t S C past past' w m) {s s' : Stack} (hs : S.likeStacks s s')
    (wanted : Json → Bool) (limit : Nat) (walk : Walk) :
    (walk.find t s wanted limit w).1 = (walk.find t s' wanted limit m).1 ∧
      Coupled t S C past past' (walk.find t s wanted limit w).2
        (walk.find t s' wanted limit m).2 := by
  induction limit generalizing walk w m with
  | zero => exact ⟨rfl, h⟩
  | succ limit ih =>
      obtain ⟨hresult, hwalk, hafter⟩ := h.pull hs walk
      rw [Walk.find, Walk.find]
      rcases hx : walk.pull t s w with ⟨result, walk', w'⟩
      rcases hy : walk.pull t s' m with ⟨result', walk'', m'⟩
      rw [hx, hy] at hresult hwalk hafter
      obtain rfl : result = result' := hresult
      obtain rfl : walk' = walk'' := hwalk
      cases result with
      | error e => exact ⟨rfl, hafter.report _⟩
      | ok result =>
          cases result with
          | none => exact ⟨rfl, hafter⟩
          | some page =>
              dsimp only
              rcases Walk.examine wanted (Walk.entries page) with ⟨_ | entry, seen⟩
              · obtain ⟨hlater, hafter⟩ := ih hafter walk'
                exact ⟨congrArg (fun later : Search =>
                  { later with examined := seen ++ later.examined }) hlater, hafter⟩
              · exact ⟨rfl, hafter⟩

end Coupled

end World

end LayeredFetch
