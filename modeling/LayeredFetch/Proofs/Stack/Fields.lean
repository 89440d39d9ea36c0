import LayeredFetch.Proofs.Stack.Course

/-!
What the layers of a stack add to a request.

A layer that writes a field puts it in place of all that match its name. Several layers
may write the same field, each over what the layers outside of it and the caller wrote.

* **Frame.** `Headers.apartFrom` is what is left of the fields without those of some
  names. Layers write two names only, and leave the rest as it is, spelling and order
  included (`Stack.apartFrom_outgoing`).
* **Credentials.** `Stack.credentials` lists what the tokens of a stack present, the
  outermost first. The last of them reaches the transport, and where there is none
  what the caller gave (`Stack.all_authorization_outgoing`).
* `Stack.layers_add_only`: both, and the entity tag, for every request that reaches the
  transport.
-/

namespace LayeredFetch

/-! ### Fields apart from some names -/

namespace Headers

open Text (sameFold)

variable {h : Headers} {names : List String} {name value : String}

/-- The entries that match none of some names, in order. -/
def apartFrom (names : List String) (h : Headers) : List (String × List String) :=
  h.entries.filter fun e => !names.any (sameFold e.1)

/-- Putting in one of the names changes nothing apart from them. -/
lemma apartFrom_insert (hname : name ∈ names) :
    (h.insert name value).apartFrom names = h.apartFrom names := by
  have hnew : names.any (sameFold name) = true :=
    List.any_eq_true.mpr ⟨name, hname, Text.sameFold_self name⟩
  have hkeep : ∀ e : String × List String,
      (!names.any (sameFold e.1) && !sameFold e.1 name) = !names.any (sameFold e.1) := by
    intro e
    cases hmatch : sameFold e.1 name with
    | false => simp
    | true =>
        have hany : names.any (sameFold e.1) = true :=
          List.any_eq_true.mpr ⟨name, hname, hmatch⟩
        simp [hany]
  rw [apartFrom, insert, List.filter_append, entries_remove, List.filter_filter]
  simp only [hkeep]
  simp [hnew, apartFrom]

end Headers

/-! ### Credentials -/

/-- The names of the fields that layers write. -/
def layerFields : List String := ["Authorization", "If-None-Match"]

namespace Token

variable {token : Token} {r : Request}

/-- A token presents nothing if and only if it is blank. -/
lemma authorization?_eq_none_iff : token.authorization? = none ↔ token.isBlank = true := by
  rw [authorization?]
  split
  · next hblank => simp [hblank]
  · next hblank => simp [hblank]

/-- A token that presents something presents it alone. -/
lemma all_sign_of_some {own : String} (h : token.authorization? = some own) :
    (token.sign r).headers.all "Authorization" = [own] := by
  rw [sign, h]
  exact (Headers.all_insert _ _ _ _).trans (if_pos (by decide))

lemma sign_of_none (h : token.authorization? = none) : token.sign r = r := by
  rw [sign, h]

/-- Authentication leaves all fields alone that layers do not write. -/
lemma apartFrom_sign :
    (token.sign r).headers.apartFrom layerFields = r.headers.apartFrom layerFields := by
  rw [sign]
  split
  · exact Headers.apartFrom_insert List.mem_cons_self
  · rfl

end Token

/-- Revalidation leaves all fields alone that layers do not write. -/
lemma Request.apartFrom_revalidating {r : Request} (held : Option Tagged) :
    (r.revalidating held).headers.apartFrom layerFields =
      r.headers.apartFrom layerFields := by
  cases held with
  | none => rfl
  | some e => exact Headers.apartFrom_insert (List.mem_cons_of_mem _ List.mem_cons_self)

namespace Stack

variable {σ : Type} {t : Transport σ} {w : World σ} {r : Request}

/-- The tokens of a stack, the outermost first. -/
def tokens (s : Stack) : List Token :=
  s.filterMap fun
    | .authenticate token => some token
    | .revalidate _ => none

/-- What the tokens of a stack present, the outermost first. -/
def credentials (s : Stack) : List String := s.tokens.filterMap Token.authorization?

lemma credentials_authenticate_of_some {token : Token} {own : String} (inner : Stack)
    (h : token.authorization? = some own) :
    credentials (.authenticate token :: inner) = own :: inner.credentials :=
  List.filterMap_cons_some h

lemma credentials_authenticate_of_none {token : Token} (inner : Stack)
    (h : token.authorization? = none) :
    credentials (.authenticate token :: inner) = inner.credentials :=
  List.filterMap_cons_none h

/-- Blank tokens present nothing, and only they do. -/
lemma credentials_eq_nil_iff (s : Stack) :
    s.credentials = [] ↔ ∀ token ∈ s.tokens, token.isBlank = true := by
  simp only [credentials, List.filterMap_eq_nil_iff, Token.authorization?_eq_none_iff]

/-! ### The request at the transport -/

/-- The fields that layers do not write reach the transport as they are. -/
lemma apartFrom_outgoing (s : Stack) :
    (s.outgoing w r).headers.apartFrom layerFields = r.headers.apartFrom layerFields := by
  induction s generalizing r with
  | nil => rfl
  | cons layer inner ih =>
      cases layer with
      | authenticate token => rw [outgoing, ih, Token.apartFrom_sign]
      | revalidate cache =>
          rw [outgoing, ih]
          split
          · exact Request.apartFrom_revalidating _
          · rfl

/-- **The innermost credentials reach the transport**, alone, and those of the caller
where the stack has none. -/
lemma all_authorization_outgoing (s : Stack) :
    (s.outgoing w r).headers.all "Authorization" =
      s.credentials.getLast?.elim (r.headers.all "Authorization") fun own => [own] := by
  induction s generalizing r with
  | nil => rfl
  | cons layer inner ih =>
      cases layer with
      | authenticate token =>
          rw [outgoing, ih]
          cases hown : token.authorization? with
          | none => rw [Token.sign_of_none hown, credentials_authenticate_of_none inner hown]
          | some own =>
              rw [credentials_authenticate_of_some inner hown, List.getLast?_cons,
                Token.all_sign_of_some hown]
              cases (credentials inner).getLast? <;> rfl
      | revalidate cache =>
          have hsame : (if r.method = .get then r.revalidating (w.held? cache r.uri)
              else r).headers.all "Authorization" = r.headers.all "Authorization" := by
            split
            · exact Request.all_revalidating_of_ne _ (by decide)
            · rfl
          rw [outgoing, ih, hsame]
          rfl

/-- **The innermost entity tag held reaches the transport**, alone. -/
lemma exists_all_outgoing_of_held (s : Stack) (hget : r.method = .get)
    (hheld : ∃ c ∈ s.cacheNames, (w.held? c r.uri).isSome = true) :
    ∃ (outer : Stack) (cache : String) (inner : Stack) (e : Tagged),
      s = outer ++ .revalidate cache :: inner ∧ w.held? cache r.uri = some e ∧
      (∀ c ∈ inner.cacheNames, w.held? c r.uri = none) ∧
      (s.outgoing w r).headers.all "If-None-Match" = [e.etag] := by
  obtain ⟨outer, cache, inner, hsplit, hsome, hinner⟩ :=
    s.exists_innermost (fun c => (w.held? c r.uri).isSome = true) hheld
  obtain ⟨e, he⟩ := Option.isSome_iff_exists.mp hsome
  have hnone : ∀ c ∈ inner.cacheNames, w.held? c r.uri = none := by
    intro c hc
    simpa using hinner c hc
  exact ⟨outer, cache, inner, e, hsplit, he, hnone, all_outgoing_of_held hsplit hget he hnone⟩

/-- **Layers add only credentials and entity tags** to a request that reaches the
transport. Its method, its URI, its body and all other fields are those of the request
made. The entity tag of a GET is the one held by the innermost layer that holds something
under its URI; otherwise the tags are the caller's. The credentials are the caller's if no
token presents any, and otherwise one value, that of a token of the stack. -/
theorem layers_add_only (t : Transport σ) (s : Stack) (r : Request) (w : World σ)
    (x : Exchange) (hx : x ∈ (s.request t r w).2.exchanges.drop w.exchanges.length) :
    (x.request.method = r.method ∧ x.request.uri = r.uri ∧ x.request.body = r.body) ∧
    x.request.headers.apartFrom ["Authorization", "If-None-Match"] =
      r.headers.apartFrom ["Authorization", "If-None-Match"] ∧
    ((r.method = .get ∧ ∃ c ∈ s.cacheNames, (w.held? c r.uri).isSome = true) →
      ∃ (outer : Stack) (cache : String) (inner : Stack) (e : Tagged),
        s = outer ++ .revalidate cache :: inner ∧ w.held? cache r.uri = some e ∧
        (∀ c ∈ inner.cacheNames, w.held? c r.uri = none) ∧
        x.request.headers.all "If-None-Match" = [e.etag]) ∧
    (¬ (r.method = .get ∧ ∃ c ∈ s.cacheNames, (w.held? c r.uri).isSome = true) →
      x.request.headers.all "If-None-Match" = r.headers.all "If-None-Match") ∧
    ((∀ token ∈ s.tokens, token.isBlank = true) →
      x.request.headers.all "Authorization" = r.headers.all "Authorization") ∧
    (¬ (∀ token ∈ s.tokens, token.isBlank = true) →
      ∃ token ∈ s.tokens, ∃ own, token.isBlank = false ∧ token.authorization? = some own ∧
        x.request.headers.all "Authorization" = [own]) := by
  -- there is one such request, the one that leaves the innermost layer
  have hrequest : x.request = s.outgoing w r := by
    rcases s.exchanged_request (t := t) r w with hsame | ⟨outcome, hsent⟩
    · rw [hsame, List.drop_length] at hx
      cases hx
    · rw [hsent.eq_of_mem_drop hx]
  rw [hrequest]
  refine ⟨⟨s.method_outgoing, s.uri_outgoing, ?_⟩, s.apartFrom_outgoing, ?_, ?_, ?_, ?_⟩
  · rw [outgoing_eq]
  · exact fun h => s.exists_all_outgoing_of_held h.1 h.2
  · intro hnot
    refine s.all_outgoing_of_get_not_held fun hget c hc => ?_
    by_contra hsome
    exact hnot ⟨hget, c, hc, Option.isSome_iff_ne_none.mpr hsome⟩
  · intro hblank
    rw [all_authorization_outgoing, s.credentials_eq_nil_iff.mpr hblank]
    rfl
  · intro hnot
    have hne : s.credentials ≠ [] := fun hnil => hnot (s.credentials_eq_nil_iff.mp hnil)
    have hlast := List.getLast?_eq_some_getLast hne
    obtain ⟨token, htoken, hown⟩ := List.mem_filterMap.mp (List.getLast_mem hne)
    have hblank : token.isBlank = false := by
      refine eq_false_of_ne_true fun hblank => ?_
      rw [Token.authorization?_eq_none_iff.mpr hblank] at hown
      cases hown
    refine ⟨token, htoken, _, hblank, hown, ?_⟩
    rw [all_authorization_outgoing, hlast]
    rfl

/-- A request that writes the fields of layers itself, in other spellings. -/
def forged : Request :=
  ⟨.get, "http://h", ⟨[("authorization", ["token a", "token b"]), ("X-Trace", ["1", "2"]),
    ("IF-NONE-MATCH", ["old"])]⟩, none⟩

/-- A world in which one cache holds something for that request. -/
def warm : World Unit :=
  (World.initial ()).store "pages" "http://h" ⟨0, "http://h", "v1", ⟨200, ∅, .null⟩⟩

/-- A transport that gives no answer. -/
def unplugged : Transport Unit := ⟨fun _ _ => (⟨.error (.network "down"), []⟩, ())⟩

/-- Layers of all kinds. -/
def mixed : Stack :=
  [.authenticate ⟨.bearer, "outer"⟩, .revalidate "empty", .authenticate ⟨.token, "inner"⟩,
    .revalidate "pages", .authenticate ⟨.token, "  "⟩]

/-- Of the forged request only the field that is no layer's reaches the transport as it was. -/
theorem layers_add_only_forged :
    ∃ x ∈ (mixed.request unplugged forged warm).2.exchanges.drop warm.exchanges.length,
      x.request.uri = "http://h" ∧
      x.request.headers.apartFrom ["Authorization", "If-None-Match"] =
        [("X-Trace", ["1", "2"])] ∧
      (∃ cache e, warm.held? cache "http://h" = some e ∧
        x.request.headers.all "If-None-Match" = [e.etag]) ∧
      ∃ token ∈ mixed.tokens, ∃ own, token.authorization? = some own ∧
        x.request.headers.all "Authorization" = [own] := by
  obtain ⟨outcome, hsent⟩ :=
    exchanged_of_admits (t := unplugged) (w := warm) mixed
      (admits_of_verify (r := forged) mixed (by decide +kernel))
  have hx : ⟨mixed.outgoing warm forged, outcome⟩ ∈
      (mixed.request unplugged forged warm).2.exchanges.drop warm.exchanges.length := by
    rw [hsent.exchanges_eq, List.drop_left]
    exact List.mem_singleton_self _
  obtain ⟨⟨-, huri, -⟩, hframe, hheld, -, -, hown⟩ :=
    layers_add_only unplugged mixed forged warm _ hx
  obtain ⟨-, cache, -, e, -, he, -, htag⟩ :=
    hheld ⟨rfl, "pages", by decide, by decide +kernel⟩
  obtain ⟨token, htoken, own, -, hpresented, hall⟩ := hown (by decide +kernel)
  exact ⟨_, hx, huri, hframe, ⟨cache, e, he, htag⟩, token, htoken, own, hpresented, hall⟩

end Stack

end LayeredFetch
