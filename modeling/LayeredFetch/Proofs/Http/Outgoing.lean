import LayeredFetch.Http.Proxy
import LayeredFetch.Proofs.Headers.Pairs

/-!
The fields that the client sends.

* `Client.entries_replace`: to replace a name puts one entry last, and none if there are no
  values.
* `Client.entries_outgoing`: what is sent are the fields of the client that no field of the
  request matches, and after them those of the request that `lasting` keeps: the ones with
  values that no later one matches. Well-formed ones all last (`Client.lasting_eq_self`).
* `Client.request_fields_override`: so a name has the values of the request if the request has
  it, and those of the client otherwise, and this is what a network is handed.
* `Client.forall_pairs_outgoing`: what holds of everything else that is sent does so whatever
  entries one name has.
-/

namespace LayeredFetch

open Text (sameFold)

/-! ### Values of some entries -/

namespace Headers

variable {h : Headers} {name value : String} {P : String × String → Prop}

/-- A value of an entry is one of every name that the entry matches. -/
lemma mem_all {e : String × List String} (he : e ∈ h.entries) (hmatch : sameFold e.1 name = true)
    (hvalue : value ∈ e.2) : value ∈ h.all name :=
  List.mem_flatMap.mpr ⟨e, List.mem_filter.mpr ⟨he, hmatch⟩, hvalue⟩

/-- The pairs are every value of every entry, with the name of the entry. -/
lemma forall_pairs_iff : (∀ f ∈ h.pairs, P f) ↔ ∀ e ∈ h.entries, ∀ v ∈ e.2, P (e.1, v) := by
  simp only [pairs, List.forall_mem_flatMap, List.forall_mem_map]

end Headers

namespace Http

namespace Client

variable {h : Headers} {name : String} {e : String × List String}
variable {entries : List (String × List String)}

/-! ### What is sent -/

lemma entries_replace (h : Headers) (name : String) (values : List String) :
    (replace h name values).entries =
      (h.entries.filter fun e => !sameFold e.1 name) ++
        if values = [] then [] else [(name, values)] := by
  have hno : ∀ e ∈ (h.remove name).2.entries, sameFold e.1 name = false := by
    rw [Headers.entries_remove]
    intro e he
    simpa using (List.mem_filter.mp he).2
  rw [replace, Headers.entries_appendPairs_new hno, Headers.entries_remove]

/-- The entries with values that no later one matches. -/
def lasting : List (String × List String) → List (String × List String)
  | [] => []
  | e :: rest =>
      if e.2 = [] ∨ rest.any (sameFold e.1 ·.1) then lasting rest else e :: lasting rest

/-- An entry lasts if it stands somewhere with values, and none after it matches. -/
lemma mem_lasting_iff : e ∈ lasting entries ↔
    e.2 ≠ [] ∧ ∃ before after, entries = before ++ e :: after ∧
      ∀ f ∈ after, sameFold e.1 f.1 = false := by
  induction entries with
  | nil => simp [lasting]
  | cons f rest ih =>
      rw [lasting]
      constructor
      · intro he
        split at he
        · obtain ⟨hne, before, after, rfl, hafter⟩ := ih.mp he
          exact ⟨hne, f :: before, after, rfl, hafter⟩
        · next hlasts =>
            rcases List.mem_cons.mp he with rfl | he
            · simp only [not_or, Bool.not_eq_true, List.any_eq_false] at hlasts
              exact ⟨hlasts.1, [], rest, rfl, hlasts.2⟩
            · obtain ⟨hne, before, after, rfl, hafter⟩ := ih.mp he
              exact ⟨hne, f :: before, after, rfl, hafter⟩
      · rintro ⟨hne, before, after, hsplit, hafter⟩
        cases before with
        | nil =>
            obtain ⟨rfl, rfl⟩ := List.cons.inj hsplit
            have hlater : rest.any (sameFold f.1 ·.1) = false :=
              List.any_eq_false.mpr fun g hg => by simp [hafter g hg]
            rw [if_neg (by simp [hne, hlater])]
            exact List.mem_cons_self
        | cons g before =>
            obtain ⟨rfl, hrest⟩ := List.cons.inj hsplit
            have hin : e ∈ lasting rest := ih.mpr ⟨hne, before, after, hrest, hafter⟩
            split
            · exact hin
            · exact List.mem_cons_of_mem f hin

/-- An entry that lasts also does so when others are left out. -/
lemma mem_lasting_filter {p : String × List String → Bool} (hp : p e = true)
    (he : e ∈ lasting entries) : e ∈ lasting (entries.filter p) := by
  obtain ⟨hne, before, after, rfl, hafter⟩ := mem_lasting_iff.mp he
  refine mem_lasting_iff.mpr ⟨hne, before.filter p, after.filter p, ?_, fun f hf => ?_⟩
  · rw [List.filter_append, List.filter_cons, if_pos hp]
  · exact hafter f (List.mem_filter.mp hf).1

lemma entries_foldl_replace (entries : List (String × List String)) (h : Headers) :
    (entries.foldl (fun h e => replace h e.1 e.2) h).entries =
      (h.entries.filter fun e => !entries.any (sameFold e.1 ·.1)) ++ lasting entries := by
  induction entries generalizing h with
  | nil =>
      rw [List.foldl_nil, lasting, List.append_nil]
      exact (List.filter_eq_self.mpr fun _ _ => rfl).symm
  | cons f rest ih =>
      have hkept : (h.entries.filter fun e => !rest.any (sameFold e.1 ·.1) && !sameFold e.1 f.1) =
          h.entries.filter fun e => !(f :: rest).any (sameFold e.1 ·.1) :=
        List.filter_congr fun e _ => by rw [List.any_cons, Bool.not_or, Bool.and_comm]
      rw [List.foldl_cons, ih, entries_replace, List.filter_append, List.filter_filter, hkept,
        List.append_assoc, lasting]
      congr 1
      by_cases hnil : f.2 = []
      · simp [hnil]
      · by_cases hlater : rest.any (sameFold f.1 ·.1) = true
        · simp [hnil, hlater]
        · simp [hnil, hlater]

/-- The fields of the client, to which those of a request are added. -/
def base (c : Client) (r : Request) : Headers :=
  if r.body.isSome then c.defaults.insert "Content-Type" "application/json" else c.defaults

/-- **The fields sent** are those of the client that no field of the request matches, and
those of the request that last. -/
lemma entries_outgoing (c : Client) (r : Request) :
    (c.outgoing r).entries =
      ((c.base r).entries.filter fun e => !r.headers.entries.any (sameFold e.1 ·.1)) ++
        lasting r.headers.entries :=
  entries_foldl_replace r.headers.entries (c.base r)

/-! ### The client against the request -/

/-- Entries with values and keys of their own all last. -/
lemma lasting_eq_self (hw : h.WellFormed) : lasting h.entries = h.entries := by
  obtain ⟨hdistinct, hinhabited⟩ := hw
  generalize h.entries = entries at hdistinct hinhabited
  induction entries with
  | nil => rfl
  | cons e rest ih =>
      obtain ⟨hnew, hdistinct⟩ := List.nodup_cons.mp (Headers.keysOf_cons e ▸ hdistinct)
      obtain ⟨he, hinhabited⟩ := List.forall_mem_cons.mp hinhabited
      have hlater : rest.any (sameFold e.1 ·.1) = false := by
        refine List.any_eq_false.mpr fun f hf hmatch => hnew ?_
        rw [Text.sameFold_iff.mp hmatch]
        exact List.mem_map_of_mem hf
      rw [lasting, if_neg (by simp [he, hlater]), ih hdistinct hinhabited]

/-- What the client of a configuration sends by itself. -/
lemma entries_base_ofConfig (config : Config) (r : Request) :
    ((ofConfig config).base r).entries =
      [("User-Agent", [userAgent config.product]), ("Accept", [config.provider.accept])] ++
        if r.body.isSome then [("Content-Type", ["application/json"])] else [] := by
  have hagent : sameFold "User-Agent" "Accept" = false := by decide
  have hagent' : sameFold "User-Agent" "Content-Type" = false := by decide
  have haccept : sameFold "Accept" "Content-Type" = false := by decide
  have hdefaults : (ofConfig config).defaults.entries =
      [("User-Agent", [userAgent config.product]), ("Accept", [config.provider.accept])] := by
    simp [ofConfig, Headers.entries_insert, Headers.empty, hagent]
  rw [base]
  split
  · simp [Headers.entries_insert, hdefaults, hagent', haccept]
  · rw [hdefaults, List.append_nil]

/-- **Over well-formed fields of the request**, what is sent are the entries of the client
whose names the request does not have, and all of the request's. -/
lemma entries_outgoing_of_wellFormed (c : Client) {r : Request} (hw : r.headers.WellFormed) :
    (c.outgoing r).entries =
      ((c.base r).entries.filter fun e => !r.headers.contains e.1) ++ r.headers.entries := by
  rw [entries_outgoing, lasting_eq_self hw]
  simp only [Headers.contains_eq_any, Headers.names, List.any_map]
  rfl

/-- So a name has the values that the request gives it, or else those of the client. -/
lemma all_outgoing (c : Client) {r : Request} (hw : r.headers.WellFormed) (name : String) :
    (c.outgoing r).all name =
      if r.headers.contains name then r.headers.all name else (c.base r).all name := by
  have hmatching : ((c.base r).entries.filter fun e =>
      sameFold e.1 name && !r.headers.contains e.1) =
        ((c.base r).entries.filter fun e => sameFold e.1 name).filter fun _ =>
          !r.headers.contains name := by
    rw [List.filter_filter]
    refine List.filter_congr fun e _ => ?_
    cases hmatch : sameFold e.1 name with
    | false => rw [Bool.false_and, Bool.and_false]
    | true => rw [Headers.contains_congr hmatch, Bool.and_comm]
  rw [Headers.all, entries_outgoing_of_wellFormed c hw, List.filter_append, List.filter_filter,
    hmatching, List.flatMap_append]
  split
  · next hcontains => simp [hcontains, Headers.all]
  · next hcontains =>
      have hnone := Headers.all_of_not_contains (eq_false_of_ne_true hcontains)
      rw [Headers.all] at hnone
      simp [hcontains, Headers.all, hnone]

/-! ### What is handed over -/

/-- A valid request that is not rejected is handed over. -/
lemma snd_perform_of_verify {ν : Type} {net : Network ν} {c : Client} {r : Request}
    (hverify : r.verify = .ok ()) (haccepted : net.rejection? (c.draft r) = none) (state : ν) :
    ((c.transport net).perform state r).2 = (net.exchange state (c.draft r)).2 := by
  rw [transport]
  dsimp only
  rw [hverify, haccepted]
  dsimp only
  rcases net.exchange state (c.draft r) with ⟨_ | response, after⟩ <;> rfl

/-- **Fields of the request override those of the client.** Of a valid request, every name that
it has itself, in any case, is sent with the request's values, in their order, and every other
name with the client's: `User-Agent`, `Accept`, and `Content-Type` if there is a body. The
entries are those of the client that are not overridden, in their order, and then those of
the request as they are. Every network is handed just these, value by value with their names,
unless it rejects them. -/
theorem request_fields_override (config : Config) (r : Request) (hverify : r.verify = .ok ())
    (hr : r.headers.Reachable) :
    let c := ofConfig config
    let defaults := c.base r
    let sent := c.outgoing r
    (defaults.entries =
      [("User-Agent", [userAgent config.product]), ("Accept", [config.provider.accept])] ++
        if r.body.isSome then [("Content-Type", ["application/json"])] else []) ∧
    (∀ name, sent.all name =
      if r.headers.contains name then r.headers.all name else defaults.all name) ∧
    sent.entries =
      (defaults.entries.filter fun e => !r.headers.contains e.1) ++ r.headers.entries ∧
    ∀ (ν : Type) (net : Network ν) (state : ν),
      let draft : Draft := ⟨r.method, r.uri, sent.pairs, r.body.map Json.write⟩
      net.rejection? draft = none →
        ((c.transport net).perform state r).2 = (net.exchange state draft).2 := by
  intro c defaults sent
  have hw := hr.wellFormed
  exact ⟨entries_base_ofConfig config r, all_outgoing c hw, entries_outgoing_of_wellFormed c hw,
    fun _ _ state haccepted => snd_perform_of_verify hverify haccepted state⟩

/-- A request with two values for a name that the client has, too, in another spelling, and
with a name of its own in two spellings. -/
def overriding : Request :=
  ⟨.post, "https://h/1", Headers.empty.after [.append "ACCEPT" "text/plain", .append "x-trace" "1",
    .append "accept" "text/html", .append "X-Trace" "2"], some .null⟩

/-- A configuration with a product. -/
def introduced : Config := ⟨.github, ⟨"https", "api.github.com", ""⟩, some "tool"⟩

/-- Both values are sent in place of the client's, its other fields stay, and a proxy that is
handed all of this records it. -/
theorem request_fields_override_accept :
    overriding.verify = .ok () ∧
    ((ofConfig introduced).outgoing overriding).all "Accept" = ["text/plain", "text/html"] ∧
    ((ofConfig introduced).outgoing overriding).all "content-type" = ["application/json"] ∧
    ((ofConfig introduced).outgoing overriding).entries.map Prod.fst =
      ["User-Agent", "Content-Type", "ACCEPT", "x-trace"] ∧
    (((ofConfig introduced).transport Proxy.network).perform ⟨[], true, []⟩ overriding).2.received =
      [⟨.post, "https://h/1",
        ⟨[("User-Agent", ["tool | provider-resources v0.1.0 | Rust 1.75"]),
          ("Content-Type", ["application/json"]), ("ACCEPT", ["text/plain", "text/html"]),
          ("x-trace", ["1", "2"])]⟩, "null"⟩] := by
  have hverify : overriding.verify = .ok () := by decide +kernel
  obtain ⟨hdefaults, hvalues, hentries, hhanded⟩ :=
    request_fields_override introduced overriding hverify ⟨_, rfl⟩
  refine ⟨hverify, (hvalues "Accept").trans (by decide +kernel),
    (hvalues "content-type").trans (by decide +kernel), ?_, ?_⟩
  · rw [hentries, hdefaults]
    decide +kernel
  · rw [hhanded Proxy Proxy.network ⟨[], true, []⟩ (by decide +kernel)]
    decide +kernel

/-! ### Fields of one name -/

/-- **What else is sent does not depend on the entries of one name.** What holds of all that a
request is sent with when they are left out, and of them, holds of all that it is sent with. -/
lemma forall_pairs_outgoing {P : String × String → Prop} {c : Client} {r : Request} (name : String)
    (hown : ∀ e ∈ r.headers.entries, sameFold e.1 name = true → ∀ v ∈ e.2, P (e.1, v))
    (hrest : ∀ f ∈ (c.outgoing { r with headers := (r.headers.remove name).2 }).pairs, P f) :
    ∀ f ∈ (c.outgoing r).pairs, P f := by
  rw [Headers.forall_pairs_iff, entries_outgoing, List.forall_mem_append] at hrest ⊢
  obtain ⟨hbase, hlasting⟩ := hrest
  simp only [Headers.entries_remove] at hbase hlasting
  constructor
  · intro e he
    obtain ⟨hin, hunmatched⟩ := List.mem_filter.mp he
    refine hbase e (List.mem_filter.mpr ⟨hin, ?_⟩)
    simp only [Bool.not_eq_true', List.any_eq_false] at hunmatched ⊢
    exact fun f hf => hunmatched f (List.mem_filter.mp hf).1
  · intro e he
    cases hmatch : sameFold e.1 name with
    | true =>
        obtain ⟨-, before, after, hsplit, -⟩ := mem_lasting_iff.mp he
        exact hown e (by simp [hsplit]) hmatch
    | false => exact hlasting e (mem_lasting_filter (by simp [hmatch]) he)

end Client

end Http

end LayeredFetch
