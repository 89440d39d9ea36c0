import Mathlib
import LayeredFetch.Proofs.Cache.Transparency
import LayeredFetch.Proofs.Http.Outgoing
import LayeredFetch.Proofs.Stack.Fields

/-!
Entity tags that were read can be sent.

The client leaves out what it cannot read of an answer, and a network rejects a request with
what may not be sent. An entity tag crosses from one to the other, through the caches.

* `Client.readable_of_perform`: every field value of an answer is readable. So is the entity
  tag of whatever is held, in every world that a run comes to (`Session.readable_of_held`).
* `Client.rejection_draft`: readable entity tags do not keep a request from being sent.
* `Session.held_validator_sendable`: a request to which layers add the entity tag of what is
  held can be sent, if it can be sent without entity tags.
-/

namespace LayeredFetch

/-! ### What the client reads -/

namespace Headers

variable {P : String → Prop} {name value : String} {entries : List (String × List String)}

/-- A property of all values is kept when one more value has it. -/
lemma forall_values_appendTo (hvalue : P value) (hall : ∀ e ∈ entries, ∀ v ∈ e.2, P v) :
    ∀ e ∈ appendTo name value entries, ∀ v ∈ e.2, P v := by
  induction entries with
  | nil => simpa [appendTo] using hvalue
  | cons first rest ih =>
      obtain ⟨hfirst, hrest⟩ := List.forall_mem_cons.mp hall
      rw [appendTo]
      split
      · refine List.forall_mem_cons.mpr ⟨fun v hv => ?_, hrest⟩
        rcases List.mem_append.mp hv with hv | hv
        · exact hfirst v hv
        · exact List.mem_singleton.mp hv ▸ hvalue
      · exact List.forall_mem_cons.mpr ⟨hfirst, ih hrest⟩

/-- What holds of the values of all pairs holds of all values collected from them. -/
lemma forall_values_ofPairs {pairs : List (String × String)} (hpairs : ∀ p ∈ pairs, P p.2) :
    ∀ e ∈ (ofPairs pairs).entries, ∀ v ∈ e.2, P v := by
  have hfold : ∀ h : Headers, (∀ e ∈ h.entries, ∀ v ∈ e.2, P v) →
      ∀ e ∈ (h.appendPairs pairs).entries, ∀ v ∈ e.2, P v := by
    induction pairs with
    | nil => exact fun _ hall => hall
    | cons pair rest ih =>
        obtain ⟨hpair, hrest⟩ := List.forall_mem_cons.mp hpairs
        exact fun h hall => ih hrest (h.append pair.1 pair.2) (forall_values_appendTo hpair hall)
  exact hfold empty (by simp [empty])

end Headers

namespace Http

/-! ### Readable values -/

/-- Whether a text consists of visible ASCII, spaces and tabs. -/
def Readable (s : String) : Prop :=
  ∀ c ∈ s.toList, c = '\t' ∨ 0x20 ≤ c.toNat ∧ c.toNat ≤ 0x7E

/-- Values that are texts are readable. -/
lemma Network.Lawful.readable {ν : Type} {net : Network ν} (hnet : net.Lawful)
    {octets : List UInt8} {s : String} (h : net.text? octets = some s) : Readable s := by
  obtain ⟨hoctets, hchars⟩ := (hnet.text_iff octets s).mp h
  intro c hc
  rw [hchars] at hc
  obtain ⟨o, ho, rfl⟩ := List.mem_map.mp hc
  have hread := hoctets o ho
  simp only [isReadable, Bool.or_eq_true, beq_iff_eq, Bool.and_eq_true, decide_eq_true_eq] at hread
  rcases hread with rfl | hrange
  · exact .inl rfl
  · have hsame : (Char.ofUInt8 o).toNat = o.toNat := by simp [Char.ofUInt8, Char.toNat]
    rw [hsame]
    exact .inr hrange

/-- They may be sent under every token. -/
lemma isSendable_of_readable {name value : String} (hname : isToken name = true)
    (hvalue : Readable value) : isSendable name value = true := by
  have hallowed : value.toList.any isForbidden = false := by
    refine List.any_eq_false.mpr fun c hc => ?_
    rcases hvalue c hc with rfl | ⟨hlow, hhigh⟩
    · decide
    · have hlow' : ¬ c.toNat < 0x20 := by omega
      have hhigh' : c.toNat ≠ 0x7F := by omega
      simp [isForbidden, hlow', hhigh']
  rw [isSendable, hname, hallowed]
  rfl

/-- Whether a character may stand in a token does not depend on its case. -/
lemma isTokenChar_toLower (c : Char) :
    (c.toLower.isAlphanum || tokenMarks.contains c.toLower) =
      (c.isAlphanum || tokenMarks.contains c) := by
  by_cases hupper : c.isUpper = true
  · have hc : c.isAlpha = true := Bool.or_eq_true_iff.mpr (.inl hupper)
    have halnum : ∀ {d : Char}, d.isAlpha = true → d.isAlphanum = true :=
      fun hd => Bool.or_eq_true_iff.mpr (.inl hd)
    rw [halnum hc, halnum ((Char.isAlpha_toLower_eq_isAlpha c).trans hc), Bool.true_or,
      Bool.true_or]
  · rw [Char.toLower_eq_of_not_isUpper hupper]

/-- A name that matches a token is one. -/
lemma isToken_congr {s t : String} (hmatch : Text.sameFold s t = true) : isToken s = isToken t := by
  have hfold : ∀ u : String, isToken u =
      (!(Text.fold u).isEmpty &&
        (Text.fold u).all fun c => c.isAlphanum || tokenMarks.contains c) := by
    intro u
    rw [isToken, Text.fold, List.isEmpty_map, List.all_map]
    simp only [Function.comp_def, isTokenChar_toLower]
  rw [hfold, hfold, Text.sameFold_iff.mp hmatch]

namespace Client

variable {ν : Type} {c : Client} {net : Network ν} {r : Request} {reply : Resource}

/-- **Every value of an answer is readable.** -/
lemma readable_of_receive (hnet : net.Lawful) {response : Response}
    (h : (receive net.text? r response).outcome = .ok reply) :
    ∀ e ∈ reply.headers.entries, ∀ v ∈ e.2, Readable v := by
  rw [receive] at h
  dsimp only at h
  split at h
  · cases h
  · obtain rfl := Except.ok.inj h
    refine Headers.forall_values_ofPairs fun p hp => ?_
    obtain ⟨field, -, hread⟩ := List.mem_filterMap.mp hp
    obtain ⟨value, htext, rfl⟩ := Option.map_eq_some_iff.mp hread
    exact hnet.readable htext

/-- Whatever the client gives was received. -/
lemma readable_of_perform (hnet : net.Lawful) {server : ν}
    (h : ((c.transport net).perform server r).1.outcome = .ok reply) :
    ∀ e ∈ reply.headers.entries, ∀ v ∈ e.2, Readable v := by
  rw [transport] at h
  dsimp only at h
  split at h
  · cases h
  · split at h
    · cases h
    · split at h
      · cases h
      · exact readable_of_receive hnet h

/-- **Readable entity tags do not keep a request from being sent.** -/
lemma rejection_draft (hnet : net.Lawful)
    (htags : ∀ v ∈ r.headers.all "If-None-Match", Readable v)
    (hplain : net.rejection? (c.draft r.unconditional) = none) :
    net.rejection? (c.draft r) = none := by
  obtain ⟨hrest, hfields⟩ := (hnet.rejection_iff (c.draft r.unconditional)).mp hplain
  refine (hnet.rejection_iff (c.draft r)).mpr ⟨hrest, ?_⟩
  refine forall_pairs_outgoing "If-None-Match" (fun e he hmatch v hv => ?_) hfields
  have hname : isToken e.1 = true := (isToken_congr hmatch).trans (by decide)
  exact isSendable_of_readable hname (htags v (Headers.mem_all he hmatch hv))

end Client

end Http

/-! ### What is held -/

namespace Session

open Http (Client Network Proxy)

variable {ν : Type} {c : Client} {net : Network ν} {server : ν} {w : World ν}
variable {steps : List (Step ν)}

/-- The entity tag of what is held is readable. -/
lemma readable_of_held (hnet : net.Lawful) (hput : HandsOff steps)
    (hw : Reached (c.transport net) server steps w) {cache uri : String} {e : Tagged}
    (he : w.held? cache uri = some e) : Http.Readable e.etag := by
  have hinv := (genuine_invariant (c.transport net)).and (performed_invariant (c.transport net))
  obtain ⟨hgenuine, hperformed⟩ := hinv.reached hput
    ⟨World.genuine_initial server, fun _ hx => absurd hx List.not_mem_nil⟩ hw
  have hentry := hgenuine cache uri e he
  obtain ⟨x, hx, -, -, hgiven⟩ := hentry.given
  obtain ⟨state, hanswer⟩ := hperformed x hx
  obtain ⟨spelled, values, hfind⟩ := Headers.exists_find?_of_first? hentry.tag
  exact Client.readable_of_perform hnet (hanswer.trans hgiven) _
    (List.mem_of_find?_eq_some hfind) e.etag List.mem_cons_self

/-- **A validator that is held can always be sent back.** Wherever a run over the client comes,
over any network that minds fields and reads values as is known of networks, with caches that
only the client's requests fill, the entity tags held consist of visible ASCII, spaces and
tabs. So a request to which a layer adds the tag of what it holds is not rejected if it is
not without its own entity tags; and what reaches the client of a GET through a stack, of
which some layer holds something, is not rejected if it would not be for the request without
entity tags through the stack without caches. -/
theorem held_validator_sendable (c : Client) (net : Network ν) (hnet : net.Lawful) (server : ν)
    (steps : List (Step ν)) (hput : HandsOff steps) (w : World ν)
    (hw : Reached (c.transport net) server steps w) :
    (∀ cache uri e, w.held? cache uri = some e →
      ∀ ch ∈ e.etag.toList, ch = '\t' ∨ 0x20 ≤ ch.toNat ∧ ch.toNat ≤ 0x7E) ∧
    (∀ (r : Request) (cache : String), (w.held? cache r.uri).isSome = true →
      net.rejection? (c.draft r.unconditional) = none →
      net.rejection? (c.draft (r.revalidating (w.held? cache r.uri))) = none) ∧
    ∀ (r : Request) (s : Stack), r.method = .get →
      (∃ cache ∈ s.cacheNames, (w.held? cache r.uri).isSome = true) →
      net.rejection? (c.draft (s.uncached.outgoing w r.unconditional)) = none →
      net.rejection? (c.draft (s.outgoing w r)) = none := by
  refine ⟨fun cache uri e he => readable_of_held hnet hput hw he, fun r cache hheld hplain => ?_,
    fun r s hget hheld hplain => ?_⟩
  · obtain ⟨e, he⟩ := Option.isSome_iff_exists.mp hheld
    rw [he]
    refine Client.rejection_draft hnet ?_ (by rwa [Request.unconditional_revalidating])
    rw [Request.all_revalidating]
    exact List.forall_mem_singleton.mpr (readable_of_held hnet hput hw he)
  · obtain ⟨_, cache, _, e, -, he, -, htag⟩ := s.exists_all_outgoing_of_held hget hheld
    refine Client.rejection_draft hnet ?_ (by rwa [Stack.unconditional_outgoing])
    rw [htag]
    exact List.forall_mem_singleton.mpr (readable_of_held hnet hput hw he)

/-- A proxy that gives every page an entity tag that cannot be read before one that can. -/
def taggingProxy : Proxy :=
  ⟨[⟨⟨none, none, []⟩, none, .reply 200 [("etag", "\u00e9"), ("etag", "v1")] (.text "")⟩],
    true, []⟩

/-- A client with a field of its own. -/
def plainClient : Client := ⟨⟨[("Accept", ["application/json"])]⟩⟩

/-- A session that gets a page through a cache and that client. -/
def fetchedOnce : List (Step Proxy) :=
  [⟨.view "site" [.revalidate "pages"], none⟩, ⟨.fetch "site" (.get "https://h/1" ∅), none⟩]

/-- The world after that session. -/
def worldOfClient : World Proxy :=
  worldAfter (plainClient.transport Proxy.network) taggingProxy fetchedOnce

/-- A request for the page with an entity tag of its own that may not be sent. -/
def unsendable : Request :=
  ⟨.get, "https://h/1", ⟨[("IF-NONE-MATCH", ["a\nb"]), ("X-Trace", ["1"])]⟩, none⟩

/-- The tag that is held takes the place of one that may not be sent, and the request is sent,
through a stack with a token as well. -/
theorem held_validator_sendable_unsendable :
    (Proxy.network.rejection? (plainClient.draft unsendable)).isSome = true ∧
    (worldOfClient.held? "pages" "https://h/1").map Tagged.etag = some "v1" ∧
    Proxy.network.rejection? (plainClient.draft
      (unsendable.revalidating (worldOfClient.held? "pages" "https://h/1"))) = none ∧
    Proxy.network.rejection? (plainClient.draft (Stack.outgoing worldOfClient
      [.revalidate "pages", .authenticate ⟨.bearer, "x"⟩] unsendable)) = none := by
  have hput : HandsOff fetchedOnce := by decide
  have hheld : (worldOfClient.held? "pages" "https://h/1").isSome = true := by decide +kernel
  obtain ⟨-, hlayer, hstack⟩ := held_validator_sendable plainClient Proxy.network
    Proxy.lawful_network taggingProxy fetchedOnce hput worldOfClient (.inl rfl)
  exact ⟨by decide +kernel, by decide +kernel, hlayer unsendable "pages" hheld (by decide +kernel),
    hstack unsendable [.revalidate "pages", .authenticate ⟨.bearer, "x"⟩] rfl
      ⟨"pages", List.mem_cons_self, hheld⟩ (by decide +kernel)⟩

end Session

end LayeredFetch
