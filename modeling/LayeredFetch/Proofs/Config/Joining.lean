import LayeredFetch.Proofs.Config.Rereading
import LayeredFetch.Request
import LayeredFetch.Config.Basic

/-!
URIs under a base URL.

The URI of a path is the text of another base URL, whose rest goes on with a slash and the path.
So what holds of the texts of base URLs holds of it, whatever the path is.

* `BaseUrl.extended` is that base URL, and `BaseUrl.text_extended` says that its text is the URI.
* **Reading it again** takes nothing but white space and slashes from its end, and so nothing
  from the scheme and the host (`BaseUrl.parse_join`).
* **Asking for it** is asking for an absolute URI (`BaseUrl.WellFormed.isAbsolute_text`).
* `Config.uri_requestable`: this is so for every path under every base URL that can be read, and
  for every configuration.
-/

namespace LayeredFetch

namespace BaseUrl

open Text (isBlank stripEnd)

variable {b : BaseUrl}

/-- Some text writes the base URL. -/
def Accepted (b : BaseUrl) : Prop := ∃ s, parse s = .ok b

lemma Accepted.wellFormed (h : b.Accepted) : b.WellFormed := by
  obtain ⟨s, hs⟩ := h
  exact (parse_eq_ok_iff.mp hs).1

/-- What is read does not end in a slash. -/
lemma Accepted.getLast?_ne_slash (h : b.Accepted) : b.text.toList.getLast? ≠ some '/' := by
  obtain ⟨s, hs⟩ := h
  rw [← (parse_eq_ok_iff.mp hs).2]
  intro hlast
  have hstrip : stripEnd (· == '/') (normalize s) = normalize s :=
    List.rdropWhile_idempotent (· == '/') (Text.trim s.toList)
  cases Text.stripEnd_eq_self_iff.mp hstrip '/' hlast

/-! ### The URI of a path -/

/-- A path without the slashes at its beginning. -/
def relative (path : String) : String := String.ofList (path.toList.dropWhile (· == '/'))

/-- The base URL whose rest goes on with a slash and a path. -/
def extended (b : BaseUrl) (path : String) : BaseUrl :=
  { b with rest := b.rest ++ "/" ++ relative path }

/-- The URI of a path is the text of a base URL. -/
lemma text_extended (b : BaseUrl) (path : String) : (b.extended path).text = b.join path := by
  simp only [text, extended, join, relative, String.append_assoc]

/-- It begins as a base URL does. -/
lemma WellFormed.extended (h : b.WellFormed) (path : String) : (b.extended path).WellFormed := by
  refine h.with_rest fun c hc => ?_
  rw [String.toList_append, String.toList_append, List.append_assoc, List.head?_append] at hc
  cases hrest : b.rest.toList.head? with
  | none =>
      rw [hrest] at hc
      obtain rfl : '/' = c := Option.some.inj hc
      rfl
  | some d =>
      rw [hrest] at hc
      obtain rfl : d = c := Option.some.inj hc
      exact h.rest_begin d hrest

/-- **A URI under a base URL is read** as a base URL with the same scheme and the same host. -/
lemma parse_join (h : b.WellFormed) (path : String) :
    parse (b.join path) = .ok (b.extended path).shortened := by
  rw [← text_extended]
  exact parse_eq_ok_iff.mpr ⟨(h.extended path).shortened, normalize_text (h.extended path)⟩

/-- The text of a base URL is an absolute URI: its host does not begin with a slash. -/
lemma WellFormed.isAbsolute_text (h : b.WellFormed) : Uri.isAbsolute b.text = true := by
  obtain ⟨c, cs, hhost⟩ := List.exists_cons_of_ne_nil h.host_ne
  have hslash : c ≠ '/' := h.ne_slash (hhost ▸ List.mem_cons_self)
  rw [Uri.isAbsolute, h.split?_text, hhost, List.cons_append]
  simpa using hslash

end BaseUrl

/-! ### Requests for it -/

/-- Whether a part of a request concerns its fields only. -/
def Request.Part.isField : Request.Part → Bool
  | .body _ => false
  | .headers _ | .header _ _ => true

/-- Fields leave everything else in a request as it is. -/
lemma Request.foldl_add_of_isField (r : Request) {parts : List Request.Part}
    (h : ∀ part ∈ parts, part.isField = true) :
    ∃ headers, parts.foldl Request.add r = { r with headers } := by
  induction parts generalizing r with
  | nil => exact ⟨r.headers, rfl⟩
  | cons part parts ih =>
      have hrest := fun r' => ih r' fun p hp => h p (List.mem_cons_of_mem part hp)
      cases part with
      | body value => cases h _ List.mem_cons_self
      | headers fields => exact hrest { r with headers := fields }
      | header name value => exact hrest { r with headers := r.headers.append name value }

/-- A GET of an absolute URI is built from any fields. -/
lemma Request.build_get {uri : String} (h : Uri.isAbsolute uri = true)
    {parts : List Request.Part} (hparts : ∀ part ∈ parts, part.isField = true) :
    ∃ headers, Request.build .get uri parts = .ok ⟨.get, uri, headers, none⟩ := by
  obtain ⟨headers, hbuilt⟩ := Request.foldl_add_of_isField ⟨.get, uri, .empty, none⟩ hparts
  refine ⟨headers, ?_⟩
  have hvalid : (Request.mk .get uri headers none).verify = .ok () := by
    rw [Request.verify, h]
    rfl
  rw [Request.build, hbuilt]
  dsimp only
  rw [hvalid]
  rfl

namespace Config

/-- What the URI of a path under a base URL is good for. -/
structure Reaches (b : BaseUrl) (path uri : String) : Prop where
  /-- There is one slash between the text of the base URL and the path. -/
  written : ∃ slashes rest, path.toList = slashes ++ rest.toList ∧ (∀ c ∈ slashes, c = '/') ∧
    rest.toList.head? ≠ some '/' ∧ uri = b.text ++ "/" ++ rest
  base_end : b.text.toList.getLast? ≠ some '/'
  /-- It can be asked for, with any fields. -/
  requestable : ∀ parts : List Request.Part, (∀ part ∈ parts, part.isField = true) →
    ∃ headers, Request.build .get uri parts = .ok ⟨.get, uri, headers, none⟩
  /-- It is itself the text of a base URL, at the same host. -/
  reread : ∃ c, BaseUrl.parse uri = .ok c ∧ c.scheme = b.scheme ∧ c.host = b.host

/-- So it is with every path under every base URL. -/
lemma reaches_join {b : BaseUrl} (h : b.Accepted) (path : String) :
    Reaches b path (b.join path) where
  written := by
    refine ⟨path.toList.takeWhile (· == '/'), BaseUrl.relative path, ?_, fun c hc => ?_, ?_, rfl⟩
    · rw [BaseUrl.relative, String.toList_ofList, List.takeWhile_append_dropWhile]
    · simpa using List.mem_takeWhile_imp hc
    · intro hhead
      have hnot := List.head?_dropWhile_not (· == '/') path.toList
      rw [BaseUrl.relative, String.toList_ofList] at hhead
      rw [hhead] at hnot
      cases hnot
  base_end := h.getLast?_ne_slash
  requestable _ hparts := by
    refine Request.build_get ?_ hparts
    rw [← BaseUrl.text_extended]
    exact (h.wellFormed.extended path).isAbsolute_text
  reread := by
    refine ⟨(b.extended path).shortened, BaseUrl.parse_join h.wellFormed path, ?_, ?_⟩
    · rw [BaseUrl.shortened, BaseUrl.extended]
    · rw [BaseUrl.shortened, BaseUrl.extended]

/-- The root of every public interface is a base URL. -/
lemma exists_parse_defaultBaseUrl (p : Provider) :
    ∃ b, BaseUrl.parse p.defaultBaseUrl = .ok b := by
  cases p with
  | github => exact ⟨⟨"https", "api.github.com", ""⟩, rfl⟩
  | gitlab => exact ⟨⟨"https", "gitlab.com", "/api/v4"⟩, rfl⟩

/-- A configuration needs nothing but a provider, -/
lemma exists_build (provider : Provider) (baseUrl : Option BaseUrl) (product : Option String) :
    ∃ config, Config.build (some provider) baseUrl product = .ok config := by
  cases baseUrl with
  | some b => exact ⟨_, rfl⟩
  | none =>
      obtain ⟨b, hb⟩ := exists_parse_defaultBaseUrl provider
      rw [Config.build, hb]
      exact ⟨_, rfl⟩

/-- and its base URL is the one that is given, or that of the provider. -/
lemma accepted_of_build {provider : Option Provider} {baseUrl : Option BaseUrl}
    {product : Option String} {config : Config} (hgiven : ∀ b ∈ baseUrl, b.Accepted)
    (h : Config.build provider baseUrl product = .ok config) : config.baseUrl.Accepted := by
  cases provider with
  | none => cases h
  | some provider =>
      cases baseUrl with
      | some b =>
          obtain rfl := Except.ok.inj h
          exact hgiven b rfl
      | none =>
          obtain ⟨b, hb⟩ := exists_parse_defaultBaseUrl provider
          rw [Config.build, hb] at h
          obtain rfl := Except.ok.inj h
          exact ⟨_, hb⟩

/-- **Configured URIs can be requested.** The URI of any path under a base URL that some text
writes is the text of the base URL, which does not end in a slash, then one slash, and the path
without the slashes at its beginning; a GET of it is built without a complaint; and it is read as
a base URL with the same scheme and the same host. A configuration can be made for every provider,
with a base URL of its own or without, and so it is with its URIs. -/
theorem uri_requestable :
    (∀ b : BaseUrl, b.Accepted → ∀ path, Reaches b path (b.join path)) ∧
    (∀ provider baseUrl product, ∃ config,
      Config.build (some provider) baseUrl product = .ok config) ∧
    ∀ provider baseUrl product config, (∀ b ∈ baseUrl, BaseUrl.Accepted b) →
      Config.build provider baseUrl product = .ok config →
      config.baseUrl.Accepted ∧ ∀ path, config.uri path = config.baseUrl.join path ∧
        Reaches config.baseUrl path (config.uri path) := by
  refine ⟨fun b hb path => reaches_join hb path, exists_build, ?_⟩
  intro provider baseUrl product config hgiven hconfig
  have haccepted := accepted_of_build hgiven hconfig
  exact ⟨haccepted, fun path => ⟨rfl, reaches_join haccepted path⟩⟩

/-- A path of slashes and white space, under a base URL that ends in white space: reading the URI
again takes all of that away, and leaves the host. -/
theorem uri_requestable_blank :
    ∃ (b : BaseUrl) (config : Config), BaseUrl.parse " http://h:8 /" = .ok b ∧
      Config.build (some .gitlab) (some b) none = .ok config ∧
      config.uri "// / " = "http://h:8 / / " ∧
      (∃ headers, Request.build .get "http://h:8 / / " [.header "Accept" "text"] =
        .ok ⟨.get, "http://h:8 / / ", headers, none⟩) ∧
      ∃ c, BaseUrl.parse "http://h:8 / / " = .ok c ∧ c.scheme = "http" ∧ c.host = "h" := by
  have hparse : BaseUrl.parse " http://h:8 /" = .ok ⟨"http", "h", ":8 "⟩ := rfl
  have hgiven : ∀ b ∈ some (BaseUrl.mk "http" "h" ":8 "), b.Accepted := by
    rintro b ⟨⟩
    exact ⟨_, hparse⟩
  obtain ⟨config, hconfig⟩ := uri_requestable.2.1 .gitlab (some ⟨"http", "h", ":8 "⟩) none
  have hbase : config.baseUrl = ⟨"http", "h", ":8 "⟩ := by
    obtain rfl := Except.ok.inj hconfig
    rfl
  obtain ⟨huri, hreaches⟩ :=
    (uri_requestable.2.2 _ _ _ config hgiven hconfig).2 "// / "
  have htext : config.uri "// / " = "http://h:8 / / " := by
    rw [huri, hbase]
    decide
  rw [htext, hbase] at hreaches
  exact ⟨_, config, hparse, hconfig, htext, hreaches.requestable _ (by decide), hreaches.reread⟩

end Config

end LayeredFetch
