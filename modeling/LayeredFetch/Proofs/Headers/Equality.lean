import LayeredFetch.Links
import LayeredFetch.Proofs.Headers.Multimap
import LayeredFetch.Resource.Tagged

/-!
Equal header fields cannot be told apart.

Equality ignores the order of entries, while every observer stops at the first entry that
matches. Only because no second one matches do they agree.

* Whatever is observed of well-formed headers with the same entries agrees, and every
  operation keeps them so (`Equal.perform`). No sequence of operations tells the two apart
  (`Equal.observe`).
* `equality_is_congruence`: this for all headers that operations can leave, and what it means
  for equal resources: they have the same entity tag and announce the same links.
-/

namespace LayeredFetch

open Text (sameFold fold)

namespace Headers

variable {g h k : Headers}

/-- What a sequence of operations gives, one after another. -/
def observe (h : Headers) : List Op → List Observation
  | [] => []
  | op :: ops => (h.perform op).1 :: (h.perform op).2.observe ops

namespace Equal

/-! ### Observers -/

lemma all (he : g.Equal h) (name : String) : g.all name = h.all name :=
  he.left.all_eq_of_same he.right he.same name

lemma get? (he : g.Equal h) (name : String) : g.get? name = h.get? name := by
  ext values
  rw [he.left.get?_eq_some_iff, he.right.get?_eq_some_iff, he.all]

lemma first? (he : g.Equal h) (name : String) : g.first? name = h.first? name := by
  rw [he.left.first?_eq, he.right.first?_eq, he.all]

lemma contains (he : g.Equal h) (name : String) : g.contains name = h.contains name := by
  rw [Headers.contains, Headers.contains, he.get?]

lemma size (he : g.Equal h) : g.size = h.size := he.perm.length_eq

lemma isEmpty (he : g.Equal h) : g.isEmpty = h.isEmpty := he.perm.isEmpty_eq

/-- Equal headers are equal to the same headers. -/
lemma same_congr (he : g.Equal h) (hk : k.WellFormed) : g.same k = h.same k := by
  rw [Bool.eq_iff_iff, ← equal_iff_same he.left hk, ← equal_iff_same he.right hk]
  exact ⟨he.symm.trans, he.trans⟩

/-! ### Operations -/

lemma remove (he : g.Equal h) (name : String) :
    (g.remove name).2.Equal (h.remove name).2 where
  left := he.left.remove name
  right := he.right.remove name
  perm := by
    rw [entries_remove, entries_remove]
    exact he.perm.filter _

lemma append (he : g.Equal h) (name value : String) :
    (g.append name value).Equal (h.append name value) where
  left := he.left.append name value
  right := he.right.append name value
  perm := by
    rw [he.left.entries_append, he.right.entries_append, he.contains]
    split
    · exact he.perm.map _
    · exact he.perm.append_right _

/-- **Every operation gives the same** on equal headers, and leaves equal headers. -/
lemma perform (he : g.Equal h) (op : Op) :
    (g.perform op).1 = (h.perform op).1 ∧ (g.perform op).2.Equal (h.perform op).2 := by
  cases op with
  | clear => exact ⟨rfl, .refl wellFormed_empty⟩
  | collect pairs => exact ⟨rfl, .refl (wellFormed_ofPairs pairs)⟩
  | insert name value => exact ⟨rfl, he.insert name value⟩
  | append name value => exact ⟨rfl, he.append name value⟩
  | remove name =>
      have htaken : (g.remove name).1 = (h.remove name).1 := by
        rw [remove_fst, remove_fst, he.all]
      exact ⟨congrArg Observation.values htaken, he.remove name⟩
  | get name => exact ⟨congrArg Observation.values? (he.get? name), he⟩
  | first name => exact ⟨congrArg Observation.value? (he.first? name), he⟩
  | all name => exact ⟨congrArg Observation.values (he.all name), he⟩
  | contains name => exact ⟨congrArg Observation.flag (he.contains name), he⟩
  | isEmpty => exact ⟨congrArg Observation.flag he.isEmpty, he⟩
  | size => exact ⟨congrArg Observation.count he.size, he⟩
  | same pairs =>
      exact ⟨congrArg Observation.flag (he.same_congr (wellFormed_ofPairs pairs)), he⟩

/-- **No sequence of operations tells equal headers apart.** -/
lemma observe (he : g.Equal h) (ops : List Op) :
    g.observe ops = h.observe ops ∧ (g.after ops).Equal (h.after ops) := by
  induction ops generalizing g h with
  | nil => exact ⟨rfl, he⟩
  | cons op rest ih =>
      obtain ⟨hgiven, hleft⟩ := he.perform op
      obtain ⟨hlater, hend⟩ := ih hleft
      exact ⟨congrArg₂ List.cons hgiven hlater, hend⟩

end Equal

end Headers

/-! ### Resources -/

namespace Resource

variable {a b : Resource}

/-- Equal resources have equal headers. -/
lemma headers_equal (ha : a.headers.WellFormed) (hb : b.headers.WellFormed)
    (hsame : a.same b = true) : a.headers.Equal b.headers := by
  rw [same, Bool.and_eq_true, Bool.and_eq_true] at hsame
  exact (Headers.equal_iff_same ha hb).mpr hsame.1.2

end Resource

/-- The entity tag of a plain value is all that decides whether and how it is tagged. -/
lemma Fetched.map_tag? (serial : Nat) (uri : String) (r : Resource) :
    ((Fetched.plain r).tag? serial uri).map (fun t => (t.uri, t.etag)) =
      r.etag?.map fun etag => (uri, etag) := by
  rw [tag?, Option.map_map]
  rfl

namespace Headers

/-- **Equality is a congruence.** Headers that operations can leave and that are equal show
the same under every name, and so do they after any further operations, which give the same on
both and leave them equal. Equal resources are both made tagged or neither, with the same
entity tag, and announce the same links. -/
theorem equality_is_congruence :
    (∀ g h : Headers, g.Reachable → h.Reachable → g.same h = true →
      (∀ name, g.get? name = h.get? name ∧ g.first? name = h.first? name ∧
        g.all name = h.all name ∧ g.contains name = h.contains name) ∧
      g.size = h.size ∧
      ∀ ops, g.observe ops = h.observe ops ∧ (g.after ops).same (h.after ops) = true) ∧
    ∀ a b : Resource, a.headers.Reachable → b.headers.Reachable → a.same b = true →
      (∀ serial uri,
        ((Fetched.plain a).tag? serial uri).map (fun t => (t.uri, t.etag)) =
          ((Fetched.plain b).tag? serial uri).map fun t => (t.uri, t.etag)) ∧
      Links.ofHeaders a.headers = Links.ofHeaders b.headers := by
  constructor
  · intro g h hg hh hsame
    have he : g.Equal h := (equal_iff_same hg.wellFormed hh.wellFormed).mpr hsame
    refine ⟨fun name => ⟨he.get? name, he.first? name, he.all name, he.contains name⟩, he.size,
      fun ops => ?_⟩
    obtain ⟨hgiven, hleft⟩ := he.observe ops
    exact ⟨hgiven, hleft.same⟩
  · intro a b ha hb hsame
    have he := Resource.headers_equal ha.wellFormed hb.wellFormed hsame
    constructor
    · intro serial uri
      rw [Fetched.map_tag?, Fetched.map_tag?, Resource.etag?, Resource.etag?, he.first?]
    · rw [Links.ofHeaders, Links.ofHeaders, he.all]

/-- Some fields, with the entity tag first. -/
def tagFirst : Headers := empty.after [.insert "ETag" "v1", .append "Link" "a"]

/-- The same fields in another order. -/
def tagLast : Headers := empty.after [.append "Link" "a", .append "ETag" "v1"]

/-- The entity tag is found in both orders, and both stay equal when a value is added. -/
theorem equality_is_congruence_reordered :
    tagFirst ≠ tagLast ∧ tagFirst.same tagLast = true ∧
      tagFirst.first? "etag" = tagLast.first? "etag" ∧
      (tagFirst.append "link" "b").same (tagLast.append "link" "b") = true := by
  have hsame : tagFirst.same tagLast = true := by decide
  obtain ⟨hshown, -, hlater⟩ :=
    equality_is_congruence.1 tagFirst tagLast ⟨_, rfl⟩ ⟨_, rfl⟩ hsame
  exact ⟨by decide, hsame, (hshown "etag").2.1, (hlater [.append "link" "b"]).2⟩

/-- Fields with two entries of one name, which no operation leaves, do depend on the order. -/
example :
    let g : Headers := ⟨[("ETag", ["a"]), ("etag", ["b"])]⟩
    let h : Headers := ⟨[("etag", ["b"]), ("ETag", ["a"])]⟩
    g.same h = true ∧ g.first? "ETag" ≠ h.first? "ETag" := by
  decide

end Headers

end LayeredFetch
