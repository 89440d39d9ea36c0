import LayeredFetch.Text.Pieces

/-!
The beginning of an absolute URI: a scheme of ASCII letters, then `://`.
-/

namespace LayeredFetch.Uri

/-- The text between the scheme and the rest. -/
def authorityMark : List Char := [':', '/', '/']

/-- The scheme and what follows it, cut at the first `://`, if the scheme is a
non-empty run of ASCII letters. -/
def split? (cs : List Char) : Option (List Char × List Char) :=
  (Text.splitOnce authorityMark cs).filter fun (scheme, _) =>
    !scheme.isEmpty && scheme.all Char.isAlpha

/-- A text is cut into a scheme and the rest if it is written so. -/
theorem split?_eq_some_iff {cs scheme after : List Char} :
    split? cs = some (scheme, after) ↔
      cs = scheme ++ authorityMark ++ after ∧ scheme ≠ [] ∧ ∀ c ∈ scheme, c.isAlpha = true := by
  rw [split?, Option.filter_eq_some_iff]
  constructor
  · rintro ⟨hsplit, htest⟩
    exact ⟨Text.splitOnce_eq_append hsplit, by simpa using htest⟩
  · rintro ⟨rfl, hne, halpha⟩
    have hcolon : ∀ c ∈ scheme, c ≠ ':' := by
      rintro c hc rfl
      exact absurd (halpha _ hc) (by decide)
    exact ⟨Text.splitOnce_append hcolon after, by simpa using ⟨hne, halpha⟩⟩

/-- Whether a URI can be requested: after the scheme there is something that does
not begin with a slash. -/
def isAbsolute (uri : String) : Bool :=
  match split? uri.toList with
  | some (_, c :: _) => c != '/'
  | _ => false

end LayeredFetch.Uri
