import Mathlib.Tactic.Common
import LayeredFetch.Config.Layout

/-!
The offsets of a base URL against its parts.

* **Cutting.** At the offsets of a layout its text may be cut, and what is cut out are the
  parts (`BaseUrl.layout_slices`). So different base URLs have different layouts
  (`BaseUrl.layout_inj`).
* **Reading.** A text with the mark `://` is cut at it into the parts `BaseUrl.cutAt`, by
  characters (`BaseUrl.parse_of_splitOnce`) and by offsets (`BaseUrl.scan_of_splitOnce`).
* `BaseUrl.scan_eq_parse`: so to read by offsets always has an outcome, which is the layout of
  the base URL that the text writes, or the same complaint.
-/

namespace LayeredFetch.BaseUrl

variable {s : String} {scheme after : List Char}

/-! ### Cutting -/

/-- The scheme stands at the beginning. -/
lemma slice?_scheme (b : BaseUrl) : Text.slice? b.text 0 b.scheme.utf8ByteSize = some b.scheme := by
  have hcut := Text.slice?_append "" b.scheme ("://" ++ b.host ++ b.rest)
  rw [String.empty_append, String.utf8ByteSize_empty, Nat.zero_add, ← String.append_assoc,
    ← String.append_assoc] at hcut
  exact hcut

/-- The host stands behind the scheme and the mark. -/
lemma slice?_host (b : BaseUrl) :
    Text.slice? b.text (b.scheme.utf8ByteSize + 3)
      (b.scheme.utf8ByteSize + 3 + b.host.utf8ByteSize) = some b.host := by
  have hcut := Text.slice?_append (b.scheme ++ "://") b.host b.rest
  rw [String.utf8ByteSize_append] at hcut
  exact hcut

lemma utf8ByteSize_text (b : BaseUrl) :
    b.text.utf8ByteSize = b.scheme.utf8ByteSize + 3 + (b.host ++ b.rest).utf8ByteSize := by
  rw [text, String.append_assoc, String.utf8ByteSize_append, String.utf8ByteSize_append]
  rfl

/-- The rest follows the host. -/
lemma slice?_remainder (b : BaseUrl) :
    Text.slice? b.text (b.scheme.utf8ByteSize + 3) b.text.utf8ByteSize =
      some (b.host ++ b.rest) := by
  have hcut := Text.slice?_append (b.scheme ++ "://") (b.host ++ b.rest) ""
  rw [String.append_empty, ← String.append_assoc, String.utf8ByteSize_append] at hcut
  rw [utf8ByteSize_text]
  exact hcut

/-- **The slices of a layout are the parts of the base URL**, and its text is theirs. -/
theorem layout_slices (b : BaseUrl) :
    b.layout.scheme? = some b.scheme ∧ b.layout.host? = some b.host ∧
      b.layout.url = b.scheme ++ "://" ++ b.host ++ b.rest ∧
      ∀ path, b.layout.join path = b.join path :=
  ⟨b.slice?_scheme, b.slice?_host, rfl, fun _ => rfl⟩

/-- Base URLs are equal if and only if their layouts are. -/
theorem layout_inj {b c : BaseUrl} : b.layout = c.layout ↔ b = c := by
  refine ⟨fun h => ?_, congrArg layout⟩
  obtain ⟨hscheme, hhost, htext, -⟩ := b.layout_slices
  rw [h, c.layout_slices.1, Option.some.injEq] at hscheme
  rw [h, c.layout_slices.2.1, Option.some.injEq] at hhost
  rw [h, c.layout_slices.2.2.1, hscheme, hhost, String.append_right_inj] at htext
  cases b
  cases c
  rw [mk.injEq]
  exact ⟨hscheme.symm, hhost.symm, htext.symm⟩

/-! ### Reading -/

/-- The parts of a text with this before and after the mark. -/
def cutAt (scheme after : List Char) : BaseUrl :=
  ⟨String.ofList scheme, String.ofList (after.takeWhile (!endsHost ·)),
    String.ofList (after.dropWhile (!endsHost ·))⟩

/-- The parts make up the text again. -/
lemma text_cutAt (hsplit : Text.splitOnce Uri.authorityMark (normalize s) = some (scheme, after)) :
    String.ofList (normalize s) = (cutAt scheme after).text := by
  rw [Text.splitOnce_eq_append hsplit, ← String.toList_inj]
  simp [cutAt, text, Uri.authorityMark]

/-- The host ends where the offset of its end says. -/
lemma hostEnd_cutAt (scheme after : List Char) :
    (Text.findChar? endsHost ((cutAt scheme after).host ++ (cutAt scheme after).rest)).elim
        (cutAt scheme after).text.utf8ByteSize ((cutAt scheme after).layout.hostStart + ·) =
      (cutAt scheme after).layout.hostEnd := by
  have hafter : ((cutAt scheme after).host ++ (cutAt scheme after).rest).toList = after := by
    simp [cutAt]
  rw [utf8ByteSize_text]
  exact (Text.elim_findChar? _ _ _).trans (by rw [hafter]; rfl)

/-- Whether there is something wrong with the scheme or the host. -/
def isFlawed (b : BaseUrl) : Bool :=
  b.scheme.isEmpty || !b.scheme.toList.all Char.isAlpha ||
    (b.host.isEmpty || b.host.toList.any Text.isBlank)

/-- A text with the mark writes a base URL with these parts, if nothing is wrong with them. -/
lemma parse_of_splitOnce
    (hsplit : Text.splitOnce Uri.authorityMark (normalize s) = some (scheme, after)) :
    parse s =
      if (cutAt scheme after).isFlawed then .error (.invalidBaseUrl (String.ofList (normalize s)))
      else .ok (cutAt scheme after) := by
  have hempty : ∀ cs : List Char, (String.ofList cs).isEmpty = cs.isEmpty := by
    intro cs
    rw [Bool.eq_iff_iff]
    simp
  rw [parse, Uri.split?, hsplit, isFlawed]
  simp only [cutAt, hempty, String.toList_ofList]
  have hscheme : (!scheme.isEmpty && scheme.all Char.isAlpha) =
      !(scheme.isEmpty || !scheme.all Char.isAlpha) := by
    rw [Bool.not_or, Bool.not_not]
  rw [Option.filter_some, hscheme]
  cases scheme.isEmpty || !scheme.all Char.isAlpha <;> rfl

/-- Found by offsets, the parts are the same. -/
lemma scan_of_splitOnce
    (hsplit : Text.splitOnce Uri.authorityMark (normalize s) = some (scheme, after)) :
    Layout.scan s =
      some (if (cutAt scheme after).isFlawed then
          .error (.invalidBaseUrl (String.ofList (normalize s)))
        else .ok (cutAt scheme after).layout) := by
  rw [Layout.scan, Text.find?_eq, String.toList_ofList, hsplit, text_cutAt hsplit]
  generalize hb : cutAt scheme after = b
  have hend := hostEnd_cutAt scheme after
  rw [hb] at hend
  have hsize : Text.size scheme = b.scheme.utf8ByteSize := by
    rw [← hb]
    rfl
  have hnone : b.layout.hostEnd = b.layout.hostStart ↔ b.host.isEmpty = true := by
    rw [layout, Nat.add_eq_left, String.utf8ByteSize_eq_zero_iff, String.isEmpty_iff]
  dsimp only [Option.map_some, layout] at hend hnone ⊢
  rw [hsize, slice?_scheme, isFlawed]
  simp only [Option.bind_eq_bind, Option.bind_some, slice?_remainder, hend, slice?_host, hnone]
  cases b.scheme.isEmpty || !b.scheme.toList.all Char.isAlpha with
  | true => rfl
  | false =>
      cases b.host.isEmpty with
      | true => rfl
      | false => cases b.host.toList.any Text.isBlank <;> rfl

/-- **Reading by offsets is reading.** A text is never cut at a place that is not one between
two characters, and what is found is the layout of the base URL that the text writes; or else
the complaint is the same. -/
theorem scan_eq_parse (s : String) : Layout.scan s = some ((parse s).map layout) := by
  rcases hsplit : Text.splitOnce Uri.authorityMark (normalize s) with _ | ⟨scheme, after⟩
  · rw [Layout.scan, parse, Text.find?_eq, String.toList_ofList, Uri.split?, hsplit]
    rfl
  · rw [scan_of_splitOnce hsplit, parse_of_splitOnce hsplit]
    split <;> rfl

/-- Offsets count octets, of which some characters have several. -/
example : Layout.scan " https://é.fr:8/x/" = some (.ok ⟨"https://é.fr:8/x", 5, 8, 13⟩) := by
  decide +kernel

end LayeredFetch.BaseUrl
