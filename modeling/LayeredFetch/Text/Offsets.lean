import LayeredFetch.Text.Pieces

/-!
Places in a text, counted in octets of its UTF-8 form.

* **Finding.** `find?` gives the offset of the first occurrence of a text, `findChar?` that of
  the first character of some kind. They are the sizes of what `splitOnce` and `takeWhile` leave
  before it (`find?_eq`, `elim_findChar?`).
* **Cutting out.** `slice?` gives what stands between two offsets. That is nothing unless each
  is at the beginning of a character or at the end of the text, and the first is not the larger.
  The sizes of the parts of a text are such offsets (`slice?_append`).
-/

namespace LayeredFetch.Text

/-! ### Finding -/

/-- The offset of the first place where what follows passes a test. -/
def offset? (test : List Char → Bool) : List Char → Option Nat
  | [] => if test [] then some 0 else none
  | c :: cs => if test (c :: cs) then some 0 else (offset? test cs).map (c.utf8Size + ·)

/-- The offset of the first occurrence of a text in another. -/
def find? (mark : List Char) (s : String) : Option Nat := offset? mark.isPrefixOf s.toList

/-- The offset of the first character in `p`. -/
def findChar? (p : Char → Bool) (s : String) : Option Nat := offset? (·.head?.any p) s.toList

/-- The size of the text that characters make up. -/
def size (cs : List Char) : Nat := (String.ofList cs).utf8ByteSize

@[simp] theorem size_nil : size [] = 0 := rfl

@[simp] theorem size_cons (c : Char) (cs : List Char) : size (c :: cs) = c.utf8Size + size cs := by
  rw [size, String.ofList_cons, String.utf8ByteSize_append, String.utf8ByteSize_singleton, size]

/-- A text is found behind what is before it. -/
theorem find?_eq (mark : List Char) (s : String) :
    find? mark s = (splitOnce mark s.toList).map fun (before, _) => size before := by
  rw [find?]
  induction s.toList with
  | nil => cases mark <;> rfl
  | cons c cs ih =>
      rw [offset?, splitOnce, ih]
      split
      · rfl
      · rw [Option.map_map, Option.map_map]
        simp [Function.comp_def]

/-- The first character in `p`, or else the end of the text, stands behind the characters that
are not. -/
theorem elim_findChar? (p : Char → Bool) (s : String) (n : Nat) :
    (findChar? p s).elim (n + s.utf8ByteSize) (n + ·) =
      n + size (s.toList.takeWhile (!p ·)) := by
  have hsize : s.utf8ByteSize = size s.toList := by rw [size, String.ofList_toList]
  rw [findChar?, hsize]
  induction s.toList generalizing n with
  | nil => rfl
  | cons c cs ih =>
      rw [offset?, size_cons]
      cases hc : p c with
      | true => simp [hc]
      | false =>
          have hrest := ih (n + c.utf8Size)
          simp only [Nat.add_assoc] at hrest
          simpa [hc, Option.elim_map, Function.comp_def] using hrest

/-! ### Cutting out -/

/-- What stands between two offsets. -/
def slice? (s : String) (first last : Nat) : Option String :=
  if h : String.Pos.Raw.IsValid s ⟨first⟩ ∧ String.Pos.Raw.IsValid s ⟨last⟩ ∧ first ≤ last then
    some (String.extract ⟨⟨first⟩, h.1⟩ ⟨⟨last⟩, h.2.1⟩)
  else none

/-- The octets of a part stand between those before it and those after it. -/
theorem extract_append (before part after : ByteArray) :
    (before ++ part ++ after).extract before.size (before.size + part.size) = part :=
  calc (before ++ part ++ after).extract before.size (before.size + part.size)
      = (before ++ (part ++ after)).extract (before.size + 0) (before.size + part.size) := by
        rw [ByteArray.append_assoc, Nat.add_zero]
    _ = (part ++ after).extract 0 part.size := ByteArray.extract_append_size_add
    _ = part := ByteArray.extract_append_eq_left rfl

/-- A part of a text stands between the offsets that are the sizes of what is before it and of
what is not after it. -/
theorem slice?_append (before part after : String) :
    slice? (before ++ part ++ after) before.utf8ByteSize
      (before.utf8ByteSize + part.utf8ByteSize) = some part := by
  have hfirst : String.Pos.Raw.IsValid (before ++ part ++ after) ⟨before.utf8ByteSize⟩ :=
    String.Pos.Raw.isValid_iff_exists_append.mpr ⟨before, part ++ after, String.append_assoc, rfl⟩
  have hlast : String.Pos.Raw.IsValid (before ++ part ++ after)
      ⟨before.utf8ByteSize + part.utf8ByteSize⟩ := by
    refine String.Pos.Raw.isValid_iff_exists_append.mpr ⟨before ++ part, after, rfl, ?_⟩
    rw [← String.utf8ByteSize_append]
    rfl
  rw [slice?, dif_pos ⟨hfirst, hlast, Nat.le_add_right _ _⟩, Option.some.injEq,
    ← String.toByteArray_inj, String.toByteArray_extract, String.toByteArray_append,
    String.toByteArray_append]
  exact extract_append before.toByteArray part.toByteArray after.toByteArray

end LayeredFetch.Text
