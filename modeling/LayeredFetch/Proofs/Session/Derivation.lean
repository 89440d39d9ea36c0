import LayeredFetch.Proofs.Stack.Fields
import LayeredFetch.Proofs.Stack.Independence
import LayeredFetch.Session

/-!
Changed copies, and the ways to come by one.

* **What changes come to.** `Resource.derive_eq`: the last status and the last body that are
  given count, and the operations on fields are performed in order, wherever the other changes
  stand between them.
* **Copies of a copy.** `Fetched.rebuild_rebuild`, `Way.copy?_copy?`: changes made one list after
  the other are those of both lists.
* `Session.Way` lists the ways in which a session makes a copy: of the resource of a value, of the
  value, or of the value if it is tagged. `State.perform_way`: what it makes, and what it leaves
  alone.
* `State.derivations_agree`: so all ways make the same resource, and those that keep where a value
  came from keep it through every change.
-/

namespace LayeredFetch

/-! ### What changes come to -/

namespace Resource

namespace Change

/-- The status that a change gives. -/
def status? : Change → Option Nat
  | status code => some code
  | _ => none

/-- The body that a change gives. -/
def body? : Change → Option Json
  | body value => some value
  | _ => none

/-- The operations on fields that a change performs. -/
def ops : Change → List Headers.Op
  | headers ops => ops
  | _ => []

end Change

/-- The resource with the last status and the last body that are given, and the fields after all
operations. -/
def altered (r : Resource) (statuses : List Nat) (bodies : List Json) (ops : List Headers.Op) :
    Resource where
  status := statuses.getLast?.getD r.status
  headers := r.headers.after ops
  body := bodies.getLast?.getD r.body

/-- **What changes come to.** -/
theorem derive_eq (r : Resource) (changes : List Change) :
    r.derive changes = r.altered (changes.filterMap Change.status?)
      (changes.filterMap Change.body?) (changes.flatMap Change.ops) := by
  induction changes generalizing r with
  | nil => rfl
  | cons c changes ih =>
      have hstep : r.derive (c :: changes) = (r.change c).derive changes := rfl
      rw [hstep, ih]
      cases c with
      | status code =>
          simp [altered, change, Change.status?, Change.body?, Change.ops, List.getLast?_cons]
      | body value =>
          simp [altered, change, Change.status?, Change.body?, Change.ops, List.getLast?_cons]
      | headers ops =>
          simp [altered, change, Change.status?, Change.body?, Change.ops, Headers.after]

end Resource

/-! ### Copies of a copy -/

namespace Fetched

/-- Where a tagged value came from: its URI and its entity tag. -/
def origin? (f : Fetched) : Option (String × String) := f.tagged?.map fun e => (e.uri, e.etag)

/-- A copy of a value came from where the value did. -/
lemma origin?_rebuild (serial : Nat) (changes : List Resource.Change) (f : Fetched) :
    (f.rebuild serial changes).origin? = f.origin? := by
  cases f <;> rfl

/-- **A copy of a copy** is the copy after all changes. -/
lemma rebuild_rebuild (serial serial' : Nat) (changes more : List Resource.Change)
    (f : Fetched) :
    (f.rebuild serial changes).rebuild serial' more = f.rebuild serial' (changes ++ more) := by
  cases f with
  | plain r => exact congrArg plain (r.derive_append changes more).symm
  | tagged e =>
      have hresource := e.resource.derive_append changes more
      exact congrArg (fun r => tagged { e with serial := serial', resource := r }) hresource.symm

end Fetched

namespace Session

/-! ### Ways to a copy -/

/-- The ways in which a session makes a changed copy. -/
inductive Way where
  /-- A plain copy, of the resource of a value. -/
  | resource
  /-- A copy of a value, tagged if the value is. -/
  | value
  /-- A copy of a tagged value, and none of a plain one. -/
  | tagged
deriving DecidableEq

namespace Way

variable {σ : Type}

/-- The action that makes the copy. -/
def action : Way → String → List Resource.Change → Action σ
  | resource => .derive
  | value => .rebuild
  | tagged => .rebuildTagged

/-- The copy, if there is one; a tagged one has the number that is given. -/
def copy? (serial : Nat) (changes : List Resource.Change) (f : Fetched) : Way → Option Fetched
  | resource => some (.plain (f.resource.derive changes))
  | value => some (f.rebuild serial changes)
  | tagged => f.tagged?.map fun e => .tagged (e.rebuild serial changes)

/-- Where the copy of a value came from. -/
def origin? (f : Fetched) : Way → Option (String × String)
  | resource => none
  | value | tagged => f.origin?

variable {way : Way} {serial serial' : Nat} {changes more : List Resource.Change}
variable {f g : Fetched}

/-- **Every way makes the same resource**, and keeps where the value came from if it keeps that
at all. -/
lemma resource_and_origin_of_copy? (h : way.copy? serial changes f = some g) :
    g.resource = f.resource.derive changes ∧ g.origin? = way.origin? f := by
  cases way with
  | resource =>
      obtain rfl := Option.some.inj h
      exact ⟨rfl, rfl⟩
  | value =>
      obtain rfl := Option.some.inj h
      exact ⟨f.resource_rebuild serial changes, f.origin?_rebuild serial changes⟩
  | tagged =>
      cases f with
      | plain r => cases h
      | tagged e =>
          obtain rfl := Option.some.inj h
          exact ⟨rfl, rfl⟩

/-- Only a copy that has to be tagged may not be there. -/
lemma isSome_copy?_iff :
    (way.copy? serial changes f).isSome = true ↔ (way = tagged → f.tagged?.isSome = true) := by
  cases way with
  | resource => exact iff_of_true rfl nofun
  | value => exact iff_of_true rfl nofun
  | tagged =>
      rw [copy?, Option.isSome_map]
      exact ⟨fun h _ => h, fun h => h rfl⟩

/-- **A copy of a copy** is the copy after all changes. -/
lemma copy?_of_copy? (h : way.copy? serial changes f = some g) :
    way.copy? serial' more g = way.copy? serial' (changes ++ more) f := by
  cases way with
  | resource =>
      obtain rfl := Option.some.inj h
      exact congrArg (fun r => some (Fetched.plain r)) (f.resource.derive_append changes more).symm
  | value =>
      obtain rfl := Option.some.inj h
      exact congrArg some (f.rebuild_rebuild serial serial' changes more)
  | tagged =>
      cases f with
      | plain r => cases h
      | tagged e =>
          obtain rfl := Option.some.inj h
          exact congrArg some (Fetched.rebuild_rebuild serial serial' changes more (.tagged e))

/-- The number that a copy gets is all that depends on the time of its making. -/
lemma map_unnumbered_copy? (way : Way) (serial serial' : Nat) (changes : List Resource.Change)
    (f : Fetched) :
    (way.copy? serial changes f).map Fetched.unnumbered =
      (way.copy? serial' changes f).map Fetched.unnumbered := by
  cases way <;> cases f <;> rfl

end Way

/-! ### Copies in a session -/

namespace State

variable {σ : Type} {t : Transport σ} {s : State σ} {source : String} {f g : Fetched}

/-- **What a way makes** of a value that is kept, and that it changes neither what else is kept
nor what caches hold. -/
lemma perform_way (way : Way) (changes : List Resource.Change)
    (hf : s.kept.get? source = some f) :
    (s.perform t (way.action source changes)).1.made? = way.copy? s.world.nextSerial changes f ∧
      (s.perform t (way.action source changes)).2.kept = s.kept ∧
      (s.perform t (way.action source changes)).2.world.caches = s.world.caches := by
  cases way with
  | resource =>
      rw [Way.action, perform, withKept, hf]
      exact ⟨rfl, rfl, rfl⟩
  | value =>
      rw [Way.action, perform, withKept, hf]
      cases f <;> exact ⟨rfl, rfl, rfl⟩
  | tagged =>
      rw [Way.action, perform, withKept, hf]
      cases f <;> exact ⟨rfl, rfl, rfl⟩

/-- A copy is kept under the name that it is given. -/
lemma kept_step_way {way : Way} {changes : List Resource.Change} (mid : String)
    (hf : s.kept.get? source = some f)
    (hg : way.copy? s.world.nextSerial changes f = some g) :
    (s.step t ⟨way.action source changes, some mid⟩).2.kept.get? mid = some g := by
  have hmade := (perform_way (t := t) way changes hf).1
  simp only [step, hmade, hg, Table.get?_insert_self]

/-- **All ways to derive a copy agree.** Take a value that is kept in a session, and a list of
changes. Every way makes the resource with the last status and the last body among the changes,
the value's own where none is given, and with the value's fields after all operations in order,
wherever the other changes stand. A copy of the value is tagged if and only if the value is, and
then it has the value's URI and entity tag, whatever becomes of its fields; a copy of the value as
a tagged one is made of tagged values only. Making a copy of a copy is making one copy with both
lists of changes. And the value itself stays as it was, under its name and in every cache. -/
theorem derivations_agree (t : Transport σ) (s : State σ) (source : String) (f : Fetched)
    (hf : s.kept.get? source = some f) (changes : List Resource.Change) :
    (∀ (way : Way) (g : Fetched), (s.perform t (way.action source changes)).1.made? = some g →
      g.resource = f.resource.altered (changes.filterMap Resource.Change.status?)
        (changes.filterMap Resource.Change.body?) (changes.flatMap Resource.Change.ops) ∧
      g.origin? = way.origin? f) ∧
    (∀ way : Way, (s.perform t (way.action source changes)).1.made?.isSome = true ↔
      (way = .tagged → f.tagged?.isSome = true)) ∧
    (∀ (way : Way) (mid : String) (more : List Resource.Change),
      (s.perform t (way.action source changes)).1.made?.isSome = true →
      ((s.step t ⟨way.action source changes, some mid⟩).2.perform t
          (way.action mid more)).1.made?.map Fetched.unnumbered =
        (s.perform t (way.action source (changes ++ more))).1.made?.map Fetched.unnumbered) ∧
    ∀ (way : Way) (keepAs : Option String), keepAs ≠ some source →
      let after := (s.step t ⟨way.action source changes, keepAs⟩).2
      (after.perform t (.show source)).1.made? = some f ∧
        after.world.caches = s.world.caches := by
  refine ⟨fun way g hg => ?_, fun way => ?_, fun way mid more hsome => ?_,
    fun way keepAs hkeep => ?_⟩
  · rw [(perform_way way changes hf).1] at hg
    rw [← Resource.derive_eq]
    exact Way.resource_and_origin_of_copy? hg
  · rw [(perform_way way changes hf).1]
    exact Way.isSome_copy?_iff
  · rw [(perform_way way changes hf).1] at hsome
    obtain ⟨g, hg⟩ := Option.isSome_iff_exists.mp hsome
    rw [(perform_way way more (kept_step_way mid hf hg)).1, Way.copy?_of_copy? hg,
      (perform_way way (changes ++ more) hf).1]
    exact Way.map_unnumbered_copy? way _ _ (changes ++ more) f
  · obtain ⟨-, hkept, hcaches⟩ := perform_way (t := t) way changes hf
    refine ⟨?_, hcaches⟩
    have hstill : (s.step t ⟨way.action source changes, keepAs⟩).2.kept.get? source = some f := by
      rw [step]
      dsimp only
      split
      · next name made _ =>
          have hne : source ≠ name := fun h => hkeep (by rw [h])
          rw [Table.get?_insert, if_neg hne, hkept, hf]
      · rw [hkept, hf]
    rw [perform, withKept, hstill]
    rfl

/-- A page with an entity tag, and the same page tagged. -/
def heldPage : Tagged := ⟨0, "http://h", "v1", ⟨200, ⟨[("ETag", ["v1"])]⟩, .str "page"⟩⟩

/-- A session that keeps the page. -/
def withPage : State Unit :=
  ((initial ()).run Stack.unplugged
    [⟨.make heldPage.resource, some "page"⟩, ⟨.tag "page" "http://h", some "held"⟩]).2

/-- A copy that lost its `ETag` field still has the entity tag. -/
theorem derivations_agree_untagged :
    withPage.kept.get? "held" = some (.tagged heldPage) ∧
    ∃ g, (withPage.perform Stack.unplugged (.rebuild "held"
        [.headers [.remove "etag"], .status 404, .headers [.insert "A" "b"],
          .status 410])).1.made? = some g ∧
      g.resource = ⟨410, ⟨[("A", ["b"])]⟩, .str "page"⟩ ∧ g.origin? = some ("http://h", "v1") := by
  have hheld : withPage.kept.get? "held" = some (.tagged heldPage) := rfl
  obtain ⟨hmade, hsome, -, -⟩ := derivations_agree Stack.unplugged withPage "held" _ hheld
    [.headers [.remove "etag"], .status 404, .headers [.insert "A" "b"], .status 410]
  obtain ⟨g, hg⟩ := Option.isSome_iff_exists.mp ((hsome .value).mpr nofun)
  obtain ⟨hresource, horigin⟩ := hmade .value g hg
  exact ⟨hheld, g, hg, hresource, horigin⟩

end State

end Session

end LayeredFetch
