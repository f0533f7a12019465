import FlowContract.Proofs.Shape.Grounds

/-!
Rejections tell the truth about a document: each one leads from the place where the check began to a
part of the document and describes that part, or leads to a key that is missing or not allowed.
-/

namespace FlowContract

open Json (Value)

def Path.behind (segment : Segment) (relative : Path) : Path := ⟨segment :: relative.segments⟩

theorem Path.push_within (base : Path) (segment : Segment) (relative : Path) :
    (base.push segment).within relative = base.within (relative.behind segment) := by
  simp only [push, within, behind, List.append_assoc, List.cons_append, List.nil_append]

theorem Path.resolve?_behind {segment : Segment} {v u : Value} (h : segment.follow? v = some u)
    (relative : Path) : (relative.behind segment).resolve? v = relative.resolve? u := by
  simp only [resolve?, behind, List.foldlM_cons, h, Option.bind_eq_bind, Option.bind_some]

/-- What may be said about a value: which part of it is where, which key a mapping in it lacks, and
which key it has that does not meet a condition. -/
inductive Finds (v : Value) : (relative : Path) → (expected actual : String) → Prop where
  | part (relative : Path) (expected : String) {u : Value} (h : relative.resolve? v = some u) :
      Finds v relative expected (describe u)
  | lack (place : Path) (expected : String) {entries : SortedMap Value} {key : String}
      (h : place.resolve? v = some (.mapping entries)) (hkey : key ∉ entries.keys) :
      Finds v (place.key key) expected Shape.missing
  | key (place : Path) (predicate : KeyPredicate) {entries : SortedMap Value} {key : String}
      (h : place.resolve? v = some (.mapping entries)) (hkey : key ∈ entries.keys)
      (hpredicate : predicate.accepts key = false) :
      Finds v (place.key key) predicate.describe s!"key `{key}`"

theorem Finds.behind {segment : Segment} {v u : Value} {relative : Path} {expected actual : String}
    (hfollow : segment.follow? v = some u) (h : Finds u relative expected actual) :
    Finds v (relative.behind segment) expected actual := by
  cases h with
  | part _ _ h =>
    rw [← Path.resolve?_behind hfollow] at h
    exact .part _ expected h
  | lack _ _ h hkey =>
    rw [← Path.resolve?_behind hfollow] at h
    exact .lack _ expected h hkey
  | key _ predicate h hkey hpredicate =>
    rw [← Path.resolve?_behind hfollow] at h
    exact .key _ predicate h hkey hpredicate

/-- What may be said about a part may be said about the whole, in the place of the part. -/
theorem Finds.within {place relative : Path} {v u : Value} {expected actual : String}
    (hplace : place.resolve? v = some u) (h : Finds u relative expected actual) :
    Finds v (place.within relative) expected actual := by
  obtain ⟨segments⟩ := place
  induction segments generalizing v with
  | nil =>
    cases hplace
    exact h
  | cons segment rest ih =>
    rw [Path.resolve?_cons] at hplace
    obtain ⟨member, hfollow, hrest⟩ := Option.bind_eq_some_iff.mp hplace
    exact (ih hrest).behind hfollow

theorem Shape.Reason.finds {shape : Shape} {v : Value} {own : List Segment}
    {expected actual : String} (h : shape.Reason v own expected actual) :
    Finds v ⟨own⟩ expected actual := by
  rcases h with hobjects | hmisplaces
  · cases hobjects with
    | whole _ => exact .part .root _ (Path.resolve?_root v)
    | undeclared hfind _ => exact (Finds.part .root _ (Path.resolve?_root _)).behind hfind
    | lacking _ _ hkey => exact .lack .root _ (Path.resolve?_root _) hkey
    | @key predicate _ _ _ hkey hpredicate =>
      rw [← KeyPredicate.accepts_iff, Bool.not_eq_true] at hpredicate
      exact .key .root predicate (Path.resolve?_root _) hkey hpredicate
  · cases hmisplaces with
    | element _ hitem _ => exact (Finds.part .root _ (Path.resolve?_root _)).behind hitem

namespace Rejection

/-- A rejection of a value that stands at a place: what it says is found in the value, and the same
holds of its alternatives. -/
inductive Truthful (base : Path) (v : Value) : Rejection → Prop where
  | intro {relative : Path} {expected actual : String} {alternatives : List Rejection}
      (hfinds : Finds v relative expected actual)
      (halternatives : ∀ rejection ∈ alternatives, Truthful base v rejection) :
      Truthful base v ⟨base.within relative, expected, actual, alternatives⟩

variable {base : Path} {v : Value} {rejection : Rejection}

theorem Truthful.here (base : Path) (v : Value) (expected : String) :
    Truthful base v ⟨base, expected, describe v, []⟩ := by
  have h : Truthful base v ⟨base.within .root, expected, describe v, []⟩ :=
    .intro (.part .root expected (Path.resolve?_root v)) nofun
  rwa [Path.within_root] at h

/-- A rejection that is truthful about a member is truthful about the value. -/
theorem Truthful.outward (segment : Segment) {u : Value} (hfollow : segment.follow? v = some u)
    (h : Truthful (base.push segment) u rejection) : Truthful base v rejection := by
  induction h with
  | intro hfinds _ ih =>
    rw [Path.push_within]
    exact .intro (hfinds.behind hfollow) ih

/-- What shapes say about parts that they are applied to is truthful about the whole. -/
theorem Grounded.truthful {shape : Shape} (h : rejection.Grounded Shape.Reason base shape v) :
    rejection.Truthful base v := by
  induction h with
  | intro hvisits hreason _ ih => exact .intro (hreason.finds.within hvisits.resolve?) ih

end Rejection

theorem Shape.check_truthful {shape : Shape} {v : Value} {base : Path} {rejection : Rejection}
    (h : shape.check v base = .error rejection) : rejection.Truthful base v :=
  (check_grounded h).truthful

end FlowContract
