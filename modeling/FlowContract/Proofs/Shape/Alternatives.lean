import FlowContract.Proofs.Shape.Layout
import FlowContract.Proofs.Shape.Truthful

/-!
Where alternatives come from. Only a union tells what its other forms have to say; everything else
hands on what its members have to say, as it is. What is said in a place behind a member has been
said by the shape of this member.
-/

namespace FlowContract

open Json (Value)

/-- A place in a document, or one further in. -/
def Path.Encloses (place path : Path) : Prop := ∃ relative, path = place.within relative

theorem Path.within_injective (base : Path) {a b : Path} (h : base.within a = base.within b) :
    a = b := by
  have hsegments := congrArg Path.segments h
  exact congrArg Path.mk (List.append_cancel_left hsegments)

theorem Path.behind_ne_root (segment : Segment) (relative : Path) :
    relative.behind segment ≠ .root := nofun

theorem Path.ne_behind (base : Path) (name : String) (relative : Path) :
    base ≠ (base.key name).within relative := by
  intro h
  have hlength := congrArg (·.segments.length) h
  simp only [key, push, within, List.length_append, List.length_cons, List.length_nil] at hlength
  omega

/-- Two places behind members of a mapping are behind the same member. -/
theorem Path.name_eq_of_behind {base relative relative' : Path} {name other : String}
    (h : (base.key name).within relative = (base.key other).within relative') : name = other := by
  rw [key, push_within, key, push_within] at h
  have hbehind := congrArg segments (base.within_injective h)
  simp only [behind, List.cons.injEq, Segment.key.injEq] at hbehind
  exact hbehind.1

namespace Shape

variable {shape : Shape} {v : Value} {base : Path} {rejection : Rejection} {fields : List Field}
  {closed : Bool} {relative : Path}

/-- What has alternatives has been said by a union, about the part of the value that it was met at.
-/
theorem union_of_alternatives (hmem : rejection ∈ shape.failures v base)
    (halternatives : rejection.alternatives ≠ []) : ∃ segments variants u,
      shape.Visits v segments (union variants) u ∧
      rejection ∈ (union variants).failures u (base.within ⟨segments⟩) := by
  induction hmem using mem_failures_induction with
  | alone _ _ _ hnone => exact absurd hnone halternatives
  | @inward _ _ _ _ base _ _ front _ _ hplace hvisits ih =>
    obtain ⟨segments, variants, u, hinner, hunion⟩ := ih halternatives
    have hsegments : (base.within ⟨front⟩).within ⟨segments⟩ = base.within ⟨front ++ segments⟩ := by
      simp only [Path.within, List.append_assoc]
    rw [hplace, hsegments] at hunion
    exact ⟨_, variants, u, hvisits hinner, hunion⟩
  | @gathered variants v base _ _ hmem _ =>
    refine ⟨[], variants, v, .here _ v, ?_⟩
    rw [show base.within ⟨[]⟩ = base from base.within_root]
    exact hmem

theorem alternatives_eq_nil (hunions : shape.unions = [])
    (hmem : rejection ∈ shape.failures v base) : rejection.alternatives = [] := by
  by_contra halternatives
  obtain ⟨segments, variants, u, hvisits, -⟩ := union_of_alternatives hmem halternatives
  obtain ⟨place, hplace, -⟩ := hvisits.applies.mem_unions
  rw [hunions] at hplace
  cases hplace

/-! From a place that lies behind a member one comes to the member. -/

theorem encloses_of_mem_failures (hmem : rejection ∈ shape.failures v base) :
    base.Encloses rejection.path := by
  obtain ⟨_, _, _⟩ := failures_grounded hmem
  exact ⟨_, rfl⟩

theorem encloses_of_check (h : shape.check v base = .error rejection) :
    base.Encloses rejection.path := by
  rw [check_eq_firstOf, Walk.firstOf_eq_error_iff] at h
  exact encloses_of_mem_failures (List.mem_of_head? h)

/-- What a record says in a place further in than one of its keys is said by the shape of this
field. -/
theorem mem_failures_of_record {name : String} {inner : Shape} {required : Bool}
    (hfield : ⟨name, inner, required⟩ ∈ fields) (hnames : (fields.map Field.name).Nodup)
    (hmem : rejection ∈ (record fields closed).failures v base)
    (hpath : rejection.path = (base.key name).within relative) (hrelative : relative ≠ .root) :
    ∃ member, v.get? name = some member ∧ rejection ∈ inner.failures member (base.key name) := by
  -- A key that is missing or one too many is told in its own place.
  have hkey (key : String) : base.key key ≠ (base.key name).within relative := by
    intro h
    have hsame : (base.key key).within .root = (base.key name).within relative :=
      ((base.key key).within_root).trans h
    obtain rfl := Path.name_eq_of_behind hsame
    exact hrelative (Path.within_injective _ hsame).symm
  cases v with
  | mapping entries =>
    rcases List.mem_append.mp hmem with hkeys | hfields
    · obtain ⟨key, u, -, hmember⟩ := mem_entryFailures_iff.mp hkeys
      obtain ⟨-, rfl⟩ := mem_failUnless_iff.mp hmember
      exact absurd hpath (hkey key)
    · obtain ⟨other, hother, ⟨member, hfind, hmember⟩ | ⟨-, -, rfl⟩⟩ :=
        mem_fieldFailures_iff.mp hfields
      · obtain ⟨further, hfurther⟩ := encloses_of_mem_failures hmember
        have hname := Path.name_eq_of_behind (hfurther.symm.trans hpath)
        obtain rfl := List.inj_on_of_nodup_map hnames hother hfield hname
        exact ⟨member, hfind, hmember⟩
      · exact absurd hpath (hkey other.name)
  | _ =>
    obtain rfl := List.mem_singleton.mp hmem
    exact absurd hpath (base.ne_behind name relative)

/-- A mapping with arbitrary keys has nothing to say about its keys. -/
theorem mem_failures_of_keyed {value : Shape} {name : String}
    (hmem : rejection ∈ (keyed .any value).failures v base)
    (hpath : rejection.path = (base.key name).within relative) :
    ∃ member, v.get? name = some member ∧ rejection ∈ value.failures member (base.key name) := by
  cases v with
  | mapping entries =>
    obtain ⟨key, member, hfind, hmember⟩ := mem_entryFailures_iff.mp hmem
    replace hmember : rejection ∈ value.failures member (base.key key) := hmember
    obtain ⟨inner, hinner⟩ := encloses_of_mem_failures hmember
    obtain rfl := Path.name_eq_of_behind (hinner.symm.trans hpath)
    exact ⟨member, hfind, hmember⟩
  | _ =>
    obtain rfl := List.mem_singleton.mp hmem
    exact absurd hpath (base.ne_behind name relative)

theorem mem_failures_of_orNull {inner : Shape} (hmem : rejection ∈ (orNull inner).failures v base) :
    rejection ∈ inner.failures v base := by
  rw [failures] at hmem
  split at hmem
  · exact absurd hmem List.not_mem_nil
  · exact hmem

end Shape

end FlowContract
