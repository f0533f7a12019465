import FlowContract.Shape.Check

/-!
All mismatches of a value with a shape, collected without a path to keep and without ever stopping.
The walk of a check shares one path among all members and stops early. Main statement: it reports
the first of the collected mismatches, and where there are none it comes back to where it began.
-/

namespace FlowContract

open Json (Value)

namespace Walk

theorem bind_ok {walk : Walk Unit} {path place : Path} (walk' : Walk Unit)
    (h : walk path = .ok () place) :
    (do walk; walk' : Walk Unit) path = walk' place := by
  simp only [bind, EStateM.bind, h]

theorem bind_error {walk : Walk Unit} {path place : Path} {rejection : Rejection}
    (walk' : Walk Unit) (h : walk path = .error rejection place) :
    (do walk; walk' : Walk Unit) path = .error rejection place := by
  simp only [bind, EStateM.bind, h]

/-- A walk reports what is collected from each place: it stops with the first rejection, or comes
back to the place if there is none. How far a walk has got when it stops is left open. -/
structure Reports (walk : Walk Unit) (collect : Path → List Rejection) : Prop where
  passes : ∀ path, collect path = [] → walk path = .ok () path
  stops : ∀ path first others, collect path = first :: others →
    ∃ place, walk path = .error first place

theorem reports_pure : Reports (pure ()) fun _ => [] where
  passes _ _ := rfl
  stops _ _ _ h := by simp at h

theorem reports_stop (expected actual : String) :
    Reports (stop expected actual) fun path => [⟨path, expected, actual, []⟩] where
  passes _ h := by simp at h
  stops path first others h := by
    obtain ⟨rfl, -⟩ := List.cons.inj h
    exact ⟨path, rfl⟩

theorem Reports.ite (condition : Bool) {walk walk' : Walk Unit}
    {collect collect' : Path → List Rejection} (h : walk.Reports collect)
    (h' : walk'.Reports collect') :
    Reports (if condition then walk else walk') fun path =>
      if condition then collect path else collect' path := by
  cases condition with
  | true => exact h
  | false => exact h'

/-- Of two walks in a row, the second one begins where the first one has begun. -/
theorem Reports.append {walk walk' : Walk Unit} {collect collect' : Path → List Rejection}
    (h : walk.Reports collect) (h' : walk'.Reports collect') :
    Reports (do walk; walk') fun path => collect path ++ collect' path where
  passes path hnil := by
    obtain ⟨hcollect, hcollect'⟩ := List.append_eq_nil_iff.mp hnil
    rw [bind_ok walk' (h.passes path hcollect)]
    exact h'.passes path hcollect'
  stops path first others hcons := by
    rcases List.append_eq_cons_iff.mp hcons with ⟨hcollect, hcollect'⟩ | ⟨rest, hcollect, -⟩
    · rw [bind_ok walk' (h.passes path hcollect)]
      exact h'.stops path first others hcollect'
    · obtain ⟨place, hwalk⟩ := h.stops path first rest hcollect
      exact ⟨place, bind_error walk' hwalk⟩

/-- The step into a member is undone on the way out, so that what follows starts from the right
place. -/
theorem Reports.inside {walk : Walk Unit} {collect : Path → List Rejection}
    (h : walk.Reports collect) (segment : Segment) :
    Reports (inside segment walk) fun path => collect (path.push segment) where
  passes path hnil := by
    have hinside := bind_ok (modify Path.parent) (h.passes _ hnil)
    have hback : (modify Path.parent : Walk Unit) (path.push segment) = .ok () path :=
      congrArg (EStateM.Result.ok ()) (path.parent_push segment)
    exact hinside.trans hback
  stops path first others hcons := by
    obtain ⟨place, hwalk⟩ := h.stops _ first others hcons
    exact ⟨place, bind_error (modify Path.parent) hwalk⟩

theorem Reports.forM {α : Type} {walk : α → Walk Unit} {collect : α → Path → List Rejection}
    (h : ∀ a, (walk a).Reports (collect a)) (l : List α) :
    Reports (l.forM walk) fun path => l.flatMap (collect · path) := by
  induction l with
  | nil => exact reports_pure
  | cons head rest ih =>
    have happend := (h head).append ih
    simp only [List.flatMap_cons]
    exact happend

def firstOf : List Rejection → Except Rejection Unit
  | [] => .ok ()
  | first :: _ => .error first

theorem Reports.verdict_eq {walk : Walk Unit} {collect : Path → List Rejection}
    (h : walk.Reports collect) (path : Path) : walk.verdict path = firstOf (collect path) := by
  unfold verdict EStateM.run
  cases hcollect : collect path with
  | nil =>
    rw [h.passes path hcollect]
    rfl
  | cons first others =>
    obtain ⟨place, hwalk⟩ := h.stops path first others hcollect
    rw [hwalk]
    rfl

theorem firstOf_eq_ok_iff {l : List Rejection} : firstOf l = .ok () ↔ l = [] := by
  cases l <;> simp [firstOf]

theorem firstOf_eq_error_iff {l : List Rejection} {rejection : Rejection} :
    firstOf l = .error rejection ↔ l.head? = some rejection := by
  cases l <;> simp [firstOf]

end Walk

namespace Shape

/-- One mismatch, unless a condition holds. -/
def failUnless (condition : Bool) (rejection : Rejection) : List Rejection :=
  if condition then [] else [rejection]

/-- The mismatches with a union, from those with each variant: none if some variant has none, or
else the first of each variant, as one. -/
def unionFailures (whole : Rejection) (failures : List (List Rejection)) : List Rejection :=
  if failures.any List.isEmpty then []
  else
    match failures.filterMap List.head? with
    | [] => [whole]
    | first :: others => [{ first with alternatives := others }]

mutual

/-- All mismatches of the value at a place with a shape, depth first. -/
def failures : Shape → Value → Path → List Rejection
  | scalar kind nullable, v, path =>
    failUnless (kind.accepts v || (nullable && v.isNull)) (mismatch (scalar kind nullable) v path)
  | choice allowed, v, path =>
    failUnless (acceptsString (some allowed) v) (mismatch (choice allowed) v path)
  | strings allowed least greatest, v, path =>
    match v.items? with
    | none => [mismatch (strings allowed least greatest) v path]
    | some items =>
      if withinBounds least (some greatest) items.length then
        items.zipIdx.flatMap fun (item, i) => failUnless (acceptsString allowed item)
          (mismatch (strings allowed least greatest) item (path.index i))
      else [mismatch (strings allowed least greatest) v path]
  | record fields closed, v, path =>
    match v.entries? with
    | none => [mismatch (record fields closed) v path]
    | some entries =>
      (entries.entries.flatMap fun (key, value) => failUnless (!closed || declares fields key)
        ⟨path.key key, undeclared fields key, describe value, []⟩)
        ++ fieldFailures fields entries path
  | keyed predicate shape, v, path =>
    match v.entries? with
    | none => [mismatch (keyed predicate shape) v path]
    | some entries =>
      entries.entries.flatMap fun (key, value) =>
        if predicate.accepts key then failures shape value (path.key key)
        else [⟨path.key key, predicate.describe, s!"key `{key}`", []⟩]
  | sequence element least greatest, v, path =>
    match v.items? with
    | none => [mismatch (sequence element least greatest) v path]
    | some items =>
      if withinBounds least greatest items.length then
        items.zipIdx.flatMap fun (item, i) => failures element item (path.index i)
      else [mismatch (sequence element least greatest) v path]
  | union variants, v, path =>
    unionFailures (mismatch (union variants) v path) (variantFailures variants v path)
  | orNull inner, v, path => if v.isNull then [] else failures inner v path
  | anyMapping, v, path => failUnless v.entries?.isSome (mismatch anyMapping v path)
termination_by structural shape => shape

/-- The mismatches of the declared keys of a mapping, in the order in which they are declared. -/
def fieldFailures : List Field → SortedMap Value → Path → List Rejection
  | [], _, _ => []
  | ⟨name, shape, required⟩ :: rest, entries, path =>
    (match entries.find? name with
      | some value => failures shape value (path.key name)
      | none => failUnless (!required) ⟨path.key name, shape.expectation, missing, []⟩)
      ++ fieldFailures rest entries path
termination_by structural fields => fields

/-- The mismatches with each of several shapes. -/
def variantFailures : List Shape → Value → Path → List (List Rejection)
  | [], _, _ => []
  | variant :: rest, v, path => failures variant v path :: variantFailures rest v path
termination_by structural variants => variants

end

theorem variantFailures_eq (variants : List Shape) (v : Value) (path : Path) :
    variantFailures variants v path = variants.map (failures · v path) := by
  induction variants with
  | nil => rfl
  | cons head rest ih => simp only [variantFailures, List.map_cons, ih]

/-- The mismatches of one declared key of a mapping. -/
def keyFailures (entries : SortedMap Value) (path : Path) (field : Field) : List Rejection :=
  match entries.find? field.name with
  | some v => failures field.shape v (path.key field.name)
  | none => failUnless (!field.required) ⟨path.key field.name, field.shape.expectation, missing, []⟩

theorem fieldFailures_eq (fields : List Field) (entries : SortedMap Value) (path : Path) :
    fieldFailures fields entries path = fields.flatMap (keyFailures entries path) := by
  induction fields with
  | nil => rfl
  | cons field rest ih =>
    obtain ⟨name, shape, required⟩ := field
    rw [fieldFailures, ih, List.flatMap_cons]
    rfl

/-- A list has no bounds on its length, so that all that is said against it is said against its
elements. -/
theorem failures_list (element : Shape) (items : List Value) (path : Path) :
    (Shape.list element).failures (.list items) path =
      items.zipIdx.flatMap fun entry => element.failures entry.1 (path.index entry.2) := by
  simp [Shape.list, failures, Value.items?, withinBounds]

theorem reports_reject (shape : Shape) (v : Value) :
    (reject shape v).Reports fun path => [mismatch shape v path] :=
  Walk.reports_stop _ _

/-- A walk that stops unless a condition holds. -/
theorem reports_unless {walk : Walk Unit} {rejection : Path → Rejection} (condition : Bool)
    (h : walk.Reports fun path => [rejection path]) :
    Walk.Reports (if condition then pure () else walk) fun path =>
      failUnless condition (rejection path) :=
  Walk.reports_pure.ite condition h

/-- The least undeclared key is the first of all of them. -/
theorem reports_walkKeys (fields : List Field) (closed : Bool) (entries : SortedMap Value) :
    (walkKeys fields closed entries).Reports fun path =>
      entries.entries.flatMap fun (key, value) => failUnless (!closed || declares fields key)
        ⟨path.key key, undeclared fields key, describe value, []⟩ := by
  unfold walkKeys
  induction entries.entries with
  | nil => exact Walk.reports_pure
  | cons head rest ih =>
    obtain ⟨key, value⟩ := head
    simp only [List.flatMap_cons]
    cases hkey : (!closed || declares fields key) with
    | true =>
      have hskip : (closed && !declares fields key) = false := by
        cases closed <;> simp_all
      rw [List.find?_cons_of_neg (by simp [hskip])]
      exact ih
    | false =>
      have hfind : (closed && !declares fields key) = true := by
        cases closed <;> simp_all
      rw [List.find?_cons_of_pos (by simp [hfind])]
      have hstop := (Walk.reports_stop (undeclared fields key) (describe value)).inside (.key key)
      constructor
      · intro path hnil
        simp [failUnless] at hnil
      · intro path first others hcons
        obtain ⟨rfl, -⟩ := List.cons.inj hcons
        exact hstop.stops path _ [] rfl

/-- Trying the variants one after the other comes to the same as looking at the first mismatch with
each of them. -/
theorem attempt_eq {variants : List Shape} {v : Value} (path : Path)
    (h : ∀ variant ∈ variants, (walk variant v).Reports (failures variant v))
    (found : List Rejection) :
    attempt variants v path found =
      if (variantFailures variants v path).any List.isEmpty then none
      else some (found ++ (variantFailures variants v path).filterMap List.head?) := by
  induction variants generalizing found with
  | nil => simp [attempt, variantFailures]
  | cons variant rest ih =>
    have hverdict := (h variant List.mem_cons_self).verdict_eq path
    have hrest (found : List Rejection) :=
      ih (fun shape hshape => h shape (List.mem_cons_of_mem _ hshape)) found
    have hvariants : variantFailures (variant :: rest) v path =
        failures variant v path :: variantFailures rest v path := rfl
    rw [attempt, hvariants, hverdict, List.any_cons]
    rcases failures variant v path with _ | ⟨first, others⟩
    · rfl
    · rw [List.isEmpty_cons, Bool.false_or, List.filterMap_cons]
      simp only [Walk.firstOf, hrest, List.head?_cons, List.append_assoc, List.cons_append,
        List.nil_append]

theorem reports_union {variants : List Shape} {v : Value}
    (h : ∀ variant ∈ variants, (walk variant v).Reports (failures variant v)) :
    (walk (union variants) v).Reports (failures (union variants) v) := by
  have hwalk (path : Path) : walk (union variants) v path =
      settle (union variants) v (attempt variants v path []) path := rfl
  have hattempt (path : Path) := attempt_eq path h []
  constructor
  · intro path hnil
    rw [hwalk, hattempt]
    simp only [failures, unionFailures] at hnil
    split at hnil
    · rename_i hany
      rw [if_pos hany]
      rfl
    · split at hnil <;> simp at hnil
  · intro path first others hcons
    rw [hwalk, hattempt]
    simp only [failures, unionFailures] at hcons
    split at hcons
    · simp at hcons
    · rename_i hany
      rw [if_neg hany, List.nil_append]
      split at hcons
      · rename_i hheads
        obtain ⟨rfl, -⟩ := List.cons.inj hcons
        simp only [settle, hheads, combine]
        exact ⟨path, rfl⟩
      · rename_i head tail hheads
        obtain ⟨rfl, -⟩ := List.cons.inj hcons
        simp only [settle, hheads, combine]
        exact ⟨path, rfl⟩

theorem reports_walkFields {fields : List Field} (entries : SortedMap Value)
    (h : ∀ field ∈ fields, ∀ v, (walk field.shape v).Reports (failures field.shape v)) :
    (walkFields fields entries).Reports (fieldFailures fields entries) := by
  induction fields with
  | nil => exact Walk.reports_pure
  | cons field rest ih =>
    obtain ⟨name, shape, required⟩ := field
    have hrest := ih fun field hfield => h field (List.mem_cons_of_mem _ hfield)
    have hfield : (match entries.find? name with
        | some value => walk shape value
        | none => if required then Walk.stop shape.expectation missing else pure ()).Reports
        fun path => match entries.find? name with
          | some value => failures shape value path
          | none => failUnless (!required) ⟨path, shape.expectation, missing, []⟩ := by
      cases entries.find? name with
      | some value => exact h _ List.mem_cons_self value
      | none =>
        have hmissing :=
          (Walk.reports_stop shape.expectation missing).ite required Walk.reports_pure
        cases required <;> exact hmissing
    exact (hfield.inside (.key name)).append hrest

/-- The walk through a value reports the first of all its mismatches. The induction is on the shape;
what each case needs is that its members are walked through from the place that they stand at. -/
theorem walk_reports (shape : Shape) (v : Value) : (shape.walk v).Reports (shape.failures v) := by
  induction shape generalizing v with
  | scalar kind nullable => exact reports_unless _ (reports_reject _ v)
  | choice allowed => exact reports_unless _ (reports_reject _ v)
  | anyMapping => exact reports_unless _ (reports_reject _ v)
  | strings allowed least greatest =>
    cases v with
    | list items =>
      refine Walk.Reports.ite _ ?_ (reports_reject _ _)
      apply Walk.Reports.forM
      intro entry
      exact reports_unless _ ((reports_reject _ _).inside (.index entry.2))
    | _ => exact reports_reject _ _
  | record fields closed ih =>
    cases v with
    | mapping entries =>
      exact (reports_walkKeys fields closed entries).append (reports_walkFields entries ih)
    | _ => exact reports_reject _ _
  | keyed predicate value ih =>
    cases v with
    | mapping entries =>
      apply Walk.Reports.forM
      intro entry
      have hentry := (ih entry.2).ite (predicate.accepts entry.1)
        (Walk.reports_stop predicate.describe s!"key `{entry.1}`")
      exact hentry.inside (.key entry.1)
    | _ => exact reports_reject _ _
  | sequence element least greatest ih =>
    cases v with
    | list items =>
      refine Walk.Reports.ite _ ?_ (reports_reject _ _)
      apply Walk.Reports.forM
      intro entry
      exact (ih entry.1).inside (.index entry.2)
    | _ => exact reports_reject _ _
  | union variants ih => exact reports_union fun variant hvariant => ih variant hvariant v
  | orNull inner ih => exact Walk.reports_pure.ite _ (ih v)

theorem check_eq_firstOf (shape : Shape) (v : Value) (path : Path) :
    shape.check v path = Walk.firstOf (shape.failures v path) :=
  (shape.walk_reports v).verdict_eq path

/-- A check succeeds exactly if nothing is collected, and otherwise reports the first of what is
collected, place, wording and alternatives alike. Where it succeeds, the shared path has come back
to where the walk began. -/
theorem check_reports_first_failure (shape : Shape) (v : Value) (base : Path) :
    (shape.check v base = .ok () ↔ shape.failures v base = []) ∧
    (∀ rejection, shape.check v base = .error rejection ↔
      (shape.failures v base).head? = some rejection) ∧
    (shape.check v base = .ok () → shape.walk v base = .ok () base) := by
  rw [check_eq_firstOf]
  refine ⟨Walk.firstOf_eq_ok_iff, fun rejection => Walk.firstOf_eq_error_iff, ?_⟩
  intro hok
  have hnil := Walk.firstOf_eq_ok_iff.mp hok
  exact (shape.walk_reports v).passes base hnil

end Shape

end FlowContract
