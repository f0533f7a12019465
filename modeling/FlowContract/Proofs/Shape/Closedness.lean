import FlowContract.Proofs.Json.Replacement
import FlowContract.Proofs.Shape.Layout
import FlowContract.Proofs.Shape.Truthful

/-!
One key too many. A key that its record does not declare is put into one of the mappings of a
document that a shape accepts. Whichever mapping it is, the shape does not accept the document any
more; and where no union has a say, all that is said against the document is said against that key,
because a change to a member is seen by the shape of that member alone.
-/

namespace FlowContract

open Json (Value)

/-- If nothing comes from all others, what comes from a list comes from one element. -/
theorem flatMap_eq_of_forall_ne {α β : Type} {l : List α} {a : α} {f : α → List β}
    (hnodup : l.Nodup) (ha : a ∈ l) (h : ∀ b ∈ l, b ≠ a → f b = []) : l.flatMap f = f a := by
  induction l with
  | nil => cases ha
  | cons head rest ih =>
    obtain ⟨hhead, hrest⟩ := List.nodup_cons.mp hnodup
    rw [List.flatMap_cons]
    rcases List.mem_cons.mp ha with rfl | ha
    · have hothers : rest.flatMap f = [] := by
        rw [List.flatMap_eq_nil_iff]
        intro b hb
        apply h b (List.mem_cons_of_mem _ hb)
        rintro rfl
        exact hhead hb
      rw [hothers, List.append_nil]
    · have hfirst : f head = [] := by
        apply h head List.mem_cons_self
        rintro rfl
        exact hhead ha
      rw [hfirst, List.nil_append]
      exact ih hrest ha fun b hb => h b (List.mem_cons_of_mem _ hb)

/-- What comes from the entries of a map comes from one of them if nothing comes from the others. -/
theorem SortedMap.flatMap_entries_eq {α β : Type} {m : SortedMap α} {key : String} {value : α}
    {f : String × α → List β} (hfind : m.find? key = some value)
    (h : ∀ other member, m.find? other = some member → other ≠ key → f (other, member) = []) :
    m.entries.flatMap f = f (key, value) := by
  have hnodup : m.entries.Nodup := by
    apply List.Nodup.of_map Prod.fst
    rw [m.map_fst_entries]
    exact m.nodup_keys
  apply flatMap_eq_of_forall_ne hnodup (mem_entries_iff.mpr hfind)
  rintro ⟨other, member⟩ hmem hne
  have hmember := mem_entries_iff.mp hmem
  apply h other member hmember
  rintro rfl
  cases hfind.symm.trans hmember
  exact hne rfl

/-- Under another key a mapping has what it had before. -/
theorem Field.Admits.insert {field : Field} {entries : SortedMap Value} (h : field.Admits entries)
    {key : String} (hkey : field.name ≠ key) (value : Value) :
    field.Admits (entries.insert key value) := by
  constructor
  · intro v hv
    rw [SortedMap.find?_insert_of_ne hkey] at hv
    exact h.1 v hv
  · intro hrequired
    exact SortedMap.mem_keys_insert.mpr (.inr (h.2 hrequired))

namespace Shape

variable {shape target : Shape} {segments : List Segment} {v u new : Value} {path base : Path}
  {fields : List Field} {closed : Bool} {entries entries' : SortedMap Value}

/-- A mapping in a document that is one of the mappings of a record, in a place where this record
applies. -/
structure Governs (shape : Shape) (v : Value) (path : Path) (fields : List Field) (closed : Bool)
    (entries : SortedMap Value) : Prop where
  applies : shape.Applies path.segments (record fields closed)
  found : path.resolve? v = some (.mapping entries)
  fits : (record fields closed).Admits (.mapping entries)

theorem Strict.behind {inner : Shape} {front : List Segment} (h : shape.Strict)
    (hinner : shape.Applies front inner) : inner.Strict := by
  intro rest target happlies
  exact h _ target (hinner.trans happlies)

theorem Settled.behind {inner : Shape} {front : List Segment}
    (h : shape.Settled (front ++ segments)) (hinner : shape.Applies front inner) :
    inner.Settled segments := by
  rintro start rest variants rfl happlies
  apply h (front ++ start) rest variants (List.append_assoc ..).symm
  exact hinner.trans happlies

/-- Of a closed record nothing applies in the place of its values but the record. -/
theorem Applies.eq_of_closedKeys {names : List String} (h : shape.Applies [] target)
    (hnames : shape.closedKeys? = some names) : target = shape := by
  cases h with
  | here => rfl
  | _ => cases hnames

/-! One step into a document that is accepted: what is behind it is accepted as well. -/

theorem Admits.follow_field {field : Field} {rest : List Segment}
    (h : (record fields closed).Admits v) (hfield : field ∈ fields)
    (hresolve : (Path.mk (.key field.name :: rest)).resolve? v = some u) :
    ∃ members member, v = .mapping members ∧ members.find? field.name = some member ∧
      field.shape.Admits member ∧ (Path.mk rest).resolve? member = some u := by
  obtain ⟨members, member, rfl, hfind, hrest⟩ := Value.exists_of_resolve?_key hresolve
  obtain ⟨_, heq, hmembers, -⟩ := admits_record_iff.mp h
  cases heq
  exact ⟨members, member, rfl, hfind, (hmembers field hfield).1 member hfind, hrest⟩

theorem Admits.follow_member {predicate : KeyPredicate} {value : Shape} {name : String}
    {rest : List Segment} (h : (keyed predicate value).Admits v)
    (hresolve : (Path.mk (.key name :: rest)).resolve? v = some u) :
    ∃ members member, v = .mapping members ∧ members.find? name = some member ∧
      predicate.Admits name ∧ value.Admits member ∧ (Path.mk rest).resolve? member = some u := by
  obtain ⟨members, member, rfl, hfind, hrest⟩ := Value.exists_of_resolve?_key hresolve
  obtain ⟨_, heq, hmembers⟩ := h
  cases heq
  obtain ⟨hname, hmember⟩ := hmembers name member (SortedMap.mem_entries_iff.mpr hfind)
  exact ⟨members, member, rfl, hfind, hname, hmember, hrest⟩

theorem Admits.follow_element {element : Shape} {least : Nat} {greatest : Option Nat}
    {position : Nat} {rest : List Segment} (h : (sequence element least greatest).Admits v)
    (hresolve : (Path.mk (.index position :: rest)).resolve? v = some u) :
    ∃ items item, v = .list items ∧ items[position]? = some item ∧ element.Admits item ∧
      (Path.mk rest).resolve? item = some u := by
  obtain ⟨items, item, rfl, hitem, hrest⟩ := Value.exists_of_resolve?_index hresolve
  obtain ⟨_, heq, -, -, hitems⟩ := h
  cases heq
  exact ⟨items, item, rfl, hitem, hitems item (List.mem_of_getElem? hitem), hrest⟩

/-- A mapping stays a mapping when a mapping in it gets more keys, and keeps its keys. -/
theorem exists_replaceAt (hkeys : ∀ key ∈ entries.keys, key ∈ entries'.keys)
    {members : SortedMap Value}
    (hresolve : (Path.mk segments).resolve? (.mapping members) = some (.mapping entries)) :
    ∃ members', (Value.mapping members).replaceAt segments (.mapping entries') = .mapping members' ∧
      ∀ key ∈ members.keys, key ∈ members'.keys := by
  cases segments with
  | nil =>
    cases hresolve
    exact ⟨entries', Value.replaceAt_nil _ _, hkeys⟩
  | cons segment rest =>
    rw [Path.resolve?_cons] at hresolve
    obtain ⟨member, hmember, -⟩ := Option.bind_eq_some_iff.mp hresolve
    cases segment with
    | key name =>
      have hfind : members.find? name = some member := hmember
      refine ⟨_, Value.replaceAt_key hfind rest _, ?_⟩
      intro key hkey
      exact SortedMap.mem_keys_insert.mpr (.inr hkey)
    | index position => cases hmember

/-- A shape does not accept a document any more in which a mapping has got keys that its record
does not accept. No other form of a union takes the document: with the keys that it has kept it is
still told to be of the same form. -/
theorem not_admits_replaceAt (hstrict : shape.Strict) (happlies : shape.Applies segments target)
    (hadmits : shape.Admits v) (hresolve : (Path.mk segments).resolve? v = some (.mapping entries))
    (hfits : target.Admits (.mapping entries))
    (hkeys : ∀ key ∈ entries.keys, key ∈ entries'.keys)
    (hrefused : ¬ target.Admits (.mapping entries')) :
    ¬ shape.Admits (v.replaceAt segments (.mapping entries')) := by
  induction happlies generalizing v with
  | here shape =>
    rw [Value.replaceAt_nil]
    exact hrefused
  | @field fields closed field rest target hfield happlies ih =>
    obtain ⟨members, member, rfl, hfind, hmember, hresolve⟩ := hadmits.follow_field hfield hresolve
    have hinner := hstrict.behind (.field hfield (.here _))
    rw [Value.replaceAt_key hfind]
    intro hreplaced
    obtain ⟨_, heq, hreplaced, -⟩ := admits_record_iff.mp hreplaced
    cases heq
    have hmember' := (hreplaced field hfield).1 _ (SortedMap.find?_insert_self _ _ _)
    exact ih hinner hmember hresolve hfits hrefused hmember'
  | @member predicate value name rest target happlies ih =>
    obtain ⟨members, member, rfl, hfind, -, hmember, hresolve⟩ := hadmits.follow_member hresolve
    have hinner := hstrict.behind (.member name (.here _))
    rw [Value.replaceAt_key hfind]
    rintro ⟨_, heq, hreplaced⟩
    cases heq
    have hmember' := hreplaced name _ (members.mem_entries_insert_self name _)
    exact ih hinner hmember hresolve hfits hrefused hmember'.2
  | @element element least greatest position rest target happlies ih =>
    obtain ⟨items, item, rfl, hfind, hitem, hresolve⟩ := hadmits.follow_element hresolve
    have hinner := hstrict.behind (.element position (.here _))
    rw [Value.replaceAt_index hfind]
    rintro ⟨_, heq, -, -, hreplaced⟩
    cases heq
    obtain ⟨hposition, -⟩ := List.getElem?_eq_some_iff.mp hfind
    have hitem' := List.mem_set hposition (item.replaceAt rest (.mapping entries'))
    exact ih hinner hitem hresolve hfits hrefused (hreplaced _ hitem')
  | @variant variants variant segments target hvariant happlies ih =>
    obtain ⟨hapart, -⟩ := hstrict.union
    obtain ⟨hclosed, -⟩ := Bool.and_eq_true_iff.mp hapart
    obtain ⟨names, hnames⟩ := Option.isSome_iff_exists.mp (List.all_eq_true.mp hclosed _ hvariant)
    have hform : variant.Admits v := by
      cases segments with
      | nil =>
        cases hresolve
        rwa [← happlies.eq_of_closedKeys hnames]
      | cons segment rest => exact admits_of_apart hapart hvariant happlies hadmits hresolve
    have hinner := hstrict.behind (.variant hvariant (.here _))
    have hrefused' := ih hinner hform hresolve hfits hrefused
    obtain ⟨members, rfl, -⟩ := hform.closedKeys hnames
    obtain ⟨members', hreplaced, hkept⟩ := exists_replaceAt hkeys hresolve
    rw [hreplaced] at hrefused' ⊢
    intro hadmits'
    obtain ⟨other, hother, hadmits'⟩ := admitsSome_iff.mp hadmits'
    obtain rfl := hstrict.eq_of_admits hvariant hother hform hkept hadmits'
    exact hrefused' hadmits'
  | @inner inner segments target happlies ih =>
    have hsolid := Value.ne_null_of_resolve? hresolve nofun
    have hmapping : Value.mapping entries' ≠ .null := nofun
    have hreplaced := Value.replaceAt_ne_null hmapping hresolve
    have hinner := hstrict.behind (.inner (.here _))
    rintro (hnull | hadmits')
    · exact hreplaced hnull
    · exact ih hinner (hadmits.resolve_left hsolid) hresolve hfits hrefused hadmits'

/-! What is said against a document in which a part has been replaced. -/

theorem keyFailures_eq_nil_iff {field : Field} :
    keyFailures entries path field = [] ↔ field.Admits entries := by
  unfold keyFailures Field.Admits
  cases hfind : entries.find? field.name with
  | some v => simp [failures_eq_nil_iff, SortedMap.mem_keys_iff, hfind]
  | none => simp [failUnless_eq_nil_iff, SortedMap.mem_keys_iff, hfind]

/-- A record has as much to say against a mapping with one member replaced as the member's shape has
against the new member. -/
theorem failures_record_insert {field : Field} (hstrict : (record fields closed).Strict)
    (hfield : field ∈ fields) (hadmits : (record fields closed).Admits (.mapping entries))
    (hkey : field.name ∈ entries.keys) (new : Value) (base : Path) :
    (record fields closed).failures (.mapping (entries.insert field.name new)) base =
      field.shape.failures new (base.key field.name) := by
  obtain ⟨_, heq, hfields, hclosed⟩ := admits_record_iff.mp hadmits
  cases heq
  obtain ⟨-, hnames⟩ := hstrict.record
  simp only [failures, Value.entries?, fieldFailures_eq]
  have hdeclared : closed = true → ∀ key ∈ (entries.insert field.name new).keys,
      ∃ other ∈ fields, other.name = key := by
    rwa [SortedMap.keys_insert_of_mem hkey]
  have hothers : ∀ other ∈ fields, other ≠ field →
      keyFailures (entries.insert field.name new) base other = [] := by
    intro other hother hne
    have hname : other.name ≠ field.name := by
      intro hname
      exact hne (List.inj_on_of_nodup_map hnames hother hfield hname)
    exact keyFailures_eq_nil_iff.mpr ((hfields other hother).insert hname new)
  rw [undeclaredFailures_eq_nil_iff.mpr hdeclared, List.nil_append,
    flatMap_eq_of_forall_ne hnames.of_map hfield hothers, keyFailures, SortedMap.find?_insert_self]

/-- A record has one thing to say against a mapping of its own with a key more that it does not
declare. -/
theorem failures_record_undeclared {key : String} (hclosed : closed = true)
    (hadmits : (record fields closed).Admits (.mapping entries))
    (hkey : ∀ field ∈ fields, field.name ≠ key) (value : Value) (base : Path) :
    (record fields closed).failures (.mapping (entries.insert key value)) base =
      [⟨base.key key, undeclared fields key, describe value, []⟩] := by
  obtain ⟨_, heq, hfields, hdeclared⟩ := admits_record_iff.mp hadmits
  cases heq
  simp only [failures, Value.entries?, fieldFailures_eq]
  have hothers : ∀ other member, (entries.insert key value).find? other = some member →
      other ≠ key → failUnless (!closed || declares fields other)
        ⟨base.key other, undeclared fields other, describe member, []⟩ = [] := by
    intro other member hfind hne
    rw [SortedMap.find?_insert_of_ne hne] at hfind
    have hdeclares := declares_iff.mpr
      (hdeclared hclosed other (SortedMap.mem_keys_iff.mpr ⟨member, hfind⟩))
    rw [hdeclares, Bool.or_true]
    rfl
  have hmembers : fields.flatMap (keyFailures (entries.insert key value) base) = [] := by
    rw [List.flatMap_eq_nil_iff]
    intro field hfield
    exact keyFailures_eq_nil_iff.mpr ((hfields field hfield).insert (hkey field hfield) value)
  have hunknown : declares fields key = false := by
    rw [← Bool.not_eq_true, declares_iff]
    rintro ⟨field, hfield, hname⟩
    exact hkey field hfield hname
  have hfound := entries.find?_insert_self key value
  rw [hmembers, List.append_nil, SortedMap.flatMap_entries_eq hfound hothers, hclosed, hunknown]
  rfl

theorem failures_keyed_insert {predicate : KeyPredicate} {value : Shape} {key : String}
    (hadmits : (keyed predicate value).Admits (.mapping entries)) (hkey : predicate.Admits key)
    (new : Value) (base : Path) :
    (keyed predicate value).failures (.mapping (entries.insert key new)) base =
      value.failures new (base.key key) := by
  obtain ⟨_, heq, hmembers⟩ := hadmits
  cases heq
  rw [failures, Value.entries?]
  refine (SortedMap.flatMap_entries_eq (entries.find?_insert_self key new) ?_).trans ?_
  · intro other v hother hne
    rw [SortedMap.find?_insert_of_ne hne] at hother
    obtain ⟨hpredicate, hv⟩ := hmembers other v (SortedMap.mem_entries_iff.mpr hother)
    refine (if_pos (KeyPredicate.accepts_iff.mpr hpredicate)).trans ?_
    exact (failures_eq_nil_iff value v _).mpr hv
  · exact if_pos (KeyPredicate.accepts_iff.mpr hkey)

theorem failures_sequence_set {element : Shape} {least : Nat} {greatest : Option Nat}
    {items : List Value} {position : Nat}
    (hadmits : (sequence element least greatest).Admits (.list items))
    (hposition : position < items.length) (new : Value) (base : Path) :
    (sequence element least greatest).failures (.list (items.set position new)) base =
      element.failures new (base.index position) := by
  obtain ⟨_, heq, hleast, hgreatest, hitems⟩ := hadmits
  cases heq
  have hwithin := withinBounds_iff.mpr ⟨hleast, hgreatest⟩
  rw [failures, Value.items?]
  simp only [List.length_set, hwithin, if_true]
  have hnodup : (items.set position new).zipIdx.Nodup := by
    apply List.Nodup.of_map Prod.snd
    rw [List.zipIdx_map_snd]
    exact List.nodup_range'
  have hfound : (new, position) ∈ (items.set position new).zipIdx := by
    rw [List.mem_zipIdx_iff_getElem?]
    exact List.getElem?_set_self hposition
  apply flatMap_eq_of_forall_ne hnodup hfound
  rintro ⟨item, i⟩ hmem hne
  have hitem := List.mem_zipIdx_iff_getElem?.mp hmem
  by_cases hi : i = position
  · subst hi
    rw [List.getElem?_set_self hposition] at hitem
    cases hitem
    exact absurd rfl hne
  · rw [List.getElem?_set_ne (Ne.symm hi)] at hitem
    exact (failures_eq_nil_iff element item _).mpr (hitems item (List.mem_of_getElem? hitem))

/-- Where no union has a say, what is said against a document with another part is what is said
against this part, by the shape that applies in its place. -/
theorem failures_replaceAt (hstrict : shape.Strict) (hsettled : shape.Settled segments)
    (happlies : shape.Applies segments target) (hadmits : shape.Admits v)
    (hresolve : (Path.mk segments).resolve? v = some u) (hu : u ≠ .null) (hnew : new ≠ .null)
    (base : Path) :
    shape.failures (v.replaceAt segments new) base =
      target.failures new (base.within ⟨segments⟩) := by
  induction happlies generalizing v base with
  | here shape =>
    rw [Value.replaceAt_nil, show base.within ⟨[]⟩ = base from base.within_root]
  | @field fields closed field rest target hfield happlies ih =>
    obtain ⟨members, member, rfl, hfind, hmember, hresolve⟩ := hadmits.follow_field hfield hresolve
    have hkey := SortedMap.mem_keys_iff.mpr ⟨member, hfind⟩
    have hstrict' : field.shape.Strict := hstrict.behind (.field hfield (.here _))
    have hsettled' : field.shape.Settled rest := hsettled.behind (.field hfield (.here _))
    rw [Value.replaceAt_key hfind, failures_record_insert hstrict hfield hadmits hkey,
      ih hstrict' hsettled' hmember hresolve]
    exact congrArg _ (Path.push_within base _ _)
  | @member predicate value name rest target happlies ih =>
    obtain ⟨members, member, rfl, hfind, hname, hmember, hresolve⟩ :=
      hadmits.follow_member hresolve
    have hstrict' := hstrict.behind (.member name (.here _))
    have hsettled' := hsettled.behind (.member name (.here _))
    rw [Value.replaceAt_key hfind, failures_keyed_insert hadmits hname,
      ih hstrict' hsettled' hmember hresolve]
    exact congrArg _ (Path.push_within base _ _)
  | @element element least greatest position rest target happlies ih =>
    obtain ⟨items, item, rfl, hfind, hitem, hresolve⟩ := hadmits.follow_element hresolve
    obtain ⟨hposition, -⟩ := List.getElem?_eq_some_iff.mp hfind
    have hstrict' := hstrict.behind (.element position (.here _))
    have hsettled' := hsettled.behind (.element position (.here _))
    rw [Value.replaceAt_index hfind, failures_sequence_set hadmits hposition,
      ih hstrict' hsettled' hitem hresolve]
    exact congrArg _ (Path.push_within base _ _)
  | @variant variants variant segments target hvariant happlies ih =>
    exact absurd (.here _) (hsettled [] segments variants rfl)
  | @inner inner segments target happlies ih =>
    have hadmits := hadmits.resolve_left (Value.ne_null_of_resolve? hresolve hu)
    have hreplaced := Value.replaceAt_ne_null hnew hresolve
    have hstrict' : inner.Strict := hstrict.behind (.inner (.here _))
    have hsettled' : inner.Settled segments := hsettled.behind (.inner (.here _))
    rw [failures, if_neg fun hnull => hreplaced (Value.isNull_iff.mp hnull)]
    exact ih hstrict' hsettled' hadmits hresolve base

/-! Mappings that are governed by records. -/

variable {key : String}

theorem Governs.outward {inner : Shape} {segment : Segment} {member : Value} {rest : List Segment}
    (h : inner.Governs member ⟨rest⟩ fields closed entries)
    (hfollow : segment.follow? v = some member)
    (hinner : shape.Applies [segment] inner) :
    shape.Governs v ⟨segment :: rest⟩ fields closed entries where
  applies := hinner.trans h.applies
  found := by
    rw [Path.resolve?_cons, hfollow]
    exact h.found
  fits := h.fits

/-- Wherever a record applies and an accepted document has a mapping, a record governs it. It may be
the record of another form than the one that was found to apply. -/
theorem exists_governs (hstrict : shape.Strict)
    (happlies : shape.Applies segments (record fields closed)) (hadmits : shape.Admits v)
    (hresolve : (Path.mk segments).resolve? v = some (.mapping entries)) :
    ∃ fields closed, shape.Governs v ⟨segments⟩ fields closed entries := by
  generalize htarget : record fields closed = target at happlies
  induction happlies generalizing v with
  | here shape =>
    subst htarget
    cases hresolve
    exact ⟨fields, closed, .here _, rfl, hadmits⟩
  | @field fields' closed' field rest target hfield happlies ih =>
    obtain ⟨members, member, rfl, hfind, hmember, hresolve⟩ := hadmits.follow_field hfield hresolve
    have hstrict' : field.shape.Strict := hstrict.behind (.field hfield (.here _))
    obtain ⟨fields, closed, hgoverns⟩ := ih hstrict' hmember hresolve htarget
    exact ⟨fields, closed, hgoverns.outward hfind (.field hfield (.here _))⟩
  | @member predicate value name rest target happlies ih =>
    obtain ⟨members, member, rfl, hfind, -, hmember, hresolve⟩ := hadmits.follow_member hresolve
    have hstrict' := hstrict.behind (.member name (.here _))
    obtain ⟨fields, closed, hgoverns⟩ := ih hstrict' hmember hresolve htarget
    exact ⟨fields, closed, hgoverns.outward hfind (.member name (.here _))⟩
  | @element element least greatest position rest target happlies ih =>
    obtain ⟨items, item, rfl, hfind, hitem, hresolve⟩ := hadmits.follow_element hresolve
    have hstrict' := hstrict.behind (.element position (.here _))
    obtain ⟨fields, closed, hgoverns⟩ := ih hstrict' hitem hresolve htarget
    exact ⟨fields, closed, hgoverns.outward hfind (.element position (.here _))⟩
  | @variant variants variant segments target hvariant happlies ih =>
    obtain ⟨hapart, -⟩ := hstrict.union
    cases segments with
    | nil =>
      -- The form that accepts the mapping is a record, whichever it is.
      cases hresolve
      obtain ⟨hclosed, -⟩ := Bool.and_eq_true_iff.mp hapart
      obtain ⟨other, hother, hadmits⟩ := admitsSome_iff.mp hadmits
      have hrecord := List.all_eq_true.mp hclosed other hother
      cases other with
      | record fields closed => exact ⟨fields, closed, .variant hother (.here _), rfl, hadmits⟩
      | _ => cases hrecord
    | cons segment rest =>
      have hform := admits_of_apart hapart hvariant happlies hadmits hresolve
      have hstrict' : variant.Strict := hstrict.behind (.variant hvariant (.here _))
      obtain ⟨fields, closed, hgoverns⟩ := ih hstrict' hform hresolve htarget
      exact ⟨fields, closed, .variant hvariant hgoverns.applies, hgoverns.found, hgoverns.fits⟩
  | @inner inner segments target happlies ih =>
    have hadmits := hadmits.resolve_left (Value.ne_null_of_resolve? hresolve nofun)
    have hstrict' : inner.Strict := hstrict.behind (.inner (.here _))
    obtain ⟨fields, closed, hgoverns⟩ := ih hstrict' hadmits hresolve htarget
    exact ⟨fields, closed, .inner hgoverns.applies, hgoverns.found, hgoverns.fits⟩

theorem Governs.closed_eq_true (h : shape.Governs v path fields closed entries)
    (hstrict : shape.Strict) : closed = true := by
  have htarget := hstrict _ _ h.applies
  exact (Bool.and_eq_true_iff.mp htarget).1

theorem Governs.not_admits_withKey (h : shape.Governs v path fields closed entries)
    (hstrict : shape.Strict) (hadmits : shape.Admits v) (hkey : ∀ field ∈ fields, field.name ≠ key)
    (value : Value) : ¬ shape.Admits (v.withKey path key value) := by
  rw [Value.withKey_of_resolve? h.found]
  apply not_admits_replaceAt hstrict h.applies hadmits h.found h.fits
  · intro other hother
    exact SortedMap.mem_keys_insert.mpr (.inr hother)
  · intro hadmits'
    obtain ⟨_, heq, -, hdeclared⟩ := admits_record_iff.mp hadmits'
    cases heq
    obtain ⟨field, hfield, hname⟩ := hdeclared (h.closed_eq_true hstrict) key
      (SortedMap.mem_keys_insert.mpr (.inl rfl))
    exact hkey field hfield hname

theorem Governs.check_withKey (h : shape.Governs v path fields closed entries)
    (hstrict : shape.Strict) (hsettled : shape.Settled path.segments) (hadmits : shape.Admits v)
    (hkey : ∀ field ∈ fields, field.name ≠ key) (value : Value) (base : Path) :
    shape.check (v.withKey path key value) base =
      .error ⟨(base.within path).key key, undeclared fields key, describe value, []⟩ := by
  have hfailures := failures_replaceAt hstrict hsettled h.applies hadmits h.found nofun
    (nofun : Value.mapping (entries.insert key value) ≠ .null) base
  rw [failures_record_undeclared (h.closed_eq_true hstrict) h.fits hkey] at hfailures
  rw [Value.withKey_of_resolve? h.found, check_eq_firstOf, hfailures]
  rfl

end Shape

end FlowContract
