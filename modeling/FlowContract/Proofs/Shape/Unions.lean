import FlowContract.Proofs.Shape.Meaning

/-!
Unions as variants of unions. A union inside another one may be written out in its place: what is
accepted, what is said first and how it all is described stay the same. What is told besides may
differ, because a rejection that passes through a union gets the alternatives of this union in place
of its own. Main statement: the union inside can only lose alternatives.
-/

namespace FlowContract

open Json (Value)

namespace Rejection

/-- A rejection by itself, without its alternatives. -/
def alone (rejection : Rejection) : Rejection := { rejection with alternatives := [] }

mutual

/-- All that a rejection says, depth first: itself, and then what its alternatives say. -/
def listing : Rejection → List Rejection
  | ⟨path, expected, actual, alternatives⟩ =>
    ⟨path, expected, actual, []⟩ :: listings alternatives
termination_by structural rejection => rejection

def listings : List Rejection → List Rejection
  | [] => []
  | rejection :: rest => rejection.listing ++ listings rest
termination_by structural rejections => rejections

end

theorem listing_withAlternatives (rejection : Rejection) (alternatives : List Rejection) :
    ({ rejection with alternatives } : Rejection).listing =
      rejection.alone :: listings alternatives := rfl

theorem listings_append (rejections rejections' : List Rejection) :
    listings (rejections ++ rejections') = listings rejections ++ listings rejections' := by
  induction rejections with
  | nil => rfl
  | cons rejection rest ih =>
    rw [List.cons_append, listings, listings, ih, List.append_assoc]

/-- A rejection that has given up its alternatives for others lists less than it does beside
them. -/
theorem listing_sublist_listings (first : Rejection) (others : List Rejection) :
    ({ first with alternatives := others } : Rejection).listing.Sublist
      (listings (first :: others)) := by
  obtain ⟨path, expected, actual, alternatives⟩ := first
  have hown := List.sublist_append_right (listings alternatives) (listings others)
  exact hown.cons_cons ⟨path, expected, actual, []⟩

end Rejection

namespace Shape

open Rejection (listings)

variable {variants : List Shape} {v : Value}

/-- What each of several shapes says first. -/
def objections (variants : List Shape) (v : Value) (base : Path) : List Rejection :=
  variants.filterMap fun variant => (variant.failures v base).head?

theorem filterMap_head?_variantFailures (variants : List Shape) (v : Value) (base : Path) :
    (variantFailures variants v base).filterMap List.head? = objections variants v base := by
  rw [variantFailures_eq, List.filterMap_map]
  rfl

theorem objections_append (variants variants' : List Shape) (v : Value) (base : Path) :
    objections (variants ++ variants') v base =
      objections variants v base ++ objections variants' v base :=
  List.filterMap_append

theorem objections_cons {shape : Shape} {base : Path} {rejection : Rejection}
    (h : shape.check v base = .error rejection) (rest : List Shape) :
    objections (shape :: rest) v base = rejection :: objections rest v base := by
  rw [check_eq_firstOf, Walk.firstOf_eq_error_iff] at h
  exact List.filterMap_cons_some h

/-- A union none of whose variants fits hands on what the first one says, with what the others say
first as alternatives. -/
theorem exists_check_union (hne : variants ≠ []) (hrefused : ¬ (union variants).Admits v)
    (base : Path) :
    ∃ first others, objections variants v base = first :: others ∧
      (union variants).check v base = .error { first with alternatives := others } := by
  obtain ⟨variant, rest, rfl⟩ := List.exists_cons_of_ne_nil hne
  have hvariant : ¬ variant.Admits v := fun hv => hrefused (.inl hv)
  obtain ⟨first, hfirst⟩ : ∃ first, variant.check v base = .error first := by
    cases hcheck : variant.check v base with
    | ok _ => exact absurd ((check_eq_ok_iff variant v base).mp hcheck) hvariant
    | error first => exact ⟨first, rfl⟩
  have hobjections := objections_cons hfirst rest
  have hany : ¬ (variantFailures (variant :: rest) v base).any List.isEmpty = true := by
    intro hany
    rw [← failures_eq_nil_iff _ v base, failures, unionFailures, if_pos hany] at hrefused
    exact hrefused rfl
  refine ⟨first, objections rest v base, hobjections, ?_⟩
  rw [check_eq_firstOf, failures, unionFailures, if_neg hany, filterMap_head?_variantFailures,
    hobjections]
  rfl

theorem expectation_union_flat (before : List Shape) (first : Shape) (others after : List Shape) :
    (union (before ++ [union (first :: others)] ++ after)).expectation =
      (union (before ++ (first :: others) ++ after)).expectation := by
  simp only [expectation, expectations_eq, List.map_append, List.map_cons, List.map_nil]
  generalize before.map expectation = texts
  generalize after.map expectation = texts'
  have hinner (words : List String) : " or ".intercalate ([" or ".intercalate
      (first.expectation :: words)] ++ texts') =
        " or ".intercalate (first.expectation :: words ++ texts') := by
    by_cases hafter : texts' = []
    · rw [hafter, List.append_nil, List.append_nil, String.intercalate_singleton]
    · rw [String.intercalate_append_of_ne_nil (List.cons_ne_nil _ _) hafter,
        String.intercalate_append_of_ne_nil (List.cons_ne_nil _ _) hafter,
        String.intercalate_singleton]
  rw [List.append_assoc, List.append_assoc]
  by_cases hbefore : texts = []
  · rw [hbefore, List.nil_append, List.nil_append, hinner]
  · rw [String.intercalate_append_of_ne_nil hbefore (by simp), hinner,
      String.intercalate_append_of_ne_nil hbefore (by simp)]

theorem admits_union_flat_iff (before inner after : List Shape) :
    (union (before ++ [union inner] ++ after)).Admits v ↔
      (union (before ++ inner ++ after)).Admits v := by
  simp only [Admits, admitsSome_iff, List.mem_append, List.mem_singleton]
  constructor
  · rintro ⟨variant, (hbefore | rfl) | hafter, hv⟩
    · exact ⟨variant, .inl (.inl hbefore), hv⟩
    · obtain ⟨inside, hinside, hv⟩ := admitsSome_iff.mp hv
      exact ⟨inside, .inl (.inr hinside), hv⟩
    · exact ⟨variant, .inr hafter, hv⟩
  · rintro ⟨variant, (hbefore | hinner) | hafter, hv⟩
    · exact ⟨variant, .inl (.inl hbefore), hv⟩
    · exact ⟨union inner, .inl (.inr rfl), admitsSome_iff.mpr ⟨variant, hinner, hv⟩⟩
    · exact ⟨variant, .inr hafter, hv⟩

/-- The objections with a union among them, and those with its variants in its place: the first ones
say the same, and the others list less. -/
theorem objections_union_flat (before : List Shape) {inner : List Shape} (after : List Shape)
    (hne : inner ≠ []) (hrefused : ¬ (union inner).Admits v) (base : Path) :
    ∃ first others first' others',
      objections (before ++ [union inner] ++ after) v base = first :: others ∧
      objections (before ++ inner ++ after) v base = first' :: others' ∧
      first.alone = first'.alone ∧ (listings others).Sublist (listings others') := by
  obtain ⟨first, others, hinner, hcheck⟩ := exists_check_union hne hrefused base
  have hunion := objections_cons hcheck []
  rw [objections_append, objections_append, objections_append, objections_append, hinner, hunion]
  have hlist := Rejection.listing_sublist_listings first others
  cases objections before v base with
  | nil =>
    -- The union speaks for all, so its alternatives give way to those behind it.
    refine ⟨_, objections after v base, first, others ++ objections after v base, rfl, rfl, rfl, ?_⟩
    rw [Rejection.listings_append]
    exact List.sublist_append_right _ _
  | cons head rest =>
    -- The union is an alternative and keeps its own, other than the first of its variants.
    refine ⟨head, rest ++ [{ first with alternatives := others }] ++ objections after v base, head,
      rest ++ (first :: others) ++ objections after v base, rfl, rfl, rfl, ?_⟩
    rw [Rejection.listings_append, Rejection.listings_append, Rejection.listings_append,
      Rejection.listings_append, listings, listings, List.append_nil]
    exact (hlist.append_left (listings rest)).append_right (listings (objections after v base))

/-- A union that is a variant of a union may be written out in its place: the description stays, the
same values are accepted, and a value that is rejected is rejected in the same place and in the same
words. Whatever the rejection lists with the union inside, it lists without it, in the same order;
alternatives may only be missing. -/
theorem nested_unions_only_lose_alternatives (before : List Shape) (first : Shape)
    (others after : List Shape) :
    (union (before ++ [union (first :: others)] ++ after)).expectation =
      (union (before ++ (first :: others) ++ after)).expectation ∧
    (∀ v, (union (before ++ [union (first :: others)] ++ after)).accepts v =
      (union (before ++ (first :: others) ++ after)).accepts v) ∧
    ∀ v base rejection, (union (before ++ [union (first :: others)] ++ after)).check v base =
        .error rejection →
      ∃ rejection', (union (before ++ (first :: others) ++ after)).check v base =
          .error rejection' ∧
        rejection.path = rejection'.path ∧ rejection.expected = rejection'.expected ∧
        rejection.actual = rejection'.actual ∧
        rejection.listing.Sublist rejection'.listing := by
  refine ⟨expectation_union_flat before first others after, ?_, ?_⟩
  · intro v
    rw [Bool.eq_iff_iff, accepts_eq_true_iff, accepts_eq_true_iff]
    exact admits_union_flat_iff before (first :: others) after
  · intro v base rejection hcheck
    have hnested : ¬ (union (before ++ [union (first :: others)] ++ after)).Admits v := by
      rw [← check_eq_ok_iff _ v base, hcheck]
      exact fun h => nomatch h
    have hflat := mt (admits_union_flat_iff before (first :: others) after).mpr hnested
    have hinner : ¬ (union (first :: others)).Admits v := fun hv =>
      hnested (admitsSome_iff.mpr ⟨_, by simp, hv⟩)
    obtain ⟨said, told, said', told', hsaid, hsaid', hsame, hlist⟩ :=
      objections_union_flat before after (List.cons_ne_nil first others) hinner base
    have hne (middle : List Shape) (hmiddle : middle ≠ []) : before ++ middle ++ after ≠ [] := by
      simp [hmiddle]
    obtain ⟨_, _, hobjections, hunion⟩ :=
      exists_check_union (hne _ (List.cons_ne_nil _ _)) hnested base
    obtain ⟨_, _, hobjections', hunion'⟩ :=
      exists_check_union (hne _ (List.cons_ne_nil _ _)) hflat base
    obtain ⟨rfl, rfl⟩ := List.cons.inj (hobjections.symm.trans hsaid)
    obtain ⟨rfl, rfl⟩ := List.cons.inj (hobjections'.symm.trans hsaid')
    obtain rfl := Except.error.inj (hcheck.symm.trans hunion)
    have hpath := congrArg Rejection.path hsame
    have hexpected := congrArg Rejection.expected hsame
    have hactual := congrArg Rejection.actual hsame
    refine ⟨_, hunion', hpath, hexpected, hactual, ?_⟩
    rw [Rejection.listing_withAlternatives, Rejection.listing_withAlternatives, hsame]
    exact hlist.cons_cons _

/-- What strings have to say is lost where the union with them speaks for all. -/
example :
    let nested := union [union [boolean, string], number]
    let flat := union [boolean, string, number]
    (nested.check .null .root).mapError (fun rejection => rejection.listing.map (·.expected)) =
        .error ["a boolean", "a number"] ∧
      (flat.check .null .root).mapError (fun rejection => rejection.listing.map (·.expected)) =
        .error ["a boolean", "a string", "a number"] :=
  ⟨rfl, rfl⟩

end Shape

end FlowContract
