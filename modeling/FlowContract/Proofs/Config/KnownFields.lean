import FlowContract.Proofs.Config.Written
import FlowContract.Proofs.Json.Printing
import FlowContract.Proofs.Json.Reordering

/-!
What reading a configuration depends on. Two texts whose mappings give the known fields the same
documents are read alike, wherever the fields stand, whatever else stands beside them and whether or
not a default is written out; a field that is given twice is never read.
-/

namespace FlowContract.Config

open Json (Document Layout Matching Named Reordered)

/-- What is given under some names, or else what is taken instead of it. -/
def givenOr (standard : Document) (names : List String) (members : List (String × Document)) :
    List Document :=
  match given names members with
  | [] => [standard]
  | documents => documents

/-- The documents for the fields of the loader, and for the schema version. -/
def givenTimeouts (members : List (String × Document)) : List Document :=
  givenOr (.count LoaderConfig.standard.timeoutSeconds) ["timeout_secs"] members

def givenAgents (members : List (String × Document)) : List Document :=
  givenOr (.string LoaderConfig.standard.userAgent) ["user_agent"] members

def givenVersions (members : List (String × Document)) : List Document :=
  givenOr (.string (default : SchemaVersion).name) ["schema_version"] members

/-- Two documents for the loader that differ in nothing that is known: they are the same but for the
order of members, or they are mappings that give the known fields the same documents. -/
inductive SameLoader : Document → Document → Prop
  | reordered {document document' : Document} (same : Reordered document document') :
      SameLoader document document'
  | fields {members members' : List (String × Document)}
      (timeoutSeconds : Matching Reordered (givenTimeouts members) (givenTimeouts members'))
      (userAgent : Matching Reordered (givenAgents members) (givenAgents members')) :
      SameLoader (.mapping members) (.mapping members')

/-- Two documents for the definitions that differ in nothing that is known. What stands beside the
known fields is read before it is passed over, so that it has to be in range and not nested too deep
(`IsDetail`). -/
inductive SameDefinitions : Document → Document → Prop
  | reordered {document document' : Document} (same : Reordered document document') :
      SameDefinitions document document'
  | fields {members members' : List (String × Document)}
      (kind : Matching Reordered (given ["kind"] members) (given ["kind"] members'))
      (version : Matching Reordered (givenVersions members) (givenVersions members'))
      (others : ∀ member ∈ members ++ members', member.1 ∉ ["kind", "schema_version"] →
        IsDetail member.2) : SameDefinitions (.mapping members) (.mapping members')

/-- Two mappings that give the known fields of a configuration the same documents. -/
structure SameFields (members members' : List (String × Document)) : Prop where
  serverUrl : Matching Reordered (given ["server_url", "serverUrl"] members)
    (given ["server_url", "serverUrl"] members')
  token : Matching Reordered (given ["token"] members) (given ["token"] members')
  definitions : Matching SameDefinitions
    (givenOr (default : Representation).document ["definitions"] members)
    (givenOr (default : Representation).document ["definitions"] members')
  loader : Matching SameLoader
    (givenOr LoaderConfig.standard.document ["loader"] members)
    (givenOr LoaderConfig.standard.document ["loader"] members')

/-! ### Fields -/

section Filled

variable {α : Type} {takes : Document → α → Prop}

theorem filled_matching {alike : Document → Document → Prop} {documents documents' : List Document}
    (h : Matching alike documents documents')
    (htakes : ∀ d d', alike d d' → ∀ a, takes d a ↔ takes d' a) (held : Option α) :
    Filled takes documents held ↔ Filled takes documents' held := by
  obtain ⟨arranged, hagree, horder⟩ := h
  cases hagree with
  | nil =>
    obtain rfl := List.nil_perm.mp horder
    rfl
  | cons hhead htail =>
    cases htail with
    | nil =>
      obtain rfl := List.singleton_perm.mp horder
      simp only [Filled, htakes _ _ hhead]
    | cons _ _ =>
      have hlength := horder.length_eq
      rcases documents' with _ | ⟨_, _ | ⟨_, _⟩⟩
      · cases hlength
      · cases hlength
      · rfl

/-- A field that is not given holds what its default is read as. -/
theorem filled_givenOr_iff {standard : Document} {a : α}
    (hstandard : ∀ a', takes standard a' ↔ a' = a) (names : List String)
    (members : List (String × Document)) (a' : α) :
    Filled takes (givenOr standard names members) (some a') ↔
      ∃ held, Filled takes (given names members) held ∧ held.getD a = a' := by
  simp only [givenOr]
  match given names members with
  | [] => simp [Filled, hstandard, eq_comm]
  | [document] => simp [Filled]
  | _ :: _ :: _ => simp [Filled]

end Filled

theorem matching_given {members members' : List (String × Document)}
    (h : Matching (Named Reordered) members members') (names : List String) :
    Matching Reordered (given names members) (given names members') := by
  obtain ⟨arranged, hagree, horder⟩ := h
  refine ⟨given names arranged, ?_, (horder.filter _).map _⟩
  clear horder
  induction hagree with
  | nil => exact .nil
  | cons hhead _ ih =>
    obtain ⟨name, values⟩ := hhead
    by_cases hname : name ∈ names
    · rw [given_cons_of_mem hname, given_cons_of_mem hname]
      exact .cons values ih
    · rw [given_cons_of_notMem hname, given_cons_of_notMem hname]
      exact ih

theorem matching_givenOr {names : List String} {members members' : List (String × Document)}
    (h : Matching Reordered (given names members) (given names members')) (standard : Document) :
    Matching Reordered (givenOr standard names members) (givenOr standard names members') := by
  simp only [givenOr]
  have hnil := h.eq_nil_iff
  revert h hnil
  match given names members, given names members' with
  | [], [] => exact fun _ _ => ⟨_, .cons (.refl standard) .nil, .refl _⟩
  | [], _ :: _ => simp
  | _ :: _, [] => simp
  | _ :: _, _ :: _ => exact fun h _ => h

/-! ### What the order of members does not matter to -/

section Reordering

variable {document document' : Document}

theorem isString_iff_of_reordered (h : Reordered document document') (value : String) :
    IsString document value ↔ IsString document' value := by
  cases h <;> simp [IsString]

theorem isCount_iff_of_reordered (h : Reordered document document') (count : UInt64) :
    IsCount document count ↔ IsCount document' count := by
  cases h <;> simp [IsCount]

theorem isTag_iff_of_reordered (h : Reordered document document') (tag : Tag) :
    IsTag document tag ↔ IsTag document' tag := by
  cases tag <;> cases h <;> simp [IsTag]

theorem isVersion_of_reordered (h : Reordered document document') {version : SchemaVersion}
    (hversion : IsVersion document version) : IsVersion document' version := by
  obtain ⟨name, hname, rfl | rfl | rfl⟩ := hversion
  · cases h
    exact ⟨name, hname, .inl rfl⟩
  · obtain ⟨item, rfl, hitem⟩ := h.single
    cases hitem
    exact ⟨name, hname, .inr (.inl rfl)⟩
  · obtain ⟨item, rfl, hitem⟩ := h.single
    rw [hitem.empty]
    exact ⟨name, hname, .inr (.inr rfl)⟩

theorem isVersion_iff_of_reordered (h : Reordered document document') (version : SchemaVersion) :
    IsVersion document version ↔ IsVersion document' version :=
  ⟨isVersion_of_reordered h, isVersion_of_reordered h.symm⟩

theorem isDetail_iff_of_reordered (h : Reordered document document') :
    IsDetail document ↔ IsDetail document' := h.readable_iff _

end Reordering

/-! ### The loader -/

theorem isLoader_mapping_iff (members : List (String × Document)) (loader : LoaderConfig) :
    IsLoader (.mapping members) loader ↔
      Filled IsCount (givenTimeouts members) (some loader.timeoutSeconds) ∧
      Filled IsString (givenAgents members) (some loader.userAgent) := by
  rw [givenTimeouts, givenAgents, filled_givenOr_iff fun _ => isCount_count_iff,
    filled_givenOr_iff fun _ => isString_string_iff]
  obtain ⟨timeoutSeconds, userAgent⟩ := loader
  simp only [IsLoader, LoaderDraft.complete, LoaderConfig.mk.injEq]
  grind

theorem isLoader_iff_of_fields {members members' : List (String × Document)}
    (htimeout : Matching Reordered (givenTimeouts members) (givenTimeouts members'))
    (hagent : Matching Reordered (givenAgents members) (givenAgents members'))
    (loader : LoaderConfig) :
    IsLoader (.mapping members) loader ↔ IsLoader (.mapping members') loader := by
  rw [isLoader_mapping_iff, isLoader_mapping_iff,
    filled_matching htimeout fun _ _ => isCount_iff_of_reordered,
    filled_matching hagent fun _ _ => isString_iff_of_reordered]

/-- Corresponding elements of lists that agree. -/
theorem matching_getElem? {alike : Document → Document → Prop} {items items' : List Document}
    (h : List.Forall₂ alike items items') (i : Nat) :
    Matching alike items[i]?.toList items'[i]?.toList := by
  refine ⟨_, ?_, .refl _⟩
  induction h generalizing i with
  | nil => exact .nil
  | cons hhead _ ih =>
    cases i with
    | zero => exact .cons hhead .nil
    | succ i => exact ih i

theorem isLoader_iff_of_same {document document' : Document} (h : SameLoader document document')
    (loader : LoaderConfig) : IsLoader document loader ↔ IsLoader document' loader := by
  cases h with
  | fields timeoutSeconds userAgent => exact isLoader_iff_of_fields timeoutSeconds userAgent loader
  | reordered same =>
    cases same with
    | null | boolean | number | string => rfl
    | list elements =>
      have htimeout := filled_matching (matching_getElem? elements 0)
        fun _ _ => isCount_iff_of_reordered
      have hagent := filled_matching (matching_getElem? elements 1)
        fun _ _ => isString_iff_of_reordered
      simp only [IsLoader, htimeout, hagent, elements.length_eq]
    | mapping entries order =>
      have hgiven := matching_given ⟨_, entries, order⟩
      exact isLoader_iff_of_fields (matching_givenOr (hgiven _) _) (matching_givenOr (hgiven _) _)
        loader

/-! ### The definitions -/

theorem isOfTag_iff_filled (members : List (String × Document)) (tag : Tag)
    (representation : Representation) :
    IsOfTag (given ["schema_version"] members) tag representation ↔
      match tag with
      | .catalog => representation = .catalog
      | .operatorList => ∃ version, Filled IsVersion (givenVersions members) (some version) ∧
          representation = .operatorList version := by
  cases tag with
  | catalog => rfl
  | operatorList =>
    simp only [IsOfTag, givenVersions, filled_givenOr_iff fun _ => isVersion_name_iff]
    grind

theorem forall_mem_given_iff (names : List String) (members : List (String × Document))
    (holds : Document → Prop) : (∀ document ∈ given names members, holds document) ↔
      ∀ member ∈ members, member.1 ∈ names → holds member.2 := by
  simp only [given, List.mem_map, List.mem_filter, decide_eq_true_eq]
  grind

/-- Everything in the mapping of a representation but its tag can be read if its versions and what
is not known of it can. -/
theorem forall_isDetail_iff (members : List (String × Document)) :
    (∀ member ∈ members, member.1 ≠ "kind" → IsDetail member.2) ↔
      (∀ document ∈ givenVersions members, IsDetail document) ∧
      ∀ member ∈ members, member.1 ∉ ["kind", "schema_version"] → IsDetail member.2 := by
  have hversions : (∀ document ∈ givenVersions members, IsDetail document) ↔
      ∀ document ∈ given ["schema_version"] members, IsDetail document := by
    simp only [givenVersions, givenOr]
    match given ["schema_version"] members with
    | [] => simp [isDetail_string]
    | _ :: _ => rfl
  rw [hversions, forall_mem_given_iff]
  simp only [List.mem_cons, List.not_mem_nil, or_false, not_or]
  grind

theorem isRepresentation_iff_of_fields {members members' : List (String × Document)}
    (hkind : Matching Reordered (given ["kind"] members) (given ["kind"] members'))
    (hversion : Matching Reordered (givenVersions members) (givenVersions members'))
    (hothers : (∀ member ∈ members, member.1 ∉ ["kind", "schema_version"] → IsDetail member.2) ↔
      ∀ member ∈ members', member.1 ∉ ["kind", "schema_version"] → IsDetail member.2)
    (representation : Representation) :
    IsRepresentation (.mapping members) representation ↔
      IsRepresentation (.mapping members') representation := by
  have hdetails := hversion.forall_mem_iff fun _ _ _ => isDetail_iff_of_reordered
  have htag := filled_matching hkind fun _ _ => isTag_iff_of_reordered
  have hof (tag : Tag) : IsOfTag (given ["schema_version"] members) tag representation ↔
      IsOfTag (given ["schema_version"] members') tag representation := by
    rw [isOfTag_iff_filled, isOfTag_iff_filled]
    cases tag with
    | catalog => rfl
    | operatorList =>
      simp only [filled_matching hversion fun _ _ => isVersion_iff_of_reordered]
  simp only [IsRepresentation, forall_isDetail_iff, hdetails, hothers, htag, hof]

theorem isRepresentation_iff_of_same {document document' : Document}
    (h : SameDefinitions document document') (representation : Representation) :
    IsRepresentation document representation ↔ IsRepresentation document' representation := by
  cases h with
  | fields kind version others =>
    simp only [List.mem_append, or_imp, forall_and] at others
    exact isRepresentation_iff_of_fields kind version (iff_of_true others.1 others.2) representation
  | reordered same =>
    cases same with
    | null | boolean | number | string => rfl
    | list elements =>
      cases elements with
      | nil => rfl
      | @cons _ _ rest rest' hfirst hrest =>
        have hmatching : Matching Reordered rest rest' := ⟨_, hrest, .refl _⟩
        have hdetails := hmatching.forall_mem_iff fun _ _ _ => isDetail_iff_of_reordered
        have hversion := filled_matching hmatching fun _ _ => isVersion_iff_of_reordered
        have hof (tag : Tag) :
            IsOfTag rest tag representation ↔ IsOfTag rest' tag representation := by
          cases tag with
          | catalog => rfl
          | operatorList => simp only [IsOfTag, hversion]
        simp only [IsRepresentation, hdetails, isTag_iff_of_reordered hfirst, hmatching.eq_nil_iff,
          hof]
    | @mapping members _ members' entries order =>
      have hmatching : Matching (Named Reordered) members members' := ⟨_, entries, order⟩
      have hothers :
          (∀ member ∈ members, member.1 ∉ ["kind", "schema_version"] → IsDetail member.2) ↔
            ∀ member ∈ members', member.1 ∉ ["kind", "schema_version"] → IsDetail member.2 := by
        refine hmatching.forall_mem_iff ?_
        rintro _ _ _ ⟨name, values⟩
        simp only [isDetail_iff_of_reordered values]
      exact isRepresentation_iff_of_fields (matching_given hmatching _)
        (matching_givenOr (matching_given hmatching _) _) hothers representation

/-! ### Whole configurations -/

theorem ofText_eq_ok_iff_filled {members : List (String × Document)} {text : String}
    (h : (Document.mapping members).SpelledBy text) (config : EditorConfig) :
    EditorConfig.ofText text = .ok config ↔
      Filled IsString (given ["server_url", "serverUrl"] members) (some config.serverUrl) ∧
      Filled IsString (given ["token"] members) (some config.token) ∧
      Filled IsRepresentation
        (givenOr (default : Representation).document ["definitions"] members)
        (some config.definitions) ∧
      Filled IsLoader (givenOr LoaderConfig.standard.document ["loader"] members)
        (some config.loader) := by
  rw [ofText_mapping_eq_ok_iff h, filled_givenOr_iff fun _ => isRepresentation_document_iff,
    filled_givenOr_iff fun _ => isLoader_document_iff]
  constructor
  · rintro ⟨draft, hfill, hcomplete⟩
    obtain ⟨hserver, htoken, hdefinitions, hloader⟩ := Draft.complete_eq_ok_iff.mp hcomplete
    exact ⟨hserver ▸ hfill.serverUrl, htoken ▸ hfill.token,
      ⟨_, hfill.definitions, hdefinitions⟩, ⟨_, hfill.loader, hloader⟩⟩
  · rintro ⟨hserver, htoken, ⟨definitions, hdefinitions, hdefinitions'⟩, loader, hloader, hloader'⟩
    exact ⟨⟨_, _, definitions, loader⟩, ⟨hserver, htoken, hdefinitions, hloader⟩,
      Draft.complete_eq_ok_iff.mpr ⟨rfl, rfl, hdefinitions', hloader'⟩⟩

/-- Whether a field that all configurations know is given twice, be it under two names. -/
def GivesTwice (members : List (String × Document)) : Prop :=
  ∃ names ∈ [["server_url", "serverUrl"], ["token"], ["definitions"], ["loader"]],
    2 ≤ (given names members).length

theorem not_filled_of_two {α : Type} {takes : Document → α → Prop} {documents : List Document}
    (h : 2 ≤ documents.length) (held : Option α) : ¬Filled takes documents held := by
  match documents, h with
  | _ :: _ :: _, _ => exact not_false

/-- Reading a configuration depends on its known fields only. Texts that give them the same
documents are read alike, or both rejected; what is given twice is rejected. Both texts hold
documents: also what is passed over in them has no string with one half of a pair of code units. -/
theorem reading_depends_on_known_fields {members members' : List (String × Document)}
    {text text' : String} (h : (Document.mapping members).SpelledBy text)
    (h' : (Document.mapping members').SpelledBy text') :
    (SameFields members members' →
      ∀ config, EditorConfig.ofText text = .ok config ↔ EditorConfig.ofText text' = .ok config) ∧
    (GivesTwice members → ∀ config, EditorConfig.ofText text ≠ .ok config) := by
  constructor
  · intro hsame config
    rw [ofText_eq_ok_iff_filled h, ofText_eq_ok_iff_filled h',
      filled_matching hsame.serverUrl fun _ _ => isString_iff_of_reordered,
      filled_matching hsame.token fun _ _ => isString_iff_of_reordered,
      filled_matching hsame.definitions fun _ _ => isRepresentation_iff_of_same,
      filled_matching hsame.loader fun _ _ => isLoader_iff_of_same]
  · rintro ⟨names, hnames, htwice⟩ config hread
    obtain ⟨draft, hfill, -⟩ := (ofText_mapping_eq_ok_iff h config).mp hread
    simp only [List.mem_cons, List.not_mem_nil, or_false] at hnames
    rcases hnames with rfl | rfl | rfl | rfl
    · exact not_filled_of_two htwice _ hfill.serverUrl
    · exact not_filled_of_two htwice _ hfill.token
    · exact not_filled_of_two htwice _ hfill.definitions
    · exact not_filled_of_two htwice _ hfill.loader

/-- Server and token alone. -/
def briefMembers : List (String × Document) :=
  [("server_url", .string "s"), ("token", .string "t")]

def briefText : String := Layout.compact.enclose 0 "\x7b" "\x7d" [
  Layout.compact.member "server_url" (Json.writeString "s"),
  Layout.compact.member "token" (Json.writeString "t")]

/-- The same with a note, a default and other spellings. -/
def longMembers : List (String × Document) := [
  ("note", .list []),
  ("token", .string "t"),
  ("definitions", .mapping [("note", .null), ("kind", .string "catalog")]),
  ("serverUrl", .string "s"),
  ("loader", .mapping [])]

def longText : String := Layout.indented.enclose 0 "\x7b" "\x7d" [
  Layout.indented.member "note" (Layout.indented.enclose 1 "[" "]" []),
  Layout.indented.member "token" (Json.writeString "t"),
  Layout.indented.member "definitions" (Layout.indented.enclose 1 "\x7b" "\x7d" [
    Layout.indented.member "note" "null",
    Layout.indented.member "kind" (Json.writeString "catalog")]),
  Layout.indented.member "serverUrl" (Json.writeString "s"),
  Layout.indented.member "loader" (Layout.indented.enclose 1 "\x7b" "\x7d" [])]

theorem spelledBy_briefText : (Document.mapping briefMembers).SpelledBy briefText :=
  Document.spelledBy_of_spelled <| Document.spelled_enclosed_mapping Layout.blank_compact 0 <|
    .cons ⟨_, rfl, Json.spells_writeString _⟩ <| .cons ⟨_, rfl, Json.spells_writeString _⟩ .nil

theorem spelledBy_longText : (Document.mapping longMembers).SpelledBy longText := by
  have hblank := Layout.blank_indented
  refine Document.spelledBy_of_spelled <| Document.spelled_enclosed_mapping hblank 0 <|
    .cons ⟨_, rfl, Document.spelled_enclosed_list hblank 1 .nil⟩ <|
    .cons ⟨_, rfl, Json.spells_writeString _⟩ <| .cons ⟨_, rfl, ?_⟩ <|
    .cons ⟨_, rfl, Json.spells_writeString _⟩ <|
    .cons ⟨_, rfl, Document.spelled_enclosed_mapping hblank 1 .nil⟩ .nil
  have hnull : Document.null.Spelled "null".toList := (rfl : "null".toList = ['n', 'u', 'l', 'l'])
  exact Document.spelled_enclosed_mapping hblank 1
    (.cons ⟨_, rfl, hnull⟩ (.cons ⟨_, rfl, Json.spells_writeString _⟩ .nil))

theorem sameFields_brief_long : SameFields briefMembers longMembers := by
  have hmatching {alike : Document → Document → Prop} {d d' : Document} (h : alike d d') :
      Matching alike [d] [d'] := ⟨_, .cons h .nil, .refl _⟩
  refine ⟨hmatching (.refl _), hmatching (.refl _), hmatching ?_, hmatching ?_⟩
  · refine .fields (hmatching (.refl _)) (hmatching (.refl _)) ?_
    have hnull : IsDetail .null := ⟨Nat.zero_le _, _, rfl⟩
    simp [hnull]
  · exact .fields (hmatching (.refl _)) (hmatching (.refl _))

/-- A configuration that is written at length is read as the brief one. -/
theorem long_text_is_read_as_brief_text :
    (∀ config, EditorConfig.ofText briefText = .ok config ↔
      EditorConfig.ofText longText = .ok config) ∧
    (EditorConfig.ofText longText = .ok (EditorConfig.standard "s" "t")) := by
  have hsame := (reading_depends_on_known_fields spelledBy_briefText spelledBy_longText).1
    sameFields_brief_long
  refine ⟨hsame, (hsame _).mp ?_⟩
  exact (ofText_mapping_eq_ok_iff spelledBy_briefText _).mpr
    ⟨⟨some "s", some "t", none, none⟩, ⟨⟨_, rfl, rfl⟩, ⟨_, rfl, rfl⟩, rfl, rfl⟩, rfl⟩

end FlowContract.Config
