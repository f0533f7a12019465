import FlowContract.Config.Reader
import FlowContract.Proofs.Json.Reading

/-!
What configurations are read from, said of the documents that texts hold: which members and elements
fill which fields. Faults and their places are left out; a document that none of these relations
gives a configuration is rejected.
-/

namespace FlowContract.Config

open Json (Document Symbol Syntax Key Ending Value Number Outline)

/-! ### Relations between documents and what they are read as -/

/-- What stands under some names in a mapping, in the order in which it is written. -/
def given (names : List String) (members : List (String × Document)) : List Document :=
  (members.filter fun member => member.1 ∈ names).map Prod.snd

/-- A field that at most one document may fill. -/
def Filled {α : Type} (takes : Document → α → Prop) : List Document → Option α → Prop
  | [], held => held = none
  | [document], held => ∃ a, takes document a ∧ held = some a
  | _ :: _ :: _, _ => False

def IsString (document : Document) (value : String) : Prop := document = .string value

def IsCount (document : Document) (count : UInt64) : Prop :=
  ∃ value least greatest, document = .number (some (.integer value least greatest)) ∧ 0 ≤ value ∧
    count = UInt64.ofNat value.toNat

def IsTag (document : Document) : Tag → Prop
  | .catalog => document = .string "catalog"
  | .operatorList => document = .string "operator_list"

/-- The name of a version, or a mapping from it to nothing. -/
def IsVersion (document : Document) (version : SchemaVersion) : Prop :=
  ∃ name, SchemaVersion.ofName? name = some version ∧
    (document = .string name ∨ document = .mapping [(name, .null)] ∨
      document = .mapping [(name, .mapping [])])

/-- Whether a document that stands among the details of a representation can be read: lists and
mappings are nested no deeper in it than there is room for, and none of its numbers is out of range
for the reader, as some just below the largest double are. -/
def IsDetail (document : Document) : Prop := document.Readable detailNesting

/-- The documents that may give a schema version, by the form in which a representation is
written. -/
def IsOfTag (versions : List Document) : Tag → Representation → Prop
  | .catalog, representation => representation = .catalog
  | .operatorList, representation => ∃ version, Filled IsVersion versions version ∧
      representation = .operatorList (version.getD default)

def IsRepresentation : Document → Representation → Prop
  | .mapping members, representation =>
    (∀ member ∈ members, member.1 ≠ "kind" → IsDetail member.2) ∧
    ∃ tag, Filled IsTag (given ["kind"] members) (some tag) ∧
      IsOfTag (given ["schema_version"] members) tag representation
  | .list (first :: rest), representation =>
    (∀ item ∈ rest, IsDetail item) ∧
    ∃ tag, IsTag first tag ∧ (tag = .catalog → rest = []) ∧ IsOfTag rest tag representation
  | _, _ => False

def IsLoader : Document → LoaderConfig → Prop
  | .mapping members, loader => ∃ timeoutSeconds userAgent,
      Filled IsCount (given ["timeout_secs"] members) timeoutSeconds ∧
      Filled IsString (given ["user_agent"] members) userAgent ∧
      loader = LoaderDraft.complete ⟨timeoutSeconds, userAgent⟩
  | .list items, loader => ∃ timeoutSeconds userAgent,
      Filled IsCount items[0]?.toList timeoutSeconds ∧
      Filled IsString items[1]?.toList userAgent ∧ items.length ≤ 2 ∧
      loader = LoaderDraft.complete ⟨timeoutSeconds, userAgent⟩
  | _, _ => False

/-- What the members of a mapping fill the fields of a configuration with. -/
structure Fill (members : List (String × Document)) (draft : Draft) : Prop where
  serverUrl : Filled IsString (given ["server_url", "serverUrl"] members) draft.serverUrl
  token : Filled IsString (given ["token"] members) draft.token
  definitions : Filled IsRepresentation (given ["definitions"] members) draft.definitions
  loader : Filled IsLoader (given ["loader"] members) draft.loader

/-! ### Parts of a text -/

section Parts

variable {document : Document} {s : Syntax}

theorem readString_eq_ok_iff (h : document.Outlined s) (value : String) :
    readString s = .ok value ↔ IsString document value := by
  cases document with
  | number =>
    obtain ⟨rfl, start, stop, fault, rfl⟩ | ⟨n, rfl, start, stop, rfl⟩ := h.number_cases <;>
      simp [readString, IsString]
  | null | boolean | string =>
    obtain ⟨start, stop, rfl⟩ := h
    simp [readString, IsString, eq_comm]
  | list | mapping =>
    obtain ⟨start, inner, stop, rfl, -⟩ := h
    simp [readString, IsString]

theorem readCount_eq_ok_iff (h : document.Outlined s) (count : UInt64) :
    readCount s = .ok count ↔ IsCount document count := by
  cases document with
  | number =>
    obtain ⟨rfl, start, stop, fault, rfl⟩ | ⟨n, rfl, start, stop, rfl⟩ := h.number_cases
    · simp [readCount, IsCount]
    · cases n with
      | integer value least greatest =>
        by_cases hvalue : value < 0
        · simp [readCount, IsCount, hvalue]
        · simp [readCount, IsCount, hvalue, least, greatest, Int.not_lt.mp hvalue, eq_comm]
      | double => simp [readCount, IsCount]
  | null | boolean | string =>
    obtain ⟨start, stop, rfl⟩ := h
    simp [readCount, IsCount]
  | list | mapping =>
    obtain ⟨start, inner, stop, rfl, -⟩ := h
    simp [readCount, IsCount]

theorem readTag_eq_ok_iff (h : document.Outlined s) (tag : Tag) :
    readTag s = .ok tag ↔ IsTag document tag := by
  cases document with
  | number =>
    obtain ⟨rfl, start, stop, fault, rfl⟩ | ⟨n, rfl, start, stop, rfl⟩ := h.number_cases <;>
      cases tag <;> simp [readTag, IsTag]
  | string value =>
    obtain ⟨start, stop, rfl⟩ := h
    simp only [readTag]
    split
    · cases tag <;> simp_all [IsTag]
    · split <;> cases tag <;> simp_all [IsTag]
  | null | boolean =>
    obtain ⟨start, stop, rfl⟩ := h
    cases tag <;> simp [readTag, IsTag]
  | list | mapping =>
    obtain ⟨start, inner, stop, rfl, -⟩ := h
    cases tag <;> simp [readTag, IsTag]

theorem versionOfName_eq_ok_iff (name : String) (version : SchemaVersion) :
    versionOfName name = .ok version ↔ SchemaVersion.ofName? name = some version := by
  simp only [versionOfName]
  cases SchemaVersion.ofName? name <;> simp

/-- A mapping with one key, which may be the name of a version. -/
theorem readVersion_single (h : document.Outlined s) {key : Key} {name : String}
    (hkey : key.reading = .ok name) (start : Nat) (ending : Ending) (version : SchemaVersion) :
    readVersion (.mapping start [(key, s)] ending) = .ok version ↔
      SchemaVersion.ofName? name = some version ∧ (document = .null ∨ document = .mapping []) := by
  have hname : (key.reading.toOption).getD "" = name := by rw [hkey]; rfl
  simp only [readVersion, hname, Json.Except.bind_eq_ok_iff, versionOfName_eq_ok_iff]
  cases document with
  | number =>
    obtain ⟨rfl, start, stop, fault, rfl⟩ | ⟨n, rfl, start, stop, rfl⟩ := h.number_cases <;> simp
  | null | boolean | string =>
    obtain ⟨start, stop, rfl⟩ := h
    simp [pure, Except.pure]
  | list =>
    obtain ⟨start, inner, stop, rfl, -⟩ := h
    simp
  | mapping members =>
    obtain ⟨start, inner, stop, rfl, hinner⟩ := h
    cases members with
    | nil =>
      obtain rfl : inner = [] := hinner
      simp [pure, Except.pure]
    | cons =>
      obtain ⟨_, _, _, rfl, -⟩ := hinner
      simp

theorem readVersion_eq_ok_iff (h : document.Outlined s) (version : SchemaVersion) :
    readVersion s = .ok version ↔ IsVersion document version := by
  cases document with
  | number =>
    obtain ⟨rfl, start, stop, fault, rfl⟩ | ⟨n, rfl, start, stop, rfl⟩ := h.number_cases <;>
      simp [readVersion, IsVersion]
  | string value =>
    obtain ⟨start, stop, rfl⟩ := h
    simp [readVersion, IsVersion, versionOfName_eq_ok_iff]
  | null | boolean =>
    obtain ⟨start, stop, rfl⟩ := h
    simp [readVersion, IsVersion]
  | list =>
    obtain ⟨start, inner, stop, rfl, -⟩ := h
    simp [readVersion, IsVersion]
  | mapping members =>
    obtain ⟨start, inner, stop, rfl, hinner⟩ := h
    match members, hinner with
    | [], hinner =>
      obtain rfl : inner = [] := hinner
      simp [readVersion, IsVersion]
    | [(name, item)], ⟨key, s, others, houtlined, hkey, hs, hothers⟩ =>
      obtain rfl : others = [] := hothers
      subst houtlined
      rw [readVersion_single hs hkey]
      simp only [IsVersion, Document.mapping.injEq, List.cons.injEq, Prod.mk.injEq, and_true,
        reduceCtorEq, false_or]
      grind
    | _ :: _ :: _, ⟨_, _, _, houtlined, _, _, _, _, _, hothers, _, _, _⟩ =>
      subst houtlined hothers
      simp [readVersion, IsVersion]

end Parts

/-! ### Mappings taken member by member -/

/-- Documents that fill a field one after the other, the field holding something or not before. -/
def Fills {α : Type} (takes : Document → α → Prop) :
    Option α → List Document → Option α → Prop
  | held, [], held' => held' = held
  | held, document :: rest, held' =>
    held = none ∧ ∃ a, takes document a ∧ Fills takes (some a) rest held'

theorem fills_none_iff {α : Type} {takes : Document → α → Prop} {documents : List Document}
    {held : Option α} : Fills takes none documents held ↔ Filled takes documents held := by
  match documents with
  | [] => rfl
  | [document] => simp [Fills, Filled]
  | _ :: _ :: _ => simp [Fills, Filled]

theorem fills_append_iff {α : Type} {takes : Document → α → Prop} {first second : List Document}
    {held held' : Option α} : Fills takes held (first ++ second) held' ↔
      ∃ between, Fills takes held first between ∧ Fills takes between second held' := by
  induction first generalizing held with
  | nil => simp [Fills]
  | cons document first ih =>
    simp only [List.cons_append, Fills, ih]
    grind

theorem fillOnce_eq_ok_iff {α : Type} {takes : Document → α → Prop} {document : Document}
    {read : Except Fault α} (hread : ∀ a, read = .ok a ↔ takes document a) (name : String)
    (stop : Nat) (held held' : Option α) :
    fillOnce name stop held read = .ok held' ↔ Fills takes held [document] held' := by
  simp only [Fills, ← hread]
  cases held with
  | some => simp [fillOnce]
  | none => cases read <;> simp [fillOnce, Except.map, eq_comm]

theorem given_cons (names : List String) (member : String × Document)
    (members : List (String × Document)) :
    given names (member :: members) = given names [member] ++ given names members := by
  simp only [given, ← List.map_append, ← List.filter_append, List.singleton_append]

theorem given_singleton (names : List String) (name : String) (document : Document) :
    given names [(name, document)] = if name ∈ names then [document] else [] := by
  by_cases h : name ∈ names <;> simp [given, h]

theorem given_cons_of_mem {names : List String} {name : String} (h : name ∈ names)
    (document : Document) (members : List (String × Document)) :
    given names ((name, document) :: members) = document :: given names members := by
  simp [given, h]

theorem given_cons_of_notMem {names : List String} {name : String} (h : name ∉ names)
    (document : Document) (members : List (String × Document)) :
    given names ((name, document) :: members) = given names members := by
  simp [given, h]

theorem foldMembers_cons_eq_ok_iff {σ : Type} {add : σ → String → Nat → Syntax → Except Fault σ}
    {draft draft' : σ} {key : Key} {name : String} (hkey : key.reading = .ok name) {s : Syntax}
    {rest : List (Key × Syntax)} : foldMembers add draft ((key, s) :: rest) = .ok draft' ↔
      ∃ next, add draft name key.stop s = .ok next ∧ foldMembers add next rest = .ok draft' := by
  simp only [foldMembers, ofText, hkey, Except.mapError, Json.Except.bind_eq_ok_iff,
    Except.ok.injEq, exists_eq_left']

theorem ofText_eq_ok_iff {α : Type} {result : Except Json.Fault α} {a : α} :
    ofText result = .ok a ↔ result = .ok a := by
  cases result <;> simp [ofText, Except.mapError]

/-- One member fills the fields under its name, and leaves the others. -/
theorem LoaderDraft.add_eq_ok_iff {item : Document} {s : Syntax} (hs : item.Outlined s)
    (name : String) (stop : Nat) (draft next : LoaderDraft) :
    draft.add name stop s = .ok next ↔
      Fills IsCount draft.timeoutSeconds (given ["timeout_secs"] [(name, item)])
        next.timeoutSeconds ∧
      Fills IsString draft.userAgent (given ["user_agent"] [(name, item)]) next.userAgent := by
  cases draft
  cases next
  simp only [add, given_singleton, List.mem_singleton]
  by_cases htimeout : name = "timeout_secs"
  · have hagent : name ≠ "user_agent" := by simp [htimeout]
    simp only [if_pos htimeout, if_neg hagent, Json.Except.bind_eq_ok_iff,
      fillOnce_eq_ok_iff (readCount_eq_ok_iff hs), pure, Except.pure, Except.ok.injEq]
    grind [Fills]
  by_cases hagent : name = "user_agent"
  · simp only [if_neg htimeout, if_pos hagent, Json.Except.bind_eq_ok_iff,
      fillOnce_eq_ok_iff (readString_eq_ok_iff hs), pure, Except.pure, Except.ok.injEq]
    grind [Fills]
  · simp only [if_neg htimeout, if_neg hagent, Json.Except.bind_eq_ok_iff, ofText_eq_ok_iff,
      item.skip_outlined hs, pure, Except.pure, Except.ok.injEq, exists_const, true_and]
    grind [Fills]

theorem LoaderDraft.fold_eq_ok_iff {members : List (String × Document)}
    {inner : List (Key × Syntax)} (h : Document.OutlinedMembers members inner)
    (draft draft' : LoaderDraft) :
    foldMembers LoaderDraft.add draft inner = .ok draft' ↔
      Fills IsCount draft.timeoutSeconds (given ["timeout_secs"] members) draft'.timeoutSeconds ∧
      Fills IsString draft.userAgent (given ["user_agent"] members) draft'.userAgent := by
  induction members generalizing inner draft with
  | nil =>
    obtain rfl : inner = [] := h
    cases draft
    cases draft'
    simp [foldMembers, given, Fills, eq_comm]
  | cons member members ih =>
    obtain ⟨key, s, others, rfl, hkey, hs, hothers⟩ := h
    simp only [foldMembers_cons_eq_ok_iff hkey, ih hothers, add_eq_ok_iff hs,
      given_cons _ member members, fills_append_iff]
    constructor
    · rintro ⟨next, ⟨htimeout, hagent⟩, htimeout', hagent'⟩
      exact ⟨⟨_, htimeout, htimeout'⟩, _, hagent, hagent'⟩
    · rintro ⟨⟨timeoutSeconds, htimeout, htimeout'⟩, userAgent, hagent, hagent'⟩
      exact ⟨⟨timeoutSeconds, userAgent⟩, ⟨htimeout, hagent⟩, htimeout', hagent'⟩

/-! ### Lists taken element by element -/

section Elements

variable {items : List Document} {inner : List Syntax}

theorem length_outlinedItems (h : Document.OutlinedItems items inner) :
    inner.length = items.length := by
  induction items generalizing inner with
  | nil =>
    obtain rfl : inner = [] := h
    rfl
  | cons item items ih =>
    obtain ⟨s, others, rfl, -, hothers⟩ := h
    rw [List.length_cons, List.length_cons, ih hothers]

theorem getElem?_outlinedItems (h : Document.OutlinedItems items inner) (i : Nat) :
    (items[i]? = none ∧ inner[i]? = none) ∨
      ∃ item s, items[i]? = some item ∧ inner[i]? = some s ∧ item.Outlined s := by
  induction items generalizing inner i with
  | nil =>
    obtain rfl : inner = [] := h
    exact .inl ⟨rfl, rfl⟩
  | cons item items ih =>
    obtain ⟨s, others, rfl, hs, hothers⟩ := h
    cases i with
    | zero => exact .inr ⟨item, s, rfl, rfl, hs⟩
    | succ i => simpa only [List.getElem?_cons_succ] using ih hothers i

theorem readElement_eq_ok_iff {α : Type} {read : Syntax → Except Fault α}
    {takes : Document → α → Prop}
    (hread : ∀ {document s}, document.Outlined s → ∀ a, read s = .ok a ↔ takes document a)
    (h : Document.OutlinedItems items inner) (stop i : Nat) (held : Option α) :
    readElement read inner (.closed stop) i = .ok held ↔ Filled takes items[i]?.toList held := by
  obtain ⟨hitem, hs⟩ | ⟨item, s, hitem, hs, houtlined⟩ := getElem?_outlinedItems h i
  · simp [readElement, readEnding, hitem, hs, Except.map, Filled, eq_comm]
  · have hiff := hread houtlined
    simp only [readElement, hitem, hs, Option.toList_some, Filled, ← hiff]
    cases read s <;> simp [Except.map, eq_comm]

theorem endFields_eq_ok_iff (h : Document.OutlinedItems items inner) (stop count : Nat) :
    endFields inner (.closed stop) count = .ok () ↔ items.length ≤ count := by
  rw [← length_outlinedItems h, ← List.getElem?_eq_none_iff]
  simp only [endFields]
  cases inner[count]? <;> simp

end Elements

theorem readLoader_eq_ok_iff {document : Document} {s : Syntax} (h : document.Outlined s)
    (loader : LoaderConfig) : readLoader s = .ok loader ↔ IsLoader document loader := by
  cases document with
  | number =>
    obtain ⟨rfl, start, stop, fault, rfl⟩ | ⟨n, rfl, start, stop, rfl⟩ := h.number_cases <;>
      simp [readLoader, IsLoader]
  | null | boolean | string =>
    obtain ⟨start, stop, rfl⟩ := h
    simp [readLoader, IsLoader]
  | list items =>
    obtain ⟨start, inner, stop, rfl, hinner⟩ := h
    simp only [readLoader, Json.Except.bind_eq_ok_iff,
      readElement_eq_ok_iff readCount_eq_ok_iff hinner,
      readElement_eq_ok_iff readString_eq_ok_iff hinner, endFields_eq_ok_iff hinner, pure,
      Except.pure, Except.ok.injEq, exists_const, IsLoader, exists_and_left, @eq_comm _ loader]
  | mapping members =>
    obtain ⟨start, inner, stop, rfl, hinner⟩ := h
    simp only [readLoader, readEnding, Json.Except.bind_eq_ok_iff,
      LoaderDraft.fold_eq_ok_iff hinner, fills_none_iff, pure, Except.pure, Except.ok.injEq,
      exists_eq_left', IsLoader]
    constructor
    · rintro ⟨draft, ⟨htimeout, hagent⟩, rfl⟩
      exact ⟨_, _, htimeout, hagent, rfl⟩
    · rintro ⟨timeoutSeconds, userAgent, htimeout, hagent, rfl⟩
      exact ⟨⟨timeoutSeconds, userAgent⟩, ⟨htimeout, hagent⟩, rfl⟩

/-! ### Representations -/

/-- The same members, given by their documents and by their structures. -/
def OutlinedDetails (members : List (String × Document)) (inner : List (String × Syntax)) : Prop :=
  List.Forall₂ (fun member part => member.1 = part.1 ∧ member.2.Outlined part.2) members inner

theorem exists_read_detail_iff {document : Document} {s : Syntax} (h : document.Outlined s) :
    (∃ v, ofText (s.read detailNesting) = .ok v) ↔ IsDetail document := by
  simp only [ofText_eq_ok_iff, document.read_outlined h, exists_and_left, IsDetail,
    Document.Readable]

theorem TaggedDraft.add_kind (draft : TaggedDraft) (stop : Nat) {document : Document} {s : Syntax}
    (h : document.Outlined s) (next : TaggedDraft) : draft.add "kind" stop s = .ok next ↔
      draft.tag = none ∧ ∃ tag, IsTag document tag ∧ next = ⟨some tag, draft.members⟩ := by
  simp only [add, if_true, Json.Except.bind_eq_ok_iff, fillOnce_eq_ok_iff (readTag_eq_ok_iff h),
    pure, Except.pure, Except.ok.injEq]
  grind [Fills]

theorem TaggedDraft.add_detail (draft : TaggedDraft) {name : String} (hname : name ≠ "kind")
    (stop : Nat) {document : Document} {s : Syntax} (h : document.Outlined s)
    (next : TaggedDraft) : draft.add name stop s = .ok next ↔
      IsDetail document ∧ next = ⟨draft.tag, (name, s) :: draft.members⟩ := by
  simp only [add, if_neg hname, Json.Except.bind_eq_ok_iff, pure, Except.pure, Except.ok.injEq,
    exists_and_right, exists_read_detail_iff h, @eq_comm _ next]

/-- The tag and the details of a mapping. The details keep their order. -/
theorem TaggedDraft.fold_eq_ok_iff {members : List (String × Document)}
    {inner : List (Key × Syntax)} (h : Document.OutlinedMembers members inner) : ∃ parts,
      OutlinedDetails (members.filter (·.1 ≠ "kind")) parts ∧ ∀ draft draft',
        foldMembers TaggedDraft.add draft inner = .ok draft' ↔
          Fills IsTag draft.tag (given ["kind"] members) draft'.tag ∧
          (∀ member ∈ members, member.1 ≠ "kind" → IsDetail member.2) ∧
          draft'.members = parts.reverse ++ draft.members := by
  induction members generalizing inner with
  | nil =>
    obtain rfl : inner = [] := h
    refine ⟨[], .nil, fun draft draft' => ?_⟩
    cases draft
    cases draft'
    simp [foldMembers, given, Fills, eq_comm]
  | cons member members ih =>
    obtain ⟨name, item⟩ := member
    obtain ⟨key, s, others, rfl, hkey, hs, hothers⟩ := h
    obtain ⟨parts, hparts, hfold⟩ := ih hothers
    by_cases hname : name = "kind"
    · subst hname
      refine ⟨parts, by simpa using hparts, fun draft draft' => ?_⟩
      simp only [foldMembers_cons_eq_ok_iff hkey, hfold, add_kind _ _ hs,
        given_cons_of_mem (List.mem_singleton_self _), Fills, List.forall_mem_cons]
      grind
    · refine ⟨(name, s) :: parts, ?_, fun draft draft' => ?_⟩
      · rw [List.filter_cons_of_pos (by simpa using hname)]
        exact .cons ⟨rfl, hs⟩ hparts
      · simp only [foldMembers_cons_eq_ok_iff hkey, hfold, add_detail _ hname _ hs,
          given_cons_of_notMem (show name ∉ ["kind"] by simpa using hname), List.forall_mem_cons,
          List.reverse_cons, List.append_assoc, List.singleton_append]
        grind

theorem foldVersion_eq_ok_iff {members : List (String × Document)} {parts : List (String × Syntax)}
    (h : OutlinedDetails members parts) (held held' : Option SchemaVersion) :
    foldVersion held parts = .ok held' ↔
      Fills IsVersion held (given ["schema_version"] members) held' := by
  induction h generalizing held with
  | nil => simp [foldVersion, given, Fills, eq_comm]
  | @cons member part members parts hpart _ ih =>
    obtain ⟨name, item⟩ := member
    obtain ⟨_, s⟩ := part
    obtain ⟨rfl, hs⟩ := hpart
    by_cases hname : name = "schema_version"
    · subst hname
      rw [given_cons_of_mem (List.mem_singleton_self _)]
      cases held with
      | some version => simp [foldVersion, Fills]
      | none =>
        simp only [foldVersion, if_true, Json.Except.bind_eq_ok_iff, readVersion_eq_ok_iff hs, ih,
          Fills, true_and]
    · rw [given_cons_of_notMem (by simpa using hname), ← ih]
      simp only [foldVersion, if_neg hname]

theorem assemble_members_eq_ok_iff {members : List (String × Document)}
    {parts : List (String × Syntax)} (h : OutlinedDetails members parts) (tag : Tag)
    (representation : Representation) : assemble tag (.members parts) = .ok representation ↔
      IsOfTag (given ["schema_version"] members) tag representation := by
  cases tag with
  | catalog => simp [assemble, IsOfTag, eq_comm]
  | operatorList =>
    simp only [assemble, Json.Except.bind_eq_ok_iff, foldVersion_eq_ok_iff h, fills_none_iff, pure,
      Except.pure, Except.ok.injEq, IsOfTag, @eq_comm _ representation]

theorem assemble_items_eq_ok_iff {items : List Document} {inner : List Syntax}
    (h : Document.OutlinedItems items inner) (tag : Tag) (representation : Representation) :
    assemble tag (.items inner) = .ok representation ↔
      (tag = .catalog → items = []) ∧ IsOfTag items tag representation := by
  match items, h with
  | [], h =>
    obtain rfl : inner = [] := h
    cases tag <;> simp [assemble, IsOfTag, Filled, eq_comm]
  | [item], ⟨s, _, hinner, hs, hothers⟩ =>
    subst hinner hothers
    cases tag with
    | catalog => simp [assemble]
    | operatorList =>
      simp only [assemble, Json.Except.bind_eq_ok_iff, readVersion_eq_ok_iff hs, IsOfTag, Filled]
      simp [pure, Except.pure, eq_comm]
  | _ :: _ :: _, ⟨s, _, hinner, hs, _, _, hothers, _, _⟩ =>
    subst hinner hothers
    cases tag <;> simp [assemble, IsOfTag, Filled, Json.Except.bind_eq_ok_iff]

/-- Members under other names leave no trace in what is given. -/
theorem given_filter_ne {name : String} {names : List String} (h : name ∉ names)
    (members : List (String × Document)) :
    given names (members.filter (·.1 ≠ name)) = given names members := by
  rw [given, List.filter_filter, given]
  refine congrArg _ (List.filter_congr fun member _ => ?_)
  by_cases hmember : member.1 = name
  · simp [hmember, h]
  · simp [hmember]

theorem readTagged_list_eq_ok_iff {first : Document} {rest : List Document} {s : Syntax}
    {others : List Syntax} (hs : first.Outlined s) (hothers : Document.OutlinedItems rest others)
    (start stop : Nat) (tag : Tag) (details : Details) (stop' : Nat) :
    readTagged (.list start (s :: others) (.closed stop)) = .ok (tag, details, stop') ↔
      IsTag first tag ∧ (∀ item ∈ rest, IsDetail item) ∧ details = .items others ∧
        stop' = stop := by
  have hrest : (∃ values, ofText (Syntax.readItems detailNesting others) = .ok values) ↔
      ∀ item ∈ rest, IsDetail item := by
    simp only [ofText_eq_ok_iff, Document.exists_readItems_iff hothers, IsDetail]
  simp only [readTagged, readEnding, Json.Except.bind_eq_ok_iff, readTag_eq_ok_iff hs, pure,
    Except.pure, Except.ok.injEq, Prod.mk.injEq, ← hrest]
  grind

theorem readTagged_mapping_eq_ok_iff {members : List (String × Document)}
    {inner : List (Key × Syntax)} (h : Document.OutlinedMembers members inner) (start stop : Nat) :
    ∃ parts, OutlinedDetails (members.filter (·.1 ≠ "kind")) parts ∧ ∀ tag details stop',
      readTagged (.mapping start inner (.closed stop)) = .ok (tag, details, stop') ↔
        Filled IsTag (given ["kind"] members) (some tag) ∧
        (∀ member ∈ members, member.1 ≠ "kind" → IsDetail member.2) ∧
        details = .members parts ∧ stop' = stop := by
  obtain ⟨parts, hparts, hfold⟩ := TaggedDraft.fold_eq_ok_iff h
  refine ⟨parts, hparts, fun tag details stop' => ?_⟩
  simp only [readTagged, readEnding, Json.Except.bind_eq_ok_iff, hfold, fills_none_iff,
    List.append_nil, Except.ok.injEq, exists_eq_left']
  constructor
  · rintro ⟨⟨_ | found, reversed⟩, ⟨htag, hdetails, hreversed⟩, hresult⟩
    · cases hresult
    · obtain ⟨rfl, rfl, rfl⟩ :
          found = tag ∧ details = .members reversed.reverse ∧ stop' = stop := by
        simpa [pure, Except.pure, eq_comm] using hresult
      obtain rfl : reversed = parts.reverse := hreversed
      exact ⟨htag, hdetails, by rw [List.reverse_reverse], rfl⟩
  · rintro ⟨htag, hdetails, rfl, rfl⟩
    refine ⟨⟨some tag, parts.reverse⟩, ⟨htag, hdetails, rfl⟩, ?_⟩
    simp only [List.reverse_reverse]
    rfl

theorem readRepresentation_eq_ok_iff {document : Document} {s : Syntax} (h : document.Outlined s)
    (leaving : Nat → Place) (representation : Representation) :
    readRepresentation leaving s = .ok representation ↔
      IsRepresentation document representation := by
  have hassemble (tag : Tag) (details : Details) (stop : Nat) :
      ((assemble tag details).mapError fun problem => (⟨problem, leaving stop⟩ : Fault)) =
        .ok representation ↔ assemble tag details = .ok representation := by
    cases assemble tag details <;> simp [Except.mapError]
  simp only [readRepresentation, Json.Except.bind_eq_ok_iff, Prod.exists, hassemble]
  cases document with
  | number =>
    obtain ⟨rfl, start, stop, fault, rfl⟩ | ⟨n, rfl, start, stop, rfl⟩ := h.number_cases <;>
      simp [readTagged, IsRepresentation]
  | null | boolean | string =>
    obtain ⟨start, stop, rfl⟩ := h
    simp [readTagged, IsRepresentation]
  | list items =>
    obtain ⟨start, inner, stop, rfl, hinner⟩ := h
    cases items with
    | nil =>
      obtain rfl : inner = [] := hinner
      simp [readTagged, IsRepresentation, readEnding, Json.Except.bind_eq_ok_iff]
    | cons first rest =>
      obtain ⟨s, others, rfl, hs, hothers⟩ := hinner
      simp only [readTagged_list_eq_ok_iff hs hothers, IsRepresentation]
      constructor
      · rintro ⟨tag, _, _, ⟨htag, hrest, rfl, rfl⟩, hresult⟩
        obtain ⟨hnone, hof⟩ := (assemble_items_eq_ok_iff hothers tag representation).mp hresult
        exact ⟨hrest, tag, htag, hnone, hof⟩
      · rintro ⟨hrest, tag, htag, hnone, hof⟩
        exact ⟨tag, _, _, ⟨htag, hrest, rfl, rfl⟩,
          (assemble_items_eq_ok_iff hothers tag representation).mpr ⟨hnone, hof⟩⟩
  | mapping members =>
    obtain ⟨start, inner, stop, rfl, hinner⟩ := h
    obtain ⟨parts, hparts, hread⟩ := readTagged_mapping_eq_ok_iff hinner start stop
    have hparts' (tag : Tag) := assemble_members_eq_ok_iff hparts tag representation
    simp only [given_filter_ne (show "kind" ∉ ["schema_version"] by simp)] at hparts'
    simp only [hread, IsRepresentation]
    constructor
    · rintro ⟨tag, _, _, ⟨htag, hdetails, rfl, rfl⟩, hresult⟩
      exact ⟨hdetails, tag, htag, (hparts' tag).mp hresult⟩
    · rintro ⟨hdetails, tag, htag, hof⟩
      exact ⟨tag, _, _, ⟨htag, hdetails, rfl, rfl⟩, (hparts' tag).mpr hof⟩

/-! ### Whole configurations -/

/-- One member fills the field under its name, and leaves the others. -/
theorem Draft.add_eq_ok_iff {item : Document} {s : Syntax} (hs : item.Outlined s) (name : String)
    (stop : Nat) (draft next : Draft) : draft.add name stop s = .ok next ↔
      Fills IsString draft.serverUrl (given ["server_url", "serverUrl"] [(name, item)])
        next.serverUrl ∧
      Fills IsString draft.token (given ["token"] [(name, item)]) next.token ∧
      Fills IsRepresentation draft.definitions (given ["definitions"] [(name, item)])
        next.definitions ∧
      Fills IsLoader draft.loader (given ["loader"] [(name, item)]) next.loader := by
  cases draft
  cases next
  simp only [add, given_singleton, List.mem_cons, List.not_mem_nil, or_false, Bool.or_eq_true,
    decide_eq_true_eq]
  by_cases hserver : name = "server_url" ∨ name = "serverUrl"
  · have hothers : name ≠ "token" ∧ name ≠ "definitions" ∧ name ≠ "loader" := by
      rcases hserver with rfl | rfl <;> simp
    simp only [if_pos hserver, if_neg hothers.1, if_neg hothers.2.1, if_neg hothers.2.2,
      Json.Except.bind_eq_ok_iff, fillOnce_eq_ok_iff (readString_eq_ok_iff hs), pure, Except.pure,
      Except.ok.injEq]
    grind [Fills]
  by_cases htoken : name = "token"
  · have hothers : name ≠ "definitions" ∧ name ≠ "loader" := by simp [htoken]
    simp only [if_neg hserver, if_pos htoken, if_neg hothers.1, if_neg hothers.2,
      Json.Except.bind_eq_ok_iff, fillOnce_eq_ok_iff (readString_eq_ok_iff hs), pure, Except.pure,
      Except.ok.injEq]
    grind [Fills]
  by_cases hdefinitions : name = "definitions"
  · have hothers : name ≠ "loader" := by simp [hdefinitions]
    simp only [if_neg hserver, if_neg htoken, if_pos hdefinitions, if_neg hothers,
      Json.Except.bind_eq_ok_iff, fillOnce_eq_ok_iff (readRepresentation_eq_ok_iff hs _), pure,
      Except.pure, Except.ok.injEq]
    grind [Fills]
  by_cases hloader : name = "loader"
  · simp only [if_neg hserver, if_neg htoken, if_neg hdefinitions, if_pos hloader,
      Json.Except.bind_eq_ok_iff, fillOnce_eq_ok_iff (readLoader_eq_ok_iff hs), pure, Except.pure,
      Except.ok.injEq]
    grind [Fills]
  · simp only [if_neg hserver, if_neg htoken, if_neg hdefinitions, if_neg hloader,
      Json.Except.bind_eq_ok_iff, ofText_eq_ok_iff, item.skip_outlined hs, pure, Except.pure,
      Except.ok.injEq, exists_const, true_and]
    grind [Fills]

theorem Draft.fold_eq_ok_iff {members : List (String × Document)}
    {inner : List (Key × Syntax)} (h : Document.OutlinedMembers members inner)
    (draft draft' : Draft) : foldMembers Draft.add draft inner = .ok draft' ↔
      Fills IsString draft.serverUrl (given ["server_url", "serverUrl"] members)
        draft'.serverUrl ∧
      Fills IsString draft.token (given ["token"] members) draft'.token ∧
      Fills IsRepresentation draft.definitions (given ["definitions"] members)
        draft'.definitions ∧
      Fills IsLoader draft.loader (given ["loader"] members) draft'.loader := by
  induction members generalizing inner draft with
  | nil =>
    obtain rfl : inner = [] := h
    cases draft
    cases draft'
    simp [foldMembers, given, Fills, eq_comm]
  | cons member members ih =>
    obtain ⟨key, s, others, rfl, hkey, hs, hothers⟩ := h
    simp only [foldMembers_cons_eq_ok_iff hkey, ih hothers, add_eq_ok_iff hs,
      given_cons _ member members, fills_append_iff]
    constructor
    · rintro ⟨next, ⟨hserver, htoken, hdefs, hloader⟩, hserver', htoken', hdefs', hloader'⟩
      exact ⟨⟨_, hserver, hserver'⟩, ⟨_, htoken, htoken'⟩, ⟨_, hdefs, hdefs'⟩,
        ⟨_, hloader, hloader'⟩⟩
    · rintro ⟨⟨serverUrl, hserver, hserver'⟩, ⟨token, htoken, htoken'⟩,
        ⟨definitions, hdefs, hdefs'⟩, loader, hloader, hloader'⟩
      exact ⟨⟨serverUrl, token, definitions, loader⟩, ⟨hserver, htoken, hdefs, hloader⟩,
        hserver', htoken', hdefs', hloader'⟩

theorem Draft.complete_eq_ok_iff {draft : Draft} {config : EditorConfig} :
    draft.complete = .ok config ↔ draft.serverUrl = some config.serverUrl ∧
      draft.token = some config.token ∧ draft.definitions.getD default = config.definitions ∧
      draft.loader.getD default = config.loader := by
  obtain ⟨serverUrl, token, definitions, loader⟩ := draft
  obtain ⟨serverUrl', token', definitions', loader'⟩ := config
  cases serverUrl <;> cases token <;> simp [complete]

/-- A text that holds a mapping is a configuration if the members of the mapping are one. -/
theorem ofText_mapping_eq_ok_iff {members : List (String × Document)} {text : String}
    (h : (Document.mapping members).SpelledBy text) (config : EditorConfig) :
    EditorConfig.ofText text = .ok config ↔
      ∃ draft, Fill members draft ∧ draft.complete = .ok config := by
  obtain ⟨_, ⟨start, inner, stop, rfl, hinner⟩, houtline⟩ := h.outlined
  have hfold (draft : Draft) : foldMembers Draft.add ⟨none, none, none, none⟩ inner = .ok draft ↔
      Fill members draft := by
    simp only [Draft.fold_eq_ok_iff hinner, fills_none_iff]
    exact ⟨fun ⟨hserver, htoken, hdefinitions, hloader⟩ => ⟨hserver, htoken, hdefinitions, hloader⟩,
      fun hfill => ⟨hfill.serverUrl, hfill.token, hfill.definitions, hfill.loader⟩⟩
  have hread : EditorConfig.ofText text = .ok config ↔
      readConfig (.mapping start inner (.closed stop)) = .ok config := by
    simp only [EditorConfig.ofText, houtline, ofOutline]
    cases readConfig (.mapping start inner (.closed stop)) <;>
      simp [bind, Except.bind, Except.mapError, pure, Except.pure]
  have hcomplete (draft : Draft) :
      (draft.complete.mapError fun problem => (⟨problem, .at stop⟩ : Fault)) = .ok config ↔
        draft.complete = .ok config := by
    cases draft.complete <;> simp [Except.mapError]
  simp only [hread, readConfig, readEnding, Json.Except.bind_eq_ok_iff, hfold, Except.ok.injEq,
    exists_eq_left', hcomplete]

end FlowContract.Config
