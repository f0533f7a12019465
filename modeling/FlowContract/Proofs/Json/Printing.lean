import FlowContract.Json.Printer
import FlowContract.Proofs.Json.Numerals
import FlowContract.Proofs.Json.Reading
import FlowContract.Proofs.SortedMap

/-!
What is written is a text that holds what was to be written, in every layout.
-/

namespace FlowContract.Json

/-! ### Strings -/

/-- The four digits of the number of a control character. -/
theorem controlDigits : ∀ n : Fin 32,
    List.replicate (4 - (Nat.toDigits 16 n).length) '0' ++ Nat.toDigits 16 n =
        ['0', '0', (n / 16 : Nat).digitChar, (n % 16 : Nat).digitChar] ∧
      Piece.codeUnit? (.char '0') (.char '0') (.char (n / 16 : Nat).digitChar)
        (.char (n % 16 : Nat).digitChar) = some n.val := by
  decide

theorem stringText_controlEscape {c : Char} (hc : c.toNat < 0x20) {text chars : List Char}
    (h : StringText text chars) : StringText ((controlEscape c).toList ++ text) (c :: chars) := by
  obtain ⟨hdigits, hunit⟩ := controlDigits ⟨c.toNat, hc⟩
  have hescape : (controlEscape c).toList =
      ['\\', 'u', '0', '0', (c.toNat / 16).digitChar, (c.toNat % 16).digitChar] := by
    rw [controlEscape, hdigits]
    simp
  have hleading : Piece.isLeading c.toNat = false := by
    simp only [Piece.isLeading, Bool.and_eq_false_imp, decide_eq_true_eq]
    omega
  have htrailing : Piece.isTrailing c.toNat = false := by
    simp only [Piece.isTrailing, Bool.and_eq_false_imp, decide_eq_true_eq]
    omega
  have hstring := StringText.unit hunit hleading htrailing h
  rw [Char.ofNat_toNat] at hstring
  rw [hescape]
  exact hstring

theorem stringText_escapeChar (c : Char) {text chars : List Char} (h : StringText text chars) :
    StringText ((escapeChar c).toList ++ text) (c :: chars) := by
  unfold escapeChar
  split_ifs with hquote hbackslash hbackspace htab hnewline hfeed hreturn hcontrol
  · exact hquote ▸ .letter rfl h
  · exact hbackslash ▸ .letter rfl h
  · exact hbackspace ▸ .letter rfl h
  · exact htab ▸ .letter rfl h
  · exact hnewline ▸ .letter rfl h
  · exact hfeed ▸ .letter rfl h
  · exact hreturn ▸ .letter rfl h
  · exact stringText_controlEscape hcontrol h
  · rw [show (c.toString).toList = [c] from String.toList_singleton c]
    exact .plain hquote hbackslash (Nat.not_lt.mp hcontrol) h

theorem spells_writeString (s : String) : SpellsString s (writeString s).toList := by
  refine ⟨(s.toList.map escapeChar).flatMap String.toList, ?_, ?_⟩
  · induction s.toList with
    | nil => exact .nil
    | cons c chars ih => exact stringText_escapeChar c ih
  · simp [writeString, String.toList_join]

/-! ### Layouts -/

/-- Whether a layout adds nothing but blanks and colons. -/
structure Layout.Blank (layout : Layout) : Prop where
  lead : ∀ depth, AreBlanks (layout.lead depth).toList
  colon : ∃ blanks, AreBlanks blanks ∧ layout.colon.toList = ':' :: blanks

theorem areBlanks_nil : AreBlanks [] := by simp [AreBlanks]

theorem Layout.blank_compact : Layout.compact.Blank :=
  ⟨fun _ => areBlanks_nil, [], areBlanks_nil, rfl⟩

theorem Layout.blank_indented : Layout.indented.Blank := by
  refine ⟨fun depth => ?_, [' '], by simp [AreBlanks, Symbol.isBlank], rfl⟩
  simp [AreBlanks, Symbol.isBlank, Layout.indented]

variable {layout : Layout}

/-- What stands between brackets, without the blanks in front of the closing one. -/
def Layout.joined (layout : Layout) (depth : Nat) (texts : List String) : List Char :=
  (",".intercalate (texts.map (layout.lead depth ++ ·))).toList

theorem Layout.joined_singleton (depth : Nat) (text : String) :
    layout.joined depth [text] = (layout.lead depth).toList ++ text.toList := by
  simp [joined]

theorem Layout.joined_cons_cons (depth : Nat) (text next : String) (rest : List String) :
    layout.joined depth (text :: next :: rest) =
      (layout.lead depth).toList ++ text.toList ++ ',' :: layout.joined depth (next :: rest) := by
  simp [joined, String.toList_intercalate]

theorem Layout.toList_enclose (depth : Nat) (opening closing : String) {texts : List String}
    (h : texts ≠ []) : (layout.enclose depth opening closing texts).toList =
      opening.toList ++ layout.joined (depth + 1) texts ++ (layout.lead depth).toList
        ++ closing.toList := by
  simp [enclose, joined, h]

theorem Padded.of_blanks {spells : List Char → Prop} {before text after : List Char}
    (hbefore : AreBlanks before) (h : spells text) (hafter : AreBlanks after) :
    Padded spells (before ++ text ++ after) :=
  ⟨before, text, after, hbefore, h, hafter, rfl⟩

namespace Document

/-- Elements on their lines, with the blanks behind the last one. -/
theorem spelledItems_joined (hlayout : layout.Blank) (depth : Nat) {after : List Char}
    (hafter : AreBlanks after) {items : List Document} {texts : List String}
    (h : List.Forall₂ (fun item text => item.Spelled text.toList) items texts) (hne : items ≠ []) :
    SpelledItems items (layout.joined depth texts ++ after) := by
  induction h with
  | nil => exact absurd rfl hne
  | @cons item text items texts hitem hrest ih =>
    cases hrest with
    | nil =>
      rw [Layout.joined_singleton]
      exact .of_blanks (hlayout.lead depth) hitem hafter
    | cons _ _ =>
      rw [Layout.joined_cons_cons, List.append_assoc, List.cons_append]
      refine ⟨_, _, ?_, ih (by simp), rfl⟩
      rw [← List.append_nil (_ ++ _)]
      exact .of_blanks (hlayout.lead depth) hitem areBlanks_nil

/-- A member in a layout: its key, a colon and a text that holds its value. -/
def IsMemberText (layout : Layout) (member : String × Document) (text : String) : Prop :=
  ∃ item : String, text = layout.member member.1 item ∧ member.2.Spelled item.toList

theorem spellsMember_of_text (hlayout : layout.Blank) {name : String} {item : Document}
    {text : String} (h : IsMemberText layout (name, item) text) (depth : Nat) {after : List Char}
    (hafter : AreBlanks after) :
    SpellsMember name item.Spelled ((layout.lead depth).toList ++ text.toList ++ after) := by
  obtain ⟨value, rfl, hvalue⟩ := h
  obtain ⟨blanks, hblanks, hcolon⟩ := hlayout.colon
  refine ⟨(layout.lead depth).toList ++ (writeString name).toList ++ [], _,
    .of_blanks (hlayout.lead depth) (spells_writeString name) areBlanks_nil,
    .of_blanks hblanks hvalue hafter, ?_⟩
  simp [Layout.member, hcolon]

/-- Members on their lines, with the blanks behind the last one. -/
theorem spelledMembers_joined (hlayout : layout.Blank) (depth : Nat) {after : List Char}
    (hafter : AreBlanks after) {members : List (String × Document)} {texts : List String}
    (h : List.Forall₂ (IsMemberText layout) members texts) (hne : members ≠ []) :
    SpelledMembers members (layout.joined depth texts ++ after) := by
  induction h with
  | nil => exact absurd rfl hne
  | @cons member text members texts hmember hrest ih =>
    obtain ⟨name, item⟩ := member
    cases hrest with
    | nil =>
      rw [Layout.joined_singleton]
      exact spellsMember_of_text hlayout hmember depth hafter
    | cons _ _ =>
      rw [Layout.joined_cons_cons, List.append_assoc, List.cons_append]
      refine ⟨_, _, ?_, ih (by simp), rfl⟩
      rw [← List.append_nil (_ ++ _)]
      exact spellsMember_of_text hlayout hmember depth areBlanks_nil

theorem spelled_enclosed_list (hlayout : layout.Blank) (depth : Nat) {items : List Document}
    {texts : List String}
    (h : List.Forall₂ (fun item text => item.Spelled text.toList) items texts) :
    (list items).Spelled (layout.enclose depth "[" "]" texts).toList := by
  cases h with
  | nil => exact ⟨[], areBlanks_nil, by simp [Layout.enclose]⟩
  | cons hitem hrest =>
    refine ⟨_, spelledItems_joined hlayout (depth + 1) (hlayout.lead depth) (.cons hitem hrest)
      (by simp), ?_⟩
    rw [Layout.toList_enclose depth _ _ (by simp)]
    simp

theorem spelled_enclosed_mapping (hlayout : layout.Blank) (depth : Nat)
    {members : List (String × Document)} {texts : List String}
    (h : List.Forall₂ (IsMemberText layout) members texts) :
    (mapping members).Spelled (layout.enclose depth "\x7b" "\x7d" texts).toList := by
  cases h with
  | nil => exact ⟨[], areBlanks_nil, by simp [Layout.enclose]⟩
  | cons hmember hrest =>
    refine ⟨_, spelledMembers_joined hlayout (depth + 1) (hlayout.lead depth) (.cons hmember hrest)
      (by simp), ?_⟩
    rw [Layout.toList_enclose depth _ _ (by simp)]
    simp

theorem spelledBy_of_spelled {document : Document} {text : String}
    (h : document.Spelled text.toList) : document.SpelledBy text :=
  ⟨[], text.toList, [], areBlanks_nil, h, areBlanks_nil, by simp⟩

end Document

/-! ### Numbers -/

namespace Number

/-- The number that the text of a number is read as. -/
def reread (n : Number) : Option Number :=
  match Value.ofText n.write with
  | .ok (.number m) => some m
  | _ => none

theorem reread_eq_some_iff {n m : Number} :
    n.reread = some m ↔ Value.ofText n.write = .ok (.number m) := by
  unfold reread
  split
  · simp_all
  · rename_i hnumber
    exact ⟨nofun, fun h => absurd h (hnumber m)⟩

theorem reread_of_spelled {n : Number} {value : Option Number}
    (h : (Document.number value).Spelled n.write.toList) : n.reread = value := by
  refine Option.ext fun m => ?_
  rw [reread_eq_some_iff, (Document.spelledBy_of_spelled h).ofText_eq_ok_iff]
  simp [Document.depth, Document.value?]

theorem spelled_write (n : Number) : (Document.number n.reread).Spelled n.write.toList := by
  have hspelled : ∃ value, (Document.number value).Spelled n.write.toList := by
    cases n with
    | integer value least greatest => exact ⟨_, spelled_integer value least greatest⟩
    | double x => exact exists_spelled_double x
  obtain ⟨value, hvalue⟩ := hspelled
  rw [reread_of_spelled hvalue]
  exact hvalue

/-- Integers are read back as they are. -/
theorem reread_integer (value : Int) (least : -0x8000000000000000 ≤ value)
    (greatest : value < 0x10000000000000000) :
    (integer value least greatest).reread = some (integer value least greatest) :=
  reread_of_spelled (spelled_integer value least greatest)

end Number

/-- Whether a double is read back from its text as it is. -/
def Double.IsStable (x : Double) : Prop := (Number.double x).reread = some (.double x)

/-! ### Values -/

mutual

/-- What the text of a value holds: its members in ascending order, and its numbers as they are read
back. -/
def Value.document : Value → Document
  | .null => .null
  | .boolean value => .boolean value
  | .number value => .number value.reread
  | .string value => .string value
  | .list items => .list (documentsOf items)
  | .mapping ⟨keys, _, get⟩ => .mapping (List.ofFn fun i => (keys.get i, (get i).document))
termination_by structural v => v

def documentsOf : List Value → List Document
  | [] => []
  | item :: rest => item.document :: documentsOf rest
termination_by structural items => items

end

theorem Value.document_list (items : List Value) :
    (Value.list items).document = .list (items.map Value.document) := by
  rw [document]
  induction items with
  | nil => rfl
  | cons item items ih => simpa [documentsOf] using ih

/-- The members of what the text of a mapping holds, in ascending order. -/
theorem Value.document_mapping (m : SortedMap Value) : (Value.mapping m).document =
    .mapping (m.entries.map fun entry => (entry.1, entry.2.document)) := by
  obtain ⟨keys, sorted, get⟩ := m
  simp only [document, SortedMap.entries, List.map_ofFn]
  rfl

theorem forall₂_ofFn {α β : Type} {r : α → β → Prop} {n : Nat} {f : Fin n → α} {g : Fin n → β}
    (h : ∀ i, r (f i) (g i)) : List.Forall₂ r (List.ofFn f) (List.ofFn g) := by
  induction n with
  | zero => simp
  | succ n ih =>
    rw [List.ofFn_succ, List.ofFn_succ]
    exact .cons (h 0) (ih fun i => h i.succ)

theorem spelled_items {layout : Layout} {depth : Nat} {items : List Value}
    (ih : ∀ item ∈ items, item.document.Spelled (item.write layout depth).toList) :
    List.Forall₂ (fun item text => item.Spelled text.toList) (documentsOf items)
      (Value.writeItems layout depth items) := by
  induction items with
  | nil => exact .nil
  | cons item items ihItems =>
    exact .cons (ih item List.mem_cons_self)
      (ihItems fun other hmem => ih other (List.mem_cons_of_mem _ hmem))

/-- The text of a value holds the document of this value. -/
theorem Value.spelled_write {layout : Layout} (hlayout : layout.Blank) (v : Value) (depth : Nat) :
    v.document.Spelled (v.write layout depth).toList := by
  induction v generalizing depth with
  | null => exact (rfl : "null".toList = ['n', 'u', 'l', 'l'])
  | boolean value =>
    cases value with
    | false => exact (rfl : "false".toList = ['f', 'a', 'l', 's', 'e'])
    | true => exact (rfl : "true".toList = ['t', 'r', 'u', 'e'])
  | number n => exact n.spelled_write
  | string value => exact spells_writeString value
  | list items ih =>
    exact Document.spelled_enclosed_list hlayout depth
      (spelled_items fun item hmem => ih item hmem (depth + 1))
  | mapping entries ih =>
    obtain ⟨keys, sorted, get⟩ := entries
    exact Document.spelled_enclosed_mapping hlayout depth
      (forall₂_ofFn fun i => ⟨_, rfl, ih i (depth + 1)⟩)

/-- What is read back from the text of a value: what the text holds, unless it is nested too deep.
-/
theorem Value.ofText_write {layout : Layout} (hlayout : layout.Blank) (v w : Value) :
    Value.ofText (v.write layout 0) = .ok w ↔
      v.document.depth ≤ Syntax.nestingLimit ∧ v.document.value? = some w :=
  (Document.spelledBy_of_spelled (v.spelled_write hlayout 0)).ofText_eq_ok_iff w

theorem ofList_of_perm {α : Type} {pairs ascending : List (String × α)}
    (hperm : ascending.Perm pairs) (hsorted : (ascending.map Prod.fst).Pairwise (· < ·)) :
    SortedMap.ofList pairs = SortedMap.ofSorted ascending hsorted := by
  have hnodup : (pairs.map Prod.fst).Nodup := by
    refine (hperm.map Prod.fst).nodup_iff.mp (hsorted.imp ?_)
    rintro key _ hlt rfl
    exact String.lt_irrefl _ hlt
  refine SortedMap.ext_find? fun key => Option.ext fun value => ?_
  rw [SortedMap.find?_ofList hnodup, ← SortedMap.mem_entries_iff, SortedMap.entries_ofSorted,
    hperm.mem_iff]

/-- The entries of a map make up this map. -/
theorem ofList_entries {α : Type} (m : SortedMap α) : SortedMap.ofList m.entries = m := by
  have hsorted : (m.entries.map Prod.fst).Pairwise (· < ·) := by
    rw [m.map_fst_entries]
    exact m.sorted
  refine (ofList_of_perm (.refl _) hsorted).trans (SortedMap.ext_entries ?_)
  rw [SortedMap.entries_ofSorted]

namespace Document

theorem valuesOfItems_eq_some_iff {items : List Document} {values : List Value} :
    valuesOfItems items = some values ↔
      List.Forall₂ (fun item value => item.value? = some value) items values := by
  induction items generalizing values with
  | nil => simp [valuesOfItems, eq_comm]
  | cons item items ih =>
    simp only [valuesOfItems, Option.bind_eq_bind, Option.bind_eq_some_iff, ih, pure,
      Option.some.injEq, List.forall₂_cons_left_iff]
    grind

theorem valuesOfMembers_eq_some_iff {members : List (String × Document)}
    {pairs : List (String × Value)} : valuesOfMembers members = some pairs ↔
      List.Forall₂ (fun member pair => member.1 = pair.1 ∧ member.2.value? = some pair.2)
        members pairs := by
  induction members generalizing pairs with
  | nil => simp [valuesOfMembers, eq_comm]
  | cons member members ih =>
    simp only [valuesOfMembers, Option.bind_eq_bind, Option.bind_eq_some_iff, ih, pure,
      Option.some.injEq, List.forall₂_cons_left_iff]
    grind

end Document

/-- Of members in ascending order all count. -/
theorem Value.ofPairs_of_sorted {pairs : List (String × Value)}
    (hsorted : (pairs.map Prod.fst).Pairwise (· < ·)) :
    Value.ofPairs pairs = .mapping (.ofSorted pairs hsorted) :=
  congrArg mapping (ofList_of_perm (.refl _) hsorted)

/-- A mapping is read back as one with the same keys, and with what is read back under each. -/
theorem Value.value?_document_mapping_iff {m : SortedMap Value} {w : Value} :
    (Value.mapping m).document.value? = some w ↔ ∃ m', w = .mapping m' ∧
      List.Forall₂
        (fun entry entry' => entry.1 = entry'.1 ∧ entry.2.document.value? = some entry'.2)
        m.entries m'.entries := by
  rw [document_mapping, Document.value?, Option.map_eq_some_iff]
  simp only [Document.valuesOfMembers_eq_some_iff, List.forall₂_map_left_iff]
  constructor
  · rintro ⟨pairs, hpairs, rfl⟩
    have hnames : m.entries.map Prod.fst = pairs.map Prod.fst := by
      rw [← List.forall₂_eq_eq_eq, List.forall₂_map_left_iff, List.forall₂_map_right_iff]
      exact hpairs.imp fun _ _ h => h.1
    have hsorted : (pairs.map Prod.fst).Pairwise (· < ·) := by
      rw [← hnames, m.map_fst_entries]
      exact m.sorted
    refine ⟨_, rfl, ?_⟩
    rw [ofList_of_perm (.refl _) hsorted, SortedMap.entries_ofSorted]
    exact hpairs
  · rintro ⟨m', rfl, hentries⟩
    exact ⟨m'.entries, hentries, congrArg mapping (ofList_entries m')⟩

theorem exists_of_forall₂ {α β : Type} {r : α → β → Prop} {l : List α} {l' : List β}
    (h : List.Forall₂ r l l') {a : α} (ha : a ∈ l) : ∃ b ∈ l', r a b := by
  induction h with
  | nil => exact absurd ha List.not_mem_nil
  | cons hhead _ ih =>
    rcases List.mem_cons.mp ha with rfl | ha
    · exact ⟨_, List.mem_cons_self, hhead⟩
    · obtain ⟨b, hb, hrelated⟩ := ih ha
      exact ⟨b, List.mem_cons_of_mem _ hb, hrelated⟩

theorem Value.get?_of_document {m : SortedMap Value} {w : Value}
    (h : (Value.mapping m).document.value? = some w) {key : String} {v : Value}
    (hfind : m.find? key = some v) :
    ∃ v', w.get? key = some v' ∧ v.document.value? = some v' := by
  obtain ⟨m', rfl, hentries⟩ := value?_document_mapping_iff.mp h
  obtain ⟨⟨_, v'⟩, hmem, rfl, hvalue⟩ :=
    exists_of_forall₂ hentries (SortedMap.mem_entries_iff.mpr hfind)
  exact ⟨v', SortedMap.mem_entries_iff.mp hmem, hvalue⟩

/-! ### Values that survive -/

mutual

/-- Whether all doubles in a value have some property. -/
def Value.AllDoubles (holds : Double → Prop) : Value → Prop
  | .number (.double x) => holds x
  | .list items => AllDoublesIn holds items
  | .mapping ⟨_, _, get⟩ => ∀ i, (get i).AllDoubles holds
  | _ => True
termination_by structural v => v

def AllDoublesIn (holds : Double → Prop) : List Value → Prop
  | [] => True
  | item :: rest => item.AllDoubles holds ∧ AllDoublesIn holds rest
termination_by structural items => items

end

theorem Value.allDoubles_list_iff {holds : Double → Prop} {items : List Value} :
    (Value.list items).AllDoubles holds ↔ ∀ item ∈ items, item.AllDoubles holds := by
  rw [AllDoubles]
  induction items with
  | nil => simp [AllDoublesIn]
  | cons item items ih => simp [AllDoublesIn, ih]

theorem Value.allDoubles_mapping_iff {holds : Double → Prop} {m : SortedMap Value} :
    (Value.mapping m).AllDoubles holds ↔ ∀ entry ∈ m.entries, entry.2.AllDoubles holds := by
  obtain ⟨keys, sorted, get⟩ := m
  simp [AllDoubles, SortedMap.entries, List.mem_ofFn]

theorem Value.depth_document_mapping_le_iff {m : SortedMap Value} {n : Nat} :
    (Value.mapping m).document.depth ≤ n + 1 ↔
      ∀ entry ∈ m.entries, entry.2.document.depth ≤ n := by
  rw [document_mapping, Document.depth, Nat.add_le_add_iff_right, Document.depthOfMembers_le_iff,
    List.forall_mem_map]

/-- A value is what its text holds exactly if its doubles are read back as they are. -/
theorem Value.value?_document_eq_self_iff (v : Value) :
    v.document.value? = some v ↔ v.AllDoubles Double.IsStable := by
  induction v with
  | null | boolean | string => simp [document, Document.value?, AllDoubles]
  | number n =>
    cases n with
    | integer value least greatest =>
      simp [document, Document.value?, AllDoubles, Number.reread_integer]
    | double x => simp [document, Document.value?, AllDoubles, Double.IsStable]
  | list items ih =>
    simp only [document_list, Document.value?, Option.map_eq_some_iff, list.injEq, exists_eq_right,
      Document.valuesOfItems_eq_some_iff, List.forall₂_map_left_iff, List.forall₂_same,
      allDoubles_list_iff]
    exact forall₂_congr ih
  | mapping entries ih =>
    have hentry : ∀ entry ∈ entries.entries,
        (entry.2.document.value? = some entry.2 ↔ entry.2.AllDoubles Double.IsStable) := by
      intro entry hmem
      obtain ⟨i, rfl⟩ := List.mem_ofFn.mp hmem
      exact ih i
    simp only [value?_document_mapping_iff, mapping.injEq, exists_eq_left', List.forall₂_same,
      true_and, allDoubles_mapping_iff]
    exact forall₂_congr hentry

end FlowContract.Json
