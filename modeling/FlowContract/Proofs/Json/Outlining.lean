import FlowContract.Json.Reader
import FlowContract.Proofs.Json.Scanning

/-!
The structure that a reader makes out of a text. The text is taken token by token, with the lists
and mappings that are open kept on a stack. Main statement: from a text that spells a document the
structure of this document comes out, with nothing behind it.
-/

namespace FlowContract.Json

namespace Document

mutual

/-- Whether a structure is that of a document. The places in it do not matter. -/
def Outlined : Document → Syntax → Prop
  | .null, s => ∃ start stop, s = .scalar start stop (.ok .null) (.ok ())
  | .boolean value, s => ∃ start stop, s = .scalar start stop (.ok (.boolean value)) (.ok ())
  | .number value, s => ∃ start stop reading,
      s = .scalar start stop reading (.ok ()) ∧ reading.toOption = value.map .number
  | .string value, s => ∃ start stop, s = .scalar start stop (.ok (.string value)) (.ok ())
  | .list items, s => ∃ start inner stop,
      s = .list start inner (.closed stop) ∧ OutlinedItems items inner
  | .mapping members, s => ∃ start inner stop,
      s = .mapping start inner (.closed stop) ∧ OutlinedMembers members inner
termination_by structural document => document

def OutlinedItems : List Document → List Syntax → Prop
  | [], inner => inner = []
  | item :: rest, inner => ∃ s others,
      inner = s :: others ∧ item.Outlined s ∧ OutlinedItems rest others
termination_by structural items => items

def OutlinedMembers : List (String × Document) → List (Key × Syntax) → Prop
  | [], inner => inner = []
  | (name, item) :: rest, inner => ∃ key s others,
      inner = (key, s) :: others ∧ key.reading = .ok name ∧ item.Outlined s ∧
      OutlinedMembers rest others
termination_by structural members => members

end

theorem Outlined.number_cases {value : Option Number} {s : Syntax}
    (h : (Document.number value).Outlined s) :
    (value = none ∧ ∃ start stop fault, s = .scalar start stop (.error fault) (.ok ())) ∨
      ∃ n, value = some n ∧ ∃ start stop, s = .scalar start stop (.ok (.number n)) (.ok ()) := by
  obtain ⟨start, stop, reading, rfl, hreading⟩ := h
  cases reading with
  | error fault =>
    exact .inl ⟨Option.map_eq_none_iff.mp hreading.symm, start, stop, fault, rfl⟩
  | ok result =>
    obtain ⟨n, hn, rfl⟩ := Option.map_eq_some_iff.mp hreading.symm
    exact .inr ⟨n, hn, start, stop, rfl⟩

end Document

/-- The structure of a text so far, after all of an input. -/
def Progress.after (progress : Progress) (fuel offset : Nat) (input : List Symbol) : Progress :=
  (Token.scanAll fuel offset input).foldl step progress

/-- Taking the first part of an input comes to a structure of some kind, with the rest to be
taken. -/
def Leads (progress : Progress) (input : List Char) (kind : Progress → Prop) (rest : List Char) :
    Prop :=
  ∀ fuel offset, input.length ≤ fuel → ∃ next fuel' offset', kind next ∧ rest.length ≤ fuel' ∧
    progress.after fuel offset (symbols input) = next.after fuel' offset' (symbols rest)

namespace Leads

variable {progress : Progress} {input middle rest : List Char} {kind kind' : Progress → Prop}

theorem refl (h : kind progress) : Leads progress input kind input :=
  fun fuel offset hfuel => ⟨progress, fuel, offset, h, hfuel, rfl⟩

theorem trans (h : Leads progress input kind middle)
    (h' : ∀ next, kind next → Leads next middle kind' rest) : Leads progress input kind' rest := by
  intro fuel offset hfuel
  obtain ⟨next, fuel', offset', hnext, hfuel', hafter⟩ := h fuel offset hfuel
  obtain ⟨last, fuel'', offset'', hlast, hfuel'', hafter'⟩ := h' next hnext fuel' offset' hfuel'
  exact ⟨last, fuel'', offset'', hlast, hfuel'', hafter.trans hafter'⟩

theorem imp (h : Leads progress input kind rest) (himp : ∀ next, kind next → kind' next) :
    Leads progress input kind' rest :=
  h.trans fun _ hnext => refl (himp _ hnext)

/-- Blanks change nothing. -/
theorem blanks {text : List Char} (h : AreBlanks text) (progress : Progress) (rest : List Char) :
    Leads progress (text ++ rest) (· = progress) rest := by
  induction text with
  | nil => exact refl rfl
  | cons c text ih =>
    have hrest := ih fun d hd => h d (List.mem_cons_of_mem _ hd)
    have hc := h c List.mem_cons_self
    intro fuel offset hfuel
    cases fuel with
    | zero => cases hfuel
    | succ fuel =>
      have hskip : progress.after (fuel + 1) offset (symbols (c :: text ++ rest)) =
          progress.after fuel (offset + 1) (symbols (text ++ rest)) := by
        simp only [Progress.after, symbols, List.cons_append, List.map_cons, Token.scanAll, hc,
          if_true]
      rw [hskip]
      exact hrest fuel (offset + 1) (Nat.le_of_succ_le_succ hfuel)

/-- A token is one step. -/
theorem token {text : List Char} {lexeme : Lexeme → Prop} (h : Token.Scans text rest lexeme)
    (progress : Progress) : Leads progress (text ++ rest)
      (fun next => ∃ t : Token, lexeme t.lexeme ∧ next = progress.step t) rest := by
  obtain ⟨c, tail, rfl, hblank, hscan⟩ := h
  intro fuel offset hfuel
  cases fuel with
  | zero => cases hfuel
  | succ fuel =>
    obtain ⟨t, ht, hlexeme⟩ := hscan offset
    refine ⟨progress.step t, fuel, t.stop, ⟨t, hlexeme, rfl⟩, ?_, ?_⟩
    · simp only [List.cons_append, List.length_cons, List.length_append] at hfuel
      omega
    · simp only [Progress.after, symbols, List.cons_append, List.map_cons, Token.scanAll, hblank,
        Bool.false_eq_true, if_false]
      simp only [symbols] at ht
      rw [ht, List.foldl_cons]

end Leads

theorem Numeral.ends_of_mem {c : Char} (h : c = ',' ∨ c = ']' ∨ c = '\x7d') (rest : List Char) :
    Ends (c :: rest) := by
  intro c' hc'
  obtain rfl : c = c' := Option.some.inj hc'
  rcases h with rfl | rfl | rfl <;> decide

theorem Numeral.ends_blanks {text : List Char} (h : AreBlanks text) {rest : List Char}
    (hrest : Ends rest) : Ends (text ++ rest) := by
  cases text with
  | nil => exact hrest
  | cons c text =>
    intro c' hc'
    obtain rfl : c = c' := Option.some.inj hc'
    have hc := h c List.mem_cons_self
    simp only [Symbol.isBlank, Bool.or_eq_true, beq_iff_eq] at hc
    rcases hc with ((rfl | rfl) | rfl) | rfl <;> decide

/-! ### One step -/

namespace Progress

/-- Where a value may stand. -/
def OpensValue (expected : Expected) : Prop :=
  expected = .value ∨ expected = .item ∨ expected = .firstItem

variable {frames : List Frame} {expected : Expected} {t : Token}

-- Each step below is a computation once the token is taken apart into its fields.

theorem step_scalar (h : OpensValue expected) {isString : Bool} {reading : Except Fault Value}
    (ht : t.lexeme = .scalar isString reading (.ok ())) :
    (within frames expected).step t = place (.scalar t.start t.stop reading (.ok ())) frames := by
  obtain ⟨_, _, _⟩ := t
  cases ht
  rcases h with rfl | rfl | rfl <;> rfl

theorem step_beginList (h : OpensValue expected) (ht : t.lexeme = .beginList) :
    (within frames expected).step t = within (.list t.start [] :: frames) .firstItem := by
  obtain ⟨_, _, _⟩ := t
  cases ht
  rcases h with rfl | rfl | rfl <;> rfl

theorem step_beginMapping (h : OpensValue expected) (ht : t.lexeme = .beginMapping) :
    (within frames expected).step t = within (.mapping t.start [] :: frames) .firstKey := by
  obtain ⟨_, _, _⟩ := t
  cases ht
  rcases h with rfl | rfl | rfl <;> rfl

theorem step_endEmptyList (ht : t.lexeme = .endList) (start : Nat) :
    (within (.list start [] :: frames) .firstItem).step t =
      place (.list start [] (.closed t.stop)) frames := by
  obtain ⟨_, _, _⟩ := t
  cases ht
  rfl

theorem step_endEmptyMapping (ht : t.lexeme = .endMapping) (start : Nat) :
    (within (.mapping start [] :: frames) .firstKey).step t =
      place (.mapping start [] (.closed t.stop)) frames := by
  obtain ⟨_, _, _⟩ := t
  cases ht
  rfl

theorem step_endList (ht : t.lexeme = .endList) (start : Nat) (items : List Syntax) :
    (within (.list start items :: frames) .continuation).step t =
      place (.list start items.reverse (.closed t.stop)) frames := by
  obtain ⟨_, _, _⟩ := t
  cases ht
  rfl

theorem step_endMapping (ht : t.lexeme = .endMapping) (start : Nat)
    (members : List (Key × Syntax)) :
    (within (.mapping start members :: frames) .continuation).step t =
      place (.mapping start members.reverse (.closed t.stop)) frames := by
  obtain ⟨_, _, _⟩ := t
  cases ht
  rfl

theorem step_commaInList (ht : t.lexeme = .comma) (start : Nat) (items : List Syntax) :
    (within (.list start items :: frames) .continuation).step t =
      within (.list start items :: frames) .item := by
  obtain ⟨_, _, _⟩ := t
  cases ht
  rfl

theorem step_commaInMapping (ht : t.lexeme = .comma) (start : Nat)
    (members : List (Key × Syntax)) :
    (within (.mapping start members :: frames) .continuation).step t =
      within (.mapping start members :: frames) .key := by
  obtain ⟨_, _, _⟩ := t
  cases ht
  rfl

theorem step_key (h : expected = .firstKey ∨ expected = .key) {name : String}
    (ht : t.lexeme = .scalar true (.ok (.string name)) (.ok ())) :
    (within frames expected).step t = within frames (.colon ⟨.ok name, t.stop⟩) := by
  obtain ⟨_, _, _⟩ := t
  cases ht
  rcases h with rfl | rfl <;> rfl

theorem step_colon (ht : t.lexeme = .colon) (start : Nat) (members : List (Key × Syntax))
    (key : Key) :
    (within (.mapping start members :: frames) (.colon key)).step t =
      within (.keyed start members key :: frames) .value := by
  obtain ⟨_, _, _⟩ := t
  cases ht
  rfl

end Progress

/-! ### A whole document -/

namespace Document

/-- What reading a document comes to inside of some frames: its structure takes its place. -/
def Leading (document : Document) : Prop :=
  ∀ ⦃text⦄, document.Spelled text → ∀ ⦃rest⦄, Numeral.Ends rest →
    ∀ frames ⦃expected⦄, Progress.OpensValue expected →
      Leads (.within frames expected) (text ++ rest)
        (fun next => ∃ s, document.Outlined s ∧ next = Progress.place s frames) rest

theorem Leading.padded {document : Document} (h : document.Leading) {text : List Char}
    (htext : Padded document.Spelled text) {rest : List Char} (hrest : Numeral.Ends rest)
    (frames : List Frame) {expected : Expected} (hopens : Progress.OpensValue expected) :
    Leads (.within frames expected) (text ++ rest)
      (fun next => ∃ s, document.Outlined s ∧ next = Progress.place s frames) rest := by
  obtain ⟨before, inner, after, hbefore, hinner, hafter, rfl⟩ := htext
  simp only [List.append_assoc]
  refine (Leads.blanks hbefore _ _).trans ?_
  rintro _ rfl
  refine (h hinner (Numeral.ends_blanks hafter hrest) frames hopens).trans ?_
  rintro next hnext
  exact (Leads.blanks hafter next rest).imp fun _ heq => heq ▸ hnext

theorem leading_scalar {document : Document}
    (h : ∀ text, document.Spelled text → ∀ rest, Numeral.Ends rest →
      Token.Scans text rest fun lexeme => ∃ isString reading,
        lexeme = .scalar isString reading (.ok ()) ∧
        ∀ start stop, document.Outlined (.scalar start stop reading (.ok ()))) :
    document.Leading := by
  intro text htext rest hrest frames expected hopens
  refine (Leads.token (h text htext rest hrest) _).imp ?_
  rintro next ⟨t, ⟨isString, reading, ht, houtlined⟩, rfl⟩
  exact ⟨_, houtlined t.start t.stop, Progress.step_scalar hopens ht⟩

theorem leading_word {document : Document} {value : Value} (c : Char) (letters : String)
    (hspelled : ∀ text, document.Spelled text → text = c :: letters.toList)
    (hblank : Symbol.isBlank (.char c) = false)
    (hscan : ∀ offset rest,
      Token.scan offset (.char c) rest = Token.word offset letters value rest)
    (houtlined : ∀ start stop, document.Outlined (.scalar start stop (.ok value) (.ok ()))) :
    document.Leading := by
  refine leading_scalar fun text htext rest _ => ?_
  rw [hspelled text htext]
  refine (Token.scans_word rest hblank hscan).imp ?_
  rintro _ rfl
  exact ⟨_, _, rfl, houtlined⟩

theorem leads_endList {start : Nat} {done : List Syntax} {frames : List Frame} (rest : List Char) :
    Leads (.within (.list start done :: frames) .continuation) (']' :: rest)
      (fun next => ∃ stop, next = Progress.place (.list start done.reverse (.closed stop)) frames)
      rest := by
  refine (Leads.token (Token.scans_mark rest rfl fun _ _ => rfl) _).imp ?_
  rintro next ⟨t, ht, rfl⟩
  exact ⟨t.stop, Progress.step_endList ht start done⟩

/-- The elements that are left of a list, and its end. The induction is on the elements; those that
have been read wait in the innermost frame. -/
theorem leads_items {item : Document} {items : List Document}
    (ih : ∀ element ∈ item :: items, element.Leading) {text : List Char}
    (htext : SpelledItems (item :: items) text) (rest : List Char) (start : Nat)
    (done : List Syntax) (frames : List Frame) {expected : Expected}
    (hopens : Progress.OpensValue expected) :
    Leads (.within (.list start done :: frames) expected) (text ++ ']' :: rest)
      (fun next => ∃ inner stop, OutlinedItems (item :: items) inner ∧
        next = Progress.place (.list start (done.reverse ++ inner) (.closed stop)) frames)
      rest := by
  induction items generalizing item text done expected with
  | nil =>
    have hitem := ih item List.mem_cons_self
    refine (hitem.padded htext (Numeral.ends_of_mem (.inr (.inl rfl)) rest) _ hopens).trans ?_
    rintro _ ⟨s, hs, rfl⟩
    refine (leads_endList rest).imp ?_
    rintro _ ⟨stop, rfl⟩
    refine ⟨[s], stop, ⟨s, [], rfl, hs, rfl⟩, ?_⟩
    rw [List.reverse_cons]
  | cons next items ihItems =>
    obtain ⟨head, tail, hhead, htail, rfl⟩ := htext
    have hitem := ih item List.mem_cons_self
    rw [List.append_assoc, List.cons_append]
    refine (hitem.padded hhead (Numeral.ends_of_mem (.inl rfl) _) _ hopens).trans ?_
    rintro _ ⟨s, hs, rfl⟩
    refine (Leads.token (Token.scans_mark _ rfl fun _ _ => rfl) _).trans ?_
    rintro _ ⟨t, ht, rfl⟩
    rw [show Progress.place s (.list start done :: frames) =
      .within (.list start (s :: done) :: frames) .continuation from rfl,
      Progress.step_commaInList ht]
    refine (ihItems (fun element hmem => ih element (List.mem_cons_of_mem _ hmem)) htail (s :: done)
      (.inr (.inl rfl))).imp ?_
    rintro _ ⟨inner, stop, hinner, rfl⟩
    refine ⟨s :: inner, stop, ⟨s, inner, rfl, hs, hinner⟩, ?_⟩
    rw [List.reverse_cons, List.append_assoc, List.singleton_append]

theorem leads_key {name : String} {text : List Char} (htext : Padded (SpellsString name) text)
    (rest : List Char) (frames : List Frame) {expected : Expected}
    (hexpected : expected = .firstKey ∨ expected = .key) :
    Leads (.within frames expected) (text ++ rest)
      (fun next => ∃ stop, next = .within frames (.colon ⟨.ok name, stop⟩)) rest := by
  obtain ⟨before, inner, after, hbefore, hinner, hafter, rfl⟩ := htext
  simp only [List.append_assoc]
  refine (Leads.blanks hbefore _ _).trans ?_
  rintro _ rfl
  refine (Leads.token (Token.scans_string hinner _) _).trans ?_
  rintro _ ⟨t, ht, rfl⟩
  rw [Progress.step_key hexpected ht]
  exact (Leads.blanks hafter _ rest).imp fun _ heq => ⟨t.stop, heq⟩

theorem leads_member {name : String} {item : Document} (hitem : item.Leading) {text : List Char}
    (htext : SpellsMember name item.Spelled text) {rest : List Char} (hrest : Numeral.Ends rest)
    (start : Nat) (done : List (Key × Syntax)) (frames : List Frame) {expected : Expected}
    (hexpected : expected = .firstKey ∨ expected = .key) :
    Leads (.within (.mapping start done :: frames) expected) (text ++ rest)
      (fun next => ∃ key s, key.reading = .ok name ∧ item.Outlined s ∧
        next = .within (.mapping start ((key, s) :: done) :: frames) .continuation) rest := by
  obtain ⟨key, value, hkey, hvalue, rfl⟩ := htext
  rw [List.append_assoc, List.cons_append]
  refine (leads_key hkey _ _ hexpected).trans ?_
  rintro _ ⟨stop, rfl⟩
  refine (Leads.token (Token.scans_mark _ rfl fun _ _ => rfl) _).trans ?_
  rintro _ ⟨t, ht, rfl⟩
  rw [Progress.step_colon ht]
  refine (hitem.padded hvalue hrest _ (.inl rfl)).imp ?_
  rintro _ ⟨s, hs, rfl⟩
  exact ⟨⟨.ok name, stop⟩, s, rfl, hs, rfl⟩

theorem leads_endMapping {start : Nat} {done : List (Key × Syntax)} {frames : List Frame}
    (rest : List Char) :
    Leads (.within (.mapping start done :: frames) .continuation) ('\x7d' :: rest)
      (fun next => ∃ stop,
        next = Progress.place (.mapping start done.reverse (.closed stop)) frames) rest := by
  refine (Leads.token (Token.scans_mark rest rfl fun _ _ => rfl) _).imp ?_
  rintro next ⟨t, ht, rfl⟩
  exact ⟨t.stop, Progress.step_endMapping ht start done⟩

/-- The members that are left of a mapping, and its end. -/
theorem leads_members {member : String × Document} {members : List (String × Document)}
    (ih : ∀ entry ∈ member :: members, entry.2.Leading) {text : List Char}
    (htext : SpelledMembers (member :: members) text) (rest : List Char) (start : Nat)
    (done : List (Key × Syntax)) (frames : List Frame) {expected : Expected}
    (hexpected : expected = .firstKey ∨ expected = .key) :
    Leads (.within (.mapping start done :: frames) expected) (text ++ '\x7d' :: rest)
      (fun next => ∃ inner stop, OutlinedMembers (member :: members) inner ∧
        next = Progress.place (.mapping start (done.reverse ++ inner) (.closed stop)) frames)
      rest := by
  induction members generalizing member text done expected with
  | nil =>
    have hmember := ih member List.mem_cons_self
    refine (leads_member hmember htext (Numeral.ends_of_mem (.inr (.inr rfl)) rest) start done
      frames hexpected).trans ?_
    rintro _ ⟨key, s, hkey, hs, rfl⟩
    refine (leads_endMapping rest).imp ?_
    rintro _ ⟨stop, rfl⟩
    refine ⟨[(key, s)], stop, ⟨key, s, [], rfl, hkey, hs, rfl⟩, ?_⟩
    rw [List.reverse_cons]
  | cons next members ihMembers =>
    obtain ⟨head, tail, hhead, htail, rfl⟩ := htext
    have hmember := ih member List.mem_cons_self
    rw [List.append_assoc, List.cons_append]
    refine (leads_member hmember hhead (Numeral.ends_of_mem (.inl rfl) _) start done frames
      hexpected).trans ?_
    rintro _ ⟨key, s, hkey, hs, rfl⟩
    refine (Leads.token (Token.scans_mark _ rfl fun _ _ => rfl) _).trans ?_
    rintro _ ⟨t, ht, rfl⟩
    rw [Progress.step_commaInMapping ht]
    refine (ihMembers (fun entry hmem => ih entry (List.mem_cons_of_mem _ hmem)) htail
      ((key, s) :: done) (.inr rfl)).imp ?_
    rintro _ ⟨inner, stop, hinner, rfl⟩
    refine ⟨(key, s) :: inner, stop, ⟨key, s, inner, rfl, hkey, hs, hinner⟩, ?_⟩
    rw [List.reverse_cons, List.append_assoc, List.singleton_append]

theorem leading_list {items : List Document} (ih : ∀ item ∈ items, item.Leading) :
    (list items).Leading := by
  intro text htext rest hrest frames expected hopens
  obtain ⟨inner, hinner, rfl⟩ := htext
  rw [List.append_assoc, List.cons_append]
  refine (Leads.token (Token.scans_mark _ rfl fun _ _ => rfl) _).trans ?_
  rintro _ ⟨t, ht, rfl⟩
  rw [Progress.step_beginList hopens ht]
  cases items with
  | nil =>
    refine (Leads.blanks hinner _ _).trans ?_
    rintro _ rfl
    refine (Leads.token (Token.scans_mark rest rfl fun _ _ => rfl) _).imp ?_
    rintro _ ⟨t', ht', rfl⟩
    exact ⟨_, ⟨t.start, [], t'.stop, rfl, rfl⟩, Progress.step_endEmptyList ht' t.start⟩
  | cons item items =>
    refine (leads_items ih hinner rest t.start [] frames (.inr (.inr rfl))).imp ?_
    rintro _ ⟨inner, stop, houtlined, rfl⟩
    exact ⟨_, ⟨t.start, inner, stop, rfl, houtlined⟩, rfl⟩

theorem leading_mapping {members : List (String × Document)}
    (ih : ∀ member ∈ members, member.2.Leading) : (mapping members).Leading := by
  intro text htext rest hrest frames expected hopens
  obtain ⟨inner, hinner, rfl⟩ := htext
  rw [List.append_assoc, List.cons_append]
  refine (Leads.token (Token.scans_mark _ rfl fun _ _ => rfl) _).trans ?_
  rintro _ ⟨t, ht, rfl⟩
  rw [Progress.step_beginMapping hopens ht]
  cases members with
  | nil =>
    refine (Leads.blanks hinner _ _).trans ?_
    rintro _ rfl
    refine (Leads.token (Token.scans_mark rest rfl fun _ _ => rfl) _).imp ?_
    rintro _ ⟨t', ht', rfl⟩
    exact ⟨_, ⟨t.start, [], t'.stop, rfl, rfl⟩, Progress.step_endEmptyMapping ht' t.start⟩
  | cons member members =>
    refine (leads_members ih hinner rest t.start [] frames (.inl rfl)).imp ?_
    rintro _ ⟨inner, stop, houtlined, rfl⟩
    exact ⟨_, ⟨t.start, inner, stop, rfl, houtlined⟩, rfl⟩

theorem leading (document : Document) : document.Leading := by
  induction document with
  | null =>
    exact leading_word 'n' "ull" (fun text htext => htext) rfl (fun _ _ => rfl)
      fun start stop => ⟨start, stop, rfl⟩
  | boolean value =>
    cases value with
    | false =>
      exact leading_word 'f' "alse" (fun text htext => htext) rfl (fun _ _ => rfl)
        fun start stop => ⟨start, stop, rfl⟩
    | true =>
      exact leading_word 't' "rue" (fun text htext => htext) rfl (fun _ _ => rfl)
        fun start stop => ⟨start, stop, rfl⟩
  | number value =>
    refine leading_scalar ?_
    rintro text ⟨numeral, hnumeral, rfl⟩ rest hrest
    refine (Token.scans_numeral hnumeral hrest).imp ?_
    rintro _ ⟨reading, rfl, hreading⟩
    exact ⟨_, _, rfl, fun start stop => ⟨start, stop, reading, rfl, hreading⟩⟩
  | string value =>
    refine leading_scalar fun text htext rest _ => ?_
    refine (Token.scans_string htext rest).imp ?_
    rintro _ rfl
    exact ⟨_, _, rfl, fun start stop => ⟨start, stop, rfl⟩⟩
  | list items ih => exact leading_list ih
  | mapping members ih => exact leading_mapping ih

/-- The structure of a text that spells a document is that of the document. -/
theorem SpelledBy.outlined {document : Document} {text : String} (h : document.SpelledBy text) :
    ∃ s, document.Outlined s ∧ Outline.ofSymbols (Symbol.ofString text) = ⟨s, none⟩ := by
  have hends : Numeral.Ends [] := by simp [Numeral.Ends]
  have hleads := document.leading.padded h hends [] (.inl rfl)
  rw [List.append_nil] at hleads
  obtain ⟨next, fuel, offset, ⟨s, hs, rfl⟩, -, hafter⟩ :=
    hleads (symbols text.toList).length 0 (by simp)
  have hempty : Token.scanAll fuel offset (symbols []) = [] := by
    cases fuel <;> rfl
  have hcomplete : (Token.ofSymbols (symbols text.toList)).foldl Progress.step (.within [] .value) =
      .complete s := by
    simp only [Progress.after, hempty, List.foldl_nil] at hafter
    exact hafter
  refine ⟨s, hs, ?_⟩
  simp only [Outline.ofSymbols, Symbol.ofString, hcomplete, Progress.finish]

end Document

end FlowContract.Json
