import FlowContract.Path
import FlowContract.Proofs.Text.Delimited

/-!
Paths and their texts. A text shows the steps of a path one behind the other, and a key in it ends
where the next step begins. Main statement: paths whose keys look neither like several steps nor
like none are told apart by their texts.
-/

namespace FlowContract

open Text (Delimited)

/-- The characters with which the text of a step begins. -/
def Segment.begins (c : Char) : Bool := c == '.' || c == '['

/-- Whether a key has characters, none of which begins another step. -/
def Segment.Plain : Segment → Prop
  | .key name => name ≠ "" ∧ '.' ∉ name.toList ∧ '[' ∉ name.toList
  | .index _ => True

instance : DecidablePred Segment.Plain
  | .key name => inferInstanceAs (Decidable (name ≠ "" ∧ '.' ∉ name.toList ∧ '[' ∉ name.toList))
  | .index _ => inferInstanceAs (Decidable True)

/-! ### Steps -/

namespace Segment

/-- The texts of steps, one behind the other. -/
def texts (segments : List Segment) : List Char := segments.flatMap (·.write.toList)

theorem toList_write_key (name : String) : (key name).write.toList = '.' :: name.toList := by
  simp [write]

theorem toList_write_index (position : Nat) :
    (index position).write.toList = '[' :: (Nat.toDigits 10 position ++ [']']) := by
  simp [write]

theorem texts_cons (segment : Segment) (rest : List Segment) :
    texts (segment :: rest) = segment.write.toList ++ texts rest := List.flatMap_cons

theorem texts_key (name : String) (rest : List Segment) :
    texts (.key name :: rest) = '.' :: (name.toList ++ texts rest) := by
  rw [texts_cons, toList_write_key, List.cons_append]

theorem texts_index (position : Nat) (rest : List Segment) :
    texts (.index position :: rest) =
      '[' :: (Nat.toDigits 10 position ++ ']' :: texts rest) := by
  simp [texts_cons, toList_write_index]

theorem toList_join_write (segments : List Segment) :
    (String.join (segments.map write)).toList = texts segments := by
  simp [texts, String.toList_join, List.flatMap_map]

theorem begins_of_head?_texts (segments : List Segment) :
    ∀ c ∈ (texts segments).head?, begins c = true := by
  cases segments with
  | nil => simp [texts]
  | cons segment rest =>
    cases segment with
    | key name => simp [texts_key, begins]
    | index position => simp [texts_index, begins]

/-- A plain key is delimited by the steps behind it. -/
theorem Plain.delimited {name : String} (h : (key name).Plain) (rest : List Segment) :
    Delimited begins name.toList (texts rest) := by
  refine ⟨fun c hc => ?_, begins_of_head?_texts rest⟩
  obtain ⟨-, hpoint, hbracket⟩ := h
  simp only [begins, Bool.or_eq_false_iff, beq_eq_false_iff_ne]
  exact ⟨fun hc' => hpoint (hc' ▸ hc), fun hc' => hbracket (hc' ▸ hc)⟩

/-- A step is told from the texts of steps that begin with it. -/
theorem Plain.texts_cons_inj {segment segment' : Segment} (h : segment.Plain) (h' : segment'.Plain)
    {rest rest' : List Segment} (heq : texts (segment :: rest) = texts (segment' :: rest')) :
    segment = segment' ∧ texts rest = texts rest' := by
  cases segment with
  | key name =>
    cases segment' with
    | key name' =>
      rw [texts_key, texts_key] at heq
      obtain ⟨hname, hrest⟩ :=
        (h.delimited rest).append_inj (h'.delimited rest') (List.cons.inj heq).2
      exact ⟨congrArg key (String.toList_inj.mp hname), hrest⟩
    | index position' =>
      rw [texts_key, texts_index] at heq
      exact absurd (List.cons.inj heq).1 (by decide)
  | index position =>
    cases segment' with
    | key name' =>
      rw [texts_index, texts_key] at heq
      exact absurd (List.cons.inj heq).1 (by decide)
    | index position' =>
      rw [texts_index, texts_index] at heq
      obtain ⟨hposition, hrest⟩ :=
        Text.toDigits_append_inj (by decide) (by decide) (by decide) (List.cons.inj heq).2
      exact ⟨congrArg index hposition, hrest⟩

theorem texts_cons_ne_nil (segment : Segment) (rest : List Segment) :
    texts (segment :: rest) ≠ [] := by
  cases segment with
  | key name => simp [texts_key]
  | index position => simp [texts_index]

/-- Plain steps are told from their texts, one after the other from the front. -/
theorem texts_inj {segments segments' : List Segment} (h : ∀ segment ∈ segments, segment.Plain)
    (h' : ∀ segment ∈ segments', segment.Plain) (heq : texts segments = texts segments') :
    segments = segments' := by
  induction segments generalizing segments' with
  | nil =>
    cases segments' with
    | nil => rfl
    | cons segment' rest' => exact absurd heq.symm (texts_cons_ne_nil segment' rest')
  | cons segment rest ih =>
    cases segments' with
    | nil => exact absurd heq (texts_cons_ne_nil segment rest)
    | cons segment' rest' =>
      rw [List.forall_mem_cons] at h h'
      obtain ⟨rfl, hrest⟩ := h.1.texts_cons_inj h'.1 heq
      rw [ih h.2 h'.2 hrest]

end Segment

/-! ### Paths -/

namespace Path

open Segment (texts texts_key texts_index)

/-- Whether a path can be told from its text: its keys are plain, and it is not the one key that
reads like the place of the whole document. -/
structure Legible (p : Path) : Prop where
  plain : ∀ segment ∈ p.segments, segment.Plain
  ne_root : p.segments ≠ [.key "<root>"]

instance : DecidablePred Legible := fun p =>
  decidable_of_iff ((∀ segment ∈ p.segments, segment.Plain) ∧ p.segments ≠ [.key "<root>"])
    ⟨fun h => ⟨h.1, h.2⟩, fun h => ⟨h.plain, h.ne_root⟩⟩

/-- The steps that the text of a path shows. -/
def shown (p : Path) : List Segment :=
  if p.segments = [] then [.key "<root>"] else p.segments

theorem Legible.plain_shown {p : Path} (h : p.Legible) : ∀ segment ∈ p.shown, segment.Plain := by
  unfold shown
  split
  · exact List.forall_mem_singleton.mpr (by decide)
  · exact h.plain

theorem Legible.shown_inj {p q : Path} (hp : p.Legible) (hq : q.Legible) (h : p.shown = q.shown) :
    p = q := by
  have hsegments : p.segments = q.segments := by
    unfold shown at h
    split at h <;> split at h
    case isTrue.isTrue hroot hroot' => rw [hroot, hroot']
    case isTrue.isFalse => exact absurd h.symm hq.ne_root
    case isFalse.isTrue => exact absurd h hp.ne_root
    case isFalse.isFalse => exact h
  exact congrArg Path.mk hsegments

/-- A text with the point in front of a first key, which is not written. -/
def pointed (text : List Char) : List Char :=
  if text.head? = some '[' then text else '.' :: text

/-- A legible path shows its steps in its text: a bracket at the beginning is that of a position. -/
theorem Legible.texts_shown {p : Path} (h : p.Legible) :
    texts p.shown = pointed p.write.toList := by
  have hplain := h.plain
  obtain ⟨segments⟩ := p
  cases segments with
  | nil => decide
  | cons first rest =>
    rw [show (Path.mk (first :: rest)).shown = first :: rest from if_neg (List.cons_ne_nil _ _)]
    cases first with
    | key name =>
      obtain ⟨hne, -, hbracket⟩ := hplain (.key name) List.mem_cons_self
      have hwrite : (Path.mk (.key name :: rest)).write.toList = name.toList ++ texts rest := by
        simp only [write, String.toList_append, Segment.toList_join_write]
      have hhead : (name.toList ++ texts rest).head? ≠ some '[' := by
        intro hhead
        obtain ⟨c, chars, hname⟩ := List.exists_cons_of_ne_nil (mt String.toList_eq_nil_iff.mp hne)
        rw [hname] at hhead hbracket
        cases hhead
        exact hbracket List.mem_cons_self
      rw [texts_key, hwrite, pointed, if_neg hhead]
    | index position =>
      have hwrite : (Path.mk (.index position :: rest)).write.toList =
          texts (.index position :: rest) := by
        simp only [write, String.toList_append, Segment.toList_join_write, Segment.texts_cons]
      rw [hwrite, pointed, if_pos (by rw [texts_index]; rfl)]

/-- The text of a legible path identifies it among all legible paths. -/
theorem texts_identify_paths {p q : Path} (hp : p.Legible) (hq : q.Legible) :
    p.write = q.write ↔ p = q := by
  refine ⟨fun h => ?_, congrArg write⟩
  have htexts : texts p.shown = texts q.shown := by rw [hp.texts_shown, hq.texts_shown, h]
  exact hp.shown_inj hq (Segment.texts_inj hp.plain_shown hq.plain_shown htexts)

/-- A closing bracket does not make a key look like a position. -/
theorem position_differs_from_key :
    (mk [.key "inputs", .index 2, .key "name"]).Legible ∧
      (mk [.key "inputs", .key "2]", .key "name"]).Legible ∧
      (mk [.key "inputs", .index 2, .key "name"]).write ≠
        (mk [.key "inputs", .key "2]", .key "name"]).write := by
  have hposition : (mk [.key "inputs", .index 2, .key "name"]).Legible := by decide
  have hkey : (mk [.key "inputs", .key "2]", .key "name"]).Legible := by decide
  refine ⟨hposition, hkey, fun h => ?_⟩
  exact absurd ((texts_identify_paths hposition hkey).mp h) (by decide)

/-- Neither a point in a key nor the key `<root>` can be told from what it looks like. -/
example : (mk [.key "a.b"]).write = (mk [.key "a", .key "b"]).write ∧
    (mk [.key "<root>"]).write = root.write := by decide

end Path

end FlowContract
