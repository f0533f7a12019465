import FlowContract.Proofs.Definitions.Soundness
import FlowContract.Proofs.Shape.Places

/-!
Shapes and readers agree. A document that its shape accepts can be read, so that the shape alone
decides about a document and all refusals are those of the check.
-/

namespace FlowContract

open Json (Value)

/-- A shape decides at a place: it accepts what can be parsed there, what it accepts can be decoded,
and what it refuses is refused in the words of the check. Where it asks for a record, nothing that
is parsed has a list, although a decoder would take the fields of the record from one. -/
structure Shape.Decides {α β : Type} (shape : Shape) (decode : Value → Option α)
    (parse : Value → Except Rejection β) (base : Path) : Prop where
  decodes : ∀ v, shape.accepts v = true → ∃ a, decode v = some a
  accepts : ∀ v, (∃ b, parse v = .ok b) ↔ shape.accepts v = true
  refuses : ∀ v rejection, parse v = .error rejection ↔ shape.check v base = .error rejection
  no_list : ∀ v b segments fields closed items, parse v = .ok b →
    shape.Applies segments (.record fields closed) →
    (Path.mk segments).resolve? v ≠ some (.list items)

theorem Except.map_eq_ok_iff {ε α β : Type} {x : Except ε α} {f : α → β} {b : β} :
    x.map f = .ok b ↔ ∃ a, x = .ok a ∧ f a = b := by
  cases x <;> simp [Except.map]

theorem Except.map_eq_error_iff {ε α β : Type} {x : Except ε α} {f : α → β} {error : ε} :
    x.map f = .error error ↔ x = .error error := by
  cases x <;> simp [Except.map]

namespace Codec

variable {α β : Type} {f : Codec α}

/-- A parser accepts what has the shape of a codec, and gives what the codec reads. -/
def Parses (f : Codec α) (parse : Value → Except Rejection α) : Prop :=
  ∀ v a, parse v = .ok a ↔ f.shape.Admits v ∧ f.decode v = some a

theorem parses (f : Codec α) (path : Path) :
    f.Parses (f.shape.parse f.decode · path) := by
  intro v a
  rw [← f.shape.check_eq_ok_iff v path]
  simp only [Shape.parse]
  cases f.shape.check v path with
  | error rejection => simp [bind, Except.bind]
  | ok =>
    cases f.decode v with
    | none => simp [bind, Except.bind]
    | some result => simp [bind, Except.bind]

/-- With a sound codec what is parsed is what has the shape. -/
theorem Sound.exists_parse_iff (hf : f.Sound) {parse : Value → Except Rejection α}
    (hparse : f.Parses parse) {v : Value} : (∃ a, parse v = .ok a) ↔ f.shape.Admits v := by
  constructor
  · rintro ⟨a, ha⟩
    exact ((hparse v a).mp ha).1
  · intro hadmits
    obtain ⟨a, hcarries⟩ := hf.carries v hadmits
    exact ⟨a, (hparse v a).mpr ⟨hadmits, hcarries.decoded⟩⟩

theorem Sound.parse_of_admits (hf : f.Sound) {v : Value} (h : f.shape.Admits v) (path : Path) :
    ∃ a, f.Carries v a ∧ f.shape.parse f.decode v path = .ok a := by
  obtain ⟨a, ha⟩ := hf.carries v h
  refine ⟨a, ha, ?_⟩
  simp only [Shape.parse, (f.shape.check_eq_ok_iff v path).mpr h, ha.decoded, bind, Except.bind]

theorem parse_of_error {v : Value} {path : Path} {rejection : Rejection}
    (h : f.shape.check v path = .error rejection) :
    f.shape.parse f.decode v path = .error rejection := by
  simp only [Shape.parse, h, bind, Except.bind]

/-- With a sound codec a document is parsed, or else the check has refused it. -/
theorem Sound.parse_cases (hf : f.Sound) (v : Value) (path : Path) :
    (∃ a, f.shape.Admits v ∧ f.Carries v a ∧ f.shape.parse f.decode v path = .ok a) ∨
    ∃ rejection, f.shape.check v path = .error rejection ∧
      f.shape.parse f.decode v path = .error rejection := by
  cases hcheck : f.shape.check v path with
  | ok =>
    have hadmits := (f.shape.check_eq_ok_iff v path).mp hcheck
    obtain ⟨a, ha, hparse⟩ := hf.parse_of_admits hadmits path
    exact .inl ⟨a, hadmits, ha, hparse⟩
  | error rejection => exact .inr ⟨rejection, rfl, parse_of_error hcheck⟩

/-- The words for a document that cannot be decoded are never used. -/
theorem Sound.parse_eq_error_iff (hf : f.Sound) {v : Value} {path : Path} {rejection : Rejection} :
    f.shape.parse f.decode v path = .error rejection ↔
      f.shape.check v path = .error rejection := by
  rcases hf.parse_cases v path with ⟨a, hadmits, -, hparse⟩ | ⟨rejection', hcheck, hparse⟩
  · simp [hparse, (f.shape.check_eq_ok_iff v path).mpr hadmits]
  · simp [hparse, hcheck]

/-- What is made of a parsed part does not matter to what decides. -/
theorem Sound.decides (hf : f.Sound) (hdiscriminated : f.shape.discriminated = true)
    {base : Path} {parse : Value → Except Rejection β} (result : α → β)
    (hresult : ∀ v, parse v = (f.shape.parse f.decode v base).map result) :
    f.shape.Decides f.decode parse base where
  decodes v h := by
    obtain ⟨a, ha⟩ := hf.carries v (Shape.accepts_eq_true_iff.mp h)
    exact ⟨a, ha.decoded⟩
  accepts v := by
    rw [Shape.accepts_eq_true_iff]
    rcases hf.parse_cases v base with ⟨a, hadmits, -, hparse⟩ | ⟨rejection, hcheck, hparse⟩
    · simp [hresult, hparse, hadmits, Except.map]
    · have hrefused : ¬ f.shape.Admits v := by
        rw [← f.shape.check_eq_ok_iff v base, hcheck]
        exact nofun
      simp [hresult, hparse, hrefused, Except.map]
  refuses v rejection := by
    rw [hresult, Except.map_eq_error_iff, hf.parse_eq_error_iff]
  no_list v b segments fields closed items hok happlies := by
    rcases hf.parse_cases v base with ⟨a, hadmits, -, -⟩ | ⟨rejection, -, hparse⟩
    · exact happlies.ne_list hdiscriminated hadmits items
    · simp [hresult, hparse, Except.map] at hok

theorem Sound.decides_itself (hf : f.Sound) (hdiscriminated : f.shape.discriminated = true)
    (base : Path) : f.shape.Decides f.decode (f.shape.parse f.decode · base) base := by
  apply hf.decides hdiscriminated id
  intro v
  rw [Except.map_id]
  rfl

end Codec

namespace DescriptorList

theorem parse_eq (version : SchemaVersion) (v : Value) :
    parse version v = ((shape version).parse (Value.listOf? Descriptor.decode) v .root).map
      (mk version) := by
  unfold parse
  cases (shape version).parse (Value.listOf? Descriptor.decode) v .root <;> rfl

/-- A list of a revision is the list of its elements. -/
def codec (version : SchemaVersion) : Codec DescriptorList :=
  (Descriptor.codec version).listOf.wrapped (mk version) operators

theorem codec_sound (version : SchemaVersion) : (codec version).Sound :=
  (Descriptor.codec_sound version).listOf.wrapped fun _ => rfl

theorem parses (version : SchemaVersion) : (codec version).Parses (parse version) := by
  intro v list
  have hlist := (Descriptor.codec version).listOf.parses .root v
  rw [parse_eq, Except.map_eq_ok_iff]
  constructor
  · rintro ⟨operators, hparse, rfl⟩
    obtain ⟨hadmits, hdecode⟩ := (hlist operators).mp hparse
    exact ⟨hadmits, congrArg (Option.map (mk version)) hdecode⟩
  · rintro ⟨hadmits, hdecode⟩
    obtain ⟨operators, hoperators, rfl⟩ := Option.map_eq_some_iff.mp hdecode
    exact ⟨operators, (hlist operators).mpr ⟨hadmits, hoperators⟩, rfl⟩

/-- A list that is parsed has an element for each one of the document. -/
theorem of_parse {version : SchemaVersion} {v : Value} {list : DescriptorList}
    (h : parse version v = .ok list) :
    ∃ items operators, v = .list items ∧ list = ⟨version, operators⟩ ∧
      operators.length = items.length := by
  obtain ⟨-, hdecode⟩ := (parses version v list).mp h
  obtain ⟨operators, hoperators, rfl⟩ := Option.map_eq_some_iff.mp hdecode
  obtain ⟨items, rfl, hlength⟩ := Codec.of_listOf? hoperators
  exact ⟨items, operators, rfl, rfl, hlength⟩

end DescriptorList

theorem Descriptor.discriminated_shape (version : SchemaVersion) :
    (shape version).discriminated = true := by
  cases version <;> decide

/-- For datatypes, operators, descriptors and lists of descriptors of both revisions, in every place
that they can stand, the shape decides. -/
theorem shapes_decide_what_is_read :
    (∀ base, Datatype.shape.Decides Datatype.decode (Datatype.parse · base) base) ∧
    (∀ base, OperatorDefinition.shape.Decides OperatorDefinition.decode
      (OperatorDefinition.parse · base) base) ∧
    (∀ version base, (Descriptor.shape version).Decides Descriptor.decode
      (Descriptor.parse version · base) base) ∧
    ∀ version, (DescriptorList.shape version).Decides (Value.listOf? Descriptor.decode)
      (DescriptorList.parse version) .root := by
  refine ⟨?_, ?_, ?_, ?_⟩
  · exact Datatype.codec_sound.decides_itself (by decide)
  · exact OperatorDefinition.codec_sound.decides_itself (by decide)
  · intro version
    exact (Descriptor.codec_sound version).decides_itself (Descriptor.discriminated_shape version)
  · intro version
    have hlist := (Descriptor.codec_sound version).listOf
    apply hlist.decides (Descriptor.discriminated_shape version) (DescriptorList.mk version)
    exact DescriptorList.parse_eq version

/-- A decoder alone would take a list for a record. -/
example : Reference.decode (.list [.string "#/definitions/Raster"]) =
    some ⟨"#/definitions/Raster"⟩ := rfl

end FlowContract
