import FlowContract.Proofs.Definitions.Classification

/-!
Writing undoes reading, up to nulls. A document is written back as it was read, without the nulls in
the places where the shape lets an optional key be null, and with everything else that it had. What
is written is read as the same again.
-/

namespace FlowContract

open Json (Value)

namespace Shape

def isNullable : Shape → Bool
  | scalar _ nullable => nullable
  | orNull _ => true
  | _ => false

mutual

/-- The places where a shape lets an optional key be null. A mapping that is not looked into has
none. -/
def nullablePlaces : Shape → List Place
  | record fields _ => fieldPlaces fields
  | keyed _ value => Place.behind .anyKey value.nullablePlaces
  | sequence element _ _ => Place.behind .anyIndex element.nullablePlaces
  | union variants => variantPlaces variants
  | orNull inner => inner.nullablePlaces
  | scalar _ _ | choice _ | strings _ _ _ | anyMapping => []
termination_by structural shape => shape

def fieldPlaces : List Field → List Place
  | [] => []
  | ⟨name, shape, required⟩ :: rest =>
    (if shape.isNullable && !required then [[.key name]] else []) ++
      Place.behind (.key name) shape.nullablePlaces ++ fieldPlaces rest
termination_by structural fields => fields

def variantPlaces : List Shape → List Place
  | [] => []
  | variant :: rest => variant.nullablePlaces ++ variantPlaces rest
termination_by structural variants => variants

end

end Shape

/-- Documents of a shape are parsed and written. What is written is the document without the nulls
in some places, which are the nullable ones of the shape, and it is parsed as the same. -/
structure RoundTrips {α : Type} (shape : Shape) (places : List Place)
    (parse : Value → Except Rejection α) (toValue : α → Value) : Prop where
  declared : places = shape.nullablePlaces
  written : ∀ v a, parse v = .ok a → toValue a = v.withoutNulls places
  reread : ∀ v a, parse v = .ok a → parse (toValue a) = .ok a

theorem Codec.Sound.roundTrips {α : Type} {f : Codec α} (hf : f.Sound)
    {parse : Value → Except Rejection α} (hparses : f.Parses parse)
    (hplaces : f.nullable = f.shape.nullablePlaces) :
    RoundTrips f.shape f.nullable parse f.encode := by
  have hcarries {v : Value} {a : α} (h : parse v = .ok a) : f.Carries v a := by
    obtain ⟨hadmits, hdecode⟩ := (hparses v a).mp h
    obtain ⟨b, hb⟩ := hf.carries v hadmits
    obtain rfl := Option.some.inj (hb.decoded.symm.trans hdecode)
    exact hb
  refine ⟨hplaces, fun v a h => (hcarries h).encoded, fun v a h => ?_⟩
  rw [(hcarries h).encoded, hparses]
  exact ⟨(hcarries h).admitted, (hcarries h).redecoded⟩

/-- Writing undoes parsing up to nulls, for schema documents, for datatypes and operators in every
place that they can stand, and for descriptors and lists of them in both revisions. -/
theorem writing_undoes_parsing :
    RoundTrips (SchemaDocument.shapeOver (.union [Datatype.shape, OperatorDefinition.shape]))
      SchemaDocument.nullable SchemaDocument.parse SchemaDocument.toValue ∧
    (∀ path, RoundTrips Datatype.shape [] (Datatype.parse · path) Datatype.toValue) ∧
    (∀ path, RoundTrips OperatorDefinition.shape OperatorDefinition.nullable
      (OperatorDefinition.parse · path) OperatorDefinition.toValue) ∧
    (∀ version path, RoundTrips (Descriptor.shape version) Descriptor.nullable
      (Descriptor.parse version · path) Descriptor.toValue) ∧
    ∀ version, RoundTrips (DescriptorList.shape version)
      (Place.behind .anyIndex Descriptor.nullable)
      (DescriptorList.parse version) DescriptorList.toValue := by
  refine ⟨?_, ?_, ?_, ?_, ?_⟩
  · exact SchemaDocument.codec_sound.roundTrips SchemaDocument.parses rfl
  · intro path
    exact Datatype.codec_sound.roundTrips (Datatype.codec.parses path) rfl
  · intro path
    exact OperatorDefinition.codec_sound.roundTrips (OperatorDefinition.codec.parses path) rfl
  · intro version path
    refine (Descriptor.codec_sound version).roundTrips ((Descriptor.codec version).parses path) ?_
    cases version <;> rfl
  · intro version
    refine (DescriptorList.codec_sound version).roundTrips (DescriptorList.parses version) ?_
    cases version <;> rfl

/-- Null goes where it stands for nothing, and stays in what is not looked into. -/
example : (ParamDefinition.decode (.ofPairs [("type", .string "array"), ("title", .null),
      ("items", .ofPairs [("type", .null)])])).map ParamDefinition.toValue =
    some (.ofPairs [("type", .string "array"), ("items", .ofPairs [("type", .null)])]) := rfl

end FlowContract
