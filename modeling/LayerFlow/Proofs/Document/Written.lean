/-
LayerFlow.Proofs.Document.Written

Whatever is written as a document is a tree that can be written as text: its keys and strings have
characters, and its numerals are proper.  Numbers that are not finite are no exception, as they are
written as null.

Main statement: `parse?_encode`, the text of a value parses to the tree of that value.
-/
import LayerFlow.Proofs.Json.Building
import LayerFlow.Proofs.Json.Numerals
import LayerFlow.Record

namespace LayerFlow

namespace Json

theorem proper_str (s : String) : (str s).Proper := .text s

/-- A record can be written if the values of its fields can. -/
theorem proper_obj {fields : List (String × Json)} (h : ∀ field ∈ fields, field.2.Proper) :
    (obj fields).Proper := by
  refine .record (fun field hfield => ?_) fun field hfield => ?_
  · obtain ⟨_, -, rfl⟩ := List.mem_map.mp hfield
    rfl
  · obtain ⟨written, hwritten, rfl⟩ := List.mem_map.mp hfield
    exact h written hwritten

end Json

namespace Document

theorem proper_tagged (name : String) {content : Json} (h : content.Proper) :
    (tagged name content).Proper :=
  Json.proper_obj (by simpa using h)

/-- A type of which all values can be written. -/
class Writable (α : Type) [Document α] : Prop where
  proper_encode : ∀ a : α, (encode a).Proper

export Writable (proper_encode)

attribute [simp] Writable.proper_encode

/-! ## Basic values -/

instance : Writable Nat where
  proper_encode n := .number (Numeral.proper_ofNat n)

instance : Writable Int where
  proper_encode n := .number (Numeral.proper_ofInt n)

instance : Writable Bool where
  proper_encode b := .bool b

instance : Writable String where
  proper_encode s := .text s

instance : Writable Binary32 where
  proper_encode x := by
    show (if x.isFinite then _ else _ : Json).Proper
    split
    · exact .number (x.proper_numeral _)
    · exact .null

instance {α : Type} [Document α] [Writable α] : Writable (List α) where
  proper_encode xs := by
    refine .list fun v hv => ?_
    obtain ⟨x, -, rfl⟩ := List.mem_map.mp hv
    exact proper_encode x

instance {α : Type} [Document α] [Writable α] : Writable (Dictionary α) where
  proper_encode d := by
    refine Json.proper_obj fun field hfield => ?_
    obtain ⟨entry, -, rfl⟩ := List.mem_map.mp hfield
    exact proper_encode entry.2

/-! ## Shapes, padding and kinds -/

instance : Writable Shape where
  proper_encode _ := Json.proper_obj (by simp)

instance : Writable PaddingMode where
  proper_encode _ := Json.proper_str _

instance : Writable PaddingPolicy where
  proper_encode _ := Json.proper_obj (by simp)

instance : Writable ArithmeticKind where
  proper_encode _ := Json.proper_str _

instance : Writable ConvolutionKind where
  proper_encode
    | .standard => Json.proper_str _
    | .depthwise _ => proper_tagged _ (Json.proper_obj (by simp))

instance : Writable PoolingKind where
  proper_encode
    | .max | .average | .l2Norm => Json.proper_str _
    | .dilatedMax _ => proper_tagged _ (Json.proper_obj (by simp))

instance : Writable NeuronKind where
  proper_encode _ := Json.proper_str _

instance : Writable SoftMaxKind where
  proper_encode _ := Json.proper_str _

instance : Writable NormalizationKind where
  proper_encode
    | .batch | .perInstance => Json.proper_str _
    | .crossChannel _ | .spatial _ _ => proper_tagged _ (Json.proper_obj (by simp))

instance : Writable UpSamplingKind where
  proper_encode
    | .nearest => Json.proper_str _
    | .bilinear _ => proper_tagged _ (Json.proper_obj (by simp))

/-! ## Layers -/

instance : Writable ParamStore where
  proper_encode _ := Json.proper_obj (by simp)

instance : Writable Arithmetic where
  proper_encode _ := Json.proper_obj (by simp)

instance : Writable Convolution where
  proper_encode _ := Json.proper_obj (by simp)

instance : Writable Pooling where
  proper_encode _ := Json.proper_obj (by simp)

instance : Writable FullyConnected where
  proper_encode _ := Json.proper_obj (by simp)

instance : Writable Neuron where
  proper_encode _ := Json.proper_obj (by simp)

instance : Writable SoftMax where
  proper_encode _ := Json.proper_obj (by simp)

instance : Writable Normalization where
  proper_encode _ := Json.proper_obj (by simp)

instance : Writable UpSampling where
  proper_encode _ := Json.proper_obj (by simp)

instance : Writable DropOut where
  proper_encode _ := Json.proper_obj (by simp)

instance : Writable Layer where
  proper_encode
    | .arithmetic _ | .convolution _ | .pooling _ | .fullyConnected _ | .neuron _ | .softMax _
    | .normalization _ | .upSampling _ | .dropOut _ => proper_tagged _ (proper_encode _)

/-! ## Graphs -/

instance : Writable Source where
  proper_encode
    | .raw _ | .flow _ => proper_tagged _ (proper_encode _)

instance : Writable Flow where
  proper_encode _ := Json.proper_obj (by simp)

instance : Writable Record where
  proper_encode _ := Json.proper_obj (by simp)

/-- The text of a value parses to the tree of that value. -/
theorem parse?_encode {α : Type} [Document α] [Writable α] (a : α) :
    Json.parse? (encode a).pretty = some (encode a) :=
  Json.parse?_pretty (proper_encode a)

end Document

end LayerFlow
