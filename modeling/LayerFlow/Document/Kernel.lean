/-
LayerFlow.Document.Kernel

The written forms of shapes, padding policies, kernel kinds and kernels.
-/
import LayerFlow.Document
import LayerFlow.Kernel
import LayerFlow.Padding

namespace LayerFlow.Document

/-! ## Shapes and padding -/

instance : Document Shape where
  encode s := .obj [("width", encode s.width), ("height", encode s.height),
    ("channels", encode s.channels), ("time_steps", encode s.timeSteps)]
  decode? v := do
    match ← fields? ["width", "height", "channels", "time_steps"] v with
    | [width, height, channels, timeSteps] =>
      return ⟨← field? width, ← field? height, ← field? channels, ← field? timeSteps⟩
    | _ => none

/-- The written names of the padding modes. -/
def paddingModeName : PaddingMode → String
  | .validOnly => "ValidOnly"
  | .sizeSame => "SizeSame"
  | .sizeFull => "SizeFull"
  | .custom => "Custom"

instance : Document PaddingMode where
  encode mode := .str (paddingModeName mode)
  decode? := choice? paddingModeName [.validOnly, .sizeSame, .sizeFull, .custom]

instance : Document PaddingPolicy where
  encode p := .obj [("x", encode p.x), ("y", encode p.y), ("feature", encode p.feature)]
  decode? v := do
    match ← fields? ["x", "y", "feature"] v with
    | [x, y, feature] => return ⟨← field? x, ← field? y, ← field? feature⟩
    | _ => none

/-! ## Kinds -/

instance : Document ArithmeticKind where
  encode kind := .str kind.name
  decode? := choice? ArithmeticKind.name [.add, .subtract, .multiply, .divide]

instance : Document ConvolutionKind where
  encode
    | .standard => .str "Standard"
    | .depthwise multiplier => tagged "Depthwise" (.obj [("multiplier", encode multiplier)])
  decode? v := do
    let (name, content) ← variant? v
    if name = "Standard" then bare? content .standard
    else if name = "Depthwise" then
      match ← contentFields? ["multiplier"] content with
      | [multiplier] => return .depthwise (← field? multiplier)
      | _ => none
    else none

instance : Document PoolingKind where
  encode
    | .max => .str "Max"
    | .average => .str "Average"
    | .l2Norm => .str "L2Norm"
    | .dilatedMax dilation => tagged "DilatedMax" (.obj [("dilation", encode dilation)])
  decode? v := do
    let (name, content) ← variant? v
    if name = "Max" then bare? content .max
    else if name = "Average" then bare? content .average
    else if name = "L2Norm" then bare? content .l2Norm
    else if name = "DilatedMax" then
      match ← contentFields? ["dilation"] content with
      | [dilation] => return .dilatedMax (← field? dilation)
      | _ => none
    else none

instance : Document NeuronKind where
  encode kind := .str kind.name
  decode? := choice? NeuronKind.name NeuronKind.all

instance : Document SoftMaxKind where
  encode kind := .str kind.name
  decode? := choice? SoftMaxKind.name [.softMax, .logSoftMax]

instance : Document NormalizationKind where
  encode
    | .batch => .str "Batch"
    | .perInstance => .str "Instance"
    | .crossChannel size => tagged "CrossChannel" (.obj [("kernel_size", encode size)])
    | .spatial width height =>
      tagged "Spatial" (.obj [("kernel_w", encode width), ("kernel_h", encode height)])
  decode? v := do
    let (name, content) ← variant? v
    if name = "Batch" then bare? content .batch
    else if name = "Instance" then bare? content .perInstance
    else if name = "CrossChannel" then
      match ← contentFields? ["kernel_size"] content with
      | [size] => return .crossChannel (← field? size)
      | _ => none
    else if name = "Spatial" then
      match ← contentFields? ["kernel_w", "kernel_h"] content with
      | [width, height] => return .spatial (← field? width) (← field? height)
      | _ => none
    else none

instance : Document UpSamplingKind where
  encode
    | .nearest => .str "Nearest"
    | .bilinear alignCorners =>
      tagged "Bilinear" (.obj [("align_corners", encode alignCorners)])
  decode? v := do
    let (name, content) ← variant? v
    if name = "Nearest" then bare? content .nearest
    else if name = "Bilinear" then
      match ← contentFields? ["align_corners"] content with
      | [alignCorners] => return .bilinear (← field? alignCorners)
      | _ => none
    else none

/-! ## Kernels -/

instance : Document KernelKind where
  encode
    | .arithmetic operation scale operand bias =>
      tagged "Arithmetic" (.obj [("operation", encode operation), ("scale", encode scale),
        ("operand", encode operand), ("bias", encode bias)])
    | .convolution kind kernel stride inChannels outChannels bias weights =>
      tagged "Convolution" (.obj [("kind", encode kind), ("kernel", encode kernel),
        ("stride", encode stride), ("in_channels", encode inChannels),
        ("out_channels", encode outChannels), ("bias", encode bias),
        ("weights",
          match weights with
          | some ws => encode ws
          | none => .null)])
    | .pooling kind kernel stride =>
      tagged "Pooling" (.obj [("kind", encode kind), ("kernel", encode kernel),
        ("stride", encode stride)])
    | .fullyConnected inWidth inHeight inChannels outUnits bias =>
      tagged "FullyConnected" (.obj [("in_width", encode inWidth),
        ("in_height", encode inHeight), ("in_channels", encode inChannels),
        ("out_units", encode outUnits), ("bias", encode bias)])
    | .neuron kind a b c =>
      tagged "Neuron" (.obj [("kind", encode kind), ("a", encode a), ("b", encode b),
        ("c", encode c)])
    | .softMax kind => tagged "SoftMax" (.obj [("kind", encode kind)])
    | .normalization kind epsilon alpha beta delta =>
      tagged "Normalization" (.obj [("kind", encode kind), ("epsilon", encode epsilon),
        ("alpha", encode alpha), ("beta", encode beta), ("delta", encode delta)])
    | .upSampling kind scale =>
      tagged "UpSampling" (.obj [("kind", encode kind), ("scale", encode scale)])
    | .dropOut keepProbability seed =>
      tagged "DropOut" (.obj [("keep_probability", encode keepProbability),
        ("seed", encode seed)])
  decode? v := do
    let (name, content) ← variant? v
    if name = "Arithmetic" then
      match ← contentFields? ["operation", "scale", "operand", "bias"] content with
      | [operation, scale, operand, bias] =>
        return .arithmetic (← field? operation) (← field? scale) (← field? operand)
          (← field? bias)
      | _ => none
    else if name = "Convolution" then
      match ← contentFields? ["kind", "kernel", "stride", "in_channels", "out_channels", "bias",
        "weights"] content with
      | [kind, kernel, stride, inChannels, outChannels, bias, weights] =>
        return .convolution (← field? kind) (← field? kernel) (← field? stride)
          (← field? inChannels) (← field? outChannels) (← field? bias) (← optional? weights)
      | _ => none
    else if name = "Pooling" then
      match ← contentFields? ["kind", "kernel", "stride"] content with
      | [kind, kernel, stride] =>
        return .pooling (← field? kind) (← field? kernel) (← field? stride)
      | _ => none
    else if name = "FullyConnected" then
      match ← contentFields? ["in_width", "in_height", "in_channels", "out_units", "bias"]
        content with
      | [inWidth, inHeight, inChannels, outUnits, bias] =>
        return .fullyConnected (← field? inWidth) (← field? inHeight) (← field? inChannels)
          (← field? outUnits) (← field? bias)
      | _ => none
    else if name = "Neuron" then
      match ← contentFields? ["kind", "a", "b", "c"] content with
      | [kind, a, b, c] =>
        return .neuron (← field? kind) (← field? a) (← field? b) (← field? c)
      | _ => none
    else if name = "SoftMax" then
      match ← contentFields? ["kind"] content with
      | [kind] => return .softMax (← field? kind)
      | _ => none
    else if name = "Normalization" then
      match ← contentFields? ["kind", "epsilon", "alpha", "beta", "delta"] content with
      | [kind, epsilon, alpha, beta, delta] =>
        return .normalization (← field? kind) (← field? epsilon) (← field? alpha)
          (← field? beta) (← field? delta)
      | _ => none
    else if name = "UpSampling" then
      match ← contentFields? ["kind", "scale"] content with
      | [kind, scale] => return .upSampling (← field? kind) (← field? scale)
      | _ => none
    else if name = "DropOut" then
      match ← contentFields? ["keep_probability", "seed"] content with
      | [keepProbability, seed] => return .dropOut (← field? keepProbability) (← field? seed)
      | _ => none
    else none

instance : Document Kernel where
  encode k := .obj [("label", encode k.label), ("kind", encode k.kind),
    ("input", encode k.input), ("output", encode k.output)]
  decode? v := do
    match ← fields? ["label", "kind", "input", "output"] v with
    | [label, kind, input, output] =>
      return ⟨← field? label, ← field? kind, ← field? input, ← field? output⟩
    | _ => none

end LayerFlow.Document
