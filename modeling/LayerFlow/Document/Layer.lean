/-
LayerFlow.Document.Layer

The written forms of parameter stores and layers.
-/
import LayerFlow.Document.Kernel
import LayerFlow.Layer

namespace LayerFlow.Document

instance : Document ParamStore where
  encode s := .obj [("owner", encode s.owner), ("channel_count", encode s.channelCount),
    ("buffers", encode s.buffers)]
  decode? v := do
    match ← fields? ["owner", "channel_count", "buffers"] v with
    | [owner, channelCount, buffers] =>
      return ⟨← field? owner, ← field? channelCount, ← field? buffers⟩
    | _ => none

/-! ## Each kind of layer -/

instance : Document Arithmetic where
  encode l := .obj [("operation", encode l.operation), ("scale", encode l.scale),
    ("operand", encode l.operand), ("bias", encode l.bias)]
  decode? v := do
    match ← fields? ["operation", "scale", "operand", "bias"] v with
    | [operation, scale, operand, bias] =>
      return ⟨← field? operation, ← field? scale, ← field? operand, ← field? bias⟩
    | _ => none

instance : Document Convolution where
  encode l := .obj [("kind", encode l.kind), ("out_channels", encode l.outChannels),
    ("kernel_w", encode l.kernelWidth), ("kernel_h", encode l.kernelHeight),
    ("stride_x", encode l.strideX), ("stride_y", encode l.strideY), ("bias", encode l.bias),
    ("padding", encode l.padding)]
  decode? v := do
    match ← fields? ["kind", "out_channels", "kernel_w", "kernel_h", "stride_x", "stride_y",
      "bias", "padding"] v with
    | [kind, outChannels, kernelWidth, kernelHeight, strideX, strideY, bias, padding] =>
      return ⟨← field? kind, ← field? outChannels, ← field? kernelWidth, ← field? kernelHeight,
        ← field? strideX, ← field? strideY, ← field? bias, ← field? padding⟩
    | _ => none

instance : Document Pooling where
  encode l := .obj [("kind", encode l.kind), ("kernel_w", encode l.kernelWidth),
    ("kernel_h", encode l.kernelHeight), ("stride_x", encode l.strideX),
    ("stride_y", encode l.strideY), ("padding", encode l.padding)]
  decode? v := do
    match ← fields? ["kind", "kernel_w", "kernel_h", "stride_x", "stride_y", "padding"] v with
    | [kind, kernelWidth, kernelHeight, strideX, strideY, padding] =>
      return ⟨← field? kind, ← field? kernelWidth, ← field? kernelHeight, ← field? strideX,
        ← field? strideY, ← field? padding⟩
    | _ => none

instance : Document FullyConnected where
  encode l := .obj [("out_units", encode l.outUnits), ("bias", encode l.bias)]
  decode? v := do
    match ← fields? ["out_units", "bias"] v with
    | [outUnits, bias] => return ⟨← field? outUnits, ← field? bias⟩
    | _ => none

instance : Document Neuron where
  encode l := .obj [("kind", encode l.kind), ("a", encode l.a), ("b", encode l.b),
    ("c", encode l.c)]
  decode? v := do
    match ← fields? ["kind", "a", "b", "c"] v with
    | [kind, a, b, c] => return ⟨← field? kind, ← field? a, ← field? b, ← field? c⟩
    | _ => none

instance : Document SoftMax where
  encode l := .obj [("kind", encode l.kind)]
  decode? v := do
    match ← fields? ["kind"] v with
    | [kind] => return ⟨← field? kind⟩
    | _ => none

instance : Document Normalization where
  encode l := .obj [("kind", encode l.kind), ("epsilon", encode l.epsilon),
    ("alpha", encode l.alpha), ("beta", encode l.beta), ("delta", encode l.delta),
    ("data_source", encode l.store)]
  decode? v := do
    match ← fields? ["kind", "epsilon", "alpha", "beta", "delta", "data_source"] v with
    | [kind, epsilon, alpha, beta, delta, store] =>
      return ⟨← field? kind, ← field? epsilon, ← field? alpha, ← field? beta, ← field? delta,
        ← field? store⟩
    | _ => none

instance : Document UpSampling where
  encode l := .obj [("kind", encode l.kind), ("scale_x", encode l.scaleX),
    ("scale_y", encode l.scaleY)]
  decode? v := do
    match ← fields? ["kind", "scale_x", "scale_y"] v with
    | [kind, scaleX, scaleY] => return ⟨← field? kind, ← field? scaleX, ← field? scaleY⟩
    | _ => none

instance : Document DropOut where
  encode l := .obj [("keep_probability", encode l.keepProbability), ("seed", encode l.seed)]
  decode? v := do
    match ← fields? ["keep_probability", "seed"] v with
    | [keepProbability, seed] => return ⟨← field? keepProbability, ← field? seed⟩
    | _ => none

/-! ## Layers -/

instance : Document Layer where
  encode
    | .arithmetic l => tagged "Arithmetic" (encode l)
    | .convolution l => tagged "Convolution" (encode l)
    | .pooling l => tagged "Pooling" (encode l)
    | .fullyConnected l => tagged "FullyConnected" (encode l)
    | .neuron l => tagged "Neuron" (encode l)
    | .softMax l => tagged "SoftMax" (encode l)
    | .normalization l => tagged "Normalization" (encode l)
    | .upSampling l => tagged "UpSampling" (encode l)
    | .dropOut l => tagged "DropOut" (encode l)
  decode? v := do
    let (name, content) ← variant? v
    let content ← content
    if name = "Arithmetic" then return .arithmetic (← decode? content)
    else if name = "Convolution" then return .convolution (← decode? content)
    else if name = "Pooling" then return .pooling (← decode? content)
    else if name = "FullyConnected" then return .fullyConnected (← decode? content)
    else if name = "Neuron" then return .neuron (← decode? content)
    else if name = "SoftMax" then return .softMax (← decode? content)
    else if name = "Normalization" then return .normalization (← decode? content)
    else if name = "UpSampling" then return .upSampling (← decode? content)
    else if name = "DropOut" then return .dropOut (← decode? content)
    else none

end LayerFlow.Document
