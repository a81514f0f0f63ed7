/-
LayerFlow.Proofs.Document.Reading

What was written reads back.  Whole numbers of machine size do, and so do texts and choices; of
the single-precision numbers those that are finite do, as far as their decimals round back to them,
while any other number is written as null and refused where a number is expected.  So a value reads
back exactly if its numbers are finite, and its reading fails otherwise.

Main statements: `decode?_encode_layer`, `decode?_encode_flow` and `decode?_encode_record`.
-/
import LayerFlow.Record

namespace LayerFlow

/-! ## The numbers of a document -/

/-- The whole numbers that a convolution is told apart by. -/
def ConvolutionKind.writtenSizes : ConvolutionKind → List Nat
  | .standard => []
  | .depthwise multiplier => [multiplier]

/-- The whole numbers that a pooling is told apart by. -/
def PoolingKind.writtenSizes : PoolingKind → List Nat
  | .max | .average | .l2Norm => []
  | .dilatedMax dilation => [dilation]

/-- The whole numbers that a normalization is told apart by. -/
def NormalizationKind.writtenSizes : NormalizationKind → List Nat
  | .batch | .perInstance => []
  | .crossChannel size => [size]
  | .spatial width height => [width, height]

/-- The values in the buffers of a store, in the order in which they are written. -/
def ParamStore.values (store : ParamStore) : List Binary32 :=
  store.buffers.entries.flatMap Prod.snd

namespace Layer

/-- The whole numbers that a layer is written with. -/
def writtenSizes : Layer → List Nat
  | .arithmetic _ | .neuron _ | .softMax _ => []
  | .convolution l =>
    l.kind.writtenSizes ++ [l.outChannels, l.kernelWidth, l.kernelHeight, l.strideX, l.strideY]
  | .pooling l => l.kind.writtenSizes ++ [l.kernelWidth, l.kernelHeight, l.strideX, l.strideY]
  | .fullyConnected l => [l.outUnits]
  | .normalization l => l.kind.writtenSizes ++ [l.store.channelCount]
  | .upSampling l => [l.scaleX, l.scaleY]
  | .dropOut l => [l.seed]

/-- The numbers that a layer is written with: its factors and the values in its buffers. -/
def values (l : Layer) : List Binary32 := l.numbers ++ l.store?.elim [] ParamStore.values

end Layer

/-- The whole number that a source is written with. -/
def Source.size : Source → Nat
  | .raw slot => slot
  | .flow id => id

namespace Flow

/-- The whole numbers that a flow is written with. -/
def writtenSizes (f : Flow) : List Nat :=
  f.inputs.map Source.size ++ f.layers.flatMap Layer.writtenSizes

/-- The numbers that a flow is written with. -/
def numbers (f : Flow) : List Binary32 := f.layers.flatMap Layer.values

end Flow

namespace Document

/-! ## Values up to their numbers -/

/-- Every finite number of a list reads back from its written form. -/
def Kept (numbers : List Binary32) : Prop :=
  ∀ x ∈ numbers, x.isFinite = true → decode? (encode x) = some x

/-- A value, if the numbers that it is written with are finite. -/
def ifFinite {α : Type} (numbers : List Binary32) (a : α) : Option α :=
  if numbers.all Binary32.isFinite then some a else none

section

variable {α β : Type} {xs ys : List Binary32}

theorem ifFinite_nil (a : α) : ifFinite [] a = some a := rfl

theorem ifFinite_eq_some_iff {a b : α} :
    ifFinite xs a = some b ↔ (∀ x ∈ xs, x.isFinite = true) ∧ a = b := by
  rw [ifFinite, ← List.all_eq_true]
  split
  · next h => simp [h]
  · next h => simp [h]

theorem ifFinite_eq_none_iff {a : α} : ifFinite xs a = none ↔ ¬ ∀ x ∈ xs, x.isFinite = true := by
  rw [ifFinite, ← List.all_eq_true]
  split
  · next h => simp [h]
  · next h => simp [h]

@[simp] theorem bind_some_ifFinite (f : α → β) (a : α) :
    ((ifFinite xs a).bind fun b => some (f b)) = ifFinite xs (f a) := by
  rw [ifFinite, ifFinite]
  split <;> rfl

@[simp] theorem bind_ifFinite (f : α → β) (ys : α → List Binary32) (a : α) :
    ((ifFinite xs a).bind fun b => ifFinite (ys b) (f b)) = ifFinite (xs ++ ys a) (f a) := by
  simp only [ifFinite, List.all_append]
  cases xs.all Binary32.isFinite <;> simp

theorem Kept.of_append (h : Kept (xs ++ ys)) : Kept xs ∧ Kept ys :=
  List.forall_mem_append.mp h

theorem Kept.of_mem {numbers : α → List Binary32} {as : List α} (h : Kept (as.flatMap numbers))
    {a : α} (ha : a ∈ as) : Kept (numbers a) :=
  fun x hx => h x (List.mem_flatMap.mpr ⟨a, ha, hx⟩)

end

/-! ## Records, choices and lists -/

theorem fields?_written {names : List String} {fields : List (String × Json)}
    (hnames : fields.map Prod.fst = names) (hdistinct : names.Nodup) :
    fields? names (.obj fields) = some (fields.map fun field => some field.2) := by
  subst hnames
  rw [fields?_obj hdistinct]

/-- Reading the fields of a written record. -/
theorem bind_fields? {α : Type} {names : List String} {fields : List (String × Json)}
    (hnames : fields.map Prod.fst = names) (hdistinct : names.Nodup)
    (f : List (Option Json) → Option α) :
    (fields? names (.obj fields)).bind f = f (fields.map fun field => some field.2) := by
  rw [fields?_written hnames hdistinct, Option.bind_some]

@[simp] theorem field?_some {α : Type} [Document α] (v : Json) :
    (field? (some v) : Option α) = decode? v := rfl

@[simp] theorem variant?_str (name : String) : variant? (.str name) = some (name, none) := rfl

@[simp] theorem variant?_tagged (name : String) (content : Json) :
    variant? (tagged name content) = some (name, some content) := rfl

/-- A choice reads back from its name. -/
theorem choice?_str {α : Type} {name : α → String} {alternatives : List α} {a : α}
    (hfirst : alternatives.find? (fun b => name b = name a) = some a) :
    choice? name alternatives (.str (name a)) = some a := by
  simp [choice?, hfirst, bare?, isBare]

theorem decode?_encode_number {x : Binary32} (h : Kept [x]) :
    decode? (encode x) = ifFinite [x] x := by
  cases hx : x.isFinite with
  | true =>
    rw [h x List.mem_cons_self hx]
    simp [ifFinite, hx]
  | false =>
    have hnull : encode x = .null := by
      show (if x.isFinite then _ else _ : Json) = _
      rw [hx, if_neg Bool.false_ne_true]
    rw [hnull, ifFinite, List.all_cons, hx]
    rfl

/-- A list reads back as its elements do. -/
theorem decode?_encode_elements {α : Type} [Document α] {numbers : α → List Binary32}
    {read : α → α} {as : List α}
    (h : ∀ a ∈ as, decode? (encode a) = ifFinite (numbers a) (read a)) :
    decode? (encode as) = ifFinite (as.flatMap numbers) (as.map read) := by
  show (as.map encode).mapM decode? = _
  induction as with
  | nil => rfl
  | cons a as ih =>
    rw [List.forall_mem_cons] at h
    rw [List.map_cons, List.mapM_cons, ih h.2, h.1]
    simp

theorem decode?_encode_numbers {xs : List Binary32} (h : Kept xs) :
    decode? (encode xs) = ifFinite xs xs := by
  have helements : decode? (encode xs) = ifFinite (xs.flatMap fun x => [x]) (xs.map id) :=
    decode?_encode_elements fun x hx =>
      decode?_encode_number (List.forall_mem_singleton.mpr (h x hx))
  rwa [List.map_id, List.flatMap_singleton'] at helements

theorem mapM_buffers {entries : List (String × List Binary32)}
    (h : Kept (entries.flatMap Prod.snd)) :
    ((entries.map fun entry => (some entry.1, encode entry.2)).mapM
      fun field : Option String × Json => do return (← field.1, ← decode? field.2)) =
      ifFinite (entries.flatMap Prod.snd) entries := by
  induction entries with
  | nil => rfl
  | cons entry entries ih =>
    obtain ⟨hfirst, hrest⟩ := h.of_append
    rw [List.map_cons, List.mapM_cons, ih hrest]
    simp [decode?_encode_numbers hfirst]

/-- Buffers come back under their names, in the order of the names. -/
theorem decode?_encode_buffers {d : Dictionary (List Binary32)}
    (h : Kept (d.entries.flatMap Prod.snd)) :
    decode? (encode d) = ifFinite (d.entries.flatMap Prod.snd) d := by
  show Option.bind (((d.entries.map fun entry => (entry.1, encode entry.2)).map
    fun field => (some field.1, field.2)).mapM _) _ = _
  rw [List.map_map]
  refine (congrArg (Option.bind · _) (mapM_buffers h)).trans ?_
  refine (bind_some_ifFinite Dictionary.ofList d.entries).trans ?_
  rw [d.ofList_entries]

/-! ## Shapes, padding and kinds -/

theorem decode?_encode_shape {s : Shape} (h : ∀ n ∈ s.toList, Extent.Fits n) :
    decode? (encode s) = some s := by
  simp only [Shape.toList, List.forall_mem_cons] at h
  refine (bind_fields? (by rfl) (by simp) _).trans ?_
  simp [decode?_encode_int, h]

theorem decode?_encode_paddingMode (mode : PaddingMode) : decode? (encode mode) = some mode :=
  choice?_str (by cases mode <;> rfl)

theorem decode?_encode_padding (p : PaddingPolicy) : decode? (encode p) = some p := by
  refine (bind_fields? (by rfl) (by simp) _).trans ?_
  simp [decode?_encode_paddingMode]

theorem decode?_encode_arithmeticKind (kind : ArithmeticKind) :
    decode? (encode kind) = some kind :=
  choice?_str (by cases kind <;> rfl)

theorem decode?_encode_neuronKind (kind : NeuronKind) : decode? (encode kind) = some kind :=
  choice?_str (by cases kind <;> rfl)

theorem decode?_encode_softMaxKind (kind : SoftMaxKind) : decode? (encode kind) = some kind :=
  choice?_str (by cases kind <;> rfl)

theorem decode?_encode_convolutionKind {kind : ConvolutionKind}
    (h : ∀ n ∈ kind.writtenSizes, Size.Fits n) : decode? (encode kind) = some kind := by
  cases kind with
  | standard => rfl
  | depthwise multiplier =>
    have hfits : Size.Fits multiplier := h multiplier (by simp [ConvolutionKind.writtenSizes])
    show Option.bind (variant? (tagged _ (.obj [(_, encode multiplier)]))) _ = _
    simp [contentFields?, fields?_written, decode?_encode_nat, hfits]

theorem decode?_encode_poolingKind {kind : PoolingKind}
    (h : ∀ n ∈ kind.writtenSizes, Size.Fits n) : decode? (encode kind) = some kind := by
  cases kind with
  | max | average | l2Norm => rfl
  | dilatedMax dilation =>
    have hfits : Size.Fits dilation := h dilation (by simp [PoolingKind.writtenSizes])
    show Option.bind (variant? (tagged _ (.obj [(_, encode dilation)]))) _ = _
    simp [contentFields?, fields?_written, decode?_encode_nat, hfits]

theorem decode?_encode_normalizationKind {kind : NormalizationKind}
    (h : ∀ n ∈ kind.writtenSizes, Size.Fits n) : decode? (encode kind) = some kind := by
  cases kind with
  | batch | perInstance => rfl
  | crossChannel size =>
    have hfits : Size.Fits size := h size (by simp [NormalizationKind.writtenSizes])
    show Option.bind (variant? (tagged _ (.obj [(_, encode size)]))) _ = _
    simp [contentFields?, fields?_written, decode?_encode_nat, hfits]
  | spatial width height =>
    simp only [NormalizationKind.writtenSizes, List.forall_mem_cons] at h
    show Option.bind (variant? (tagged _ (.obj [(_, encode width), (_, encode height)]))) _ = _
    simp [contentFields?, fields?_written, decode?_encode_nat, h]

theorem decode?_encode_upSamplingKind (kind : UpSamplingKind) :
    decode? (encode kind) = some kind := by
  cases kind with
  | nearest => rfl
  | bilinear alignCorners =>
    show Option.bind (variant? (tagged _ (.obj [(_, encode alignCorners)]))) _ = _
    simp [contentFields?, fields?_written, decode?_encode_bool]

/-! ## Layers -/

theorem decode?_encode_store {store : ParamStore} (hsize : Size.Fits store.channelCount)
    (hkept : Kept store.values) : decode? (encode store) = ifFinite store.values store := by
  refine (bind_fields? (by rfl) (by simp) _).trans ?_
  simp [decode?_encode_string, decode?_encode_nat, hsize, decode?_encode_buffers hkept,
    ParamStore.values]

section

variable {xs : List Binary32} {x : Binary32}

theorem Kept.decode?_head (h : Kept (x :: xs)) : decode? (encode x) = ifFinite [x] x :=
  decode?_encode_number (List.forall_mem_singleton.mpr (h x List.mem_cons_self))

theorem Kept.tail (h : Kept (x :: xs)) : Kept xs := (List.forall_mem_cons.mp h).2

end

theorem decode?_encode_arithmetic {l : Arithmetic} (h : Kept [l.scale, l.operand, l.bias]) :
    decode? (encode l) = ifFinite [l.scale, l.operand, l.bias] l := by
  refine (bind_fields? (by rfl) (by simp) _).trans ?_
  simp [decode?_encode_arithmeticKind, h.decode?_head, h.tail.decode?_head,
    h.tail.tail.decode?_head]

theorem decode?_encode_convolution {l : Convolution}
    (h : ∀ n ∈ (Layer.convolution l).writtenSizes, Size.Fits n) : decode? (encode l) = some l := by
  obtain ⟨hkind, hmeasures⟩ := List.forall_mem_append.mp h
  simp only [List.forall_mem_cons] at hmeasures
  refine (bind_fields? (by rfl) (by simp) _).trans ?_
  simp [decode?_encode_convolutionKind hkind, decode?_encode_nat, hmeasures, decode?_encode_bool,
    decode?_encode_padding]

theorem decode?_encode_pooling {l : Pooling}
    (h : ∀ n ∈ (Layer.pooling l).writtenSizes, Size.Fits n) : decode? (encode l) = some l := by
  obtain ⟨hkind, hmeasures⟩ := List.forall_mem_append.mp h
  simp only [List.forall_mem_cons] at hmeasures
  refine (bind_fields? (by rfl) (by simp) _).trans ?_
  simp [decode?_encode_poolingKind hkind, decode?_encode_nat, hmeasures, decode?_encode_padding]

theorem decode?_encode_fullyConnected {l : FullyConnected} (h : Size.Fits l.outUnits) :
    decode? (encode l) = some l := by
  refine (bind_fields? (by rfl) (by simp) _).trans ?_
  simp [decode?_encode_nat, h, decode?_encode_bool]

theorem decode?_encode_neuron {l : Neuron} (h : Kept [l.a, l.b, l.c]) :
    decode? (encode l) = ifFinite [l.a, l.b, l.c] l := by
  refine (bind_fields? (by rfl) (by simp) _).trans ?_
  simp [decode?_encode_neuronKind, h.decode?_head, h.tail.decode?_head, h.tail.tail.decode?_head]

theorem decode?_encode_softMax (l : SoftMax) : decode? (encode l) = some l := by
  refine (bind_fields? (by rfl) (by simp) _).trans ?_
  simp [decode?_encode_softMaxKind]

theorem decode?_encode_normalization {l : Normalization}
    (hsizes : ∀ n ∈ (Layer.normalization l).writtenSizes, Size.Fits n)
    (hkept : Kept (Layer.normalization l).values) :
    decode? (encode l) = ifFinite (Layer.normalization l).values l := by
  obtain ⟨hkind, hcount⟩ := List.forall_mem_append.mp hsizes
  obtain ⟨hfactors, hvalues⟩ := hkept.of_append
  have hstore := decode?_encode_store (List.forall_mem_singleton.mp hcount) hvalues
  refine (bind_fields? (by rfl) (by simp) _).trans ?_
  simp [decode?_encode_normalizationKind hkind, hfactors.decode?_head, hfactors.tail.decode?_head,
    hfactors.tail.tail.decode?_head, hfactors.tail.tail.tail.decode?_head, hstore, Layer.values,
    Layer.numbers, Layer.store?]

theorem decode?_encode_upSampling {l : UpSampling} (h : ∀ n ∈ [l.scaleX, l.scaleY], Size.Fits n) :
    decode? (encode l) = some l := by
  simp only [List.forall_mem_cons] at h
  refine (bind_fields? (by rfl) (by simp) _).trans ?_
  simp [decode?_encode_upSamplingKind, decode?_encode_nat, h]

theorem decode?_encode_dropOut {l : DropOut} (hseed : Size.Fits l.seed)
    (hkept : Kept [l.keepProbability]) :
    decode? (encode l) = ifFinite [l.keepProbability] l := by
  refine (bind_fields? (by rfl) (by simp) _).trans ?_
  simp [decode?_encode_number hkept, decode?_encode_nat, hseed]

/-- A layer reads back if the numbers that it is written with are finite. -/
theorem decode?_encode_layer {l : Layer} (hsizes : ∀ n ∈ l.writtenSizes, Size.Fits n)
    (hkept : Kept l.values) : decode? (encode l) = ifFinite l.values l := by
  cases l with
  | arithmetic l =>
    show Option.bind (variant? (tagged _ (encode l))) _ = _
    simp [decode?_encode_arithmetic hkept, Layer.values, Layer.numbers, Layer.store?]
  | convolution l =>
    show Option.bind (variant? (tagged _ (encode l))) _ = _
    simp [decode?_encode_convolution hsizes, Layer.values, Layer.numbers, Layer.store?,
      ifFinite_nil]
  | pooling l =>
    show Option.bind (variant? (tagged _ (encode l))) _ = _
    simp [decode?_encode_pooling hsizes, Layer.values, Layer.numbers, Layer.store?, ifFinite_nil]
  | fullyConnected l =>
    show Option.bind (variant? (tagged _ (encode l))) _ = _
    simp [decode?_encode_fullyConnected (List.forall_mem_singleton.mp hsizes), Layer.values,
      Layer.numbers, Layer.store?, ifFinite_nil]
  | neuron l =>
    show Option.bind (variant? (tagged _ (encode l))) _ = _
    simp [decode?_encode_neuron hkept, Layer.values, Layer.numbers, Layer.store?]
  | softMax l =>
    show Option.bind (variant? (tagged _ (encode l))) _ = _
    simp [decode?_encode_softMax, Layer.values, Layer.numbers, Layer.store?, ifFinite_nil]
  | normalization l =>
    show Option.bind (variant? (tagged _ (encode l))) _ = _
    simp [decode?_encode_normalization hsizes hkept]
  | upSampling l =>
    show Option.bind (variant? (tagged _ (encode l))) _ = _
    simp [decode?_encode_upSampling hsizes, Layer.values, Layer.numbers, Layer.store?,
      ifFinite_nil]
  | dropOut l =>
    show Option.bind (variant? (tagged _ (encode l))) _ = _
    simp [decode?_encode_dropOut (List.forall_mem_singleton.mp hsizes) hkept, Layer.values,
      Layer.numbers, Layer.store?]

/-! ## Flows and records -/

theorem decode?_encode_source {s : Source} (h : Size.Fits s.size) :
    decode? (encode s) = some s := by
  cases s with
  | raw slot =>
    show Option.bind (variant? (tagged _ (encode slot))) _ = _
    simp [decode?_encode_nat (show Size.Fits slot from h)]
  | flow id =>
    show Option.bind (variant? (tagged _ (encode id))) _ = _
    simp [decode?_encode_nat (show Size.Fits id from h)]

/-- A flow reads back without what was derived for it. -/
theorem decode?_encode_flow {f : Flow} (hsizes : ∀ n ∈ f.writtenSizes, Size.Fits n)
    (hkept : Kept f.numbers) : decode? (encode f) = ifFinite f.numbers f.clear := by
  obtain ⟨hsources, hmeasures⟩ := List.forall_mem_append.mp hsizes
  have hinputs : decode? (encode f.inputs) = some f.inputs := decode?_encode_list fun s hs =>
    decode?_encode_source (hsources _ (List.mem_map_of_mem hs))
  have hlayers : decode? (encode f.layers) = ifFinite f.numbers f.layers := by
    have helements : decode? (encode f.layers) = ifFinite f.numbers (f.layers.map id) :=
      decode?_encode_elements fun l hl => decode?_encode_layer
        (fun n hn => hmeasures n (List.mem_flatMap.mpr ⟨l, hl, hn⟩)) (hkept.of_mem hl)
    rwa [List.map_id] at helements
  refine (bind_fields? (by rfl) (by simp) _).trans ?_
  simp [decode?_encode_string, hinputs, hlayers]
  rfl

/-- A record reads back without what was derived for its flows. -/
theorem decode?_encode_record {r : Record} (hversion : r.version = Record.currentVersion)
    (hraw : ∀ s ∈ r.rawInputs, ∀ n ∈ s.toList, Extent.Fits n)
    (hsizes : ∀ f ∈ r.flows, ∀ n ∈ f.writtenSizes, Size.Fits n)
    (hkept : Kept (r.flows.flatMap Flow.numbers)) :
    decode? (encode r) = ifFinite (r.flows.flatMap Flow.numbers)
      { r with flows := r.flows.map Flow.clear } := by
  have hrawInputs : decode? (encode r.rawInputs) = some r.rawInputs :=
    decode?_encode_list fun s hs => decode?_encode_shape (hraw s hs)
  have hflows : decode? (encode r.flows) =
      ifFinite (r.flows.flatMap Flow.numbers) (r.flows.map Flow.clear) :=
    decode?_encode_elements fun f hf => decode?_encode_flow (hsizes f hf) (hkept.of_mem hf)
  have hread : version? (some (encode r.version)) = some r.version := by
    have hfits : Size.Fits Record.currentVersion := by decide
    rw [hversion, version?, field?_some, decode?_encode_nat hfits]
    rfl
  refine (bind_fields? (by rfl) (by simp) _).trans ?_
  simp [hread, hrawInputs, hflows]

end Document

end LayerFlow
