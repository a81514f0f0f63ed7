/-
LayerFlow.Proofs.Backend.Calls

A backend under observation: it does what the backend inside does and keeps the list of the
requests made of it, each with its answer.  No build can tell it from the backend inside, so the
list says which requests a build makes of any backend.

Main statements: `Observed.alike`, the observed backend behaves as the one inside, and the rules
`Observed.yields_appendGradient` and its kin, a request that is granted adds one call.
-/
import LayerFlow.Proofs.Backend.Abstraction

namespace LayerFlow

open Op

/-- A request made of a backend, with its answer. -/
inductive Call where
  | forward (kernel : Kernel) (padding : PaddingPolicy) (input answer : Handle)
  | gradient (forward : Handle) (kernel : Kernel) (outputGradient answer : Handle)
  | concatenation (inputs : List Handle) (answer : Handle)
  | concatenationGradient (concatenation outputGradient : Handle) (answers : List Handle)
  | outputGradient (output answer : Handle)
  | accumulation (gradients : List Handle) (answer : Handle)
  /-- A request that was not granted. -/
  | refused
deriving DecidableEq

/-- A backend with the requests made of it so far, first to last. -/
structure Observed (β : Type) where
  inner : β
  calls : List Call

namespace Observed

variable {β σ τ ε α : Type}

/-- The call that a request with this result amounts to. -/
def callOf (call : α → Call) : Except ε α → Call
  | .ok a => call a
  | .error _ => .refused

/-- Runs a request on the backend inside, which is a part of the state, and notes it down. -/
def watch (part : σ → Observed β) (inside : σ → τ) (putBack : τ → List Call → σ → σ)
    (call : α → Call) (x : Op ε τ α) : Op ε σ α := fun s =>
  let out := x.run (inside s)
  ⟨out.result, putBack out.state ((part s).calls ++ [callOf call out.result]) s, out.log⟩

/-- Runs a request on the backend inside and notes it down. -/
def watchPlain (call : α → Call) (x : Op ε β α) : Op ε (Observed β) α :=
  watch id inner (fun b calls _ => ⟨b, calls⟩) call x

instance [Backend β] : Backend (Observed β) where
  appendForward kernel padding input :=
    watch Prod.fst (fun s => (s.1.inner, s.2)) (fun t calls _ => (⟨t.1, calls⟩, t.2))
      (.forward kernel padding input) (Backend.appendForward kernel padding input)
  appendGradient forward kernel outputGradient :=
    watchPlain (.gradient forward kernel outputGradient)
      (Backend.appendGradient forward kernel outputGradient)
  appendConcatenation inputs :=
    watchPlain (.concatenation inputs) (Backend.appendConcatenation inputs)
  appendConcatenationGradient concatenation outputGradient :=
    watchPlain (.concatenationGradient concatenation outputGradient)
      (Backend.appendConcatenationGradient concatenation outputGradient)
  appendOutputGradient output :=
    watchPlain (.outputGradient output) (Backend.appendOutputGradient output)
  appendAccumulation gradients :=
    watchPlain (.accumulation gradients) (Backend.appendAccumulation gradients)

/-! ## Nothing but the list is added -/

theorem related_watchPlain (call : α → Call) (x : Op ε β α) :
    Related (fun (o : Observed β) (b : β) => o.inner = b) (watchPlain call x) x := by
  rintro o b rfl
  exact ⟨rfl, rfl⟩

variable [Backend β]

/-- The observed backend answers as the backend inside. -/
theorem alike : Backend.Alike (fun (o : Observed β) (b : β) => o.inner = b) where
  appendForward kernel padding input := by
    rintro ⟨o, store⟩ ⟨b, -⟩ ⟨rfl, rfl⟩
    exact ⟨rfl, rfl, rfl⟩
  appendGradient _ _ _ := related_watchPlain _ _
  appendConcatenation _ := related_watchPlain _ _
  appendConcatenationGradient _ _ := related_watchPlain _ _
  appendOutputGradient _ := related_watchPlain _ _
  appendAccumulation _ := related_watchPlain _ _

/-! ## Requests that are granted -/

omit [Backend β] in
theorem yields_watchPlain {call : α → Call} {x : Op ε β α} {o o' : Observed β} {a : α}
    (h : (watchPlain call x).Yields o a o') :
    x.Yields o.inner a o'.inner ∧ o'.calls = o.calls ++ [call a] := by
  obtain ⟨hresult, rfl⟩ := h
  have hinside : (x.run o.inner).result = .ok a := hresult
  refine ⟨⟨hinside, rfl⟩, ?_⟩
  show o.calls ++ [callOf call (x.run o.inner).result] = _
  rw [hinside]
  rfl

theorem yields_appendForward {kernel : Kernel} {padding : PaddingPolicy} {input node : Handle}
    {o o' : Observed β} {store store' : Option ParamStore}
    (h : (Backend.appendForward kernel padding input).Yields (o, store) node (o', store')) :
    o'.calls = o.calls ++ [.forward kernel padding input node] := by
  -- The request that is noted is told by the answer of the backend inside.
  obtain ⟨hresult, hstate⟩ := h
  have hinside : ((Backend.appendForward kernel padding input).run (o.inner, store)).result =
      .ok node := hresult
  rw [← congrArg (fun s => s.1.calls) hstate]
  show o.calls ++ [callOf _ ((Backend.appendForward kernel padding input).run
    (o.inner, store)).result] = _
  rw [hinside]
  rfl

theorem yields_appendGradient {forward : Handle} {kernel : Kernel} {outputGradient a : Handle}
    {o o' : Observed β}
    (h : (Backend.appendGradient forward kernel outputGradient).Yields o a o') :
    o'.calls = o.calls ++ [.gradient forward kernel outputGradient a] :=
  (yields_watchPlain h).2

theorem yields_appendConcatenation {inputs : List Handle} {a : Handle} {o o' : Observed β}
    (h : (Backend.appendConcatenation inputs).Yields o a o') :
    o'.calls = o.calls ++ [.concatenation inputs a] :=
  (yields_watchPlain h).2

theorem yields_appendConcatenationGradient {concatenation outputGradient : Handle}
    {answers : List Handle} {o o' : Observed β}
    (h : (Backend.appendConcatenationGradient concatenation outputGradient).Yields o answers o') :
    o'.calls = o.calls ++ [.concatenationGradient concatenation outputGradient answers] :=
  (yields_watchPlain h).2

theorem yields_appendOutputGradient {output a : Handle} {o o' : Observed β}
    (h : (Backend.appendOutputGradient output).Yields o a o') :
    o'.calls = o.calls ++ [.outputGradient output a] :=
  (yields_watchPlain h).2

theorem yields_appendAccumulation {gradients : List Handle} {a : Handle} {o o' : Observed β}
    (h : (Backend.appendAccumulation gradients).Yields o a o') :
    o'.calls = o.calls ++ [.accumulation gradients a] :=
  (yields_watchPlain h).2

end Observed

end LayerFlow
