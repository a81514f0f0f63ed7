/-
LayerFlow.Outcome

What an operation on a piece of state leaves behind: its answer or its failure, the state
after it, and the lines it logged.  A failing operation keeps the state it reached and the
lines it had logged, so half-finished work stays visible to whoever called it.

Main statements: the equations `run_pure`, `run_bind`, … that evaluate one operation on one
state, and the three monad laws.
-/

namespace LayerFlow

/-! ## Log lines -/

/-- How urgent a log line is. -/
inductive Severity where
  | debug
  | info
  | warn
deriving DecidableEq, Repr

/-- The word a severity is printed with. -/
def Severity.word : Severity → String
  | .debug => "DEBUG"
  | .info => "INFO"
  | .warn => "WARN"

/-- One logged line. -/
structure LogLine where
  severity : Severity
  text : String
deriving DecidableEq, Repr

/-- A log line as it is shown: the severity, a blank, the text. -/
def LogLine.render (line : LogLine) : String :=
  line.severity.word ++ " " ++ line.text

/-- The debug line with this text. -/
def LogLine.debug (text : String) : LogLine := ⟨.debug, text⟩

/-! ## Outcomes and operations -/

/-- The result of one run of an operation: answer or failure, final state, logged lines. -/
structure Outcome (ε σ α : Type) where
  result : Except ε α
  state : σ
  log : List LogLine

/-- An operation on a state of type `σ` that answers with an `α` or fails with an `ε`. -/
def Op (ε σ α : Type) : Type := σ → Outcome ε σ α

namespace Op

variable {ε σ τ α β : Type}

/-- Runs an operation on a state. -/
def run (x : Op ε σ α) (s : σ) : Outcome ε σ α := x s

/-- Answers without touching the state. -/
protected def pure (a : α) : Op ε σ α := fun s => ⟨.ok a, s, []⟩

/-- Runs the second operation on the state the first one left, unless the first one failed. -/
protected def bind (x : Op ε σ α) (f : α → Op ε σ β) : Op ε σ β := fun s =>
  match x s with
  | ⟨.error e, t, log⟩ => ⟨.error e, t, log⟩
  | ⟨.ok a, t, log⟩ =>
    let next := f a t
    ⟨next.result, next.state, log ++ next.log⟩

instance : Monad (Op ε σ) where
  pure := Op.pure
  bind := Op.bind

/-- Fails and leaves the state as it is. -/
def fail (e : ε) : Op ε σ α := fun s => ⟨.error e, s, []⟩

/-- Answers with the state. -/
def get : Op ε σ σ := fun s => ⟨.ok s, s, []⟩

/-- Replaces the state. -/
def set (s : σ) : Op ε σ Unit := fun _ => ⟨.ok (), s, []⟩

/-- Changes the state by a function. -/
def modify (f : σ → σ) : Op ε σ Unit := fun s => ⟨.ok (), f s, []⟩

/-- Logs some lines. -/
def note (lines : List LogLine) : Op ε σ Unit := fun s => ⟨.ok (), s, lines⟩

/-- Logs one line. -/
def say (severity : Severity) (text : String) : Op ε σ Unit := note [⟨severity, text⟩]

/-- Answers or fails as a pure computation does. -/
def ofExcept (x : Except ε α) : Op ε σ α := fun s => ⟨x, s, []⟩

/-- Renames the failures of an operation. -/
def mapError {δ : Type} (f : ε → δ) (x : Op ε σ α) : Op δ σ α := fun s =>
  let out := x s
  ⟨out.result.mapError f, out.state, out.log⟩

/-- Runs an operation on a part of the state; what it leaves of the part is put back, whether it
succeeds or fails. -/
def zoom (part : σ → τ) (putBack : τ → σ → σ) (x : Op ε τ α) : Op ε σ α := fun s =>
  let out := x (part s)
  ⟨out.result, putBack out.state s, out.log⟩

/-- Runs an operation for every element of a list, first to last, and collects the answers. -/
def forEach (f : α → Op ε σ β) : List α → Op ε σ (List β)
  | [] => pure []
  | a :: rest => do
    let b ← f a
    let bs ← forEach f rest
    pure (b :: bs)

/-! ## Evaluating an operation on a state -/

@[simp] theorem run_pure (a : α) (s : σ) :
    (pure a : Op ε σ α).run s = ⟨.ok a, s, []⟩ := rfl

theorem run_bind (x : Op ε σ α) (f : α → Op ε σ β) (s : σ) :
    (x >>= f).run s =
      match x.run s with
      | ⟨.error e, t, log⟩ => ⟨.error e, t, log⟩
      | ⟨.ok a, t, log⟩ =>
        ⟨((f a).run t).result, ((f a).run t).state, log ++ ((f a).run t).log⟩ := rfl

@[simp] theorem run_fail (e : ε) (s : σ) :
    (fail e : Op ε σ α).run s = ⟨.error e, s, []⟩ := rfl

@[simp] theorem run_get (s : σ) : (get : Op ε σ σ).run s = ⟨.ok s, s, []⟩ := rfl

@[simp] theorem run_set (t s : σ) : (set t : Op ε σ Unit).run s = ⟨.ok (), t, []⟩ := rfl

@[simp] theorem run_modify (f : σ → σ) (s : σ) :
    (modify f : Op ε σ Unit).run s = ⟨.ok (), f s, []⟩ := rfl

@[simp] theorem run_note (lines : List LogLine) (s : σ) :
    (note lines : Op ε σ Unit).run s = ⟨.ok (), s, lines⟩ := rfl

@[simp] theorem run_say (severity : Severity) (text : String) (s : σ) :
    (say severity text : Op ε σ Unit).run s = ⟨.ok (), s, [⟨severity, text⟩]⟩ := rfl

@[simp] theorem run_ofExcept (x : Except ε α) (s : σ) :
    (ofExcept x : Op ε σ α).run s = ⟨x, s, []⟩ := rfl

@[simp] theorem run_zoom (part : σ → τ) (putBack : τ → σ → σ) (x : Op ε τ α) (s : σ) :
    (zoom part putBack x).run s =
      ⟨(x.run (part s)).result, putBack (x.run (part s)).state s, (x.run (part s)).log⟩ := rfl

@[simp] theorem run_mapError {δ : Type} (f : ε → δ) (x : Op ε σ α) (s : σ) :
    (mapError f x).run s =
      ⟨(x.run s).result.mapError f, (x.run s).state, (x.run s).log⟩ := rfl

/-! ## Monad laws -/

@[simp] theorem pure_bind (a : α) (f : α → Op ε σ β) : (pure a : Op ε σ α) >>= f = f a := rfl

@[simp] theorem bind_pure (x : Op ε σ α) : x >>= pure = x := by
  funext s
  show (x >>= pure).run s = x.run s
  rw [run_bind]
  rcases h : x.run s with ⟨result, t, log⟩
  cases result <;> simp

theorem bind_assoc {γ : Type} (x : Op ε σ α) (f : α → Op ε σ β) (g : β → Op ε σ γ) :
    x >>= f >>= g = x >>= fun a => f a >>= g := by
  funext s
  show (x >>= f >>= g).run s = (x >>= fun a => f a >>= g).run s
  simp only [run_bind]
  rcases x.run s with ⟨result, t, log⟩
  cases result with
  | error e => rfl
  | ok a =>
    dsimp only
    rcases (f a).run t with ⟨next, u, more⟩
    cases next <;> simp [List.append_assoc]

end Op

end LayerFlow
