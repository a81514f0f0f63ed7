/-
LayerFlow.Json.Parse

Building the tree of a document from its tokens.  The builder holds the lists and records that
are still open, innermost first, so deep documents need no deep recursion.

Main statement: `run_append`, building from two token lists in a row.
-/
import LayerFlow.Json.Token

namespace LayerFlow.Json

/-! ## The builder -/

/-- An open list or record that waits for the value of its next element; what it holds already
is listed last one first. -/
inductive Frame where
  | list (done : List Json)
  | field (done : List (Option String × Json)) (key : Option String)

/-- What may come next. -/
inductive Expecting where
  /-- A value. -/
  | value
  /-- The first value of a list, or its end. -/
  | firstItem
  /-- A comma in a list, or its end. -/
  | nextItem (done : List Json)
  /-- The first key of a record, or its end. -/
  | firstKey
  /-- A key. -/
  | key (done : List (Option String × Json))
  /-- The colon after a key. -/
  | colon (done : List (Option String × Json)) (key : Option String)
  /-- A comma in a record, or its end. -/
  | nextField (done : List (Option String × Json))
  /-- Nothing: the document is complete. -/
  | nothing (v : Json)

/-- The builder: what may come next, and the frames that are open, innermost first. -/
structure Builder where
  expecting : Expecting
  frames : List Frame

namespace Builder

/-- The builder before the first token. -/
def start : Builder := ⟨.value, []⟩

/-- Hands a finished value to the innermost frame. -/
def deliver (v : Json) : List Frame → Builder
  | [] => ⟨.nothing v, []⟩
  | .list done :: frames => ⟨.nextItem (v :: done), frames⟩
  | .field done key :: frames => ⟨.nextField ((key, v) :: done), frames⟩

/-- Reads a token where a value is expected. -/
def stepValue (frames : List Frame) : Token → Option Builder
  | .null => some (deliver .null frames)
  | .bool b => some (deliver (.bool b) frames)
  | .number n => some (deliver (.number n) frames)
  | .text s => some (deliver (.text s) frames)
  | .listOpen => some ⟨.firstItem, frames⟩
  | .recordOpen => some ⟨.firstKey, frames⟩
  | .listClose | .recordClose | .comma | .colon => none

/-- Reads one token. -/
def step (b : Builder) (token : Token) : Option Builder :=
  match b.expecting, token with
  | .value, token => stepValue b.frames token
  | .firstItem, .listClose => some (deliver (.list []) b.frames)
  | .firstItem, token => stepValue (.list [] :: b.frames) token
  | .nextItem done, .comma => some ⟨.value, .list done :: b.frames⟩
  | .nextItem done, .listClose => some (deliver (.list done.reverse) b.frames)
  | .firstKey, .recordClose => some (deliver (.record []) b.frames)
  | .firstKey, .text key => some ⟨.colon [] key, b.frames⟩
  | .key done, .text key => some ⟨.colon done key, b.frames⟩
  | .colon done key, .colon => some ⟨.value, .field done key :: b.frames⟩
  | .nextField done, .comma => some ⟨.key done, b.frames⟩
  | .nextField done, .recordClose => some (deliver (.record done.reverse) b.frames)
  | _, _ => none

/-- Reads several tokens. -/
def run (b : Builder) (tokens : List Token) : Option Builder := tokens.foldlM step b

/-- The tree, if the document is complete. -/
def finish (b : Builder) : Option Json :=
  match b.expecting with
  | .nothing v => some v
  | _ => none

@[simp] theorem run_nil (b : Builder) : b.run [] = some b := rfl

@[simp] theorem run_cons (b : Builder) (token : Token) (tokens : List Token) :
    b.run (token :: tokens) = (b.step token).bind fun next => next.run tokens := rfl

/-- Building from two token lists in a row. -/
theorem run_append (b : Builder) (first second : List Token) :
    b.run (first ++ second) = (b.run first).bind fun next => next.run second := by
  simp [run, List.foldlM_append, bind, Option.bind]

end Builder

/-- The tree that a token list writes. -/
def ofTokens? (tokens : List Token) : Option Json :=
  (Builder.start.run tokens).bind Builder.finish

/-- The tree that a text writes. -/
def parse? (text : String) : Option Json :=
  (Token.scan? text.toList).bind ofTokens?

end LayerFlow.Json
