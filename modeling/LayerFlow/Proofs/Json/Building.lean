/-
LayerFlow.Proofs.Json.Building

The builder makes of the tokens of a tree that tree again, inside of any frames that are open.
Together with the scanner, a tree that can be written is read back from its text.

Main statements: `run_tokens`, building a tree, and `parse?_pretty`.
-/
import LayerFlow.Json.Parse
import LayerFlow.Proofs.Json.Scanning

namespace LayerFlow.Json

namespace Builder

/-- No tree starts with the end of a list. -/
theorem run_firstItem (v : Json) (frames : List Frame) :
    Builder.run ⟨.firstItem, frames⟩ v.tokens =
      Builder.run ⟨.value, .list [] :: frames⟩ v.tokens := by
  rcases v with _ | b | n | s | (_ | ⟨item, items⟩) | (_ | ⟨⟨key, v⟩, fields⟩) <;> rfl

mutual

/-- The tokens of a tree deliver that tree to the innermost frame. -/
theorem run_tokens : (v : Json) → (frames : List Frame) →
    Builder.run ⟨.value, frames⟩ v.tokens = some (deliver v frames)
  | .null, _ => rfl
  | .bool _, _ => rfl
  | .number _, _ => rfl
  | .text _, _ => rfl
  | .list [], _ => rfl
  | .list (item :: items), frames => by
    rw [tokens, run_cons]
    show Builder.run ⟨.firstItem, frames⟩ (item.tokens ++ itemTokens items ++ [.listClose]) = _
    rw [List.append_assoc, run_append, run_firstItem, run_tokens item, Option.bind_some]
    exact run_itemTokens items frames [item]
  | .record [], _ => rfl
  | .record ((key, v) :: fields), frames => by
    rw [tokens, run_cons]
    show Builder.run ⟨.value, .field [] key :: frames⟩
      (v.tokens ++ fieldTokens fields ++ [.recordClose]) = _
    rw [List.append_assoc, run_append, run_tokens v, Option.bind_some]
    exact run_fieldTokens fields frames [(key, v)]

/-- The tokens of the items that are left, and the end of the list. -/
theorem run_itemTokens : (items : List Json) → (frames : List Frame) → (done : List Json) →
    Builder.run ⟨.nextItem done, frames⟩ (itemTokens items ++ [.listClose]) =
      some (deliver (.list (done.reverse ++ items)) frames)
  | [], _, done => by
    rw [List.append_nil]
    rfl
  | item :: items, frames, done => by
    rw [itemTokens, List.cons_append, run_cons]
    show Builder.run ⟨.value, .list done :: frames⟩
      (item.tokens ++ itemTokens items ++ [.listClose]) = _
    rw [List.append_assoc, run_append, run_tokens item, Option.bind_some]
    refine (run_itemTokens items frames (item :: done)).trans ?_
    rw [List.reverse_cons, List.append_assoc, List.singleton_append]

/-- The tokens of the fields that are left, and the end of the record. -/
theorem run_fieldTokens : (fields : List (Option String × Json)) → (frames : List Frame) →
    (done : List (Option String × Json)) →
    Builder.run ⟨.nextField done, frames⟩ (fieldTokens fields ++ [.recordClose]) =
      some (deliver (.record (done.reverse ++ fields)) frames)
  | [], _, done => by
    rw [List.append_nil]
    rfl
  | (key, v) :: fields, frames, done => by
    rw [fieldTokens, List.cons_append, run_cons]
    show Builder.run ⟨.value, .field done key :: frames⟩
      (v.tokens ++ fieldTokens fields ++ [.recordClose]) = _
    rw [List.append_assoc, run_append, run_tokens v, Option.bind_some]
    refine (run_fieldTokens fields frames ((key, v) :: done)).trans ?_
    rw [List.reverse_cons, List.append_assoc, List.singleton_append]

end

end Builder

/-- The tokens of a tree write that tree. -/
theorem ofTokens?_tokens (v : Json) : ofTokens? v.tokens = some v := by
  rw [ofTokens?, Builder.start, Builder.run_tokens]
  rfl

/-- A tree that can be written is read back from its text. -/
theorem parse?_pretty {v : Json} (h : v.Proper) : parse? v.pretty = some v := by
  rw [parse?, pretty, String.toList_ofList, (Token.scans_render Token.spaced_pretty h 0).finish,
    Option.bind_some, ofTokens?_tokens]

end LayerFlow.Json
