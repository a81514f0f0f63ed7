/-
LayerFlow.Proofs.Json.Scanning

The scanner finds in the text of a tree the tokens of that tree, whatever blanks stand between
them.  A numeral has no end of its own: the scanner knows that it is complete only at the next
character, so what has been read so far is described up to a complete numeral.

Main statements: `scans_numeral` and `scans_quote`, the two tokens with an inner structure, and
`scans_render`, whole trees.
-/
import LayerFlow.Json.Render
import LayerFlow.Json.Token
import Mathlib.Tactic.IntervalCases

namespace LayerFlow

/-! ## Trees that are written -/

/-- A numeral as documents have them: no leading zero, and at least one digit wherever digits are
announced. -/
structure Numeral.Proper (n : Numeral) : Prop where
  whole : n.whole = ['0'] ∨ ∃ c rest, n.whole = c :: rest ∧ c ≠ '0' ∧
    ∀ d ∈ c :: rest, isDigit d = true
  fraction : ∀ ds, n.fraction = some ds → ds ≠ [] ∧ ∀ d ∈ ds, isDigit d = true
  power : ∀ p, n.power = some p → (∀ c, p.sign = some c → c = '+' ∨ c = '-') ∧
    p.digits ≠ [] ∧ ∀ d ∈ p.digits, isDigit d = true

/-- The characters in front of the point. -/
def Numeral.front (n : Numeral) : List Char := (if n.negative then ['-'] else []) ++ n.whole

/-- The point and the digits behind it. -/
def Numeral.pointed (n : Numeral) : List Char := n.fraction.elim [] fun ds => '.' :: ds

/-- The exponent with its mark. -/
def Numeral.raised (n : Numeral) : List Char :=
  n.power.elim [] fun p => 'e' :: (p.sign.toList ++ p.digits)

theorem Numeral.render_eq (n : Numeral) : n.render = n.front ++ n.pointed ++ n.raised := by
  rcases n with ⟨negative, whole, _ | ds, _ | p⟩ <;> rfl

/-- A tree that can be written: its strings have characters, its numerals are proper. -/
inductive Json.Proper : Json → Prop
  | null : Proper .null
  | bool (b : Bool) : Proper (.bool b)
  | number {n : Numeral} (h : n.Proper) : Proper (.number n)
  | text (s : String) : Proper (.text (some s))
  | list {items : List Json} (h : ∀ v ∈ items, Proper v) : Proper (.list items)
  | record {fields : List (Option String × Json)} (hkeys : ∀ field ∈ fields, field.1.isSome)
      (h : ∀ field ∈ fields, Proper field.2) : Proper (.record fields)

namespace Json

mutual

/-- The tokens of a tree. -/
def tokens : Json → List Token
  | .null => [.null]
  | .bool b => [.bool b]
  | .number n => [.number n]
  | .text s => [.text s]
  | .list [] => [.listOpen, .listClose]
  | .list (item :: items) => .listOpen :: (tokens item ++ itemTokens items ++ [.listClose])
  | .record [] => [.recordOpen, .recordClose]
  | .record ((key, v) :: fields) =>
    .recordOpen :: .text key :: .colon :: (tokens v ++ fieldTokens fields ++ [.recordClose])

/-- The tokens of the items of a list after the first one. -/
def itemTokens : List Json → List Token
  | [] => []
  | item :: items => .comma :: (tokens item ++ itemTokens items)

/-- The tokens of the fields of a record after the first one. -/
def fieldTokens : List (Option String × Json) → List Token
  | [] => []
  | (key, v) :: fields => .comma :: .text key :: .colon :: (tokens v ++ fieldTokens fields)

end

end Json

namespace Token

/-! ## Texts and their tokens -/

/-- The scanner has found some tokens, the last of which may be a numeral that is complete but
could go on. -/
def Scanner.Has (s : Scanner) (found : List Token) : Prop :=
  s = ⟨.between, found⟩ ∨ ∃ phase n rest, s = ⟨.number phase n, rest⟩ ∧
    phase.complete = true ∧ found = .number n :: rest

/-- A text that starts between two tokens and holds these tokens. -/
def Scans (cs : List Char) (tokens : List Token) : Prop :=
  ∀ found, ∃ s : Scanner, Scanner.run ⟨.between, found⟩ cs = some s ∧
    s.Has (tokens.reverse ++ found)

/-- A character that can stand in a numeral after its first digit. -/
def Continues (c : Char) : Prop := isDigit c = true ∨ c = '.' ∨ c = 'e' ∨ c = 'E'

/-- A text that does not go on with a numeral before it. -/
def Detached (cs : List Char) : Prop := ∀ c ∈ cs.head?, ¬ Continues c

theorem Scanner.Has.finish {s : Scanner} {found : List Token} (h : s.Has found) :
    s.finish = some found.reverse := by
  rcases h with rfl | ⟨phase, n, rest, rfl, hcomplete, rfl⟩
  · rfl
  · simp only [Scanner.finish, hcomplete, if_true]

theorem NumeralPhase.next_eq_ended {phase : NumeralPhase} (hcomplete : phase.complete = true)
    {c : Char} (hc : ¬ Continues c) : phase.next c = .ended := by
  simp only [Continues, not_or] at hc
  obtain ⟨hdigit, hpoint, hmark, hMark⟩ := hc
  cases phase with
  | sign | point | mark | powerSign => cases hcomplete
  | zero | whole | fraction | power => simp [NumeralPhase.next, hdigit, hpoint, hmark, hMark]

/-- Whatever was found last, a text that is detached from it is read as one between tokens. -/
theorem Scanner.Has.run {s : Scanner} {found : List Token} (h : s.Has found) {cs : List Char}
    (hcs : Detached cs) {t : Scanner} {more : List Token}
    (hrun : Scanner.run ⟨.between, found⟩ cs = some t) (ht : t.Has more) :
    ∃ u : Scanner, s.run cs = some u ∧ u.Has more := by
  rcases h with rfl | ⟨phase, n, rest, rfl, hcomplete, rfl⟩
  · exact ⟨t, hrun, ht⟩
  · cases cs with
    | nil =>
      cases hrun
      refine ⟨_, rfl, ?_⟩
      -- Nothing was read, so the numeral may still go on.
      rcases ht with heq | ⟨_, _, _, heq, _⟩
      · cases heq
        exact .inr ⟨phase, n, rest, rfl, hcomplete, rfl⟩
      · cases heq
    | cons c cs =>
      have hended := NumeralPhase.next_eq_ended hcomplete (hcs c rfl)
      have hstep : Scanner.step ⟨.number phase n, rest⟩ c =
          Scanner.step ⟨.between, .number n :: rest⟩ c := by
        simp only [Scanner.step, hended]
      rw [Scanner.run_cons, hstep, ← Scanner.run_cons]
      exact ⟨t, hrun, ht⟩

theorem scans_nil : Scans [] [] := fun _ => ⟨_, rfl, .inl rfl⟩

/-- Two texts in a row hold the tokens of both, if no numeral of the first one goes on in the
second. -/
theorem Scans.append {cs ds : List Char} {ts us : List Token} (h : Scans cs ts)
    (h' : Scans ds us) (hds : Detached ds) : Scans (cs ++ ds) (ts ++ us) := by
  intro found
  obtain ⟨s, hs, hfirst⟩ := h found
  obtain ⟨t, ht, hsecond⟩ := h' (ts.reverse ++ found)
  obtain ⟨u, hu, hboth⟩ := hfirst.run hds ht hsecond
  refine ⟨u, ?_, ?_⟩
  · rw [Scanner.run_append, hs]
    exact hu
  · rwa [List.reverse_append, List.append_assoc]

/-- Nothing after a token that ends by itself needs to be detached from it. -/
theorem Scans.cons {c : Char} {token : Token} {cs : List Char} {ts : List Token}
    (hc : ∀ found, Scanner.stepBetween found c = some ⟨.between, token :: found⟩)
    (h : Scans cs ts) : Scans (c :: cs) (token :: ts) := by
  intro found
  obtain ⟨s, hs, hhas⟩ := h (token :: found)
  refine ⟨s, ?_, ?_⟩
  · rw [Scanner.run_cons, Scanner.step, hc]
    exact hs
  · rwa [List.reverse_cons, List.append_assoc]

theorem Scans.finish {cs : List Char} {ts : List Token} (h : Scans cs ts) :
    scan? cs = some ts := by
  obtain ⟨s, hs, hhas⟩ := h []
  rw [scan?, Scanner.start, hs]
  simpa using hhas.finish

/-! ## Blanks -/

/-- What may stand between tokens. -/
def Blank (c : Char) : Prop := c = ' ' ∨ c = '\n' ∨ c = '\r' ∨ c = '\t'

theorem Blank.not_continues {c : Char} (h : Blank c) : ¬ Continues c := by
  rcases h with rfl | rfl | rfl | rfl <;> simp [Continues, isDigit]

/-- Blanks in front of a text do not matter. -/
theorem Scans.blanks_append {cs ds : List Char} {ts : List Token} (h : Scans ds ts)
    (hcs : ∀ c ∈ cs, Blank c) : Scans (cs ++ ds) ts := by
  induction cs with
  | nil => exact h
  | cons c rest ih =>
    rw [List.forall_mem_cons] at hcs
    intro found
    obtain ⟨s, hs, hhas⟩ := ih hcs.2 found
    have hstep : Scanner.step ⟨.between, found⟩ c = some ⟨.between, found⟩ := if_pos hcs.1
    exact ⟨s, by rw [List.cons_append, Scanner.run_cons, hstep]; exact hs, hhas⟩

theorem detached_nil : Detached [] := by
  intro c hc
  cases hc

theorem detached_cons {c : Char} (cs : List Char) (h : ¬ Continues c) : Detached (c :: cs) := by
  rintro _ ⟨⟩
  exact h

/-- Blanks in front detach a text, and otherwise it has to be detached itself. -/
theorem detached_blanks_append {cs ds : List Char} (h : ∀ c ∈ cs, Blank c) (hds : Detached ds) :
    Detached (cs ++ ds) := by
  cases cs with
  | nil => exact hds
  | cons c rest => exact detached_cons _ (h c List.mem_cons_self).not_continues

/-! ## Numerals -/

section

variable {found : List Token} {n : Numeral}

/-- A character that a numeral goes on with. -/
theorem run_number_cons {phase phase' : NumeralPhase} {c : Char} (h : phase.next c = .more phase')
    (n : Numeral) (cs : List Char) : Scanner.run ⟨.number phase n, found⟩ (c :: cs) =
      Scanner.run ⟨.number phase' (extend n phase' c), found⟩ cs := by
  have hstep : Scanner.step ⟨.number phase n, found⟩ c =
      some ⟨.number phase' (extend n phase' c), found⟩ := by
    simp only [Scanner.step, h]
  rw [Scanner.run_cons, hstep, Option.bind_some]

/-- Three phases go on with any number of digits. -/
theorem next_digit {phase : NumeralPhase} (hphase : phase ∈ [.whole, .fraction, .power]) {c : Char}
    (h : isDigit c = true) : phase.next c = .more phase := by
  simp only [List.mem_cons, List.not_mem_nil, or_false] at hphase
  rcases hphase with rfl | rfl | rfl <;> exact if_pos h

theorem run_digits {phase : NumeralPhase} (hphase : phase ∈ [.whole, .fraction, .power])
    {ds : List Char} (h : ∀ d ∈ ds, isDigit d = true) (n : Numeral) :
    Scanner.run ⟨.number phase n, found⟩ ds =
      some ⟨.number phase (ds.foldl (fun n c => extend n phase c) n), found⟩ := by
  induction ds generalizing n with
  | nil => rfl
  | cons d rest ih =>
    rw [List.forall_mem_cons] at h
    rw [run_number_cons (next_digit hphase h.1), ih h.2, List.foldl_cons]

theorem foldl_extend_whole (ds : List Char) (n : Numeral) :
    ds.foldl (fun n c => extend n .whole c) n = { n with whole := n.whole ++ ds } := by
  induction ds generalizing n with
  | nil => simp
  | cons d rest ih =>
    rw [List.foldl_cons, ih]
    simp [extend]

theorem foldl_extend_fraction (ds done : List Char) (hn : n.fraction = some done) :
    ds.foldl (fun n c => extend n .fraction c) n = { n with fraction := some (done ++ ds) } := by
  induction ds generalizing n done with
  | nil =>
    rw [List.append_nil, ← hn]
    rfl
  | cons d rest ih =>
    rw [List.foldl_cons, ih (done ++ [d]) (by simp [extend, hn])]
    simp [extend]

theorem foldl_extend_power (ds done : List Char) {sign : Option Char}
    (hn : n.power = some ⟨sign, done⟩) :
    ds.foldl (fun n c => extend n .power c) n = { n with power := some ⟨sign, done ++ ds⟩ } := by
  induction ds generalizing n done with
  | nil =>
    rw [List.append_nil, ← hn]
    rfl
  | cons d rest ih =>
    rw [List.foldl_cons, ih (done ++ [d]) (by simp [extend, hn])]
    simp [extend, hn]

/-- A character that is a digit is one of ten. -/
theorem exists_of_isDigit {c : Char} (h : isDigit c = true) :
    ∃ k < 10, c = Char.ofNat (48 + k) := by
  simp only [isDigit, Bool.and_eq_true, decide_eq_true_eq] at h
  refine ⟨c.toNat - 48, by omega, ?_⟩
  rw [Nat.add_sub_cancel' h.1, Char.ofNat_toNat]

/-- The phase after the first digit of a numeral; a leading zero stands alone. -/
def NumeralPhase.afterDigit (c : Char) : NumeralPhase := if c = '0' then .zero else .whole

/-- A sign, if there is one, and the first digit. -/
theorem run_first (negative : Bool) {c : Char} (h : isDigit c = true) (found : List Token) :
    Scanner.run ⟨.between, found⟩ ((if negative then ['-'] else []) ++ [c]) =
      some ⟨.number (.afterDigit c) ⟨negative, [c], none, none⟩, found⟩ := by
  obtain ⟨k, hk, rfl⟩ := exists_of_isDigit h
  cases negative <;> interval_cases k <;> rfl

/-- The phases before a point: the whole part is there. -/
def NumeralPhase.Whole (phase : NumeralPhase) : Prop := phase = .zero ∨ phase = .whole

theorem run_front (h : n.Proper) (found : List Token) : ∃ phase : NumeralPhase, phase.Whole ∧
    Scanner.run ⟨.between, found⟩ n.front =
      some ⟨.number phase ⟨n.negative, n.whole, none, none⟩, found⟩ := by
  rw [Numeral.front]
  rcases h.whole with hzero | ⟨c, rest, hwhole, hne, hdigits⟩
  · rw [hzero]
    exact ⟨.zero, .inl rfl, run_first n.negative rfl found⟩
  · rw [List.forall_mem_cons] at hdigits
    have hphase : NumeralPhase.afterDigit c = .whole := if_neg hne
    refine ⟨.whole, .inr rfl, ?_⟩
    rw [hwhole, List.append_cons, Scanner.run_append, run_first n.negative hdigits.1,
      Option.bind_some, hphase, run_digits (by simp) hdigits.2, foldl_extend_whole]
    rfl

/-- The phases before an exponent: the whole part and the fraction, if any, are there. -/
def NumeralPhase.Mantissa (phase : NumeralPhase) : Prop := phase.Whole ∨ phase = .fraction

theorem run_pointed {phase : NumeralPhase} (hphase : phase.Whole) (h : n.Proper)
    (found : List Token) : ∃ phase' : NumeralPhase, phase'.Mantissa ∧
    Scanner.run ⟨.number phase ⟨n.negative, n.whole, none, none⟩, found⟩ n.pointed =
      some ⟨.number phase' ⟨n.negative, n.whole, n.fraction, none⟩, found⟩ := by
  rw [Numeral.pointed]
  cases hfraction : n.fraction with
  | none => exact ⟨phase, .inl hphase, rfl⟩
  | some ds =>
    obtain ⟨hne, hdigits⟩ := h.fraction ds hfraction
    obtain ⟨d, rest, rfl⟩ := List.exists_cons_of_ne_nil hne
    rw [List.forall_mem_cons] at hdigits
    have hpoint : phase.next '.' = .more .point := by
      rcases hphase with rfl | rfl <;> rfl
    have hdigit : NumeralPhase.point.next d = .more .fraction := if_pos hdigits.1
    refine ⟨.fraction, .inr rfl, ?_⟩
    rw [Option.elim_some, run_number_cons hpoint, run_number_cons hdigit,
      run_digits (by simp) hdigits.2, foldl_extend_fraction rest [d] rfl]
    rfl

theorem run_raised {phase : NumeralPhase} (hphase : phase.Mantissa) (h : n.Proper)
    (found : List Token) : ∃ phase' : NumeralPhase, phase'.complete = true ∧
    Scanner.run ⟨.number phase ⟨n.negative, n.whole, n.fraction, none⟩, found⟩ n.raised =
      some ⟨.number phase' ⟨n.negative, n.whole, n.fraction, n.power⟩, found⟩ := by
  rw [Numeral.raised]
  cases hpower : n.power with
  | none =>
    refine ⟨phase, ?_, rfl⟩
    rcases hphase with (rfl | rfl) | rfl <;> rfl
  | some p =>
    obtain ⟨sign, digits⟩ := p
    obtain ⟨hsign, hne, hdigits⟩ := h.power _ hpower
    obtain ⟨d, rest, rfl⟩ := List.exists_cons_of_ne_nil hne
    rw [List.forall_mem_cons] at hdigits
    have hmark : phase.next 'e' = .more .mark := by
      rcases hphase with (rfl | rfl) | rfl <;> rfl
    have hrest : ∀ m : Numeral, m.power = some ⟨sign, [d]⟩ →
        Scanner.run ⟨.number .power m, found⟩ rest =
          some ⟨.number .power { m with power := some ⟨sign, d :: rest⟩ }, found⟩ := by
      intro m hm
      rw [run_digits (by simp) hdigits.2, foldl_extend_power rest [d] hm]
      rfl
    refine ⟨.power, rfl, ?_⟩
    rw [Option.elim_some, run_number_cons hmark]
    -- The exponent may have a sign of its own.
    cases sign with
    | none =>
      have hdigit : NumeralPhase.mark.next d = .more .power := by
        obtain ⟨k, hk, rfl⟩ := exists_of_isDigit hdigits.1
        interval_cases k <;> rfl
      rw [Option.toList_none, List.nil_append, run_number_cons hdigit, hrest _ rfl]
      rfl
    | some c =>
      have hdigit : NumeralPhase.powerSign.next d = .more .power := if_pos hdigits.1
      have hc : NumeralPhase.mark.next c = .more .powerSign := if_pos (hsign c rfl)
      rw [Option.toList_some, List.singleton_append, run_number_cons hc, run_number_cons hdigit,
        hrest _ rfl]
      rfl

/-- A numeral is one token. -/
theorem scans_numeral (h : n.Proper) : Scans n.render [.number n] := by
  intro found
  obtain ⟨phase, hphase, hfront⟩ := run_front h found
  obtain ⟨phase', hphase', hpointed⟩ := run_pointed hphase h found
  obtain ⟨phase'', hcomplete, hraised⟩ := run_raised hphase' h found
  refine ⟨⟨.number phase'' n, found⟩, ?_, .inr ⟨phase'', n, found, rfl, hcomplete, rfl⟩⟩
  rw [Numeral.render_eq, Scanner.run_append, Scanner.run_append, hfront, Option.bind_some,
    hpointed, Option.bind_some, hraised]

end

/-! ## Strings -/

/-- Inside of a string, a character that was escaped is read as itself. -/
theorem run_escapeChar (q : Quoted) (found : List Token) (c : Char) :
    Scanner.run ⟨.quoted q, found⟩ (Json.escapeChar c) = some ⟨.quoted (q.push c), found⟩ := by
  by_cases hcontrol : c.toNat < 32
  · -- Every control character has an escape, by a letter or by its number.
    obtain ⟨k, hk, rfl⟩ : ∃ k < 32, c = Char.ofNat k :=
      ⟨c.toNat, hcontrol, (Char.ofNat_toNat c).symm⟩
    interval_cases k <;> rfl
  unfold Json.escapeChar
  split
  · next h => rw [h]; rfl
  split
  · next h => rw [h]; rfl
  next hquote hbackslash =>
  have hstep : Scanner.step ⟨.quoted q, found⟩ c = some ⟨.quoted (q.push c), found⟩ := by
    simp only [Scanner.step, hquote, hbackslash, hcontrol, if_false]
  have hplain : ∀ k < 32, c.toNat ≠ k := fun k hk heq => hcontrol (heq ▸ hk)
  rw [if_neg (hplain 8 (by decide)), if_neg (hplain 12 (by decide)),
    if_neg (hplain 10 (by decide)), if_neg (hplain 13 (by decide)), if_neg (hplain 9 (by decide)),
    Scanner.run_cons, hstep]
  rfl

theorem run_escape (cs : List Char) (q : Quoted) (found : List Token) :
    Scanner.run ⟨.quoted q, found⟩ (Json.escape cs) =
      some ⟨.quoted (cs.foldl Quoted.push q), found⟩ := by
  induction cs generalizing q with
  | nil => rfl
  | cons c rest ih =>
    rw [Json.escape, List.flatMap_cons, Scanner.run_append, run_escapeChar]
    exact ih (q.push c)

theorem foldl_push (cs done : List Char) :
    cs.foldl Quoted.push ⟨done, none, true⟩ = ⟨cs.reverse ++ done, none, true⟩ := by
  induction cs generalizing done with
  | nil => rfl
  | cons c rest ih =>
    rw [List.foldl_cons, List.reverse_cons, List.append_assoc]
    exact ih (c :: done)

/-- A string is one token. -/
theorem scans_quote (s : String) : Scans (Json.quote s) [.text (some s)] := by
  intro found
  refine ⟨_, ?_, .inl rfl⟩
  have hclose : (Quoted.mk (s.toList.reverse ++ []) none true).close = some s := by
    simp [Quoted.close]
  show Scanner.run ⟨.quoted .empty, found⟩ (Json.escape s.toList ++ ['\"']) = _
  rw [Scanner.run_append, run_escape, Quoted.empty, foldl_push, ← hclose]
  rfl

/-! ## Trees -/

/-- Blanks only. -/
structure Spaced (spacing : Json.Spacing) : Prop where
  line : ∀ depth, ∀ c ∈ spacing.line depth, Blank c
  colon : ∀ c ∈ spacing.colon, Blank c

theorem spaced_pretty : Spaced .pretty where
  line depth c hc := by
    rcases List.mem_cons.mp hc with rfl | hc
    · exact .inr (.inl rfl)
    · exact .inl (List.eq_of_mem_replicate hc)
  colon c hc := .inl (List.mem_singleton.mp hc)

section

variable {spacing : Json.Spacing}

theorem detached_renderItems (items : List Json) (depth : Nat) {rest : List Char}
    (h : Detached rest) : Detached (Json.renderItems spacing depth items ++ rest) := by
  cases items with
  | nil => exact h
  | cons item items => exact detached_cons _ (by simp [Continues, isDigit])

theorem detached_renderFields (fields : List (Option String × Json)) (depth : Nat)
    {rest : List Char} (h : Detached rest) :
    Detached (Json.renderFields spacing depth fields ++ rest) := by
  cases fields with
  | nil => exact h
  | cons field fields => exact detached_cons _ (by simp [Continues, isDigit])

theorem scans_renderItems (hspacing : Spaced spacing) {items : List Json} (depth : Nat)
    (h : ∀ v ∈ items, Scans (v.render spacing depth) v.tokens) :
    Scans (Json.renderItems spacing depth items) (Json.itemTokens items) := by
  induction items with
  | nil => exact scans_nil
  | cons item items ih =>
    rw [List.forall_mem_cons] at h
    rw [Json.renderItems, Json.itemTokens, List.append_assoc]
    have hmore : Detached (Json.renderItems spacing depth items ++ []) :=
      detached_renderItems items depth detached_nil
    rw [List.append_nil] at hmore
    exact .cons (fun _ => rfl)
      ((h.1.append (ih h.2) hmore).blanks_append (hspacing.line depth))

/-- A key, a colon and the text of a value. -/
theorem scans_field (hspacing : Spaced spacing) (key : String) {cs : List Char} {ts : List Token}
    (h : Scans cs ts) : Scans (Json.quote key ++ ':' :: (spacing.colon ++ cs))
      (.text (some key) :: .colon :: ts) := by
  have hcolon : Scans (':' :: (spacing.colon ++ cs)) (.colon :: ts) :=
    .cons (fun _ => rfl) (h.blanks_append hspacing.colon)
  exact (scans_quote key).append hcolon (detached_cons _ (by simp [Continues, isDigit]))

theorem scans_renderFields (hspacing : Spaced spacing) {fields : List (Option String × Json)}
    (depth : Nat) (hkeys : ∀ field ∈ fields, field.1.isSome)
    (h : ∀ field ∈ fields, Scans (field.2.render spacing depth) field.2.tokens) :
    Scans (Json.renderFields spacing depth fields) (Json.fieldTokens fields) := by
  induction fields with
  | nil => exact scans_nil
  | cons field fields ih =>
    obtain ⟨key, v⟩ := field
    rw [List.forall_mem_cons] at h hkeys
    obtain ⟨key, rfl⟩ := Option.isSome_iff_exists.mp hkeys.1
    have hmore : Detached (Json.renderFields spacing depth fields ++ []) :=
      detached_renderFields fields depth detached_nil
    rw [List.append_nil] at hmore
    have hfield := scans_field hspacing key (h.1.append (ih hkeys.2 h.2) hmore)
    simp only [Json.renderFields, Json.fieldTokens, Option.getD_some, List.append_assoc,
      List.cons_append]
    exact .cons (fun _ => rfl) (hfield.blanks_append (hspacing.line depth))

/-- A bracket that closes a list or a record, on a line of its own. -/
theorem scans_close (hspacing : Spaced spacing) (depth : Nat) {c : Char} {token : Token}
    (hc : ∀ found, Scanner.stepBetween found c = some ⟨.between, token :: found⟩) :
    Scans (spacing.line depth ++ [c]) [token] :=
  (Scans.cons hc scans_nil).blanks_append (hspacing.line depth)

theorem detached_close (hspacing : Spaced spacing) (depth : Nat) {c : Char}
    (hc : ¬ Continues c) : Detached (spacing.line depth ++ [c]) :=
  detached_blanks_append (hspacing.line depth) (detached_cons [] hc)

/-- The text of a tree holds the tokens of the tree. -/
theorem scans_render (hspacing : Spaced spacing) {v : Json} (h : v.Proper) (depth : Nat) :
    Scans (v.render spacing depth) v.tokens := by
  induction h generalizing depth with
  | null => exact fun _ => ⟨_, rfl, .inl rfl⟩
  | bool b => cases b <;> exact fun _ => ⟨_, rfl, .inl rfl⟩
  | number h => exact scans_numeral h
  | text s => exact scans_quote s
  | @list items h ih =>
    cases items with
    | nil => exact .cons (fun _ => rfl) (.cons (fun _ => rfl) scans_nil)
    | cons item items =>
      rw [List.forall_mem_cons] at ih
      have hitems := scans_renderItems hspacing (depth + 1) fun v hv => ih.2 v hv (depth + 1)
      have hlast := detached_close hspacing depth (c := ']') (by simp [Continues, isDigit])
      have hrest := hitems.append (scans_close hspacing depth (c := ']') fun _ => rfl) hlast
      have hall := (ih.1 (depth + 1)).append hrest
        (detached_renderItems items (depth + 1) hlast)
      simp only [Json.render, Json.tokens, List.append_assoc]
      exact .cons (fun _ => rfl) (hall.blanks_append (hspacing.line (depth + 1)))
  | @record fields hkeys h ih =>
    cases fields with
    | nil => exact .cons (fun _ => rfl) (.cons (fun _ => rfl) scans_nil)
    | cons field fields =>
      obtain ⟨key, v⟩ := field
      rw [List.forall_mem_cons] at ih hkeys
      obtain ⟨key, rfl⟩ := Option.isSome_iff_exists.mp hkeys.1
      have hfields := scans_renderFields hspacing (depth + 1) hkeys.2
        fun field hfield => ih.2 field hfield (depth + 1)
      have hlast := detached_close hspacing depth (c := '\x7d') (by simp [Continues, isDigit])
      have hrest := hfields.append (scans_close hspacing depth (c := '\x7d') fun _ => rfl) hlast
      have hall := scans_field hspacing key ((ih.1 (depth + 1)).append hrest
        (detached_renderFields fields (depth + 1) hlast))
      simp only [Json.render, Json.tokens, Option.getD_some, List.append_assoc, List.cons_append]
      exact .cons (fun _ => rfl) (hall.blanks_append (hspacing.line (depth + 1)))

end

end Token

end LayerFlow
