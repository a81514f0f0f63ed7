/-
LayerFlow.ParamStore

The parameter buffers of a layer, one value per channel.  Buffers come into being at their
first use, filled with zeros.  A buffer that is shorter than the channel count when it is used
is replaced by zeros; the channel count never falls.

Main statements: `channelCount_growTo`, and `touch_buffer?`, what a buffer holds after its use.
-/
import LayerFlow.Binary32
import LayerFlow.Dictionary

namespace LayerFlow

/-- Named parameter buffers together with the name of their owner. -/
structure ParamStore where
  owner : String
  channelCount : Nat
  buffers : Dictionary (List Binary32)
deriving DecidableEq

namespace ParamStore

/-- A store without buffers. -/
def empty (owner : String) : ParamStore := ⟨owner, 0, .empty⟩

/-- Raises the channel count. -/
def growTo (store : ParamStore) (channels : Nat) : ParamStore :=
  { store with channelCount := max store.channelCount channels }

/-- A buffer as it stands. -/
def buffer? (store : ParamStore) (name : String) : Option (List Binary32) :=
  store.buffers.find? name

/-- What a buffer holds once it is used: its values, or zeros if it is too short.  That there is
memory for one value per channel is taken for granted, however many channels there are. -/
def used (store : ParamStore) (name : String) : List Binary32 :=
  let held := (store.buffer? name).getD []
  if held.length < store.channelCount then List.replicate store.channelCount .zero else held

/-- Uses a buffer: from here on it exists and is long enough. -/
def touch (store : ParamStore) (name : String) : ParamStore :=
  { store with buffers := store.buffers.insert name (store.used name) }

/-- Uses several buffers in turn. -/
def touchAll (store : ParamStore) (names : List String) : ParamStore :=
  names.foldl touch store

/-- Fills a buffer with one value. -/
def fill (store : ParamStore) (name : String) (value : Binary32) : ParamStore :=
  { store with
    buffers := store.buffers.insert name ((store.used name).map fun _ => value) }

/-- Writes one element of a buffer; an index past its end changes nothing. -/
def set (store : ParamStore) (name : String) (index : Nat) (value : Binary32) : ParamStore :=
  { store with buffers := store.buffers.insert name ((store.used name).set index value) }

/-- How the store is called. -/
def label (store : ParamStore) : String := store.owner ++ " parameters"

/-- Equality in which values are compared as numbers. -/
def eqv (a b : ParamStore) : Bool :=
  a.owner == b.owner && a.channelCount == b.channelCount &&
    a.buffers.entries.length == b.buffers.entries.length &&
    (a.buffers.entries.zip b.buffers.entries).all fun pair =>
      pair.1.1 == pair.2.1 && pair.1.2.length == pair.2.2.length &&
        (pair.1.2.zip pair.2.2).all fun values => values.1.eqv values.2

/-! ## Laws -/

@[simp] theorem channelCount_growTo (store : ParamStore) (channels : Nat) :
    (store.growTo channels).channelCount = max store.channelCount channels := rfl

@[simp] theorem channelCount_touch (store : ParamStore) (name : String) :
    (store.touch name).channelCount = store.channelCount := rfl

@[simp] theorem owner_touch (store : ParamStore) (name : String) :
    (store.touch name).owner = store.owner := rfl

/-- After its use a buffer holds the used values; other buffers are as before. -/
theorem touch_buffer? (store : ParamStore) (name other : String) :
    (store.touch name).buffer? other =
      if other = name then some (store.used name) else store.buffer? other := by
  split
  · next h => subst h; simp [touch, buffer?]
  · next h => simp [touch, buffer?, Dictionary.find?_insert_of_ne _ h]

/-- A used buffer is long enough for every channel. -/
theorem channelCount_le_length_used (store : ParamStore) (name : String) :
    store.channelCount ≤ (store.used name).length := by
  unfold used
  dsimp only
  split
  · simp
  · omega

/-- What a buffer holds once it is used does not change by using buffers. -/
theorem used_touch (store : ParamStore) (name other : String) :
    (store.touch name).used other = store.used other := by
  by_cases h : other = name
  · subst h
    have hlong := channelCount_le_length_used store other
    rw [used, touch_buffer?, if_pos rfl, Option.getD_some, channelCount_touch,
      if_neg (Nat.not_lt.mpr hlong)]
  · rw [used, touch_buffer?, if_neg h, channelCount_touch, ← used]

@[simp] theorem channelCount_touchAll (store : ParamStore) (names : List String) :
    (store.touchAll names).channelCount = store.channelCount := by
  induction names generalizing store with
  | nil => rfl
  | cons name rest ih => exact (ih (store.touch name)).trans (channelCount_touch store name)

@[simp] theorem owner_touchAll (store : ParamStore) (names : List String) :
    (store.touchAll names).owner = store.owner := by
  induction names generalizing store with
  | nil => rfl
  | cons name rest ih => exact (ih (store.touch name)).trans (owner_touch store name)

/-- After their use buffers hold the used values; other buffers are as before. -/
theorem touchAll_buffer? (store : ParamStore) (names : List String) (other : String) :
    (store.touchAll names).buffer? other =
      if other ∈ names then some (store.used other) else store.buffer? other := by
  induction names generalizing store with
  | nil => rfl
  | cons name rest ih =>
    have hstep : (store.touchAll (name :: rest)).buffer? other =
        ((store.touch name).touchAll rest).buffer? other := rfl
    rw [hstep, ih, used_touch, touch_buffer?]
    by_cases hrest : other ∈ rest
    · simp [hrest]
    · by_cases hname : other = name
      · simp [hname]
      · simp [hrest, hname]

end ParamStore

end LayerFlow
