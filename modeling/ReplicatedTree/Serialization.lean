import ReplicatedTree.Message
import ReplicatedTree.Tree

/-!
# Trees as buffers (`serialization.c`)

The functions that the protobuf compiler generates for `EntryMessage` are a parameter, an
`EntryCodec`. Sizes are taken as the code takes them: a `size_t` stored in an `int` wraps
around, and `malloc` refuses a negative size. An access outside of a block, a read of a cell
that was never written, a signed overflow and the use of a NULL pointer are faults.
-/

namespace ReplicatedTree

/-- `entry_message__pack` and `entry_message__unpack`. -/
structure EntryCodec where
  pack : EntryMessage → List UInt8
  unpack : List UInt8 → Option EntryMessage

/-- How a function can fail. -/
inductive Failure
  /-- undefined behaviour -/
  | fault
  /-- it returns -1, or NULL -/
  | refused
deriving DecidableEq

@[simp] theorem ok_bind {α β : Type} (a : α) (f : α → Except Failure β) :
    (Except.ok a >>= f) = f a := rfl

theorem exists_of_bind_ok {α β : Type} {x : Except Failure α} {f : α → Except Failure β} {b : β}
    (h : x >>= f = .ok b) : ∃ a, x = .ok a ∧ f a = .ok b := by
  cases x with
  | error failure => cases h
  | ok a => exact ⟨a, rfl, h⟩

/-- An access that must not miss. -/
def orFault {α : Type} : Option α → Except Failure α
  | some a => .ok a
  | none => .error .fault

@[simp] theorem orFault_some {α : Type} (a : α) : orFault (some a) = .ok a := rfl

theorem orFault_bind {α β : Type} (a : Option α) (f : α → Option β) :
    orFault (a.bind f) = orFault a >>= fun a => orFault (f a) := by
  cases a <;> rfl

/-- Two tests that fault may change places. -/
theorem orFault_comm {α β γ : Type} (a : Option α) (b : Option β) (f : α → β → Except Failure γ) :
    (orFault a >>= fun x => orFault b >>= fun y => f x y)
      = orFault b >>= fun y => orFault a >>= fun x => f x y := by
  cases a <;> cases b <;> rfl

/-! ## Integers -/

/-- The conversion to `int`. -/
def toInt32 (n : ℤ) : ℤ := n.bmod (2 ^ 32)

/-- Whether a sum of two `int` can be computed. -/
def FitsInt32 (n : ℤ) : Prop := -2 ^ 31 ≤ n ∧ n < 2 ^ 31

instance (n : ℤ) : Decidable (FitsInt32 n) := inferInstanceAs (Decidable (_ ∧ _))

/-- The `SIZE_OF_INT` bytes of an `int`, the lowest first. -/
def intBytes (n : ℤ) : List UInt8 :=
  (List.range 4).map fun i => UInt8.ofNat ((n % 2 ^ 32).toNat / 256 ^ i)

/-- The `int` at the head of a block. -/
def readInt : List UInt8 → Option ℤ
  | b0 :: b1 :: b2 :: b3 :: _ =>
    some (toInt32 (b0.toNat + 256 * b1.toNat + 256 ^ 2 * b2.toNat + 256 ^ 3 * b3.toNat))
  | _ => none

/-! ## Entries -/

/-- `entry_to_msg` of an entry that is not NULL. -/
def entryMessage (entry : EntryT) : EntryMessage :=
  ⟨stringToMsg entry.key, dataToMsg entry.value⟩

/-- The size returned, and the block stored unless `malloc` refused. -/
def entryToBuffer (codec : EntryCodec) (entry : EntryT) :
    Except Failure (ℤ × Option (List UInt8)) :=
  let packed := codec.pack (entryMessage entry)
  let bufferSize := toInt32 packed.length
  if bufferSize < 0 then .ok (-1, none)
  -- the packed message is longer than the block
  else if bufferSize.toNat < packed.length then .error .fault
  else .ok (bufferSize, some packed)

/-- `buffer_to_entry`, reading from the head of a block. -/
def bufferToEntry (codec : EntryCodec) (buffer : List UInt8) (bufferSize : ℤ) :
    Except Failure (Option EntryT) :=
  if bufferSize < 0 then .ok none
  else if buffer.length < bufferSize.toNat then .error .fault
  else .ok (msgToEntry (codec.unpack (buffer.take bufferSize.toNat)))

/-! ## Trees -/

/-- `_collect_entry_bufs`. -/
def collectEntryBufs (codec : EntryCodec) : BinaryTree EntryT → Cells (List UInt8) → Cells ℤ →
    ℕ → Except Failure (Cells (List UInt8) × Cells ℤ × ℕ)
  | .nil, entriesBufs, lenEntriesBufs, nextIndex => .ok (entriesBufs, lenEntriesBufs, nextIndex)
  | .node entry left right, entriesBufs, lenEntriesBufs, nextIndex => do
    let (len, buf) ← entryToBuffer codec entry
    let entriesBufs ←
      match buf with
      | some buf => orFault (entriesBufs.write nextIndex buf)
      | none => .ok entriesBufs
    let lenEntriesBufs ← orFault (lenEntriesBufs.write nextIndex len)
    let (entriesBufs, lenEntriesBufs, nextIndex) ←
      collectEntryBufs codec left entriesBufs lenEntriesBufs (nextIndex + 1)
    collectEntryBufs codec right entriesBufs lenEntriesBufs nextIndex

/-- The loop that adds up `len_buffer`. -/
def sumLengths : List ℤ → ℤ → Except Failure ℤ
  | [], lenBuffer => .ok lenBuffer
  | len :: lens, lenBuffer =>
    let lenBuffer := toInt32 (lenBuffer + 4)
    if FitsInt32 (lenBuffer + len) then sumLengths lens (lenBuffer + len) else .error .fault

/-- The loop that copies the entries into the buffer. -/
def copyEntries : List (List UInt8 × ℤ) → Cells UInt8 → ℕ → Except Failure (Cells UInt8)
  | [], buffer, _ => .ok buffer
  | (entryBuf, len) :: rest, buffer, currentIndex => do
    let buffer ← orFault (buffer.writeBlock currentIndex (intBytes len))
    if len < 0 ∨ entryBuf.length < len.toNat then .error .fault
    else
      let buffer ← orFault (buffer.writeBlock (currentIndex + 4) (entryBuf.take len.toNat))
      copyEntries rest buffer (currentIndex + 4 + len.toNat)

/-- The length returned, and the buffer stored. -/
def treeToBuffer (codec : EntryCodec) (tree : TreeT) : Except Failure (ℤ × List UInt8) := do
  let entriesBufs := Cells.alloc tree.size.toNat
  let lenEntriesBufs := Cells.alloc tree.size.toNat
  let (entriesBufs, lenEntriesBufs, _) ←
    collectEntryBufs codec tree.root entriesBufs lenEntriesBufs 0
  let lens ← orFault lenEntriesBufs.contents
  let lenBuffer ← sumLengths lens 0
  if lenBuffer < 0 then .error .refused
  else
    let bufs ← orFault entriesBufs.contents
    let buffer ← copyEntries (bufs.zip lens) (Cells.alloc lenBuffer.toNat) 0
    let bytes ← orFault buffer.contents
    return (lenBuffer, bytes)

/-- The loop of `buffer_to_tree`. -/
def bufferToTreeLoop (codec : EntryCodec) (buffer : List UInt8) (bufferSize : ℤ)
    (tree : TreeT) (currentIndex : ℕ) : Except Failure TreeT :=
  if (currentIndex : ℤ) < bufferSize then
    match readInt (buffer.drop currentIndex) with
    | none => .error .fault
    | some lenEntry =>
      match bufferToEntry codec (buffer.drop (currentIndex + 4)) lenEntry with
      | .error failure => .error failure
      | .ok none => .error .fault -- `entry->key`
      | .ok (some entry) =>
        bufferToTreeLoop codec buffer bufferSize (treePut tree entry.key entry.value).1
          (currentIndex + 4 + lenEntry.toNat)
  else .ok tree
termination_by (bufferSize - currentIndex).toNat

def bufferToTree (codec : EntryCodec) (buffer : List UInt8) (bufferSize : ℤ) :
    Except Failure TreeT :=
  if bufferSize ≤ 0 then .error .refused
  else bufferToTreeLoop codec buffer bufferSize treeCreate 0

/-! ## Equality of contents -/

/-- The bytes of a message field: a NULL block has none. -/
def DataMessage.bytes (m : DataMessage) : List UInt8 := m.data.getD []

/-- The same key, and a value of the same length and bytes: whether a block without bytes is
NULL is not part of a message. -/
structure EntryMessage.Equal (m m' : EntryMessage) : Prop where
  key_eq : m.key = m'.key
  isSome_eq : m.value.isSome = m'.value.isSome
  value_eq : ∀ v ∈ m.value, ∀ v' ∈ m'.value, v.len = v'.len ∧ v.bytes = v'.bytes

/-- A message whose value has the bytes its length speaks of. -/
def EntryMessage.Packable (m : EntryMessage) : Prop :=
  ∀ v ∈ m.value, areParamsInvalid v.len v.data = false

/-- What is relied on: an unpacked message is equal to the one that was packed. -/
def EntryCodec.Faithful (codec : EntryCodec) : Prop :=
  ∀ m : EntryMessage, m.Packable → ∃ m', codec.unpack (codec.pack m) = some m' ∧ m.Equal m'

/-- Two values with the same bytes. -/
def DataT.SameBytes (d d' : DataT) : Prop :=
  d.datasize = d'.datasize ∧ d.data.getD [] = d'.data.getD []

/-- The same key and an equal value. -/
def EntryT.Same (e e' : EntryT) : Prop :=
  e.key = e'.key ∧ ∃ d d', e.value = some d ∧ e'.value = some d' ∧ d.SameBytes d'

/-- The same shape, with the same entry at every position. -/
def SameNodes : BinaryTree EntryT → BinaryTree EntryT → Prop
  | .nil, .nil => True
  | .node e l r, .node e' l' r' => e.Same e' ∧ SameNodes l l' ∧ SameNodes r r'
  | _, _ => False

/-- The length of the buffer for a tree: a header and a packed entry for each node. -/
def encodedLength (codec : EntryCodec) (tree : TreeT) : ℕ :=
  ((SearchTree.preorder tree.root).map fun e =>
    4 + (codec.pack (entryMessage e)).length).sum

end ReplicatedTree
