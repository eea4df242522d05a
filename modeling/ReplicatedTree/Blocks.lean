import ReplicatedTree.Entry
import ReplicatedTree.Lib.Cells
import ReplicatedTree.Lib.Heap

/-!
# The blocks of memory

A `malloc` of the program makes a block: one of its structs, a string, the bytes of a value, or an
array of pointers. A field that points to something is a `Ptr`; the other fields are as in the
structs of `Entry` and `Tree`.
-/

namespace ReplicatedTree
namespace InMemory

/-! ## Structs -/

/-- `struct data_t`. -/
structure DataBlock where
  datasize : ℤ
  data : Ptr
deriving DecidableEq

/-- `struct entry_t`. -/
structure EntryBlock where
  key : Ptr
  value : Ptr
deriving DecidableEq

/-- `struct tree_node_t`. -/
structure NodeBlock where
  entry : Ptr
  left : Ptr
  right : Ptr
deriving DecidableEq

/-- `struct tree_t`. -/
structure TreeBlock where
  root : Ptr
  size : ℤ
  height : ℤ
deriving DecidableEq

/-! ## Blocks -/

inductive Block
  | data (block : DataBlock)
  | entry (block : EntryBlock)
  | node (block : NodeBlock)
  | tree (block : TreeBlock)
  | bytes (content : List UInt8)
  | string (s : CString)
  /-- an array of pointers -/
  | pointers (cells : Cells Ptr)
deriving DecidableEq

namespace Block

def asData : Block → Option DataBlock
  | data block => some block
  | _ => none

def asEntry : Block → Option EntryBlock
  | entry block => some block
  | _ => none

def asNode : Block → Option NodeBlock
  | node block => some block
  | _ => none

def asTree : Block → Option TreeBlock
  | tree block => some block
  | _ => none

def asString : Block → Option CString
  | string s => some s
  | _ => none

def asBytes : Block → Option (List UInt8)
  | bytes content => some content
  | _ => none

/-- The first bytes of a block; no block is read past its end. -/
def firstBytes (size : ℤ) : Block → Option (List UInt8)
  | bytes content =>
    if size.toNat ≤ content.length then some (content.take size.toNat) else none
  | _ => none

/-- A cell of an array that was written. -/
def readCell (i : ℕ) : Block → Option Ptr
  | pointers cells => cells[i]?.join
  | _ => none

/-- The array with another cell written, if it has that cell. -/
def writeCell (i : ℕ) (p : Ptr) : Block → Option (Cells Ptr)
  | pointers cells => cells.write i p
  | _ => none

end Block
end InMemory
end ReplicatedTree
