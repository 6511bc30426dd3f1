import NamedBlobs.Bytes.LittleEndian

/-!
# Blocks of memory

A heap is the list of its live blocks, each with its first address, alignment
and contents. Blocks are granted by an allocator, which may refuse, and are
given back with the size and alignment they were asked for. Reads and writes
must stay inside one live block.

An allocator is sound when what it grants is aligned as asked and meets no live
block.
-/

namespace NamedBlobs

/-- An address in memory. The null address is the absence of one. -/
abbrev Address := Nat

structure Block where
  base : Address
  align : Nat
  contents : Bytes

namespace Block

def size (block : Block) : Nat := block.contents.length

/-- Whether the `count` bytes from `address` on lie in the block. -/
def covers (block : Block) (address : Address) (count : Nat) : Bool :=
  block.base ≤ address ∧ address + count ≤ block.base + block.size

end Block

structure Heap where
  blocks : List Block

/-- Answers a request for a size and an alignment with an address, or refuses. -/
abbrev Allocator := Heap → (size align : Nat) → Option Address

namespace Heap

def empty : Heap := ⟨[]⟩

def read (heap : Heap) (address : Address) (count : Nat) : Option Bytes :=
  (heap.blocks.find? (·.covers address count)).map fun block =>
    (block.contents.drop (address - block.base)).take count

def overwrite (contents : Bytes) (offset : Nat) (bytes : Bytes) : Bytes :=
  contents.take offset ++ bytes ++ contents.drop (offset + bytes.length)

def write (heap : Heap) (address : Address) (bytes : Bytes) : Heap :=
  ⟨heap.blocks.map fun block =>
    if block.covers address bytes.length then
      { block with contents := overwrite block.contents (address - block.base) bytes }
    else block⟩

def allocate (heap : Heap) (allocator : Allocator) (size align : Nat) : Option Address × Heap :=
  match allocator heap size align with
  | none => (none, heap)
  | some base => (some base, ⟨⟨base, align, List.replicate size 0⟩ :: heap.blocks⟩)

/-- Gives back the block at `base`, which must have the stated size and
alignment. -/
def deallocate (heap : Heap) (base : Address) (size align : Nat) : Option Heap :=
  if heap.blocks.any fun b => b.base == base && b.size == size && b.align == align then
    some ⟨heap.blocks.eraseP fun b => b.base == base && b.size == size && b.align == align⟩
  else
    none

/-- The first address behind every live block. -/
def top (heap : Heap) : Address :=
  heap.blocks.foldl (fun top block => max top (block.base + block.size)) 0

end Heap

namespace Allocator

/-- Grants are aligned as asked, not null, and meet no live block. -/
def Sound (allocator : Allocator) : Prop :=
  ∀ (heap : Heap) (size align : Nat) (base : Address), 0 < align →
    allocator heap size align = some base →
      0 < base ∧ base % align = 0 ∧
        ∀ block ∈ heap.blocks, base + size ≤ block.base ∨ block.base + block.size ≤ base

def refuse : Allocator := fun _ _ _ => none

/-- Grants the first aligned address behind every live block. -/
def bump : Allocator := fun heap _ align => some ((heap.top / align + 1) * align)

end Allocator

end NamedBlobs
