import NamedBlobs.Buffer.Heap

/-!
# Buffers on loan

A buffer that is handed out is a block of its own. Its first eight bytes hold
the length of the payload, little-endian, and the borrower knows only the
address of the payload behind them. So the address is all that is needed to take
the buffer back: the header tells the size that the block was asked for.

Empty bytes are never handed out, and a refused request hands nothing out.
-/

namespace NamedBlobs

namespace Loan

def headerSize : Nat := 8

def alignment : Nat := 8

/-- What the borrower gets: the address of the payload, if any, and its
length. -/
structure Buffer where
  payload : Option Address
  length : Nat
  deriving DecidableEq

def Buffer.null : Buffer := ⟨none, 0⟩

/-- Hands out a copy of `bytes`. -/
def handOut (allocator : Allocator) (heap : Heap) (bytes : Bytes) : Buffer × Heap :=
  if bytes.isEmpty then (.null, heap)
  else
    match heap.allocate allocator (bytes.length + headerSize) alignment with
    | (none, heap) => (.null, heap)
    | (some base, heap) =>
        let header := LittleEndian.encode headerSize bytes.length
        let heap := (heap.write base header).write (base + headerSize) bytes
        (⟨some (base + headerSize), bytes.length⟩, heap)

/-- Takes back the buffer whose payload is at `payload`; no buffer is ignored.
Nothing is answered where the address is not that of a buffer on loan. -/
def release (heap : Heap) : (payload : Option Address) → Option Heap
  | none => some heap
  | some payload =>
      let base := payload - headerSize
      match heap.read base headerSize with
      | none => none
      | some header =>
          heap.deallocate base (LittleEndian.decode header + headerSize) alignment

end Loan

end NamedBlobs
