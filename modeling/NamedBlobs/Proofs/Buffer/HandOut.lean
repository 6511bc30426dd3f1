import NamedBlobs.Buffer.Loan

/-!
# What is handed out

Bytes that are handed out make a block of their own, first their length and then
the bytes (`Loan.handOut_of_granted`), and are read back from where the borrower
is told (`Loan.read_handOut`). Nothing is handed out where there is nothing or
where the allocator refuses.
-/

namespace NamedBlobs

namespace Heap

/-- Bytes written over the start of longer contents. -/
theorem overwrite_start (contents bytes : Bytes) :
    overwrite contents 0 bytes = bytes ++ contents.drop bytes.length := by
  simp [overwrite]

/-- Bytes written over all that is behind a first part. -/
theorem overwrite_end (front back bytes : Bytes) (h : back.length = bytes.length) :
    overwrite (front ++ back) front.length bytes = front ++ bytes := by
  have hdrop : (front ++ back).drop (front.length + bytes.length) = [] := by
    rw [← h, ← List.length_append, List.drop_length]
  rw [overwrite, List.take_left, hdrop, List.append_nil]

theorem write_cons_of_covers {block : Block} {address : Address} {bytes : Bytes}
    (h : block.covers address bytes.length = true) (blocks : List Block) :
    Heap.write ⟨block :: blocks⟩ address bytes =
      ⟨{ block with contents := overwrite block.contents (address - block.base) bytes } ::
        (Heap.write ⟨blocks⟩ address bytes).blocks⟩ := by
  simp only [write, List.map_cons, h, if_true]

theorem read_cons_of_covers {block : Block} {address : Address} {count : Nat}
    (h : block.covers address count = true) (blocks : List Block) :
    Heap.read ⟨block :: blocks⟩ address count =
      some ((block.contents.drop (address - block.base)).take count) := by
  simp only [read, List.find?_cons, h, Option.map_some]

end Heap

namespace Loan

/-- The contents of a block on loan. -/
def framed (bytes : Bytes) : Bytes := LittleEndian.encode headerSize bytes.length ++ bytes

theorem handOut_of_refused {allocator : Allocator} {heap : Heap} {bytes : Bytes}
    (h : allocator heap (bytes.length + headerSize) alignment = none) :
    handOut allocator heap bytes = (.null, heap) := by
  simp only [handOut, Heap.allocate, h, ite_self]

/-- The block of a granted request, in front of the others as the two writes leave
them. -/
theorem handOut_of_granted {allocator : Allocator} {heap : Heap} {bytes : Bytes}
    {base : Address} (hbytes : bytes ≠ [])
    (h : allocator heap (bytes.length + headerSize) alignment = some base) :
    handOut allocator heap bytes =
      (⟨some (base + headerSize), bytes.length⟩,
        ⟨⟨base, alignment, framed bytes⟩ ::
          ((heap.write base (LittleEndian.encode headerSize bytes.length)).write
            (base + headerSize) bytes).blocks⟩) := by
  have hempty : ¬ bytes.isEmpty = true := by simpa using hbytes
  have hheader : (LittleEndian.encode headerSize bytes.length).length = headerSize :=
    LittleEndian.length_encode headerSize bytes.length
  -- the header goes over the start of the zeros that the block is made of
  have hfirst : Block.covers ⟨base, alignment, List.replicate (bytes.length + headerSize) 0⟩ base
      (LittleEndian.encode headerSize bytes.length).length = true := by
    simp [Block.covers, Block.size]
  have hzeros : (List.replicate (bytes.length + headerSize) (0 : UInt8)).drop headerSize =
      List.replicate bytes.length 0 := by
    rw [List.drop_replicate, Nat.add_sub_cancel]
  -- and the payload over all the others
  have hsecond : Block.covers ⟨base, alignment, LittleEndian.encode headerSize bytes.length ++
      List.replicate bytes.length 0⟩ (base + headerSize) bytes.length = true := by
    simp [Block.covers, Block.size, Nat.add_assoc]
  have hpayload := Heap.overwrite_end (LittleEndian.encode headerSize bytes.length)
    (List.replicate bytes.length 0) bytes List.length_replicate
  rw [hheader] at hpayload
  simp only [handOut, Heap.allocate, h, if_neg hempty]
  rw [Heap.write_cons_of_covers hfirst, Nat.sub_self, Heap.overwrite_start, hheader, hzeros,
    Heap.write_cons_of_covers hsecond, Nat.add_sub_cancel_left, hpayload]
  rfl

/-- The payload that the borrower is told of is a copy of the bytes. -/
theorem read_handOut {allocator : Allocator} {heap : Heap} {bytes : Bytes} {base : Address}
    (hbytes : bytes ≠ [])
    (h : allocator heap (bytes.length + headerSize) alignment = some base) :
    (handOut allocator heap bytes).2.read (base + headerSize) bytes.length = some bytes := by
  have hcovers : Block.covers ⟨base, alignment, framed bytes⟩ (base + headerSize)
      bytes.length = true := by
    simp [Block.covers, Block.size, framed, Nat.add_assoc]
  rw [handOut_of_granted hbytes h, Heap.read_cons_of_covers hcovers]
  simp [framed]

end Loan

end NamedBlobs
