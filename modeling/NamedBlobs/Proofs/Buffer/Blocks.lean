import Mathlib.Algebra.Ring.Nat
import NamedBlobs.Proofs.Buffer.HandOut

/-!
# Blocks apart

Two blocks are apart if no address lies in both. Among blocks that are pairwise
apart a read finds the one that covers its bytes (`Heap.read_of_mem`), and a
write changes the one that covers its bytes and no other
(`Block.written_of_apart`). A sound allocator grants what is apart from every
live block, and one that grants behind the last of them is sound.
-/

namespace NamedBlobs

theorem eraseP_append_cons {α : Type} {p : α → Bool} {front back : List α} {x : α}
    (hfront : ∀ y ∈ front, ¬ p y = true) (hx : p x = true) :
    (front ++ x :: back).eraseP p = front ++ back := by
  rw [List.eraseP_append_right _ hfront, List.eraseP_cons_of_pos hx]

namespace Block

/-- No address lies in both blocks. -/
def Apart (first second : Block) : Prop :=
  first.base + first.size ≤ second.base ∨ second.base + second.size ≤ first.base

theorem Apart.symm {first second : Block} (h : first.Apart second) : second.Apart first :=
  Or.symm h

theorem covers_iff {block : Block} {address : Address} {count : Nat} :
    block.covers address count = true ↔
      block.base ≤ address ∧ address + count ≤ block.base + block.size :=
  decide_eq_true_iff

/-- Bytes that lie in a block do not lie in one that is apart from it. -/
theorem Apart.not_covers {first second : Block} (h : first.Apart second) {address : Address}
    {count : Nat} (hcount : 0 < count) (hcovers : first.covers address count = true) :
    ¬ second.covers address count = true := by
  rw [covers_iff] at hcovers ⊢
  grind [Apart]

theorem Apart.base_ne {first second : Block} (h : first.Apart second) (hfirst : 0 < first.size)
    (hsecond : 0 < second.size) : first.base ≠ second.base := by
  grind [Apart]

/-- The block after a write to the heap. -/
def written (block : Block) (address : Address) (bytes : Bytes) : Block :=
  if block.covers address bytes.length then
    { block with contents := Heap.overwrite block.contents (address - block.base) bytes }
  else block

end Block

namespace Heap

theorem overwrite_nil (contents : Bytes) (offset : Nat) :
    overwrite contents offset [] = contents := by
  simp [overwrite]

theorem length_overwrite {contents : Bytes} {offset : Nat} {bytes : Bytes}
    (h : offset + bytes.length ≤ contents.length) :
    (overwrite contents offset bytes).length = contents.length := by
  simp only [overwrite, List.length_append, List.length_take, List.length_drop]
  omega

/-- Bytes written behind a first part leave that part as it is. -/
theorem overwrite_append (front back : Bytes) (offset : Nat) (bytes : Bytes) :
    overwrite (front ++ back) (front.length + offset) bytes =
      front ++ overwrite back offset bytes := by
  simp [overwrite, Nat.add_assoc, List.take_length_add_append, List.drop_length_add_append]

theorem blocks_write (heap : Heap) (address : Address) (bytes : Bytes) :
    (heap.write address bytes).blocks = heap.blocks.map (·.written address bytes) := rfl

end Heap

namespace Block

theorem written_of_covers {block : Block} {address : Address} {bytes : Bytes}
    (h : block.covers address bytes.length = true) :
    block.written address bytes =
      { block with contents := Heap.overwrite block.contents (address - block.base) bytes } :=
  if_pos h

theorem base_written (block : Block) (address : Address) (bytes : Bytes) :
    (block.written address bytes).base = block.base := by
  rw [written]
  split <;> rfl

theorem size_written (block : Block) (address : Address) (bytes : Bytes) :
    (block.written address bytes).size = block.size := by
  by_cases hcovers : block.covers address bytes.length = true
  · have hinside : address - block.base + bytes.length ≤ block.contents.length := by
      rw [covers_iff, size] at hcovers
      grind
    rw [written_of_covers hcovers]
    exact Heap.length_overwrite hinside
  · rw [written, if_neg hcovers]

theorem Apart.written {first second : Block} (h : first.Apart second) (address : Address)
    (bytes : Bytes) : (first.written address bytes).Apart (second.written address bytes) := by
  simpa only [Apart, base_written, size_written] using h

/-- A write into one block leaves those that are apart from it as they are. -/
theorem written_of_apart {target block : Block} (h : target.Apart block) {address : Address}
    {bytes : Bytes} (htarget : target.covers address bytes.length = true) :
    block.written address bytes = block := by
  rcases bytes with _ | ⟨byte, rest⟩
  · -- no bytes may lie at the edge of both blocks
    simp only [written, Heap.overwrite_nil, ite_self]
  · exact if_neg (h.not_covers (Nat.succ_pos rest.length) htarget)

end Block

namespace Heap

/-- A write into a block that is apart from all the live ones changes nothing. -/
theorem write_of_apart {heap : Heap} {target : Block} {address : Address} {bytes : Bytes}
    (h : ∀ block ∈ heap.blocks, target.Apart block)
    (htarget : target.covers address bytes.length = true) : heap.write address bytes = heap := by
  have hblocks : (heap.write address bytes).blocks = heap.blocks := by
    rw [blocks_write]
    exact (List.map_congr_left fun block hblock =>
      Block.written_of_apart (h block hblock) htarget).trans (List.map_id _)
  exact congrArg Heap.mk hblocks

/-- A read of bytes that lie in a live block reads that block. -/
theorem read_of_mem {blocks : List Block} (hapart : blocks.Pairwise Block.Apart) {block : Block}
    (hblock : block ∈ blocks) {address : Address} {count : Nat} (hcount : 0 < count)
    (hcovers : block.covers address count = true) :
    Heap.read ⟨blocks⟩ address count =
      some ((block.contents.drop (address - block.base)).take count) := by
  have hfind : blocks.find? (·.covers address count) = some block := by
    induction blocks with
    | nil => cases hblock
    | cons head rest ih =>
        obtain ⟨hhead, hrest⟩ := List.pairwise_cons.mp hapart
        rcases List.mem_cons.mp hblock with rfl | hblock
        · exact List.find?_cons_of_pos hcovers
        · have hskip := (hhead block hblock).symm.not_covers hcount hcovers
          simpa only [List.find?_cons, hskip] using ih hrest hblock
  simp only [read, hfind, Option.map_some]

/-- What is given back is the block at its place, where its size and alignment
are told right. -/
theorem deallocate_append_cons (front back : List Block) (block : Block)
    (hfront : ∀ other ∈ front, other.base ≠ block.base) :
    Heap.deallocate ⟨front ++ block :: back⟩ block.base block.size block.align =
      some ⟨front ++ back⟩ := by
  have hblock : (block.base == block.base && block.size == block.size &&
      block.align == block.align) = true := by simp
  have hskip : ∀ other ∈ front, ¬ (other.base == block.base && other.size == block.size &&
      other.align == block.align) = true := by
    intro other hother hmatch
    simp only [Bool.and_eq_true, beq_iff_eq] at hmatch
    exact hfront other hother hmatch.1.1
  have hany : (front ++ block :: back).any (fun b => b.base == block.base &&
      b.size == block.size && b.align == block.align) = true :=
    List.any_eq_true.mpr ⟨block, List.mem_append_right front List.mem_cons_self, hblock⟩
  simp only [deallocate, hany, if_true]
  rw [eraseP_append_cons hskip hblock]

theorem end_le_top {heap : Heap} {block : Block} (h : block ∈ heap.blocks) :
    block.base + block.size ≤ heap.top := by
  have hfold : ∀ (blocks : List Block) (least : Nat),
      least ≤ blocks.foldl (fun top block => max top (block.base + block.size)) least ∧
        ∀ block ∈ blocks, block.base + block.size ≤
          blocks.foldl (fun top block => max top (block.base + block.size)) least := by
    intro blocks
    induction blocks with
    | nil => simp
    | cons head rest ih =>
        intro least
        obtain ⟨hleast, hrest⟩ := ih (max least (head.base + head.size))
        refine ⟨Nat.le_trans (Nat.le_max_left _ _) hleast, ?_⟩
        intro block hblock
        rcases List.mem_cons.mp hblock with rfl | hblock
        · exact Nat.le_trans (Nat.le_max_right _ _) hleast
        · exact hrest block hblock
  exact (hfold heap.blocks 0).2 block h

end Heap

namespace Allocator

theorem Sound.apart {allocator : Allocator} (h : allocator.Sound) {heap : Heap}
    (granted : Block) (halign : 0 < granted.align)
    (hgrant : allocator heap granted.size granted.align = some granted.base) :
    ∀ block ∈ heap.blocks, granted.Apart block :=
  (h heap granted.size granted.align granted.base halign hgrant).2.2

theorem sound_bump : Allocator.bump.Sound := by
  rintro heap size align _ halign ⟨rfl⟩
  refine ⟨Nat.mul_pos (Nat.succ_pos _) halign, Nat.mul_mod_left _ _, ?_⟩
  intro block hblock
  have htop : heap.top < align * (heap.top / align + 1) := Nat.lt_mul_div_succ heap.top halign
  rw [Nat.mul_comm] at htop
  exact Or.inr (Nat.le_trans (Heap.end_le_top hblock) (Nat.le_of_lt htop))

end Allocator

end NamedBlobs
