import NamedBlobs.Proofs.Buffer.Blocks

/-!
# The ledger of buffers on loan

Borrowers take buffers, write over what they hold and give the buffers back, in
any order. A ledger is kept beside the heap, with an entry for every buffer that
is out: where its block was granted, what the borrower was told, and what the
payload should hold by now. Every request may go to another allocator, as long as
it is sound.

The books are balanced if the live blocks are those of the entries, one for each,
with the length in front of the contents, and lie apart from each other. Every
dealing that the books permit keeps them balanced (`Books.Balanced.deal`), so they
are balanced in whatever order the dealings come (`Books.Reached.balanced`). Then
the header that a release reads tells the size that the block was granted with
(`Entry.Sound.release_eq`).
-/

namespace NamedBlobs

namespace Loan

theorem length_framed (bytes : Bytes) : (framed bytes).length = bytes.length + headerSize := by
  rw [framed, List.length_append, LittleEndian.length_encode, Nat.add_comm]

theorem handOut_of_nothing {allocator : Allocator} {heap : Heap} {bytes : Bytes}
    (h : bytes = [] ∨ allocator heap (bytes.length + headerSize) alignment = none) :
    handOut allocator heap bytes = (.null, heap) := by
  rcases h with rfl | hrefused
  · rfl
  · exact handOut_of_refused hrefused

/-- A buffer that is out. -/
structure Entry where
  /-- Where the request for the block was granted. -/
  base : Address
  /-- The payload that the borrower was told of. -/
  payload : Address
  /-- The length that was asked for. -/
  length : Nat
  /-- What the payload should hold. -/
  contents : Bytes

namespace Entry

/-- The block of the buffer. -/
def block (entry : Entry) : Block := ⟨entry.base, alignment, framed entry.contents⟩

/-- The entry for a buffer that has just been handed out. -/
def ofGrant (base : Address) (bytes : Bytes) : Entry :=
  ⟨base, base + headerSize, bytes.length, bytes⟩

/-- The entry after a write into the payload at `payload`. -/
def written (entry : Entry) (payload : Address) (offset : Nat) (bytes : Bytes) : Entry :=
  if entry.payload = payload then
    { entry with contents := Heap.overwrite entry.contents offset bytes }
  else entry

/-- What an entry promises of the heap. -/
structure Held (entry : Entry) (heap : Heap) : Prop where
  payload_ne : entry.payload ≠ 0
  aligned : entry.payload % alignment = 0
  behind : entry.payload = entry.base + headerSize
  header : heap.read entry.base headerSize = some (LittleEndian.encode headerSize entry.length)
  contents : heap.read entry.payload entry.length = some entry.contents

/-- What is so of an entry by itself. -/
structure Sound (entry : Entry) : Prop where
  behind : entry.payload = entry.base + headerSize
  aligned : entry.base % alignment = 0
  length_contents : entry.contents.length = entry.length
  length_pos : 0 < entry.length
  length_lt : entry.length < LittleEndian.values headerSize

end Entry

/-- The heap, and the buffers that are out. -/
structure Books where
  heap : Heap
  entries : List Entry

/-- What a borrower does. -/
inductive Dealing where
  | handOut (allocator : Allocator) (bytes : Bytes)
  | release (payload : Option Address)
  | overwrite (payload : Address) (offset : Nat) (bytes : Bytes)

namespace Dealing

/-- The buffer that is touched, if any. -/
def target : Dealing → Option Address
  | handOut _ _ => none
  | release payload => payload
  | overwrite payload _ _ => some payload

def perform (heap : Heap) : Dealing → Option (Buffer × Heap)
  | handOut allocator bytes => some (Loan.handOut allocator heap bytes)
  | release payload => (Loan.release heap payload).map fun heap => (.null, heap)
  | overwrite payload offset bytes => some (.null, heap.write (payload + offset) bytes)

/-- The entries after a dealing that came back with `buffer`. -/
def enter (heap : Heap) (buffer : Buffer) (entries : List Entry) : Dealing → List Entry
  | handOut allocator bytes =>
      match allocator heap (bytes.length + headerSize) alignment, buffer.payload with
      | some base, some payload => ⟨base, payload, bytes.length, bytes⟩ :: entries
      | _, _ => entries
  | release none => entries
  | release (some payload) => entries.eraseP (·.payload == payload)
  | overwrite payload offset bytes => entries.map (·.written payload offset bytes)

end Dealing

namespace Books

/-- What borrowers keep to: the length fits the header, no buffer or one that is out
is released, and writes stay inside the payload of one that is out. -/
def Permits (books : Books) : Dealing → Prop
  | .handOut allocator bytes =>
      allocator.Sound ∧ bytes.length < LittleEndian.values headerSize
  | .release none => True
  | .release (some payload) => ∃ entry ∈ books.entries, entry.payload = payload
  | .overwrite payload offset bytes =>
      ∃ entry ∈ books.entries, entry.payload = payload ∧ offset + bytes.length ≤ entry.length

/-- The books after any dealings, each of which was permitted when it was made. -/
inductive Reached : Books → Prop
  | start : Reached ⟨.empty, []⟩
  | deal {books : Books} (dealing : Dealing) {buffer : Buffer} {heap : Heap}
      (before : Reached books) (permitted : books.Permits dealing)
      (performed : dealing.perform books.heap = some (buffer, heap)) :
      Reached ⟨heap, dealing.enter books.heap buffer books.entries⟩

/-- The live blocks are those of the entries, and lie apart. -/
structure Balanced (books : Books) : Prop where
  blocks : books.heap.blocks = books.entries.map Entry.block
  sound : ∀ entry ∈ books.entries, entry.Sound
  apart : books.heap.blocks.Pairwise Block.Apart

end Books

namespace Entry

variable {entry : Entry}

theorem Sound.size_block (h : entry.Sound) : entry.block.size = entry.length + headerSize := by
  rw [← h.length_contents]
  exact length_framed entry.contents

/-- The block covers its header. -/
theorem Sound.covers_header (h : entry.Sound) :
    entry.block.covers entry.base headerSize = true := by
  rw [Block.covers_iff, h.size_block]
  exact ⟨Nat.le_refl _, Nat.add_le_add_left (Nat.le_add_left _ _) _⟩

/-- The block covers its payload, and every part of it. -/
theorem Sound.covers_payload (h : entry.Sound) {offset count : Nat}
    (hinside : offset + count ≤ entry.length) :
    entry.block.covers (entry.payload + offset) count = true := by
  rw [Block.covers_iff, h.size_block, h.behind]
  dsimp only [block, Address]
  omega

theorem Sound.covers_whole_payload (h : entry.Sound) :
    entry.block.covers entry.payload entry.length = true :=
  h.covers_payload (Nat.le_of_eq (Nat.zero_add entry.length))

theorem sound_ofGrant {base : Address} (haligned : base % alignment = 0) {bytes : Bytes}
    (hbytes : bytes ≠ []) (hlength : bytes.length < LittleEndian.values headerSize) :
    (ofGrant base bytes).Sound :=
  ⟨rfl, haligned, rfl, List.length_pos_iff.mpr hbytes, hlength⟩

/-- What an entry promises is so where its block is live, among blocks that lie
apart. -/
theorem Sound.held (h : entry.Sound) {blocks : List Block}
    (hapart : blocks.Pairwise Block.Apart) (hlive : entry.block ∈ blocks) :
    entry.Held ⟨blocks⟩ := by
  have hheader := Heap.read_of_mem hapart hlive (by decide) h.covers_header
  have hpayload := Heap.read_of_mem hapart hlive h.length_pos h.covers_whole_payload
  constructor
  · rw [h.behind]
    exact Nat.succ_ne_zero _
  · rw [h.behind]
    exact (Nat.add_mod_right _ _).trans h.aligned
  · exact h.behind
  · rw [hheader, ← h.length_contents]
    simp [block, framed]
  · rw [hpayload, h.behind, ← h.length_contents]
    simp [block, framed]

/-- A write into the payload leaves the length in front of it. -/
theorem Sound.block_written (h : entry.Sound) {offset : Nat} {bytes : Bytes}
    (hinside : offset + bytes.length ≤ entry.length) :
    (entry.written entry.payload offset bytes).block =
      entry.block.written (entry.payload + offset) bytes := by
  have hfits : offset + bytes.length ≤ entry.contents.length := by rwa [h.length_contents]
  have hoffset : entry.payload + offset - entry.base =
      (LittleEndian.encode headerSize entry.contents.length).length + offset := by
    rw [h.behind, LittleEndian.length_encode, Nat.add_assoc, Nat.add_sub_cancel_left]
  rw [Block.written_of_covers (h.covers_payload hinside), written, if_pos rfl]
  dsimp only [block, framed]
  rw [hoffset, Heap.overwrite_append, Heap.length_overwrite hfits]

theorem Sound.written (h : entry.Sound) {offset : Nat} {bytes : Bytes}
    (hinside : offset + bytes.length ≤ entry.length) :
    (entry.written entry.payload offset bytes).Sound := by
  have hfits : offset + bytes.length ≤ entry.contents.length := by rwa [h.length_contents]
  rw [Entry.written, if_pos rfl]
  exact ⟨h.behind, h.aligned, (Heap.length_overwrite hfits).trans h.length_contents, h.length_pos,
    h.length_lt⟩

theorem Sound.size_block_pos (h : entry.Sound) : 0 < entry.block.size := by
  rw [h.size_block]
  exact Nat.succ_pos _

/-- Sound entries whose blocks lie apart are for different payloads. -/
theorem Sound.payload_ne (h : entry.Sound) {other : Entry} (hother : other.Sound)
    (hapart : entry.block.Apart other.block) : other.payload ≠ entry.payload := by
  intro heq
  rw [h.behind, hother.behind] at heq
  exact hapart.base_ne h.size_block_pos hother.size_block_pos (Nat.add_right_cancel heq).symm

/-- The header behind the address of a payload tells the size of the block. -/
theorem Sound.release_eq (h : entry.Sound) {heap : Heap} (hheld : entry.Held heap) :
    Loan.release heap (some entry.payload) =
      heap.deallocate entry.base (entry.length + headerSize) alignment := by
  have hplace : entry.payload - headerSize = entry.base := by
    rw [h.behind, Nat.add_sub_cancel]
  have hlength : LittleEndian.decode (LittleEndian.encode headerSize entry.length) =
      entry.length := by
    rw [LittleEndian.decode_encode, Nat.mod_eq_of_lt h.length_lt]
  simp only [Loan.release, hplace, hheld.header, hlength]

end Entry

namespace Books.Balanced

variable {books : Books}

theorem start : Balanced ⟨.empty, []⟩ := ⟨rfl, by simp, List.Pairwise.nil⟩

theorem held (h : books.Balanced) {entry : Entry} (hentry : entry ∈ books.entries) :
    entry.Held books.heap := by
  have hlive : entry.block ∈ books.heap.blocks := by
    rw [h.blocks]
    exact List.mem_map_of_mem hentry
  exact (h.sound entry hentry).held h.apart hlive

/-- The entries around one of them are for blocks that lie apart from its own. -/
theorem exists_split (h : books.Balanced) {entry : Entry} (hentry : entry ∈ books.entries) :
    ∃ front back, books.entries = front ++ entry :: back ∧
      ∀ other ∈ front ++ back, entry.block.Apart other.block := by
  obtain ⟨front, back, hsplit⟩ := List.append_of_mem hentry
  have hapart := h.apart
  rw [h.blocks, List.pairwise_map, hsplit, List.pairwise_middle Block.Apart.symm,
    List.pairwise_cons] at hapart
  exact ⟨front, back, hsplit, hapart.1⟩

theorem eq_or_apart (h : books.Balanced) {entry other : Entry} (hentry : entry ∈ books.entries)
    (hother : other ∈ books.entries) : other = entry ∨ entry.block.Apart other.block := by
  obtain ⟨front, back, hsplit, hapart⟩ := h.exists_split hentry
  rw [hsplit] at hother
  rcases List.mem_append.mp hother with hfront | hrest
  · exact Or.inr (hapart other (List.mem_append_left back hfront))
  · rcases List.mem_cons.mp hrest with heq | hback
    · exact Or.inl heq
    · exact Or.inr (hapart other (List.mem_append_right front hback))

/-- A granted request adds one block, and the writes to it touch no other. -/
theorem handOut (h : books.Balanced) {allocator : Allocator} (hallocator : allocator.Sound)
    {bytes : Bytes} (hbytes : bytes ≠ [])
    (hlength : bytes.length < LittleEndian.values headerSize) {base : Address}
    (hgrant : allocator books.heap (bytes.length + headerSize) alignment = some base) :
    Balanced ⟨(Loan.handOut allocator books.heap bytes).2,
      Entry.ofGrant base bytes :: books.entries⟩ := by
  obtain ⟨-, haligned, -⟩ := hallocator _ _ _ base (by decide) hgrant
  have hentry := Entry.sound_ofGrant haligned hbytes hlength
  have hsize : (Entry.ofGrant base bytes).block.size = bytes.length + headerSize :=
    hentry.size_block
  have hapart : ∀ block ∈ books.heap.blocks, (Entry.ofGrant base bytes).block.Apart block := by
    refine hallocator.apart _ (Nat.succ_pos 7) ?_
    rw [hsize]
    exact hgrant
  have hheader : books.heap.write base (LittleEndian.encode headerSize bytes.length) =
      books.heap := by
    refine Heap.write_of_apart hapart ?_
    rw [LittleEndian.length_encode]
    exact hentry.covers_header
  have hpayload : books.heap.write (base + headerSize) bytes = books.heap :=
    Heap.write_of_apart hapart hentry.covers_whole_payload
  rw [Loan.handOut_of_granted hbytes hgrant, hheader, hpayload]
  constructor
  · exact congrArg (List.cons _) h.blocks
  · exact List.forall_mem_cons.mpr ⟨hentry, h.sound⟩
  · exact List.pairwise_cons.mpr ⟨hapart, h.apart⟩

/-- The block of an entry is given back with the size and the alignment that it was
granted with, and it is the only one that goes. -/
theorem deallocate (h : books.Balanced) {entry : Entry} (hentry : entry ∈ books.entries) :
    ∃ heap, books.heap.deallocate entry.base (entry.length + headerSize) alignment = some heap ∧
      Balanced ⟨heap, books.entries.eraseP (·.payload == entry.payload)⟩ := by
  have hsound := h.sound entry hentry
  obtain ⟨front, back, hsplit, hapart⟩ := h.exists_split hentry
  have hothers : ∀ other ∈ front ++ back, other.Sound := by
    intro other hmem
    refine h.sound other ?_
    rw [hsplit]
    exact (List.sublist_cons_self entry back).append_left front |>.subset hmem
  have hblocks : books.heap.blocks =
      front.map Entry.block ++ entry.block :: back.map Entry.block := by
    rw [h.blocks, hsplit, List.map_append, List.map_cons]
  have hbase : ∀ block ∈ front.map Entry.block, block.base ≠ entry.block.base := by
    intro block hmem
    obtain ⟨other, hother, rfl⟩ := List.mem_map.mp hmem
    have hmem' : other ∈ front ++ back := List.mem_append_left back hother
    exact (hapart other hmem').symm.base_ne (hothers other hmem').size_block_pos
      hsound.size_block_pos
  have herase : books.entries.eraseP (·.payload == entry.payload) = front ++ back := by
    have hskip : ∀ other ∈ front, ¬ (other.payload == entry.payload) = true := by
      intro other hother
      have hmem : other ∈ front ++ back := List.mem_append_left back hother
      rw [beq_iff_eq]
      exact hsound.payload_ne (hothers other hmem) (hapart other hmem)
    rw [hsplit, eraseP_append_cons hskip (beq_self_eq_true entry.payload)]
  have hgiven := Heap.deallocate_append_cons _ (back.map Entry.block) entry.block hbase
  rw [← hblocks, hsound.size_block, ← List.map_append] at hgiven
  refine ⟨_, hgiven, ?_⟩
  rw [herase]
  refine ⟨rfl, hothers, h.apart.sublist ?_⟩
  rw [hblocks, List.map_append]
  exact (List.sublist_cons_self _ _).append_left _

/-- A write into a payload changes the contents of its entry and no others. -/
theorem overwrite (h : books.Balanced) {entry : Entry} (hentry : entry ∈ books.entries)
    {offset : Nat} {bytes : Bytes} (hinside : offset + bytes.length ≤ entry.length) :
    Balanced ⟨books.heap.write (entry.payload + offset) bytes,
      books.entries.map (·.written entry.payload offset bytes)⟩ := by
  have hsound := h.sound entry hentry
  have hothers : ∀ other ∈ books.entries, other = entry ∨
      other.written entry.payload offset bytes = other ∧
        other.block.written (entry.payload + offset) bytes = other.block := by
    intro other hother
    rcases h.eq_or_apart hentry hother with heq | hapart
    · exact Or.inl heq
    · exact Or.inr ⟨if_neg (hsound.payload_ne (h.sound other hother) hapart),
        Block.written_of_apart hapart (hsound.covers_payload hinside)⟩
  constructor
  · rw [Heap.blocks_write, h.blocks, List.map_map, List.map_map]
    refine List.map_congr_left fun other hother => ?_
    rcases hothers other hother with rfl | ⟨hentry', hblock⟩
    · exact (hsound.block_written hinside).symm
    · exact hblock.trans (congrArg Entry.block hentry').symm
  · intro _ hmem
    obtain ⟨other, hother, rfl⟩ := List.mem_map.mp hmem
    rcases hothers other hother with rfl | ⟨hentry', -⟩
    · exact hsound.written hinside
    · rw [hentry']
      exact h.sound other hother
  · rw [Heap.blocks_write, List.pairwise_map]
    exact h.apart.imp fun hapart => hapart.written _ _

end Books.Balanced

/-- What a permitted dealing does. Bytes are handed out as a copy behind their
length, unless there are none or the request is refused. A release gives back the
block that was granted for the buffer, and a write is found in the payload. -/
def Dealing.Settled (books : Books) (buffer : Buffer) (heap : Heap) : Dealing → Prop
  | handOut allocator bytes =>
      ((bytes = [] ∨ allocator books.heap (bytes.length + headerSize) alignment = none) ∧
        buffer = .null ∧ heap = books.heap) ∨
      ∃ base, bytes ≠ [] ∧
        allocator books.heap (bytes.length + headerSize) alignment = some base ∧
        buffer = ⟨some (base + headerSize), bytes.length⟩ ∧
        (Entry.ofGrant base bytes).Held heap
  | release none => heap = books.heap
  | release (some payload) => ∃ entry ∈ books.entries, entry.payload = payload ∧
      books.heap.deallocate entry.base (entry.length + headerSize) alignment = some heap
  | overwrite payload offset bytes => ∃ entry ∈ books.entries, entry.payload = payload ∧
      (entry.written payload offset bytes).Held heap

theorem Dealing.enter_handOut_null (allocator : Allocator) (bytes : Bytes) (heap : Heap)
    (entries : List Entry) :
    (Dealing.handOut allocator bytes).enter heap .null entries = entries := by
  rw [enter]
  rcases allocator heap (bytes.length + headerSize) alignment <;> rfl

/-- The entries of the buffers that a dealing does not touch stay. -/
theorem Dealing.mem_enter {dealing : Dealing} {entries : List Entry} {entry : Entry}
    (hentry : entry ∈ entries) (htarget : dealing.target ≠ some entry.payload) (heap : Heap)
    (buffer : Buffer) : entry ∈ dealing.enter heap buffer entries := by
  rcases dealing with ⟨allocator, bytes⟩ | ⟨_ | payload⟩ | ⟨payload, offset, bytes⟩
  · rw [enter]
    split
    · exact List.mem_cons_of_mem _ hentry
    · exact hentry
  · exact hentry
  · have hne : ¬ (entry.payload == payload) = true := by
      rw [beq_iff_eq]
      exact fun heq => htarget (congrArg some heq.symm)
    exact (List.mem_eraseP_of_neg (p := (·.payload == payload)) hne).mpr hentry
  · have hne : entry.payload ≠ payload := fun heq => htarget (congrArg some heq.symm)
    exact List.mem_map.mpr ⟨entry, hentry, if_neg hne⟩

namespace Books

/-- A permitted dealing is carried out and leaves balanced books balanced. -/
theorem Balanced.deal {books : Books} (h : books.Balanced) {dealing : Dealing}
    (hpermitted : books.Permits dealing) :
    ∃ buffer heap, dealing.perform books.heap = some (buffer, heap) ∧
      Balanced ⟨heap, dealing.enter books.heap buffer books.entries⟩ ∧
      dealing.Settled books buffer heap := by
  rcases dealing with ⟨allocator, bytes⟩ | ⟨_ | payload⟩ | ⟨payload, offset, bytes⟩
  · obtain ⟨hallocator, hlength⟩ := hpermitted
    by_cases hnone : bytes = [] ∨
        allocator books.heap (bytes.length + headerSize) alignment = none
    · refine ⟨.null, books.heap, congrArg some (handOut_of_nothing hnone), ?_,
        Or.inl ⟨hnone, rfl, rfl⟩⟩
      rw [Dealing.enter_handOut_null]
      exact h
    · obtain ⟨hbytes, hgranted⟩ := not_or.mp hnone
      obtain ⟨base, hgrant⟩ := Option.ne_none_iff_exists'.mp hgranted
      have hbuffer : (Loan.handOut allocator books.heap bytes).1 =
          ⟨some (base + headerSize), bytes.length⟩ := by
        rw [handOut_of_granted hbytes hgrant]
      have hbalanced := h.handOut hallocator hbytes hlength hgrant
      refine ⟨_, _, congrArg some (Prod.ext hbuffer rfl), ?_,
        Or.inr ⟨base, hbytes, hgrant, rfl, hbalanced.held List.mem_cons_self⟩⟩
      rw [Dealing.enter, hgrant]
      exact hbalanced
  · exact ⟨.null, books.heap, rfl, h, rfl⟩
  · obtain ⟨entry, hentry, rfl⟩ := hpermitted
    obtain ⟨heap, hgiven, hbalanced⟩ := h.deallocate hentry
    have hperform : (Dealing.release (some entry.payload)).perform books.heap =
        some (.null, heap) := by
      rw [Dealing.perform, (h.sound entry hentry).release_eq (h.held hentry), hgiven,
        Option.map_some]
    exact ⟨.null, heap, hperform, hbalanced, entry, hentry, rfl, hgiven⟩
  · obtain ⟨entry, hentry, rfl, hinside⟩ := hpermitted
    have hbalanced := h.overwrite hentry hinside
    exact ⟨.null, _, rfl, hbalanced, entry, hentry, rfl,
      hbalanced.held (List.mem_map_of_mem hentry)⟩

theorem Reached.balanced {books : Books} (h : books.Reached) : books.Balanced := by
  induction h with
  | start => exact Balanced.start
  | deal dealing before permitted performed ih =>
      obtain ⟨buffer, heap, hperform, hbalanced, -⟩ := ih.deal permitted
      rw [performed] at hperform
      cases hperform
      exact hbalanced

/-- Whatever was dealt so far, every buffer that is out is where its borrower was
told, holds what was last written to it, and has a block of its own, and there are
no other blocks. Every dealing that is permitted is then carried out as
`Dealing.Settled` says and leaves all other buffers as they are. -/
theorem Reached.accounts {books : Books} (h : books.Reached) :
    books.heap.blocks = books.entries.map Entry.block ∧
    (books.entries = [] → books.heap = .empty) ∧
    (∀ entry ∈ books.entries, entry.Held books.heap) ∧
    ∀ dealing, books.Permits dealing → ∃ buffer heap,
      dealing.perform books.heap = some (buffer, heap) ∧
      (∀ entry ∈ books.entries, dealing.target ≠ some entry.payload → entry.Held heap) ∧
      dealing.Settled books buffer heap := by
  have hbalanced := h.balanced
  refine ⟨hbalanced.blocks, ?_, fun entry hentry => hbalanced.held hentry, ?_⟩
  · intro hnone
    have hblocks := hbalanced.blocks
    rw [hnone, List.map_nil] at hblocks
    exact congrArg Heap.mk hblocks
  · intro dealing hpermitted
    obtain ⟨buffer, heap, hperform, hafter, hsettled⟩ := hbalanced.deal hpermitted
    refine ⟨buffer, heap, hperform, ?_, hsettled⟩
    intro entry hentry htarget
    exact hafter.held (Dealing.mem_enter hentry htarget books.heap buffer)

/-- Two buffers are handed out, the first is written to and the second released. The
first one then holds what was written, and nothing is left when it is released
too. -/
theorem Reached.accounts_two_buffers : ∃ books : Books, books.Reached ∧
    books.entries = [⟨8, 16, 3, [1, 9, 3]⟩] ∧ books.heap.read 16 3 = some [1, 9, 3] ∧
    ∃ heap, Loan.release books.heap (some 16) = some heap ∧ heap = .empty := by
  have hfirst : Reached ⟨⟨[⟨8, 8, [3, 0, 0, 0, 0, 0, 0, 0, 1, 2, 3]⟩]⟩, [⟨8, 16, 3, [1, 2, 3]⟩]⟩ :=
    .deal (.handOut .bump [1, 2, 3]) .start ⟨Allocator.sound_bump, by decide⟩ rfl
  have hsecond : Reached ⟨⟨[⟨24, 8, [1, 0, 0, 0, 0, 0, 0, 0, 4]⟩,
      ⟨8, 8, [3, 0, 0, 0, 0, 0, 0, 0, 1, 2, 3]⟩]⟩, [⟨24, 32, 1, [4]⟩, ⟨8, 16, 3, [1, 2, 3]⟩]⟩ :=
    .deal (.handOut .bump [4]) hfirst ⟨Allocator.sound_bump, by decide⟩ rfl
  have hwritten : Reached ⟨⟨[⟨24, 8, [1, 0, 0, 0, 0, 0, 0, 0, 4]⟩,
      ⟨8, 8, [3, 0, 0, 0, 0, 0, 0, 0, 1, 9, 3]⟩]⟩, [⟨24, 32, 1, [4]⟩, ⟨8, 16, 3, [1, 9, 3]⟩]⟩ :=
    .deal (.overwrite 16 1 [9]) hsecond ⟨⟨8, 16, 3, [1, 2, 3]⟩, by simp, rfl, by decide⟩ rfl
  have hreleased : Reached ⟨⟨[⟨8, 8, [3, 0, 0, 0, 0, 0, 0, 0, 1, 9, 3]⟩]⟩,
      [⟨8, 16, 3, [1, 9, 3]⟩]⟩ :=
    .deal (.release (some 32)) hwritten ⟨⟨24, 32, 1, [4]⟩, by simp, rfl⟩ rfl
  obtain ⟨-, -, hheld, hdeal⟩ := hreleased.accounts
  have hlast : Permits ⟨⟨[⟨8, 8, [3, 0, 0, 0, 0, 0, 0, 0, 1, 9, 3]⟩]⟩, [⟨8, 16, 3, [1, 9, 3]⟩]⟩
      (.release (some 16)) := ⟨_, List.mem_cons_self, rfl⟩
  obtain ⟨buffer, heap, hperform, -, -⟩ := hdeal (.release (some 16)) hlast
  obtain ⟨-, hempty, -, -⟩ := (Reached.deal _ hreleased hlast hperform).accounts
  rw [Dealing.perform, Option.map_eq_some_iff] at hperform
  obtain ⟨_, hrelease, ⟨rfl, rfl⟩⟩ := hperform
  exact ⟨_, hreleased, rfl, (hheld _ List.mem_cons_self).contents, heap, hrelease, hempty rfl⟩

end Books

end Loan

end NamedBlobs
