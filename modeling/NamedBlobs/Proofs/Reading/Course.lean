import NamedBlobs.Proofs.Reading.Words

/-!
# Readers that go back

A course of a reader is made of reads, failed ones included, of copies of the reader
that are kept, and of returns to a copy. Whatever was done before, the reader stands
within the data, and so do the copies (`Course.Within`). A copy is not touched
by anything that comes after it, so a return gives the reader back as it was.
-/

namespace NamedBlobs

/-- What is done with a reader: it reads, a copy of it is kept, or it goes back to the
copy with this number. -/
inductive Move where
  | read (read : Read)
  | keep
  | back (index : Nat)

/-- A reader and the copies of it that were kept, in the order in which they were made. -/
structure Course where
  reader : Reader
  kept : List Reader

namespace Course

def ofBytes (data : Bytes) : Course := ⟨.ofBytes data, []⟩

/-- One move. There is nothing to go back to where no copy has the number. -/
def make (course : Course) : Move → Course
  | .read read => { course with reader := (read.perform course.reader).reader }
  | .keep => { course with kept := course.kept ++ [course.reader] }
  | .back index => { course with reader := course.kept[index]?.getD course.reader }

def makeAll (course : Course) (moves : List Move) : Course := moves.foldl make course

theorem makeAll_cons (course : Course) (move : Move) (moves : List Move) :
    course.makeAll (move :: moves) = (course.make move).makeAll moves := rfl

theorem makeAll_concat (course : Course) (moves : List Move) (move : Move) :
    course.makeAll (moves ++ [move]) = (course.makeAll moves).make move := by
  rw [makeAll, List.foldl_append]
  rfl

/-- The reader and all its copies stand within `data`. -/
structure Within (data : Bytes) (course : Course) : Prop where
  reader : course.reader.Over data
  kept : ∀ copy ∈ course.kept, copy.Over data

theorem within_ofBytes (data : Bytes) : Within data (ofBytes data) :=
  ⟨Reader.over_ofBytes data, by simp [ofBytes]⟩

variable {data : Bytes}

theorem Within.make {course : Course} (h : Within data course) (move : Move) :
    Within data (course.make move) := by
  cases move with
  | read read => exact ⟨Read.over_perform h.reader read, h.kept⟩
  | keep =>
      refine ⟨h.reader, ?_⟩
      intro copy hmem
      rcases List.mem_append.mp hmem with hmem | hmem
      · exact h.kept copy hmem
      · rw [List.mem_singleton.mp hmem]
        exact h.reader
  | back index =>
      refine ⟨?_, h.kept⟩
      rw [Course.make]
      cases hcopy : course.kept[index]? with
      | none => exact h.reader
      | some copy => exact h.kept copy (List.mem_of_getElem? hcopy)

theorem Within.makeAll {course : Course} (h : Within data course) (moves : List Move) :
    Within data (course.makeAll moves) := by
  induction moves generalizing course with
  | nil => exact h
  | cons move moves ih => exact ih (h.make move)

/-- Copies stay what and where they are. -/
theorem kept_isPrefix_makeAll (course : Course) (moves : List Move) :
    course.kept <+: (course.makeAll moves).kept := by
  induction moves generalizing course with
  | nil => exact List.prefix_refl course.kept
  | cons move moves ih =>
      refine List.IsPrefix.trans ?_ (ih (course.make move))
      cases move with
      | read read => exact List.prefix_refl course.kept
      | keep => exact List.prefix_append course.kept [course.reader]
      | back index => exact List.prefix_refl course.kept

theorem reader_make_back {course : Course} {index : Nat} {copy : Reader}
    (h : course.kept[index]? = some copy) : (course.make (.back index)).reader = copy := by
  rw [make, h, Option.getD_some]

/-- A return to a copy gives the reader back as it was when the copy was made. -/
theorem reader_keep_back (course : Course) (later : List Move) :
    (course.makeAll (.keep :: later ++ [.back course.kept.length])).reader = course.reader := by
  have hkept : (course.kept ++ [course.reader])[course.kept.length]? = some course.reader :=
    List.getElem?_concat_length
  -- later copies come behind this one, so it keeps its number
  obtain ⟨others, hothers⟩ := kept_isPrefix_makeAll (course.make .keep) later
  have hcopy : (((course.make .keep).makeAll later).kept)[course.kept.length]? =
      some course.reader := by
    rw [← hothers, List.getElem?_append_left]
    · exact hkept
    · simp [Course.make]
  rw [makeAll_concat, makeAll_cons]
  exact reader_make_back hcopy

/-- Whatever was read and gone back to, the reader stands within the data and knows how
much is left of it. From there no read moves it backwards, a read that fails leaves it
where `Read.Fails` says, and what is done until it goes back to a copy does not matter.
In machine words the reads are the same, without a sum that leaves the range of a word
and without a block outside of the data. -/
theorem makeAll_stands (data : Bytes) (moves : List Move) (course : Course) (reader : Reader)
    (hcourse : (ofBytes data).makeAll moves = course) (hreader : course.reader = reader) :
    (reader.position ≤ data.length ∧ reader.rest = data.drop reader.position ∧
      reader.position + reader.remaining = data.length ∧
      (reader.isEmpty = true ↔ reader.remaining = 0) ∧ reader.length = data.length) ∧
    (∀ read, reader.position ≤ (read.perform reader).reader.position ∧
      ∀ failure, (read.perform reader).result = .error failure →
        Read.Fails reader read failure (read.perform reader).reader) ∧
    (∀ later, (course.makeAll (.keep :: later ++ [.back course.kept.length])).reader = reader) ∧
    (data.length < 2 ^ 64 → (reader.inWords data).remaining.toNat = reader.remaining ∧
      ∀ read : Read, read.Fits →
        (WordDecoder.ofRead read).run (reader.inWords data) =
          (read.perform reader).inWords data) := by
  have hover : reader.Over data := by
    rw [← hreader, ← hcourse]
    exact ((within_ofBytes data).makeAll moves).reader
  have hempty : reader.isEmpty = true ↔ reader.remaining = 0 := by
    rw [Reader.isEmpty, Reader.remaining, List.isEmpty_iff, List.length_eq_zero_iff]
  refine ⟨⟨hover.1, hover.2, hover.length_eq, hempty, hover.length_eq⟩, ?_, ?_, ?_⟩
  · exact fun read => ⟨read.position_le_perform reader, fun _ => Read.fails_of_perform⟩
  · intro later
    rw [← hreader]
    exact reader_keep_back course later
  · exact fun hdata => ⟨hover.toNat_remaining hdata, fun _ => WordDecoder.run_ofRead hdata hover⟩

/-- A string that is cut off inside its length, and then the largest block there is. -/
theorem makeAll_stands_largest_block :
    ((ofBytes [2, 0x61, 0x80, 0x80]).makeAll
        [.read .sevenBit, .keep, .read (.bytes 1), .read .string]).reader = ⟨4, []⟩ ∧
      ((ofBytes [2, 0x61, 0x80, 0x80]).makeAll
        [.read .sevenBit, .keep, .read (.bytes 1), .read .string]).kept =
          [⟨1, [0x61, 0x80, 0x80]⟩] ∧
      (WordDecoder.ofRead (.bytes (2 ^ 64 - 1))).run ⟨[2, 0x61, 0x80, 0x80], 4⟩ =
        .error (.failure (.truncated 4 (2 ^ 64 - 1) 0)) ⟨[2, 0x61, 0x80, 0x80], 4⟩ := by
  have hcourse : (ofBytes [2, 0x61, 0x80, 0x80]).makeAll
      [.read .sevenBit, .keep, .read (.bytes 1), .read .string] =
        ⟨⟨4, []⟩, [⟨1, [0x61, 0x80, 0x80]⟩]⟩ := by
    rfl
  obtain ⟨-, -, -, hwords⟩ := makeAll_stands _ _ _ _ hcourse rfl
  have hfits : (Read.bytes (2 ^ 64 - 1)).Fits := by
    rw [Read.Fits]
    decide
  have hlargest := (hwords (by decide)).2 (.bytes (2 ^ 64 - 1)) hfits
  exact ⟨congrArg Course.reader hcourse, congrArg Course.kept hcourse, hlargest⟩

end Course

end NamedBlobs
