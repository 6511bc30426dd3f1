import NamedBlobs.Proofs.Table.Acceptance

/-!
# Cutting off and adding bytes

Decoding looks at the bytes up to the one it stops behind and at no other. So a
table is still decoded from any longer or shorter byte string that agrees on
them, and bytes that are cut off before are missed: what is left never decodes
to another table, nor fails in another way. A flaw that is not for missing bytes
stays, whatever is added.
-/

namespace NamedBlobs

namespace Table

theorem consumed_of_declared_nonpos (data : Bytes) (hlength : countSize ≤ data.length)
    (h : (declared data).toInt ≤ 0) : consumed data = countSize := by
  have hnone : declaredRecords data = 0 := Int.toNat_of_nonpos h
  rw [consumed, decoding_of_le data hlength, hnone, scan, Reader.startingAt]

namespace Layout

variable {data : Bytes}

theorem decode_append (layout : Layout data) (extension : Bytes) :
    decode (data ++ extension) = .ok layout.table := by
  obtain ⟨layout', hentries⟩ := layout.exists_append extension
  rw [layout'.decode_eq, table, table, hentries]

theorem decode_take (layout : Layout data) (length : Nat) (h : layout.size ≤ length) :
    decode (data.take length) = .ok layout.table := by
  obtain ⟨layout', hentries⟩ := layout.exists_take length h
  rw [layout'.decode_eq, table, table, hentries]

/-- Bytes that are cut off in front of the tail are missed. -/
theorem decode_take_of_lt (layout : Layout data) (length : Nat) (hcount : countSize ≤ length)
    (h : length < layout.size) :
    ∃ failure, decode (data.take length) = .error failure ∧ failure.Missing length := by
  have hsize := layout.size_add_length_tail
  have hlength : (data.take length).length = length := by
    rw [List.length_take]
    omega
  have hcount' : countSize ≤ (data.take length).length := hlength.symm ▸ hcount
  rcases layout_or_firstDefect (data.take length) hcount' with
    ⟨⟨short⟩⟩ | ⟨index, start, flaw, failure, hdefect⟩
  · -- a layout of the shorter bytes is one of all bytes, which have only the longer one
    have hlong := short.exists_append (data.drop length)
    rw [List.take_append_drop] at hlong
    obtain ⟨layout', hentries⟩ := hlong
    have hsame : layout.size = short.size := by
      rw [layout.unique layout', size, size, hentries]
    have hshort := short.size_add_length_tail
    omega
  · rcases hdefect.truncated_or_append hcount' with hmissing | ⟨_, happend⟩
    · rw [hlength] at hmissing
      exact ⟨failure, hdefect.decode_eq hcount', hmissing⟩
    · have hfails := (happend (data.drop length)).decode_eq (by
        rw [List.take_append_drop]
        exact layout.countSize_le)
      rw [List.take_append_drop, layout.decode_eq] at hfails
      cases hfails

end Layout

/-- A decoded table depends on the bytes up to the position that decoding stops
at and on no other. Bytes that are cut off in front of it are reported as
missing, and a failure that is not for missing bytes stays, whatever follows. -/
theorem decode_take_append (data : Bytes) :
    (∀ table, countSize ≤ data.length → decode data = .ok table →
      ((declared data).toInt ≤ 0 → consumed data = countSize) ∧
      (∀ length, consumed data ≤ length → length ≤ data.length →
        decode (data.take length) = .ok table) ∧
      (∀ extension, decode (data ++ extension) = .ok table) ∧
      (∀ length, countSize ≤ length → length < consumed data →
        ∃ offset need available,
          decode (data.take length) = .error (.truncated offset need available) ∧
            offset + available = length ∧ available < need) ∧
      ∀ length, length < countSize → decode (data.take length) = .ok empty) ∧
    ∀ failure, decode data = .error failure →
      ((∃ offset, failure = .overlongInteger offset) ∨
        ∃ offset length, failure = .invalidLength offset length) →
      ∀ extension, decode (data ++ extension) = .error failure := by
  constructor
  · intro table hlength hdecode
    obtain ⟨layout, rfl⟩ := exists_layout_of_decode hdecode hlength
    refine ⟨consumed_of_declared_nonpos data hlength, ?_, layout.decode_append, ?_, ?_⟩
    · intro length hle _
      rw [layout.consumed_eq] at hle
      exact layout.decode_take length hle
    · intro length hcount hlt
      rw [layout.consumed_eq] at hlt
      obtain ⟨_, hfails, offset, need, available, rfl, hend, hmissing⟩ :=
        layout.decode_take_of_lt length hcount hlt
      exact ⟨offset, need, available, hfails, hend, hmissing⟩
    · intro length hlt
      apply decode_of_lt
      rw [List.length_take]
      omega
  · intro failure hdecode hsettled extension
    obtain ⟨hlength, index, start, flaw, hdefect⟩ := exists_firstDefect_of_decode hdecode
    rcases hdefect.truncated_or_append hlength with ⟨_, _, _, rfl, _⟩ | ⟨_, happend⟩
    · rcases hsettled with ⟨_, hfailure⟩ | ⟨_, _, hfailure⟩ <;> cases hfailure
    · refine (happend extension).decode_eq ?_
      rw [List.length_append]
      omega

/-- One record and a byte behind it, cut off inside the identifier. -/
theorem decode_take_nine :
    decode [1, 0, 0, 0, 2, 0x61, 0x62, 5, 0, 0, 0, 0, 0, 0, 0, 9] = .ok ⟨[⟨[0x61, 0x62], 5⟩]⟩ ∧
    consumed [1, 0, 0, 0, 2, 0x61, 0x62, 5, 0, 0, 0, 0, 0, 0, 0, 9] = 15 ∧
    ∃ offset need available,
      decode [1, 0, 0, 0, 2, 0x61, 0x62, 5, 0] = .error (.truncated offset need available) ∧
        offset + available = 9 ∧ available < need := by
  have hdecode : decode [1, 0, 0, 0, 2, 0x61, 0x62, 5, 0, 0, 0, 0, 0, 0, 0, 9] =
      .ok ⟨[⟨[0x61, 0x62], 5⟩]⟩ := by decide +kernel
  have hconsumed : consumed [1, 0, 0, 0, 2, 0x61, 0x62, 5, 0, 0, 0, 0, 0, 0, 0, 9] = 15 := by
    decide +kernel
  obtain ⟨-, -, -, hcut, -⟩ := (decode_take_append _).1 _ (by decide) hdecode
  exact ⟨hdecode, hconsumed, hcut 9 (by decide) (by rw [hconsumed]; decide)⟩

end Table

end NamedBlobs
