import NamedBlobs.Proofs.Table.Entry

/-!
# Defects of a record

At every place of a byte string either an entry stands or one of five flaws
spoils the record that would start there (`entry_or_defect`). `Defect` names the
flaw together with the failure that is reported for it: a length that does not
end in time is reported where it starts, like a negative one, and bytes that
are missing are reported where they would be.

The flaws exclude each other and exclude an entry (`Defect.unique`,
`Defect.not_entry`). A flaw of the length itself, in contrast to missing bytes,
does not depend on what follows (`Defect.truncated_or_settled`).
-/

namespace NamedBlobs

/-- What can be wrong with a record. -/
inductive Flaw where
  /-- Five bytes of the length all announce another one. -/
  | overlong
  /-- The bytes end inside the length. -/
  | unfinished
  /-- The length is negative. -/
  | negative
  /-- The bytes end inside the name. -/
  | shortName
  /-- The bytes end inside the identifier. -/
  | shortIdentifier
  deriving DecidableEq

/-- The record that would start at `start` in `data` has a flaw, and this is the
failure that reports it. -/
inductive Defect (data : Bytes) (start : Nat) : Flaw → DecodeError → Prop where
  | overlong (hlength : SevenBit.maxBytes ≤ (data.drop start).length)
      (hall : ∀ byte ∈ (data.drop start).take SevenBit.maxBytes, SevenBit.continues byte) :
      Defect data start .overlong (.overlongInteger start)
  | unfinished (hlength : (data.drop start).length < SevenBit.maxBytes)
      (hall : ∀ byte ∈ data.drop start, SevenBit.continues byte) :
      Defect data start .unfinished (.truncated data.length 1 0)
  | negative (groups rest : Bytes) (hgroups : SevenBit.Complete groups)
      (hsplit : data.drop start = groups ++ rest)
      (hnegative : (SevenBit.value groups).toInt < 0) :
      Defect data start .negative (.invalidLength start (SevenBit.value groups))
  | shortName (groups rest : Bytes) (length : Nat) (hgroups : SevenBit.Complete groups)
      (hsplit : data.drop start = groups ++ rest)
      (hvalue : (SevenBit.value groups).toInt = length) (hpos : 0 < length)
      (hshort : data.length - start - groups.length < length) :
      Defect data start .shortName
        (.truncated (start + groups.length) length (data.length - start - groups.length))
  | shortIdentifier (groups name rest : Bytes) (hgroups : SevenBit.Complete groups)
      (hsplit : data.drop start = groups ++ name ++ rest)
      (hvalue : (SevenBit.value groups).toInt = name.length)
      (hshort : data.length - start - groups.length - name.length < 8) :
      Defect data start .shortIdentifier
        (.truncated (start + groups.length + name.length) 8
          (data.length - start - groups.length - name.length))

/-- The failure is for bytes that are missing at the end of `length` bytes: more
is needed at its offset than is there up to the end. -/
def DecodeError.Missing (length : Nat) (failure : DecodeError) : Prop :=
  ∃ offset need available, failure = .truncated offset need available ∧
    offset + available = length ∧ available < need

namespace Defect

theorem length_eq_of_drop_eq {data : Bytes} {start : Nat} {front rest : Bytes}
    (hsplit : data.drop start = front ++ rest) :
    data.length - start = front.length + rest.length := by
  rw [← List.length_drop, hsplit, List.length_append]

/-- Reading a record that has a flaw fails with the failure that reports it. -/
theorem run_decoder {data : Bytes} {start : Nat} {flaw : Flaw} {failure : DecodeError}
    (h : Defect data start flaw failure) (hstart : start ≤ data.length) :
    ∃ reader, Record.decoder.run (Reader.startingAt data start) = .error failure reader := by
  rw [Reader.startingAt]
  cases h with
  | overlong hlength hall =>
      have htake : ((data.drop start).take SevenBit.maxBytes).length = SevenBit.maxBytes := by
        rw [List.length_take]
        omega
      have hrun := SevenBit.run_sevenBit_of_overlong ((data.drop start).take SevenBit.maxBytes)
        ((data.drop start).drop SevenBit.maxBytes) start htake hall
      rw [List.take_append_drop] at hrun
      exact ⟨_, Record.run_decoder_of_error (Decoder.run_string_of_error hrun)⟩
  | unfinished hlength hall =>
      have hrun := SevenBit.run_sevenBit_of_unfinished (data.drop start) start hlength hall
      have hend : start + (data.drop start).length = data.length := by
        rw [List.length_drop]
        omega
      rw [hend] at hrun
      exact ⟨_, Record.run_decoder_of_error (Decoder.run_string_of_error hrun)⟩
  | negative groups rest hgroups hsplit hnegative =>
      have hrun := Decoder.run_string_of_complete groups rest start hgroups
      rw [if_pos hnegative, ← hsplit] at hrun
      exact ⟨_, Record.run_decoder_of_error hrun⟩
  | shortName groups rest length hgroups hsplit hvalue hpos hshort =>
      have hlengths := length_eq_of_drop_eq hsplit
      have hrest : data.length - start - groups.length = rest.length := by omega
      have hnonneg : ¬ (SevenBit.value groups).toInt < 0 := by
        rw [hvalue]
        omega
      have hmissing : (Reader.mk (start + groups.length) rest).remaining < length := by
        rw [Reader.remaining]
        exact hrest ▸ hshort
      have hrun := Decoder.run_string_of_complete groups rest start hgroups
      rw [if_neg hnonneg, hvalue, Int.toNat_natCast, Decoder.run_bytes_of_lt hmissing,
        ← hsplit] at hrun
      rw [hrest]
      exact ⟨_, Record.run_decoder_of_error hrun⟩
  | shortIdentifier groups name rest hgroups hsplit hvalue hshort =>
      have hlengths := length_eq_of_drop_eq hsplit
      rw [List.length_append] at hlengths
      have hrest : data.length - start - groups.length - name.length = rest.length := by omega
      have hmissing : (Reader.mk (start + groups.length + name.length) rest).remaining < 8 := by
        rw [Reader.remaining]
        exact hrest ▸ hshort
      have hname := Decoder.run_string_append groups name rest start hgroups hvalue
      have hword := Decoder.run_map_fixed_of_lt Int64.ofInt .i64 hmissing
      rw [← List.append_assoc, ← hsplit] at hname
      rw [hrest, Record.decoder, Decoder.run_bind_of_ok hname, Decoder.int64,
        Decoder.run_bind_of_error hword]
      exact ⟨_, rfl⟩

theorem not_entry {data : Bytes} {start : Nat} {flaw : Flaw} {failure : DecodeError}
    (h : Defect data start flaw failure) (hstart : start ≤ data.length) (entry : Entry) :
    ¬ entry.bytes <+: data.drop start := by
  rintro ⟨rest, hrest⟩
  obtain ⟨reader, hfails⟩ := h.run_decoder hstart
  have hreads := Record.run_decoder_entry entry rest start
  rw [hrest] at hreads
  rw [Reader.startingAt, hreads] at hfails
  cases hfails

/-- A name and an identifier that are cut off are missed at different places. -/
theorem shortName_ne_shortIdentifier {bytes groups groups' name rest rest' : Bytes}
    (hgroups : SevenBit.Complete groups) (hgroups' : SevenBit.Complete groups')
    (hsplit : bytes = groups ++ rest) (hsplit' : bytes = groups' ++ name ++ rest')
    {length : Nat} (hvalue : (SevenBit.value groups).toInt = length) (hpos : 0 < length)
    (hvalue' : (SevenBit.value groups').toInt = name.length)
    (start available available' : Nat) :
    DecodeError.truncated (start + groups.length) length available ≠
      .truncated (start + groups'.length + name.length) 8 available' := by
  rw [hsplit, List.append_assoc] at hsplit'
  obtain ⟨rfl, -⟩ := hgroups.eq_of_append_eq hgroups' hsplit'
  intro hfailure
  injection hfailure with hoffset
  omega

/-- A record has one flaw at most, and the failure is determined by it. -/
theorem unique {data : Bytes} {start : Nat} {flaw flaw' : Flaw}
    {failure failure' : DecodeError} (h : Defect data start flaw failure)
    (h' : Defect data start flaw' failure') (hstart : start ≤ data.length) :
    flaw = flaw' ∧ failure = failure' := by
  obtain ⟨reader, hrun⟩ := h.run_decoder hstart
  obtain ⟨reader', hrun'⟩ := h'.run_decoder hstart
  have hfailure : failure = failure' := by
    rw [hrun] at hrun'
    injection hrun'
  refine ⟨?_, hfailure⟩
  -- only the three failures for missing bytes can be the same for two flaws
  cases h with
  | overlong _ _ =>
      cases h' with
      | overlong _ _ => rfl
      | _ => cases hfailure
  | negative _ _ _ _ _ =>
      cases h' with
      | negative _ _ _ _ _ => rfl
      | _ => cases hfailure
  | unfinished _ hall =>
      cases h' with
      | overlong _ _ => cases hfailure
      | unfinished _ _ => rfl
      | negative _ _ _ _ _ => cases hfailure
      | shortName _ _ _ hgroups hsplit _ _ _ =>
          exact absurd hsplit (hgroups.ne_append_of_all hall)
      | shortIdentifier _ _ _ hgroups hsplit _ _ =>
          rw [List.append_assoc] at hsplit
          exact absurd hsplit (hgroups.ne_append_of_all hall)
  | shortName _ _ _ hgroups hsplit hvalue hpos _ =>
      cases h' with
      | overlong _ _ => cases hfailure
      | unfinished _ hall => exact absurd hsplit (hgroups.ne_append_of_all hall)
      | negative _ _ _ _ _ => cases hfailure
      | shortName _ _ _ _ _ _ _ _ => rfl
      | shortIdentifier _ _ _ hgroups' hsplit' hvalue' _ =>
          exact absurd hfailure (shortName_ne_shortIdentifier hgroups hgroups' hsplit hsplit'
            hvalue hpos hvalue' start _ _)
  | shortIdentifier _ _ _ hgroups hsplit hvalue _ =>
      cases h' with
      | overlong _ _ => cases hfailure
      | unfinished _ hall =>
          rw [List.append_assoc] at hsplit
          exact absurd hsplit (hgroups.ne_append_of_all hall)
      | negative _ _ _ _ _ => cases hfailure
      | shortName _ _ _ hgroups' hsplit' hvalue' hpos' _ =>
          exact absurd hfailure.symm (shortName_ne_shortIdentifier hgroups' hgroups hsplit' hsplit
            hvalue' hpos' hvalue start _ _)
      | shortIdentifier _ _ _ _ _ _ _ => rfl

/-- A failure for missing bytes counts what is there up to the end, and it is
less than what is needed. Any other failure is settled by bytes that are there,
whatever follows them. -/
theorem truncated_or_settled {data : Bytes} {start : Nat} {flaw : Flaw}
    {failure : DecodeError} (h : Defect data start flaw failure)
    (hstart : start ≤ data.length) :
    failure.Missing data.length ∨
      (∀ offset need available, failure ≠ .truncated offset need available) ∧
        ∀ extension, Defect (data ++ extension) start flaw failure := by
  cases h with
  | overlong hlength hall =>
      refine Or.inr ⟨by simp, fun extension => Defect.overlong ?_ ?_⟩
      · rw [List.drop_append_of_le_length hstart, List.length_append]
        omega
      · rw [List.drop_append_of_le_length hstart, List.take_append_of_le_length hlength]
        exact hall
  | unfinished hlength hall =>
      exact Or.inl ⟨data.length, 1, 0, rfl, rfl, Nat.zero_lt_one⟩
  | negative groups rest hgroups hsplit hnegative =>
      refine Or.inr ⟨by simp, fun extension =>
        Defect.negative groups (rest ++ extension) hgroups ?_ hnegative⟩
      rw [List.drop_append_of_le_length hstart, hsplit, List.append_assoc]
  | shortName groups rest length hgroups hsplit hvalue hpos hshort =>
      have hlengths := length_eq_of_drop_eq hsplit
      exact Or.inl ⟨_, _, _, rfl, by omega, hshort⟩
  | shortIdentifier groups name rest hgroups hsplit hvalue hshort =>
      have hlengths := length_eq_of_drop_eq hsplit
      rw [List.length_append] at hlengths
      exact Or.inl ⟨_, _, _, rfl, by omega, hshort⟩

/-- A failure is reported behind the start of the record and within the bytes. -/
theorem offset_bounds {data : Bytes} {start : Nat} {flaw : Flaw} {failure : DecodeError}
    (h : Defect data start flaw failure) (hstart : start ≤ data.length) :
    start ≤ failure.offset ∧ failure.offset ≤ data.length := by
  cases h with
  | overlong _ _ => exact ⟨Nat.le_refl start, hstart⟩
  | unfinished _ _ => exact ⟨hstart, Nat.le_refl data.length⟩
  | negative _ _ _ _ _ => exact ⟨Nat.le_refl start, hstart⟩
  | shortName groups rest length hgroups hsplit hvalue hpos hshort =>
      have hlengths := length_eq_of_drop_eq hsplit
      rw [DecodeError.offset]
      omega
  | shortIdentifier groups name rest hgroups hsplit hvalue hshort =>
      have hlengths := length_eq_of_drop_eq hsplit
      rw [List.length_append] at hlengths
      rw [DecodeError.offset]
      omega

end Defect

/-- At every place an entry stands, or a flaw spoils the record. -/
theorem entry_or_defect (data : Bytes) (start : Nat) (hstart : start ≤ data.length) :
    (∃ entry : Entry, entry.bytes <+: data.drop start) ∨
      ∃ flaw failure, Defect data start flaw failure := by
  have hrest : data.length - start = (data.drop start).length := List.length_drop.symm
  generalize hdrop : data.drop start = rest at hrest
  cases SevenBit.opening rest with
  | overlong front tail hlength hfront =>
      refine Or.inr ⟨_, _, Defect.overlong ?_ ?_⟩
      · rw [hdrop, List.length_append, hlength]
        exact Nat.le_add_right SevenBit.maxBytes tail.length
      · rw [hdrop, List.take_left' hlength]
        exact hfront
  | unfinished _ hlength hfront =>
      refine Or.inr ⟨_, _, Defect.unfinished ?_ ?_⟩
      · rw [hdrop]
        exact hlength
      · rw [hdrop]
        exact hfront
  | complete groups tail hgroups =>
      rw [List.length_append] at hrest
      by_cases hneg : (SevenBit.value groups).toInt < 0
      · exact Or.inr ⟨_, _, Defect.negative groups tail hgroups hdrop hneg⟩
      obtain ⟨length, hvalue⟩ := Int.eq_ofNat_of_zero_le (Int.not_lt.mp hneg)
      by_cases hname : tail.length < length
      · exact Or.inr ⟨_, _, Defect.shortName groups tail length hgroups hdrop hvalue
          (by omega) (by omega)⟩
      have htake : (tail.take length).length = length := by
        rw [List.length_take]
        omega
      have hvalue' : (SevenBit.value groups).toInt = (tail.take length).length := by
        rw [htake, hvalue]
      by_cases hword : (tail.drop length).length < 8
      · refine Or.inr ⟨_, _, Defect.shortIdentifier groups (tail.take length)
          (tail.drop length) hgroups ?_ hvalue' ?_⟩
        · rw [hdrop, List.append_assoc, List.take_append_drop]
        · rw [List.length_drop] at hword
          omega
      · have height : ((tail.drop length).take 8).length = 8 := by
          rw [List.length_take]
          omega
        refine Or.inl ⟨Entry.ofParts groups (tail.take length) ((tail.drop length).take 8)
          hgroups hvalue' height, (tail.drop length).drop 8, ?_⟩
        change groups ++ tail.take length ++ (tail.drop length).take 8 ++
          (tail.drop length).drop 8 = _
        rw [List.append_assoc, List.append_assoc, List.take_append_drop,
          List.take_append_drop]

end NamedBlobs
