import NamedBlobs.Proofs.Lookup.Memory
import NamedBlobs.Proofs.Lookup.Outcome

/-!
# What the allocation counter comes to

The counter is absent, unreadable, damaged or present, and the answer to the one request
for it says which (`Dialogue.Count`, `Source.lastAllocated_iff_count`). It is absent only
where the source says that there is none; no bytes are an unreadable counter and one to
three bytes a damaged one. Four bytes are an integer that keeps its sign, and whatever
follows them is ignored.
-/

namespace NamedBlobs

theorem LocateError.isNotFound_iff {failure : LocateError} :
    failure.isNotFound = true ↔
      failure = .unassigned ∨ (∃ id, failure = .notFound id) ∨ ∃ id, failure = .outOfRange id := by
  cases failure <;> simp [isNotFound]

namespace Dialogue

/-- What the answer to the request for the allocation counter comes to. -/
inductive Count (answer : Answer) : Except ResolveError (Option ResourceId) → Prop
  | absent {failure : LocateError} (h : answer = .ok (.error failure))
      (hfailure : failure.isNotFound = true) : Count answer (.ok none)
  | unreadable {cause : LocateError} (h : Lacks .lastAllocated answer cause)
      (hcause : ¬ cause.isNotFound = true) :
      Count answer (.error (.resourceMissing .lastAllocated cause))
  | damaged {bytes : Bytes} (h : Gives answer bytes) (hlength : bytes.length ≤ 3) :
      Count answer (.error (.corruptCounter (.truncated 0 4 bytes.length)))
  | present {front tail : Bytes} {id : ResourceId} (h : answer = .ok (.ok (front ++ tail)))
      (hlength : front.length = 4) (hid : id.value.toInt = FixedWidth.i32.decode front) :
      Count answer (.ok (some id))

theorem counterOf_of_le {bytes : Bytes} (h : bytes.length ≤ 3) :
    Source.counterOf bytes = .error (.corruptCounter (.truncated 0 4 bytes.length)) := by
  have hshort : (Reader.ofBytes bytes).remaining < FixedWidth.i32.size := Nat.lt_succ_of_le h
  have hrun : Decoder.int32 (Reader.ofBytes bytes) =
      .error (.truncated 0 4 bytes.length) (Reader.ofBytes bytes) :=
    Decoder.run_map_fixed_of_lt Int32.ofInt .i32 hshort
  rw [Source.counterOf, hrun]

/-- The four bytes of an integer are read, and the integer keeps its value. -/
theorem counterOf_append {front : Bytes} (h : front.length = 4) (tail : Bytes) {id : ResourceId}
    (hid : id.value.toInt = FixedWidth.i32.decode front) :
    Source.counterOf (front ++ tail) = .ok (some id) := by
  have hrun : Decoder.int32 (Reader.ofBytes (front ++ tail)) =
      .ok (Int32.ofInt (FixedWidth.i32.decode front)) ⟨0 + 4, tail⟩ :=
    Decoder.run_map_fixed_append Int32.ofInt .i32 front tail 0 h
  have hvalue : Int64.ofInt (Int32.ofInt (FixedWidth.i32.decode front)).toInt = id.value := by
    apply Int64.toInt_inj.mp
    rw [Int64.ofInt_int32ToInt, Int32.toInt_toInt64, FixedWidth.toInt_ofInt_decode_i32, hid]
  rw [Source.counterOf, hrun]
  simp only [hvalue]

variable {σ : Type} {source : Source (Traced σ)} {s : σ}

theorem value_lastAllocated :
    (lastAllocated.run source s).value =
      ((source.answer .lastAllocated s).map (fetched .lastAllocated)).map counted := by
  have hassigned : ¬ ResourceId.lastAllocated.isUnassigned = true := by decide
  rw [lastAllocated, run_map, tryFetch_of_assigned hassigned, run_load]

/-- The counter comes to what its answer counts for. -/
theorem Count.value_eq {found : Except ResolveError (Option ResourceId)}
    (h : Count (source.answer .lastAllocated s) found) :
    (lastAllocated.run source s).value = .ok found := by
  rw [value_lastAllocated]
  cases h with
  | absent hanswer hfailure =>
      rw [map_fetched_eq_error_iff.mpr (Or.inl hanswer)]
      simp only [Except.map, counted, if_pos hfailure]
  | unreadable hlacks hcause =>
      rw [map_fetched_eq_error_iff.mpr hlacks]
      simp only [Except.map, counted, if_neg hcause]
  | damaged hgives hlength =>
      rw [map_fetched_eq_ok_iff.mpr hgives]
      simp only [Except.map, counted, counterOf_of_le hlength]
  | @present front tail id hanswer hlength hid =>
      have hne : front ++ tail ≠ [] :=
        List.append_ne_nil_of_left_ne_nil (List.ne_nil_of_length_eq_add_one hlength) tail
      rw [map_fetched_eq_ok_iff.mpr ⟨hanswer, hne⟩]
      simp only [Except.map, counted, counterOf_append hlength tail hid]

/-- Unless the load panics, the answer counts for something. -/
theorem exists_count (answer : Answer) :
    (∃ panic, answer = .error panic) ∨ ∃ found, Count answer found := by
  rcases hfetched : answer.map (fetched .lastAllocated) with panic | cause | blob
  · left
    cases answer with
    | error panic => exact ⟨panic, rfl⟩
    | ok found => cases hfetched
  · have hlacks := map_fetched_eq_error_iff.mp hfetched
    by_cases hcause : cause.isNotFound = true
    · rcases hlacks with hanswer | ⟨-, rfl⟩
      · exact Or.inr ⟨_, .absent hanswer hcause⟩
      · cases hcause
    · exact Or.inr ⟨_, .unreadable hlacks hcause⟩
  · have hgives := map_fetched_eq_ok_iff.mp hfetched
    rcases Nat.lt_or_ge 3 blob.bytes.length with hlong | hshort
    · have hanswer : answer = .ok (.ok (blob.bytes.take 4 ++ blob.bytes.drop 4)) := by
        rw [List.take_append_drop]
        exact hgives.1
      have hvalue := FixedWidth.toInt_ofInt_decode_i32 (blob.bytes.take 4)
      exact Or.inr ⟨.ok (some ⟨(Int32.ofInt (FixedWidth.i32.decode (blob.bytes.take 4))).toInt64⟩),
        .present hanswer (List.length_take_of_le hlong) ((Int32.toInt_toInt64 _).trans hvalue)⟩
    · exact Or.inr ⟨_, .damaged hgives hshort⟩

end Dialogue

namespace Source

open Dialogue (Count Gives)

variable {σ : Type}

theorem lastAllocated_iff_count (source : Source (Traced σ)) (s : σ)
    (found : Except ResolveError (Option ResourceId)) :
    (source.lastAllocated.run s).result = .ok found ↔
      Count (source.answer .lastAllocated s) found := by
  rw [(source.follows_lastAllocated s).1]
  constructor
  · intro hvalue
    rcases Dialogue.exists_count (source.answer .lastAllocated s) with
      ⟨panic, hpanic⟩ | ⟨found', hcount⟩
    · rw [Dialogue.value_lastAllocated, hpanic] at hvalue
      cases hvalue
    · have hvalue' := hcount.value_eq
      rw [hvalue] at hvalue'
      cases hvalue'
      exact hcount
  · exact Count.value_eq

/-- A counter that was written down comes back, whatever stands behind it. -/
theorem lastAllocated_of_encode {source : Source (Traced σ)} {s : σ} {value : Int32} {tail : Bytes}
    (h : source.answer .lastAllocated s = .ok (.ok (FixedWidth.i32.encode value.toInt ++ tail))) :
    (source.lastAllocated.run s).result = .ok (.ok (some ⟨value.toInt64⟩)) := by
  refine (source.lastAllocated_iff_count s _).mpr
    (.present h (FixedWidth.length_encode .i32 value.toInt) ?_)
  have hdecode := FixedWidth.toInt_ofInt_decode_i32 (FixedWidth.i32.encode value.toInt)
  rw [FixedWidth.ofInt_decode_encode_i32] at hdecode
  exact (Int32.toInt_toInt64 value).trans hdecode

/-- The allocation counter, over a source whose load for it comes back, comes to what the
answer to this load counts for, and no other answer matters. It tells of corruption if and
only if there are one to three bytes. A counter that is stored in a memory comes back with
its sign, whatever stands behind it and whatever else the memory holds. -/
theorem lastAllocated_tells_counts (source : Source (Traced σ)) (hreturns : source.Returns)
    (s : σ) :
    (∃ found, (source.lastAllocated.run s).result = .ok found) ∧
    (∀ found, (source.lastAllocated.run s).result = .ok found ↔
      Count (source.answer .lastAllocated s) found) ∧
    (∀ failure : LocateError, failure.isNotFound = true ↔
      failure = .unassigned ∨ (∃ id, failure = .notFound id) ∨ ∃ id, failure = .outOfRange id) ∧
    ((∃ failure, (source.lastAllocated.run s).result = .ok (.error failure) ∧
        failure.isCorruption = true) ↔
      ∃ bytes, Gives (source.answer .lastAllocated s) bytes ∧ bytes.length ≤ 3) ∧
    (∀ (value : Int32) (tail : Bytes),
      source.answer .lastAllocated s = .ok (.ok (FixedWidth.i32.encode value.toInt ++ tail)) →
        (source.lastAllocated.run s).result = .ok (.ok (some ⟨value.toInt64⟩))) ∧
    (∀ (memory : Memory) (value : Int32) (tail : Bytes),
      (Memory.source.lastAllocated.run
          (memory.insert .lastAllocated (FixedWidth.i32.encode value.toInt ++ tail))).result =
        .ok (.ok (some ⟨value.toInt64⟩))) ∧
    ∀ (τ : Type) (other : Source (Traced τ)) (t : τ),
      other.answer .lastAllocated t = source.answer .lastAllocated s →
        (other.lastAllocated.run t).result = (source.lastAllocated.run s).result := by
  refine ⟨?_, source.lastAllocated_iff_count s, fun failure => LocateError.isNotFound_iff,
    ⟨?_, ?_⟩, fun value tail => lastAllocated_of_encode, ?_, ?_⟩
  · obtain ⟨found, hfound⟩ := (Dialogue.passesPanics_tryFetch .lastAllocated).map
      Dialogue.counted |>.exists_value_of_returns hreturns s
    exact ⟨found, (source.follows_lastAllocated s).1.trans hfound⟩
  · rintro ⟨failure, hfailure, hcorruption⟩
    cases (source.lastAllocated_iff_count s _).mp hfailure with
    | unreadable => cases hcorruption
    | damaged hgives hlength => exact ⟨_, hgives, hlength⟩
  · rintro ⟨bytes, hgives, hlength⟩
    exact ⟨_, (source.lastAllocated_iff_count s _).mpr (.damaged hgives hlength), rfl⟩
  · intro memory value tail
    have hlength : (FixedWidth.i32.encode value.toInt).length = 4 :=
      FixedWidth.length_encode .i32 value.toInt
    have hne : FixedWidth.i32.encode value.toInt ++ tail ≠ [] :=
      List.append_ne_nil_of_left_ne_nil (List.ne_nil_of_length_eq_add_one hlength) tail
    exact lastAllocated_of_encode
      (Memory.answer_of_some (Memory.get?_insert_self memory .lastAllocated _) hne)
  · intro τ other t hanswer
    rw [(other.follows_lastAllocated t).1, (source.follows_lastAllocated s).1,
      Dialogue.value_lastAllocated, Dialogue.value_lastAllocated, hanswer]

/-- A negative counter with a byte behind it, in a memory whose table is damaged. -/
theorem lastAllocated_tells_counts_negative :
    Memory.source.Returns ∧
      (Memory.source.lastAllocated.run
          ((Memory.empty.insert .table [1, 0, 0, 0]).insert .lastAllocated
            (FixedWidth.i32.encode (-2 : Int32).toInt ++ [9]))).result =
        .ok (.ok (some ⟨(-2 : Int32).toInt64⟩)) := by
  have hreturns : Memory.source.Returns := fun _ _ => ⟨_, rfl⟩
  obtain ⟨-, -, -, -, -, hstored, -⟩ := lastAllocated_tells_counts Memory.source hreturns .empty
  exact ⟨hreturns, hstored _ _ _⟩

end Source

end NamedBlobs
