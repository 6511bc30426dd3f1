import Mathlib.Algebra.Ring.Nat
import NamedBlobs.Bytes.SevenBit

/-!
# How bytes open with a seven-bit integer

A byte string opens with a complete sequence of groups, or with five bytes that
all announce another one, or it is shorter than that and ends inside a sequence
(`opening`). Each of the three has its own run of the reader. The three runs
end differently, so a byte string opens in one way only, and with one complete
sequence only (`Complete.eq_of_append_eq`).

The word that the reader collects is the number spelled so far, reduced to 32
bits: a group is placed above everything collected before it, so placing it is
an addition (`ofNat_or_shiftLeft`).
-/

namespace NamedBlobs

namespace SevenBit

theorem payload_cons (byte : UInt8) (rest : Bytes) :
    payload (byte :: rest) = byte.toNat % 128 + 128 * payload rest := rfl

theorem payload_append (front rest : Bytes) :
    payload (front ++ rest) = payload front + 128 ^ front.length * payload rest := by
  induction front with
  | nil => simp [payload]
  | cons byte front ih =>
      rw [List.cons_append, payload_cons, payload_cons, ih, List.length_cons, Nat.pow_succ,
        Nat.mul_add, Nat.add_assoc, Nat.mul_comm (128 ^ front.length) 128, Nat.mul_assoc]

theorem payload_lt (bytes : Bytes) : payload bytes < 128 ^ bytes.length := by
  induction bytes with
  | nil => simp [payload]
  | cons byte rest ih =>
      have hgroup : byte.toNat % 128 < 128 := Nat.mod_lt _ (by decide)
      rw [payload_cons, List.length_cons, Nat.pow_succ]
      omega

theorem add_group_lt {word count : Nat} (hword : word < 128 ^ count) (byte : UInt8) :
    word + 128 ^ count * (byte.toNat % 128) < 128 ^ (count + 1) := by
  have hgroup : byte.toNat % 128 < 128 := Nat.mod_lt _ (by decide)
  have hle : 128 ^ count * (byte.toNat % 128) ≤ 128 ^ count * 127 :=
    Nat.mul_le_mul_left _ (by omega)
  rw [Nat.pow_succ]
  omega

/-- A group that is placed above everything collected so far adds its value
there; the bits beyond the 32nd are dropped on both sides. -/
theorem ofNat_or_shiftLeft (word group shift : Nat) (hword : word < 2 ^ shift)
    (hshift : shift < 32) :
    UInt32.ofNat word ||| (UInt32.ofNat group <<< UInt32.ofNat shift) =
      UInt32.ofNat (word + 2 ^ shift * group) := by
  have hsplit : (2 : Nat) ^ 32 = 2 ^ shift * 2 ^ (32 - shift) := by
    rw [← Nat.pow_add]
    congr 1
    omega
  have hle : (2 : Nat) ^ shift ≤ 2 ^ 32 :=
    Nat.pow_le_pow_right (by decide) (Nat.le_of_lt hshift)
  have hlow : word % 2 ^ 32 = word := Nat.mod_eq_of_lt (by omega)
  have hamount : shift % 2 ^ 32 % 32 = shift := by omega
  have hhigh : group % 2 ^ 32 * 2 ^ shift % 2 ^ 32 =
      2 ^ shift * (group % 2 ^ (32 - shift)) := by
    rw [Nat.mod_mul_mod, Nat.mul_comm, hsplit, Nat.mul_mod_mul_left]
  have hsum : (word + 2 ^ shift * group) % 2 ^ 32 =
      word + 2 ^ shift * (group % 2 ^ (32 - shift)) := by
    rw [hsplit, Nat.mod_mul, Nat.add_mul_mod_self_left, Nat.mod_eq_of_lt hword,
      Nat.add_mul_div_left _ _ (Nat.two_pow_pos shift), Nat.div_eq_of_lt hword, Nat.zero_add]
  apply UInt32.toNat_inj.mp
  simp only [UInt32.toNat_or, UInt32.toNat_shiftLeft, UInt32.toNat_ofNat', hlow, hamount,
    Nat.shiftLeft_eq]
  rw [hhigh, hsum, Nat.or_comm, ← Nat.two_pow_add_eq_or_of_lt hword, Nat.add_comm]

theorem toUInt32_group (byte : UInt8) :
    (byte &&& 0x7F).toUInt32 = UInt32.ofNat (byte.toNat % 128) := by
  apply UInt32.toNat_inj.mp
  have hgroup : byte.toNat &&& 127 = byte.toNat % 128 :=
    Nat.and_two_pow_sub_one_eq_mod byte.toNat 7
  simp only [UInt8.toNat_toUInt32, UInt8.toNat_and, UInt8.reduceToNat, hgroup,
    UInt32.toNat_ofNat']
  omega

/-- One step of the reader: the group of the next byte joins the number that
`word` spells, and the reader stops there unless the byte announces another. -/
theorem run_readGroups_succ (start left count word position : Nat) (byte : UInt8)
    (rest : Bytes) (hword : word < 128 ^ count) (hcount : count < 5) :
    (readGroups start (left + 1) (UInt32.ofNat (7 * count)) (UInt32.ofNat word)).run
        ⟨position, byte :: rest⟩ =
      if continues byte then
        (readGroups start left (UInt32.ofNat (7 * (count + 1)))
          (UInt32.ofNat (word + 128 ^ count * (byte.toNat % 128)))).run ⟨position + 1, rest⟩
      else
        .ok (UInt32.ofNat (word + 128 ^ count * (byte.toNat % 128))).toInt32
          ⟨position + 1, rest⟩ := by
  have hpow : (128 : Nat) ^ count = 2 ^ (7 * count) := (Nat.pow_mul 2 7 count).symm
  have hshift : UInt32.ofNat (7 * count) + 7 = UInt32.ofNat (7 * (count + 1)) := by
    rw [Nat.mul_add, UInt32.ofNat_add]
    rfl
  have hplace := ofNat_or_shiftLeft word (byte.toNat % 128) (7 * count) (hpow ▸ hword)
    (by omega)
  rw [readGroups, EStateM.run_bind]
  simp only [Decoder.byte, EStateM.run, toUInt32_group, hplace, hshift, hpow]
  split <;> rfl

/-- Bytes that announce another one are collected and passed over. -/
theorem run_readGroups_append (start left count word position : Nat) (front rest : Bytes)
    (hfront : ∀ byte ∈ front, continues byte) (hword : word < 128 ^ count)
    (hcount : count + front.length ≤ 5) :
    (readGroups start (front.length + left) (UInt32.ofNat (7 * count)) (UInt32.ofNat word)).run
        ⟨position, front ++ rest⟩ =
      (readGroups start left (UInt32.ofNat (7 * (count + front.length)))
        (UInt32.ofNat (word + 128 ^ count * payload front))).run
        ⟨position + front.length, rest⟩ := by
  -- what was collected stays below `128 ^ count`, so the next group lies above it
  induction front generalizing count word position with
  | nil => simp [payload]
  | cons byte front ih =>
      simp only [List.length_cons] at hcount ⊢
      have hbyte : continues byte := hfront byte (by simp)
      have hfront' : ∀ byte ∈ front, continues byte := fun b hb =>
        hfront b (List.mem_cons_of_mem byte hb)
      have hpassed := ih (count + 1) (word + 128 ^ count * (byte.toNat % 128)) (position + 1)
        hfront' (add_group_lt hword byte) (by omega)
      have hcollected : word + 128 ^ count * (byte.toNat % 128) +
          128 ^ (count + 1) * payload front =
            word + 128 ^ count * payload (byte :: front) := by
        rw [payload_cons, Nat.pow_succ, Nat.mul_add, Nat.mul_assoc, Nat.add_assoc]
      have hgroups : count + 1 + front.length = count + (front.length + 1) := by omega
      have hreached : position + 1 + front.length = position + (front.length + 1) := by omega
      rw [show front.length + 1 + left = front.length + left + 1 by omega, List.cons_append,
        run_readGroups_succ start (front.length + left) count word position byte
          (front ++ rest) hword (by omega), if_pos hbyte, hpassed, hcollected, hgroups,
        hreached]

theorem run_sevenBit_eq (reader : Reader) :
    Decoder.sevenBit.run reader = (readGroups reader.position maxBytes 0 0).run reader := rfl

/-- The reader of a complete sequence stops behind it, with its value. -/
theorem run_sevenBit_of_complete (groups tail : Bytes) (position : Nat)
    (h : Complete groups) :
    Decoder.sevenBit.run ⟨position, groups ++ tail⟩ =
      .ok (value groups) ⟨position + groups.length, tail⟩ := by
  obtain ⟨init, last, rfl, hinit, hlast, hlength⟩ := h
  rw [List.length_append, List.length_singleton, maxBytes] at hlength
  obtain ⟨left, hleft⟩ : ∃ left, 5 = init.length + (left + 1) := ⟨4 - init.length, by omega⟩
  have hpassed := run_readGroups_append position (left + 1) 0 0 position init
    (last :: tail) hinit (by decide) (by omega)
  have hstep := run_readGroups_succ position left init.length (payload init)
    (position + init.length) last tail (payload_lt init) (by omega)
  rw [← hleft] at hpassed
  rw [if_neg (by simp [hlast])] at hstep
  simp only [Nat.zero_add, Nat.pow_zero, Nat.one_mul] at hpassed
  rw [List.append_assoc, List.singleton_append, run_sevenBit_eq]
  have hvalue : payload (init ++ [last]) =
      payload init + 128 ^ init.length * (last.toNat % 128) := by
    rw [payload_append, payload_cons, payload, Nat.mul_zero, Nat.add_zero]
  refine (hpassed.trans hstep).trans ?_
  rw [value, hvalue, List.length_append, List.length_singleton, Nat.add_assoc]

/-- Five bytes that all announce another one are refused where they start, and
the sixth byte is not looked at. -/
theorem run_sevenBit_of_overlong (front tail : Bytes) (position : Nat)
    (hlength : front.length = maxBytes) (hfront : ∀ byte ∈ front, continues byte) :
    Decoder.sevenBit.run ⟨position, front ++ tail⟩ =
      .error (.overlongInteger position) ⟨position + maxBytes, tail⟩ := by
  have hpassed := run_readGroups_append position 0 0 0 position front tail hfront (by decide)
    (by rw [hlength]; decide)
  rw [hlength, Nat.add_zero] at hpassed
  rw [run_sevenBit_eq]
  exact hpassed

/-- Fewer than five bytes that all announce another one are read to their end,
where a byte is missing. -/
theorem run_sevenBit_of_unfinished (front : Bytes) (position : Nat)
    (hlength : front.length < maxBytes) (hfront : ∀ byte ∈ front, continues byte) :
    Decoder.sevenBit.run ⟨position, front⟩ =
      .error (.truncated (position + front.length) 1 0) ⟨position + front.length, []⟩ := by
  obtain ⟨left, hleft⟩ : ∃ left, maxBytes = front.length + (left + 1) :=
    ⟨maxBytes - front.length - 1, by omega⟩
  have hpassed := run_readGroups_append position (left + 1) 0 0 position front [] hfront
    (by decide) (by rw [maxBytes] at hlength; omega)
  rw [← hleft, List.append_nil] at hpassed
  rw [run_sevenBit_eq]
  exact hpassed

/-- How a byte string opens, as a seven-bit integer. -/
inductive Opening : Bytes → Prop where
  | complete (groups tail : Bytes) (h : Complete groups) : Opening (groups ++ tail)
  | overlong (front tail : Bytes) (hlength : front.length = maxBytes)
      (hfront : ∀ byte ∈ front, continues byte) : Opening (front ++ tail)
  | unfinished (front : Bytes) (hlength : front.length < maxBytes)
      (hfront : ∀ byte ∈ front, continues byte) : Opening front

/-- The bytes that announce another one, up to `left` of them, and what comes
behind them. -/
theorem exists_continuing_prefix (left : Nat) (bytes : Bytes) :
    ∃ front rest, bytes = front ++ rest ∧ (∀ byte ∈ front, continues byte) ∧
      (front.length = left ∨ front.length < left ∧ ∀ byte ∈ rest.head?, ¬ continues byte) := by
  induction left generalizing bytes with
  | zero => exact ⟨[], bytes, rfl, by simp, Or.inl rfl⟩
  | succ left ih =>
      cases bytes with
      | nil => exact ⟨[], [], rfl, by simp, Or.inr ⟨by simp, by simp⟩⟩
      | cons byte bytes =>
          by_cases hbyte : continues byte
          · obtain ⟨front, rest, rfl, hfront, hend⟩ := ih bytes
            refine ⟨byte :: front, rest, rfl, ?_, ?_⟩
            · intro b hb
              rcases List.mem_cons.mp hb with rfl | hb
              · exact hbyte
              · exact hfront b hb
            · rw [List.length_cons]
              rcases hend with hlength | ⟨hlength, hrest⟩
              · exact Or.inl (by omega)
              · exact Or.inr ⟨by omega, hrest⟩
          · exact ⟨[], byte :: bytes, rfl, by simp, Or.inr ⟨by simp, by simpa using hbyte⟩⟩

theorem opening (bytes : Bytes) : Opening bytes := by
  obtain ⟨front, rest, rfl, hfront, hlength | ⟨hlength, hrest⟩⟩ :=
    exists_continuing_prefix maxBytes bytes
  · exact Opening.overlong front rest hlength hfront
  · cases rest with
    | nil =>
        rw [List.append_nil]
        exact Opening.unfinished front hlength hfront
    | cons last tail =>
        have hlast : ¬ continues last := hrest last (by simp)
        have hcomplete : Complete (front ++ [last]) :=
          ⟨front, last, rfl, hfront, by simpa using hlast, by
            rw [List.length_append]
            exact hlength⟩
        rw [← List.singleton_append, ← List.append_assoc]
        exact Opening.complete (front ++ [last]) tail hcomplete

/-- The reader succeeds on a complete sequence only, and stops behind it. -/
theorem exists_complete_of_run {reader reader' : Reader} {word : Int32}
    (h : Decoder.sevenBit.run reader = .ok word reader') :
    ∃ groups, Complete groups ∧ reader.rest = groups ++ reader'.rest ∧
      reader'.position = reader.position + groups.length ∧ value groups = word := by
  obtain ⟨position, rest⟩ := reader
  cases opening rest with
  | complete groups tail hgroups =>
      rw [run_sevenBit_of_complete groups tail position hgroups] at h
      cases h
      exact ⟨groups, hgroups, rfl, rfl, rfl⟩
  | overlong front tail hlength hfront =>
      rw [run_sevenBit_of_overlong front tail position hlength hfront] at h
      cases h
  | unfinished _ hlength hfront =>
      rw [run_sevenBit_of_unfinished rest position hlength hfront] at h
      cases h

theorem Complete.length_bounds {groups : Bytes} (h : Complete groups) :
    0 < groups.length ∧ groups.length ≤ maxBytes := by
  obtain ⟨init, last, rfl, -, -, hlength⟩ := h
  refine ⟨?_, hlength⟩
  rw [List.length_append, List.length_singleton]
  exact Nat.succ_pos init.length

theorem Complete.ne_append_of_all {bytes groups rest : Bytes} (hgroups : Complete groups)
    (hall : ∀ byte ∈ bytes, continues byte) : bytes ≠ groups ++ rest := by
  rintro rfl
  obtain ⟨init, last, rfl, -, hlast, -⟩ := hgroups
  have hcontinues := hall last (by simp)
  rw [hlast] at hcontinues
  cases hcontinues

/-- A byte string opens with one complete sequence at most. -/
theorem Complete.eq_of_append_eq {groups groups' tail tail' : Bytes}
    (h : Complete groups) (h' : Complete groups')
    (heq : groups ++ tail = groups' ++ tail') : groups = groups' ∧ tail = tail' := by
  have hrun := run_sevenBit_of_complete groups tail 0 h
  rw [heq, run_sevenBit_of_complete groups' tail' 0 h'] at hrun
  injection hrun with _ hreader
  injection hreader with hposition _
  exact List.append_inj heq (by omega)

end SevenBit

end NamedBlobs
