import Mathlib.Algebra.BigOperators.Ring.Finset
import Mathlib.Tactic.Ring
import NamedBlobs.Proofs.Reading.Placement
import NamedBlobs.Proofs.SevenBit.Written

/-!
# Seven-bit integers as sums

The number that groups spell is the sum of the groups, each seven places above the
one before (`payload_eq_placed`). With it the reader is described by arithmetic
alone (`reading`): the integer ends with the first byte below 128
among the next five, its value is the sum of the groups up to there, and without
such a byte it is too long or cut off.
-/

namespace NamedBlobs

namespace SevenBit

/-- The sum of the groups of the first `count` bytes, each at its place. A byte that
is missing counts as zero. -/
def placed (bytes : Bytes) (count : Nat) : Nat :=
  ∑ index ∈ Finset.range count, (bytes[index]?.getD 0).toNat % 128 * 2 ^ (7 * index)

theorem placed_cons_succ (byte : UInt8) (rest : Bytes) (count : Nat) :
    placed (byte :: rest) (count + 1) = byte.toNat % 128 + 128 * placed rest count := by
  have hplaces : ∀ index ∈ Finset.range count,
      ((byte :: rest)[index + 1]?.getD 0).toNat % 128 * 2 ^ (7 * (index + 1)) =
        128 * ((rest[index]?.getD 0).toNat % 128 * 2 ^ (7 * index)) := by
    intro index _
    rw [List.getElem?_cons_succ]
    ring
  rw [placed, Finset.sum_range_succ', Finset.sum_congr rfl hplaces, ← Finset.mul_sum, ← placed]
  simp only [List.getElem?_cons_zero, Option.getD_some, Nat.mul_zero, Nat.pow_zero, Nat.mul_one]
  exact Nat.add_comm _ _

theorem payload_eq_placed (groups : Bytes) : payload groups = placed groups groups.length := by
  induction groups with
  | nil => rfl
  | cons byte rest ih => rw [payload_cons, List.length_cons, placed_cons_succ, ih]

/-- Bytes behind those that are counted do not matter. -/
theorem placed_append (front rest : Bytes) :
    placed (front ++ rest) front.length = placed front front.length := by
  refine Finset.sum_congr rfl fun index hindex => ?_
  rw [List.getElem?_append_left (Finset.mem_range.mp hindex)]

theorem lt_iff_continues_eq_false (byte : UInt8) : byte < 0x80 ↔ continues byte = false := by
  rw [← Bool.not_eq_true, continues_iff, UInt8.lt_iff_toNat_lt]
  exact Nat.not_le.symm

/-- Where the first byte is, among the next five, that announces no other. -/
def lastGroup? (bytes : Bytes) : Option Nat :=
  (bytes.take maxBytes).findIdx? fun byte => byte < 0x80

theorem findIdx?_of_continues {front : Bytes} (h : ∀ byte ∈ front, continues byte) :
    (front.findIdx? fun byte => byte < 0x80) = none := by
  rw [List.findIdx?_eq_none_iff]
  intro byte hmem
  rw [decide_eq_false_iff_not, lt_iff_continues_eq_false, h byte hmem]
  decide

theorem lastGroup?_append_cons (init tail : Bytes) (last : UInt8)
    (hinit : ∀ byte ∈ init, continues byte) (hlast : continues last = false)
    (hlength : init.length < maxBytes) :
    lastGroup? (init ++ last :: tail) = some init.length := by
  have htake : (init ++ last :: tail).take maxBytes =
      init ++ last :: tail.take (maxBytes - init.length - 1) := by
    obtain ⟨left, hleft⟩ : ∃ left, maxBytes = init.length + (left + 1) :=
      ⟨maxBytes - init.length - 1, by omega⟩
    rw [hleft, List.take_length_add_append, List.take_succ_cons]
    congr 3
    omega
  have hbelow : last < 0x80 := (lt_iff_continues_eq_false last).mpr hlast
  rw [lastGroup?, htake, List.findIdx?_append, findIdx?_of_continues hinit, List.findIdx?_cons,
    if_pos (decide_eq_true hbelow)]
  simp

/-- The value of groups is their sum, reduced to 32 bits and taken with its sign. -/
theorem value_eq_ofInt (groups : Bytes) :
    value groups =
      Int32.ofInt (((placed groups groups.length % 2 ^ 32 : Nat) : Int).bmod (2 ^ 32)) := by
  apply Int32.toInt_inj.mp
  rw [toInt_value, payload_eq_placed, Int32.toInt_ofInt]
  exact Int.bmod_bmod.symm

/-- What a read of a seven-bit integer comes to is settled by the next five bytes. -/
theorem perform_sevenBit_append {front : Bytes} (hfront : front.length = maxBytes)
    (tail : Bytes) (position : Nat) :
    Read.sevenBit.perform ⟨position, front ++ tail⟩ =
      (Read.sevenBit.perform ⟨position, front⟩).moved 0 tail := by
  have hsettled : (Read.sevenBit.perform ⟨position, front⟩).isTruncated = false := by
    rw [Read.perform, Read.decoder]
    cases opening front with
    | complete groups rest hgroups =>
        rw [Decoder.run_map_of_ok (run_sevenBit_of_complete groups rest position hgroups)]
        rfl
    | overlong front rest hlength hall =>
        rw [Decoder.run_map_of_error (run_sevenBit_of_overlong front rest position hlength hall)]
        rfl
    | unfinished _ hlength hall => omega
  have hmoved := Read.sevenBit.perform_moved ⟨position, front⟩ 0 tail (by simp [hsettled])
  rwa [Reader.moved, Nat.zero_add] at hmoved

/-- What reading a seven-bit integer at `position` comes to, by arithmetic. The first byte
below 128 among the next five ends the integer, and its value is the sum of the groups up
to there, reduced to 32 bits and taken with its sign. Without such a byte, five bytes are
refused where they start and fewer are missed at their end. -/
def reading (data : Bytes) (position : Nat) : EStateM.Result DecodeError Reader Int32 :=
  match lastGroup? (data.drop position) with
  | some index =>
      .ok (Int32.ofInt (((placed (data.drop position) (index + 1) % 2 ^ 32 : Nat) :
          Int).bmod (2 ^ 32)))
        (.startingAt data (position + index + 1))
  | none =>
      if position + maxBytes ≤ data.length then
        .error (.overlongInteger position) (.startingAt data (position + maxBytes))
      else .error (.truncated data.length 1 0) (.startingAt data data.length)

theorem run_sevenBit_startingAt (data : Bytes) (position : Nat)
    (hposition : position ≤ data.length) :
    Decoder.sevenBit.run (.startingAt data position) = reading data position := by
  have hlength : data.length = position + (data.drop position).length := by
    rw [List.length_drop]
    omega
  rw [reading, Reader.startingAt]
  -- the three ways in which the bytes from here on can open are the three outcomes
  generalize hdrop : data.drop position = rest at hlength ⊢
  cases opening rest with
  | complete groups tail hgroups =>
      have hbehind := Reader.startingAt_add_length hdrop
      have hvalue := value_eq_ofInt groups
      rw [run_sevenBit_of_complete groups tail position hgroups, hvalue, ← hbehind,
        ← placed_append groups tail]
      obtain ⟨init, last, rfl, hinit, hlast, hmax⟩ := hgroups
      rw [List.length_append, List.length_singleton] at hmax ⊢
      rw [List.append_assoc, List.singleton_append,
        lastGroup?_append_cons init tail last hinit hlast hmax]
      rfl
  | overlong front tail hfive hfront =>
      have hnone : lastGroup? (front ++ tail) = none := by
        rw [lastGroup?, List.take_left' hfive, findIdx?_of_continues hfront]
      have hbehind := Reader.startingAt_add_length hdrop
      rw [List.length_append] at hlength
      rw [hfive] at hbehind
      rw [run_sevenBit_of_overlong front tail position hfive hfront, hnone, ← hbehind]
      exact (if_pos (by omega)).symm
  | unfinished _ hfew hfront =>
      have hnone : lastGroup? rest = none := by
        rw [lastGroup?, List.take_of_length_le (Nat.le_of_lt hfew), findIdx?_of_continues hfront]
      rw [run_sevenBit_of_unfinished rest position hfew hfront, hnone, ← hlength,
        ← Reader.startingAt_length]
      exact (if_neg (by omega)).symm

/-- From every place in `data` the reader of a seven-bit integer comes to what arithmetic
says, and what stands behind the next five bytes does not matter. -/
theorem run_sevenBit_eq_reading (data : Bytes) (position : Nat)
    (hposition : position ≤ data.length) :
    Decoder.sevenBit.run (.startingAt data position) = reading data position ∧
      (position + maxBytes ≤ data.length → ∀ tail,
        (Read.sevenBit.perform
          (.startingAt (data.take (position + maxBytes) ++ tail) position)).result =
            (Read.sevenBit.perform (.startingAt data position)).result) := by
  refine ⟨run_sevenBit_startingAt data position hposition, fun hfive tail => ?_⟩
  have hfront : ((data.drop position).take maxBytes).length = maxBytes := by
    rw [List.length_take, List.length_drop]
    omega
  have hcut : (data.take (position + maxBytes) ++ tail).drop position =
      (data.drop position).take maxBytes ++ tail := by
    rw [List.drop_append_of_le_length, List.drop_take, Nat.add_sub_cancel_left]
    rw [List.length_take]
    omega
  have hwhole := perform_sevenBit_append hfront ((data.drop position).drop maxBytes) position
  rw [List.take_append_drop] at hwhole
  rw [Reader.startingAt, hcut, perform_sevenBit_append hfront tail position, Reader.startingAt,
    hwhole]
  rfl

/-- The fifth group has eight as its low bits and three bits beyond the 32nd. -/
theorem run_sevenBit_eq_reading_lowest :
    1 ≤ [9, 0x80, 0x80, 0x80, 0x80, 0x78, (1 : UInt8)].length ∧
      Decoder.sevenBit.run (.startingAt [9, 0x80, 0x80, 0x80, 0x80, 0x78, 1] 1) =
        .ok (-2147483648) (.startingAt [9, 0x80, 0x80, 0x80, 0x80, 0x78, 1] 6) := by
  have hread := (run_sevenBit_eq_reading [9, 0x80, 0x80, 0x80, 0x80, 0x78, 1] 1 (by decide)).1
  have hlast : lastGroup? (List.drop 1 [9, 0x80, 0x80, 0x80, 0x80, 0x78, 1]) = some 4 := by
    decide
  have hsum : placed (List.drop 1 [9, 0x80, 0x80, 0x80, 0x80, 0x78, 1]) (4 + 1) =
      120 * 2 ^ 28 := by
    decide +kernel
  rw [reading, hlast] at hread
  simp only [hsum] at hread
  exact ⟨by decide, hread⟩

end SevenBit

end NamedBlobs
