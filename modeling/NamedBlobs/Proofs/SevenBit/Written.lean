import Mathlib.Data.Nat.Bitwise
import NamedBlobs.Proofs.SevenBit.Groups

/-!
# What is written for a seven-bit integer

The groups of a word form a complete sequence that spells the word, so the
reader gives back every signed word that was written (`value_encode`). Whether
a byte announces another one is a matter of size (`continues_iff`), which turns
the recursion of the writer into division by 128.
-/

namespace NamedBlobs

namespace SevenBit

theorem continues_iff (byte : UInt8) : continues byte ↔ 128 ≤ byte.toNat := by
  have hlt : byte.toNat < 256 := byte.toNat_lt
  have hbit : byte.toNat &&& 128 = (byte.toNat.testBit 7).toNat * 128 :=
    Nat.and_two_pow byte.toNat 7
  have htop : byte.toNat.testBit 7 = decide (byte.toNat / 128 % 2 = 1) :=
    Nat.testBit_eq_decide_div_mod_eq
  rw [continues, bne_iff_ne, ne_eq, ← UInt8.toNat_inj, UInt8.toNat_and]
  simp only [UInt8.reduceToNat, hbit, htop]
  by_cases hbyte : 128 ≤ byte.toNat
  · simp [show byte.toNat / 128 % 2 = 1 by omega, hbyte]
  · simp [show byte.toNat / 128 % 2 = 0 by omega, hbyte]

theorem toNat_group (word : UInt32) : (word &&& 0x7F).toUInt8.toNat = word.toNat % 128 := by
  have hgroup : word.toNat &&& 127 = word.toNat % 128 :=
    Nat.and_two_pow_sub_one_eq_mod word.toNat 7
  simp only [UInt32.toNat_toUInt8, UInt32.toNat_and, UInt32.reduceToNat, hgroup]
  omega

theorem toNat_continued (group : UInt8) (h : group.toNat < 128) :
    (group ||| 0x80).toNat = group.toNat + 128 := by
  have hplace : 128 + group.toNat = 128 ||| group.toNat :=
    Nat.two_pow_add_eq_or_of_lt (i := 7) h 1
  simp only [UInt8.toNat_or, UInt8.reduceToNat]
  rw [Nat.or_comm, ← hplace, Nat.add_comm]

theorem toNat_higher (word : UInt32) : (word >>> 7).toNat = word.toNat / 128 := by
  simp [UInt32.toNat_shiftRight, Nat.shiftRight_eq_div_pow]

/-- The groups that are written spell the word. -/
theorem payload_ofWord (word : UInt32) : payload (ofWord word) = word.toNat := by
  fun_induction ofWord word with
  | case1 word group higher h =>
      have hgroup : group.toNat = word.toNat % 128 := toNat_group word
      have hhigher : word.toNat / 128 = 0 := by
        rw [← toNat_higher word, show word >>> 7 = 0 from h]
        rfl
      rw [payload_cons, payload]
      omega
  | case2 word group higher h ih =>
      have hgroup : group.toNat = word.toNat % 128 := toNat_group word
      have hbyte := toNat_continued group (by omega)
      have hhigher : higher.toNat = word.toNat / 128 := toNat_higher word
      rw [payload_cons, ih]
      omega

/-- A word below the `n + 1`-st power of 128 takes at most `n + 1` bytes, and
exactly the last of them announces no other. -/
theorem ofWord_eq_append (word : UInt32) (n : Nat) (hword : word.toNat < 128 ^ (n + 1)) :
    ∃ init last, ofWord word = init ++ [last] ∧ (∀ byte ∈ init, continues byte) ∧
      continues last = false ∧ init.length ≤ n := by
  fun_induction ofWord word generalizing n with
  | case1 word group higher h =>
      have hgroup : group.toNat = word.toNat % 128 := toNat_group word
      have hlast : ¬ continues group := by
        rw [continues_iff]
        omega
      exact ⟨[], group, rfl, by simp, by simpa using hlast, Nat.zero_le n⟩
  | case2 word group higher h ih =>
      have hgroup : group.toNat = word.toNat % 128 := toNat_group word
      have hhigher : higher.toNat = word.toNat / 128 := toNat_higher word
      have hbyte := toNat_continued group (by omega)
      have hne : higher.toNat ≠ 0 := fun h0 => h (UInt32.toNat_inj.mp h0)
      cases n with
      | zero => omega
      | succ n =>
          rw [Nat.pow_succ] at hword
          obtain ⟨init, last, heq, hinit, hlast, hlength⟩ := ih n (by omega)
          refine ⟨(group ||| 0x80) :: init, last, by rw [heq, List.cons_append], ?_, hlast, ?_⟩
          · intro byte hmem
            rcases List.mem_cons.mp hmem with rfl | hmem
            · rw [continues_iff]
              omega
            · exact hinit byte hmem
          · rw [List.length_cons]
            omega

theorem complete_ofWord (word : UInt32) : Complete (ofWord word) := by
  have hword : word.toNat < 128 ^ (4 + 1) := Nat.lt_of_lt_of_le word.toNat_lt (by decide)
  obtain ⟨init, last, heq, hinit, hlast, hlength⟩ := ofWord_eq_append word 4 hword
  refine ⟨init, last, heq, hinit, hlast, ?_⟩
  rw [heq, List.length_append, List.length_singleton, maxBytes]
  omega

theorem complete_encode (word : Int32) : Complete (encode word) := complete_ofWord word.toUInt32

theorem value_encode (word : Int32) : value (encode word) = word := by
  rw [value, encode, payload_ofWord, UInt32.ofNat_toNat]
  rfl

end SevenBit

end NamedBlobs
