import NamedBlobs.Proofs.Bytes.FixedWidth
import NamedBlobs.Proofs.SevenBit.Groups

/-!
# Reading length-prefixed strings

What the reader of a string does, by what the reader of its length did
(`run_string_of_ok`, `run_string_of_error`), and which payloads of the length
are negative as a word: those from `2 ^ 31` on, after the bits beyond the 32nd
are dropped.
-/

namespace NamedBlobs

namespace SevenBit

theorem toInt_value (bytes : Bytes) :
    (value bytes).toInt = ((payload bytes % 2 ^ 32 : Nat) : Int).bmod (2 ^ 32) := by
  have hword : (value bytes).toInt = ((UInt32.ofNat (payload bytes)).toNat : Int).bmod (2 ^ 32) :=
    BitVec.toInt_eq_toNat_bmod _
  rw [hword, UInt32.toNat_ofNat']

/-- A length whose 32nd bit is clear is its payload, without the dropped bits. -/
theorem toInt_value_of_lt (bytes : Bytes) (h : payload bytes % 2 ^ 32 < 2 ^ 31) :
    (value bytes).toInt = (payload bytes % 2 ^ 32 : Nat) := by
  rw [toInt_value]
  exact Int.bmod_eq_of_le (by omega) (by omega)

theorem value_neg_iff (bytes : Bytes) :
    (value bytes).toInt < 0 ↔ 2 ^ 31 ≤ payload bytes % 2 ^ 32 := by
  constructor
  · intro hneg
    by_contra hlt
    rw [toInt_value_of_lt bytes (by omega)] at hneg
    omega
  · intro hle
    have hmod : payload bytes % 2 ^ 32 < 2 ^ 32 := Nat.mod_lt _ (by decide)
    rw [toInt_value, Int.bmod_def]
    split <;> omega

end SevenBit

namespace Decoder

theorem run_position (reader : Reader) :
    position.run reader = .ok reader.position reader := rfl

theorem run_string_of_error {reader reader' : Reader} {failure : DecodeError}
    (h : sevenBit.run reader = .error failure reader') :
    string.run reader = .error failure reader' := by
  rw [string, run_bind_of_ok (run_position reader), run_bind_of_error h]

theorem run_string_of_ok {reader reader' : Reader} {length : Int32}
    (h : sevenBit.run reader = .ok length reader') :
    string.run reader =
      if length < 0 then .error (.invalidLength reader.position length) reader'
      else (bytes length.toInt.toNat).run reader' := by
  rw [string, run_bind_of_ok (run_position reader), run_bind_of_ok h]
  split <;> rfl

/-- A string behind a complete length is read as a block, unless the length is
negative. -/
theorem run_string_of_complete (groups rest : Bytes) (position : Nat)
    (h : SevenBit.Complete groups) :
    string.run ⟨position, groups ++ rest⟩ =
      if (SevenBit.value groups).toInt < 0 then
        .error (.invalidLength position (SevenBit.value groups))
          ⟨position + groups.length, rest⟩
      else
        (bytes (SevenBit.value groups).toInt.toNat).run ⟨position + groups.length, rest⟩ := by
  rw [run_string_of_ok (SevenBit.run_sevenBit_of_complete groups rest position h)]
  simp only [Int32.lt_iff_toInt_lt, Int32.toInt_zero]

/-- A string that is there is read and passed over. -/
theorem run_string_append (groups name rest : Bytes) (position : Nat)
    (h : SevenBit.Complete groups) (hvalue : (SevenBit.value groups).toInt = name.length) :
    string.run ⟨position, groups ++ (name ++ rest)⟩ =
      .ok name ⟨position + groups.length + name.length, rest⟩ := by
  have hnonneg : ¬ (SevenBit.value groups).toInt < 0 := by
    rw [hvalue]
    omega
  rw [run_string_of_complete groups (name ++ rest) position h, if_neg hnonneg, hvalue,
    Int.toNat_natCast, run_bytes_append]

end Decoder

end NamedBlobs
