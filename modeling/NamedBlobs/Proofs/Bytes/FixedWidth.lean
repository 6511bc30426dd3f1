import NamedBlobs.Bytes.Reader

/-!
# Reading what was written in a fixed width

`FixedWidth.decode_encode` says what is left of an integer that is written in a
format and read back: its remainder, taken around zero when the format is
signed. Machine words fit their format, so they come back unchanged. Conversely
bytes that are read in a format are those that are written for the integer
(`FixedWidth.encode_decode`), so no integer has two spellings. A read takes
exactly the bytes of its format when they are there, and otherwise fails where
it stands.
-/

namespace NamedBlobs

namespace LittleEndian

theorem values_pos (n : Nat) : 0 < values n := by
  induction n with
  | zero => decide
  | succ n ih =>
      rw [values_succ]
      omega

/-- The bytes of a number, cut off at `n`, stand for its remainder. -/
theorem decode_encode_toNat (n : Nat) (value : Int) :
    (decode (encode n (value % values n).toNat) : Int) = value % values n := by
  have hpos : (0 : Int) < values n := Int.natCast_pos.mpr (values_pos n)
  have hnonneg : 0 ≤ value % (values n : Int) := Int.emod_nonneg value (by omega)
  rw [decode_encode, Int.natCast_emod, Int.toNat_of_nonneg hnonneg, Int.emod_emod]

/-- Bytes are what is written for their number in as many bytes. -/
theorem encode_decode (bytes : Bytes) : encode bytes.length (decode bytes) = bytes := by
  induction bytes with
  | nil => rfl
  | cons byte rest ih =>
      have hbyte : byte.toNat < 256 := byte.toNat_lt
      have hrest : (byte.toNat + 256 * decode rest) / 256 = decode rest := by omega
      have hlow : UInt8.ofNat (byte.toNat + 256 * decode rest) = byte := by
        apply UInt8.toNat_inj.mp
        rw [UInt8.toNat_ofNat']
        omega
      rw [List.length_cons, decode_cons, encode, hlow, hrest, ih]

end LittleEndian

namespace FixedWidth

theorem decode_encode (width : FixedWidth) (value : Int) :
    width.decode (width.encode value) =
      if width.signed then value.bmod (LittleEndian.values width.size)
      else value % LittleEndian.values width.size := by
  rw [decode, encode, LittleEndian.decode_encode_toNat, Int.emod_bmod]

theorem encode_bmod (width : FixedWidth) (value : Int) :
    width.encode (value.bmod (LittleEndian.values width.size)) = width.encode value := by
  rw [encode, encode, Int.bmod_emod]

/-- Bytes of the width of a format are what is written for the integer they hold. -/
theorem encode_decode (width : FixedWidth) {bytes : Bytes} (h : bytes.length = width.size) :
    width.encode (width.decode bytes) = bytes := by
  have hnumber : LittleEndian.decode bytes < LittleEndian.values width.size :=
    h ▸ LittleEndian.decode_lt bytes
  have hkept : width.encode (LittleEndian.decode bytes) = bytes := by
    rw [encode, Int.emod_eq_of_lt (by omega) (by omega), Int.toNat_natCast, ← h,
      LittleEndian.encode_decode]
  rw [decode]
  split
  · rw [encode_bmod, hkept]
  · exact hkept

theorem ofInt_decode_encode_i32 (word : Int32) :
    Int32.ofInt (i32.decode (i32.encode word.toInt)) = word := by
  have hkept : i32.decode (i32.encode word.toInt) = word.toInt :=
    (decode_encode i32 word.toInt).trans word.toInt_bmod_size
  rw [hkept, Int32.ofInt_toInt]

theorem ofInt_decode_encode_i64 (word : Int64) :
    Int64.ofInt (i64.decode (i64.encode word.toInt)) = word := by
  have hkept : i64.decode (i64.encode word.toInt) = word.toInt :=
    (decode_encode i64 word.toInt).trans word.toInt_bmod_size
  rw [hkept, Int64.ofInt_toInt]

theorem toInt_ofInt_decode_i32 (bytes : Bytes) :
    (Int32.ofInt (i32.decode bytes)).toInt = i32.decode bytes := by
  have hdecode : i32.decode bytes =
      (LittleEndian.decode bytes : Int).bmod (LittleEndian.values i32.size) := if_pos rfl
  rw [Int32.toInt_ofInt, hdecode]
  exact Int.bmod_bmod

theorem encode_ofInt_i32 (value : Int) :
    i32.encode (Int32.ofInt value).toInt = i32.encode value := by
  rw [Int32.toInt_ofInt]
  exact encode_bmod i32 value

theorem encode_ofInt_i64 (value : Int) :
    i64.encode (Int64.ofInt value).toInt = i64.encode value := by
  rw [Int64.toInt_ofInt]
  exact encode_bmod i64 value

end FixedWidth

namespace Decoder

theorem run_bind_of_ok {α β : Type} {x : Decoder α} {reader reader' : Reader} {value : α}
    (h : x.run reader = .ok value reader') (f : α → Decoder β) :
    (x >>= f).run reader = (f value).run reader' := by
  rw [EStateM.run_bind, h]

theorem run_bind_of_error {α β : Type} {x : Decoder α} {reader reader' : Reader}
    {failure : DecodeError} (h : x.run reader = .error failure reader') (f : α → Decoder β) :
    (x >>= f).run reader = .error failure reader' := by
  rw [EStateM.run_bind, h]

theorem run_map_of_ok {α β : Type} {x : Decoder α} {reader reader' : Reader} {value : α}
    (h : x.run reader = .ok value reader') (f : α → β) :
    (f <$> x).run reader = .ok (f value) reader' := by
  rw [map_eq_pure_bind, run_bind_of_ok h]
  rfl

theorem run_map_of_error {α β : Type} {x : Decoder α} {reader reader' : Reader}
    {failure : DecodeError} (h : x.run reader = .error failure reader') (f : α → β) :
    (f <$> x).run reader = .error failure reader' := by
  rw [map_eq_pure_bind, run_bind_of_error h]

/-- A block that is there is read and passed over. -/
theorem run_bytes_append (front rest : Bytes) (position : Nat) :
    (bytes front.length).run ⟨position, front ++ rest⟩ =
      .ok front ⟨position + front.length, rest⟩ := by
  have hle : front.length ≤ (Reader.mk position (front ++ rest)).remaining := by
    simp [Reader.remaining]
  rw [run_bytes_of_le hle]
  simp

/-- An integer that is there is read, and `f` turns it into a word. -/
theorem run_map_fixed_append {α : Type} (f : Int → α) (width : FixedWidth)
    (front rest : Bytes) (position : Nat) (hfront : front.length = width.size) :
    (f <$> fixed width).run ⟨position, front ++ rest⟩ =
      .ok (f (width.decode front)) ⟨position + width.size, rest⟩ := by
  have hblock := run_bytes_append front rest position
  rw [hfront] at hblock
  rw [fixed, map_eq_pure_bind, bind_assoc, run_bind_of_ok hblock]
  rfl

/-- An integer that is cut off is missed where it would start. -/
theorem run_map_fixed_of_lt {α : Type} (f : Int → α) (width : FixedWidth) {reader : Reader}
    (h : reader.remaining < width.size) :
    (f <$> fixed width).run reader =
      .error (.truncated reader.position width.size reader.remaining) reader := by
  rw [fixed, map_eq_pure_bind, bind_assoc, run_bind_of_error (run_bytes_of_lt h)]

end Decoder

end NamedBlobs
