import NamedBlobs.Text.Utf8

/-!
# Text and its bytes

The lossy characters of the bytes of a text are those of the text (`Utf8.chars_ofText`), so
nothing is lost of bytes that are text. They are read one character after the other: the
bytes of a character, whatever follows them, are one unit (`Utf8.units_encodeChar_append`).
No other bytes are taken for a character (`Utf8.encodeChar_append_of_unit`), so that just the
bytes of texts are text (`Utf8.isText_iff`).
-/

namespace NamedBlobs

namespace Utf8

theorem Lead.of?_one {byte : UInt8} (h : byte.toNat < 0x80) :
    Lead.of? byte = some ⟨byte.toNat, 0x80, 0xBF, 0⟩ :=
  if_pos (UInt8.lt_iff_toNat_lt.mpr h)

theorem units_cons_of_lt {byte : UInt8} (h : byte < 0x80) (rest : Bytes) :
    units (byte :: rest) = some (Char.ofNat byte.toNat) :: units rest := by
  have hlead := Lead.of?_one (UInt8.lt_iff_toNat_lt.mp h)
  rw [units_cons, unit, hlead]
  rfl

/-- Plain text is read back from its bytes. -/
theorem chars_ofAscii {text : List Char} (h : ∀ c ∈ text, c.toNat < 128) :
    chars (ofAscii text) = text := by
  induction text with
  | nil => simp [ofAscii, chars]
  | cons c text ih =>
      have hc : c.toNat < 128 := h c (by simp)
      have hnat : (UInt8.ofNat c.toNat).toNat = c.toNat := by
        rw [UInt8.toNat_ofNat']
        omega
      have hlow : UInt8.ofNat c.toNat < 0x80 := by
        rw [UInt8.lt_iff_toNat_lt, hnat]
        exact hc
      have hrest : chars (ofAscii text) = text := ih fun d hd => h d (List.mem_cons_of_mem c hd)
      rw [ofAscii, List.map_cons, chars, units_cons_of_lt hlow, List.map_cons, hnat,
        Option.getD_some, Char.ofNat_toNat]
      exact congrArg (c :: ·) hrest

theorem Lead.of?_two {byte : UInt8} (hlow : 0xC2 ≤ byte.toNat) (hhigh : byte.toNat < 0xE0) :
    Lead.of? byte = some ⟨byte.toNat % 32, 0x80, 0xBF, 1⟩ := by
  simp only [Lead.of?, UInt8.lt_iff_toNat_lt, UInt8.reduceToNat]
  rw [if_neg (by omega), if_neg (by omega), if_pos hhigh]

theorem Lead.of?_three {byte : UInt8} (hlow : 0xE0 ≤ byte.toNat) (hhigh : byte.toNat < 0xF0) :
    Lead.of? byte = some ⟨byte.toNat % 16, if byte.toNat = 0xE0 then 0xA0 else 0x80,
      if byte.toNat = 0xED then 0x9F else 0xBF, 2⟩ := by
  simp only [Lead.of?, UInt8.lt_iff_toNat_lt, ← UInt8.toNat_inj, UInt8.reduceToNat]
  rw [if_neg (by omega), if_neg (by omega), if_neg (by omega)]
  by_cases hfirst : byte.toNat = 0xE0
  · rw [if_pos hfirst, hfirst]
    rfl
  · by_cases hlast : byte.toNat = 0xED
    · rw [if_neg hfirst, if_pos hlast, hlast]
      rfl
    · rw [if_neg hfirst, if_neg hlast, if_pos hhigh, if_neg hfirst, if_neg hlast]

theorem Lead.of?_four {byte : UInt8} (hlow : 0xF0 ≤ byte.toNat) (hhigh : byte.toNat ≤ 0xF4) :
    Lead.of? byte = some ⟨byte.toNat % 8, if byte.toNat = 0xF0 then 0x90 else 0x80,
      if byte.toNat = 0xF4 then 0x8F else 0xBF, 3⟩ := by
  simp only [Lead.of?, UInt8.lt_iff_toNat_lt, ← UInt8.toNat_inj, UInt8.reduceToNat]
  rw [if_neg (by omega), if_neg (by omega), if_neg (by omega), if_neg (by omega),
    if_neg (by omega), if_neg (by omega)]
  by_cases hfirst : byte.toNat = 0xF0
  · rw [if_pos hfirst, hfirst]
    rfl
  · by_cases hlast : byte.toNat = 0xF4
    · rw [if_neg hfirst, if_neg (by omega), if_pos hlast, hlast]
      rfl
    · rw [if_neg hfirst, if_pos (by omega), if_neg hfirst, if_neg hlast]

/-- The bytes between those of one byte and those of two, and those behind the last, begin no
character. -/
theorem Lead.of?_eq_none {byte : UInt8}
    (h : 0x80 ≤ byte.toNat ∧ byte.toNat < 0xC2 ∨ 0xF4 < byte.toNat) : Lead.of? byte = none := by
  simp only [Lead.of?, UInt8.lt_iff_toNat_lt, ← UInt8.toNat_inj, UInt8.reduceToNat]
  rcases h with ⟨hlow, hhigh⟩ | hbeyond
  · rw [if_neg (by omega), if_pos hhigh]
  · rw [if_neg (by omega), if_neg (by omega), if_neg (by omega), if_neg (by omega),
      if_neg (by omega), if_neg (by omega), if_neg (by omega), if_neg (by omega), if_neg (by omega)]

/-- A trailing byte that fits adds the six bits that it holds. -/
theorem trail_cons_of_fits {low high : UInt8} {n : Nat} (hlow : low.toNat ≤ n % 64 + 128)
    (hhigh : n % 64 + 128 ≤ high.toNat) (count bits : Nat) (rest : Bytes) :
    trail (count + 1) low high bits (UInt8.ofNat (n % 64 + 128) :: rest) =
      trail count 0x80 0xBF (bits * 64 + n % 64) rest := by
  have hbyte : (UInt8.ofNat (n % 64 + 128)).toNat = n % 64 + 128 := by
    rw [UInt8.toNat_ofNat']
    omega
  have hbits : (n % 64 + 128) % 64 = n % 64 := by omega
  have hfits : low ≤ UInt8.ofNat (n % 64 + 128) ∧ UInt8.ofNat (n % 64 + 128) ≤ high := by
    rw [UInt8.le_iff_toNat_le, UInt8.le_iff_toNat_le, hbyte]
    exact ⟨hlow, hhigh⟩
  rw [trail, if_pos hfits, hbyte, hbits]

theorem trail_cons (count bits n : Nat) (rest : Bytes) :
    trail (count + 1) 0x80 0xBF bits (UInt8.ofNat (n % 64 + 128) :: rest) =
      trail count 0x80 0xBF (bits * 64 + n % 64) rest := by
  have hhigh : n % 64 + 128 ≤ 191 := by omega
  exact trail_cons_of_fits (Nat.le_add_left 128 (n % 64)) hhigh count bits rest

theorem units_two {n : Nat} (hlow : 0x7F < n) (hhigh : n ≤ 0x7FF) (rest : Bytes) :
    units (UInt8.ofNat (n / 64 % 32 + 192) :: UInt8.ofNat (n % 64 + 128) :: rest) =
      some (Char.ofNat n) :: units rest := by
  have hfirst : (UInt8.ofNat (n / 64 % 32 + 192)).toNat = n / 64 + 192 := by
    rw [UInt8.toNat_ofNat']
    omega
  have hcode : (n / 64 + 192) % 32 * 64 + n % 64 = n := by omega
  rw [units_cons, unit, Lead.of?_two (by omega) (by omega), hfirst]
  dsimp only
  rw [trail_cons, hcode]
  rfl

/-- Numbers of surrogates are not among those that take three bytes. -/
theorem units_three {n : Nat} (hlow : 0x7FF < n) (hhigh : n ≤ 0xFFFF)
    (hchar : n < 0xD800 ∨ 0xDFFF < n) (rest : Bytes) :
    units (UInt8.ofNat (n / 4096 % 16 + 224) :: UInt8.ofNat (n / 64 % 64 + 128) ::
      UInt8.ofNat (n % 64 + 128) :: rest) = some (Char.ofNat n) :: units rest := by
  have hfirst : (UInt8.ofNat (n / 4096 % 16 + 224)).toNat = n / 4096 + 224 := by
    rw [UInt8.toNat_ofNat']
    omega
  have hlow' : (if n / 4096 + 224 = 0xE0 then (0xA0 : UInt8) else 0x80).toNat ≤
      n / 64 % 64 + 128 := by
    split
    · change 0xA0 ≤ _
      omega
    · change 0x80 ≤ _
      omega
  have hhigh' : n / 64 % 64 + 128 ≤
      (if n / 4096 + 224 = 0xED then (0x9F : UInt8) else 0xBF).toNat := by
    split
    · change _ ≤ 0x9F
      omega
    · change _ ≤ 0xBF
      omega
  have hcode : ((n / 4096 + 224) % 16 * 64 + n / 64 % 64) * 64 + n % 64 = n := by omega
  rw [units_cons, unit, Lead.of?_three (by omega) (by omega), hfirst]
  dsimp only
  rw [trail_cons_of_fits hlow' hhigh', trail_cons, hcode]
  rfl

theorem units_four {n : Nat} (hlow : 0xFFFF < n) (hhigh : n < 0x110000) (rest : Bytes) :
    units (UInt8.ofNat (n / 262144 % 8 + 240) :: UInt8.ofNat (n / 4096 % 64 + 128) ::
      UInt8.ofNat (n / 64 % 64 + 128) :: UInt8.ofNat (n % 64 + 128) :: rest) =
      some (Char.ofNat n) :: units rest := by
  have hfirst : (UInt8.ofNat (n / 262144 % 8 + 240)).toNat = n / 262144 + 240 := by
    rw [UInt8.toNat_ofNat']
    omega
  have hlow' : (if n / 262144 + 240 = 0xF0 then (0x90 : UInt8) else 0x80).toNat ≤
      n / 4096 % 64 + 128 := by
    split
    · change 0x90 ≤ _
      omega
    · change 0x80 ≤ _
      omega
  have hhigh' : n / 4096 % 64 + 128 ≤
      (if n / 262144 + 240 = 0xF4 then (0x8F : UInt8) else 0xBF).toNat := by
    split
    · change _ ≤ 0x8F
      omega
    · change _ ≤ 0xBF
      omega
  have hcode : (((n / 262144 + 240) % 8 * 64 + n / 4096 % 64) * 64 + n / 64 % 64) * 64 +
      n % 64 = n := by omega
  rw [units_cons, unit, Lead.of?_four (by omega) (by omega), hfirst]
  dsimp only
  rw [trail_cons_of_fits hlow' hhigh', trail_cons, trail_cons, hcode]
  rfl

/-- The bytes of a character are one unit, whatever follows them. -/
theorem units_encodeChar_append (c : Char) (rest : Bytes) :
    units (String.utf8EncodeChar c ++ rest) = some c :: units rest := by
  have hvalid : c.toNat < 0xD800 ∨ 0xDFFF < c.toNat ∧ c.toNat < 0x110000 := c.valid
  rw [String.utf8EncodeChar, Char.toNat_val]
  by_cases hone : c.toNat ≤ 0x7F
  · have hfirst : (UInt8.ofNat c.toNat).toNat = c.toNat := by
      rw [UInt8.toNat_ofNat']
      omega
    have hlow : UInt8.ofNat c.toNat < 0x80 := by
      rw [UInt8.lt_iff_toNat_lt, hfirst]
      exact Nat.lt_succ_of_le hone
    rw [if_pos hone, List.singleton_append, units_cons_of_lt hlow, hfirst, Char.ofNat_toNat]
  · rw [if_neg hone]
    by_cases htwo : c.toNat ≤ 0x7FF
    · have hunits := units_two (Nat.not_le.mp hone) htwo rest
      rw [Char.ofNat_toNat] at hunits
      rw [if_pos htwo]
      exact hunits
    · rw [if_neg htwo]
      by_cases hthree : c.toNat ≤ 0xFFFF
      · have hunits := units_three (Nat.not_le.mp htwo) hthree (by omega) rest
        rw [Char.ofNat_toNat] at hunits
        rw [if_pos hthree]
        exact hunits
      · have hunits := units_four (Nat.not_le.mp hthree) (by omega) rest
        rw [Char.ofNat_toNat] at hunits
        rw [if_neg hthree]
        exact hunits

theorem ofText_eq (text : String) : ofText text = text.toList.flatMap String.utf8EncodeChar := by
  have hbytes : text.toUTF8 = (text.toList.flatMap String.utf8EncodeChar).toByteArray := by
    conv => lhs; rw [← String.ofList_toList (s := text)]
    exact String.toByteArray_ofList
  rw [ofText, hbytes]
  simp

theorem units_flatMap_encodeChar (chars : List Char) :
    units (chars.flatMap String.utf8EncodeChar) = chars.map some := by
  induction chars with
  | nil => exact units_nil
  | cons c chars ih => rw [List.flatMap_cons, units_encodeChar_append, ih, List.map_cons]

/-- Text is read back from its bytes. -/
theorem chars_ofText (text : String) : chars (ofText text) = text.toList := by
  rw [ofText_eq, chars, units_flatMap_encodeChar, List.map_map]
  exact List.map_id _

/-- A unit that is a character has the bytes that its first byte promises. -/
theorem exists_of_unit {byte : UInt8} {rest behind : Bytes} {c : Char}
    (h : unit byte rest = (some c, behind)) :
    ∃ lead code, Lead.of? byte = some lead ∧
      trail lead.trailing lead.low lead.high lead.bits rest = (some code, behind) ∧
        c = Char.ofNat code := by
  rw [unit] at h
  cases hlead : Lead.of? byte with
  | none =>
      rw [hlead] at h
      cases h
  | some lead =>
      rw [hlead] at h
      dsimp only at h
      rcases htrail : trail lead.trailing lead.low lead.high lead.bits rest with ⟨_ | code, after⟩
      · rw [htrail] at h
        cases h
      · rw [htrail] at h
        cases h
        exact ⟨lead, code, rfl, htrail, rfl⟩

theorem exists_of_trail {count bits code : Nat} {low high : UInt8} {bytes rest : Bytes}
    (h : trail (count + 1) low high bits bytes = (some code, rest)) :
    ∃ byte behind, bytes = byte :: behind ∧ low.toNat ≤ byte.toNat ∧ byte.toNat ≤ high.toNat ∧
      trail count 0x80 0xBF (bits * 64 + byte.toNat % 64) behind = (some code, rest) := by
  cases bytes with
  | nil => cases h
  | cons byte behind =>
      rw [trail] at h
      split at h
      · next hfits =>
          exact ⟨byte, behind, rfl, UInt8.le_iff_toNat_le.mp hfits.1,
            UInt8.le_iff_toNat_le.mp hfits.2, h⟩
      · cases h

theorem toNat_ofNat {n : Nat} (h : n < 0xD800 ∨ 0xDFFF < n ∧ n < 0x110000) :
    (Char.ofNat n).toNat = n := by
  rw [Char.ofNat, dif_pos h]
  rfl

theorem ofNat_eq (byte : UInt8) {n : Nat} (h : n = byte.toNat) : UInt8.ofNat n = byte := by
  rw [h, UInt8.ofNat_toNat]

theorem encodeChar_one {first : UInt8} (h : first.toNat < 0x80) :
    String.utf8EncodeChar (Char.ofNat first.toNat) = [first] := by
  rw [String.utf8EncodeChar, Char.toNat_val, toNat_ofNat (by omega), if_pos (by omega),
    UInt8.ofNat_toNat]

theorem encodeChar_two {first second : UInt8} (hlow : 0xC2 ≤ first.toNat)
    (hhigh : first.toNat < 0xE0) (hsecond : 0x80 ≤ second.toNat) (hsecond' : second.toNat ≤ 0xBF) :
    String.utf8EncodeChar (Char.ofNat (first.toNat % 32 * 64 + second.toNat % 64)) =
      [first, second] := by
  rw [String.utf8EncodeChar, Char.toNat_val, toNat_ofNat (by omega), if_neg (by omega),
    if_pos (by omega), ofNat_eq first (by omega), ofNat_eq second (by omega)]

/-- The narrowed ranges of the second byte leave out overlong forms and surrogates. -/
theorem encodeChar_three {first second third : UInt8} (hlow : 0xE0 ≤ first.toNat)
    (hhigh : first.toNat < 0xF0) (hsecond : 0x80 ≤ second.toNat) (hsecond' : second.toNat ≤ 0xBF)
    (hthird : 0x80 ≤ third.toNat) (hthird' : third.toNat ≤ 0xBF)
    (hfirst : first.toNat = 0xE0 → 0xA0 ≤ second.toNat)
    (hlast : first.toNat = 0xED → second.toNat ≤ 0x9F) :
    String.utf8EncodeChar (Char.ofNat
      ((first.toNat % 16 * 64 + second.toNat % 64) * 64 + third.toNat % 64)) =
        [first, second, third] := by
  rw [String.utf8EncodeChar, Char.toNat_val, toNat_ofNat (by omega), if_neg (by omega),
    if_neg (by omega), if_pos (by omega), ofNat_eq first (by omega), ofNat_eq second (by omega),
    ofNat_eq third (by omega)]

theorem encodeChar_four {first second third fourth : UInt8} (hlow : 0xF0 ≤ first.toNat)
    (hhigh : first.toNat ≤ 0xF4) (hsecond : 0x80 ≤ second.toNat) (hsecond' : second.toNat ≤ 0xBF)
    (hthird : 0x80 ≤ third.toNat) (hthird' : third.toNat ≤ 0xBF)
    (hfourth : 0x80 ≤ fourth.toNat) (hfourth' : fourth.toNat ≤ 0xBF)
    (hfirst : first.toNat = 0xF0 → 0x90 ≤ second.toNat)
    (hlast : first.toNat = 0xF4 → second.toNat ≤ 0x8F) :
    String.utf8EncodeChar (Char.ofNat
      (((first.toNat % 8 * 64 + second.toNat % 64) * 64 + third.toNat % 64) * 64 +
        fourth.toNat % 64)) = [first, second, third, fourth] := by
  rw [String.utf8EncodeChar, Char.toNat_val, toNat_ofNat (by omega), if_neg (by omega),
    if_neg (by omega), if_neg (by omega), ofNat_eq first (by omega), ofNat_eq second (by omega),
    ofNat_eq third (by omega), ofNat_eq fourth (by omega)]

/-- The bytes of a unit that is a character are the bytes of the character. -/
theorem encodeChar_append_of_unit {byte : UInt8} {rest behind : Bytes} {c : Char}
    (h : unit byte rest = (some c, behind)) : String.utf8EncodeChar c ++ behind = byte :: rest := by
  obtain ⟨lead, code, hlead, htrail, rfl⟩ := exists_of_unit h
  by_cases hone : byte.toNat < 0x80
  · rw [Lead.of?_one hone, Option.some.injEq] at hlead
    subst hlead
    cases htrail
    exact congrArg (· ++ _) (encodeChar_one hone)
  by_cases hnone : byte.toNat < 0xC2 ∨ 0xF4 < byte.toNat
  · rw [Lead.of?_eq_none (by omega)] at hlead
    cases hlead
  by_cases htwo : byte.toNat < 0xE0
  · rw [Lead.of?_two (by omega) htwo, Option.some.injEq] at hlead
    subst hlead
    obtain ⟨second, rest, rfl, hlow, hhigh, htrail⟩ := exists_of_trail htrail
    cases htrail
    exact congrArg (· ++ _) (encodeChar_two (by omega) htwo hlow hhigh)
  by_cases hthree : byte.toNat < 0xF0
  · rw [Lead.of?_three (by omega) hthree, Option.some.injEq] at hlead
    subst hlead
    obtain ⟨second, rest, rfl, hlow, hhigh, htrail⟩ := exists_of_trail htrail
    obtain ⟨third, rest, rfl, hthird, hthird', htrail⟩ := exists_of_trail htrail
    cases htrail
    dsimp only at hlow hhigh
    have hsecond : 0x80 ≤ second.toNat := Nat.le_trans (by split <;> decide) hlow
    have hsecond' : second.toNat ≤ 0xBF := Nat.le_trans hhigh (by split <;> decide)
    have hfirst : byte.toNat = 0xE0 → 0xA0 ≤ second.toNat := fun h => by rwa [if_pos h] at hlow
    have hlast : byte.toNat = 0xED → second.toNat ≤ 0x9F := fun h => by rwa [if_pos h] at hhigh
    exact congrArg (· ++ _) (encodeChar_three (Nat.not_lt.mp htwo) hthree hsecond hsecond' hthird
      hthird' hfirst hlast)
  · rw [Lead.of?_four (by omega) (by omega), Option.some.injEq] at hlead
    subst hlead
    obtain ⟨second, rest, rfl, hlow, hhigh, htrail⟩ := exists_of_trail htrail
    obtain ⟨third, rest, rfl, hthird, hthird', htrail⟩ := exists_of_trail htrail
    obtain ⟨fourth, rest, rfl, hfourth, hfourth', htrail⟩ := exists_of_trail htrail
    cases htrail
    dsimp only at hlow hhigh
    have hsecond : 0x80 ≤ second.toNat := Nat.le_trans (by split <;> decide) hlow
    have hsecond' : second.toNat ≤ 0xBF := Nat.le_trans hhigh (by split <;> decide)
    have hfirst : byte.toNat = 0xF0 → 0x90 ≤ second.toNat := fun h => by rwa [if_pos h] at hlow
    have hlast : byte.toNat = 0xF4 → second.toNat ≤ 0x8F := fun h => by rwa [if_pos h] at hhigh
    exact congrArg (· ++ _) (encodeChar_four (Nat.not_lt.mp hthree) (by omega) hsecond hsecond'
      hthird hthird' hfourth hfourth' hfirst hlast)

theorem eq_of_units {bytes : Bytes} {text : List Char} (h : units bytes = text.map some) :
    bytes = text.flatMap String.utf8EncodeChar := by
  induction text generalizing bytes with
  | nil =>
      cases bytes with
      | nil => rfl
      | cons byte rest =>
          rw [units_cons] at h
          cases h
  | cons c text ih =>
      cases bytes with
      | nil =>
          rw [units_nil] at h
          cases h
      | cons byte rest =>
          rw [units_cons, List.map_cons, List.cons.injEq] at h
          have hunit : unit byte rest = (some c, (unit byte rest).2) := Prod.ext h.1 rfl
          rw [List.flatMap_cons, ← ih h.2, encodeChar_append_of_unit hunit]

theorem ofText_ofList (text : List Char) :
    ofText (String.ofList text) = text.flatMap String.utf8EncodeChar := by
  rw [ofText_eq, String.toList_ofList]

/-- Bytes are text if and only if they are the bytes of a text. -/
theorem isText_iff (bytes : Bytes) :
    isText bytes = true ↔ ∃ text : String, bytes = ofText text := by
  constructor
  · intro h
    rw [isText, List.all_eq_true] at h
    have hunits : units bytes = (chars bytes).map some := by
      rw [chars, List.map_map]
      conv => lhs; rw [← List.map_id (units bytes)]
      refine List.map_congr_left fun unit hunit => ?_
      obtain ⟨c, rfl⟩ := Option.isSome_iff_exists.mp (h unit hunit)
      rfl
    exact ⟨String.ofList (chars bytes), (eq_of_units hunits).trans (ofText_ofList _).symm⟩
  · rintro ⟨text, rfl⟩
    simp [isText, ofText_eq, units_flatMap_encodeChar]

theorem ofText_append (front rest : String) :
    ofText (front ++ rest) = ofText front ++ ofText rest := by
  rw [ofText_eq, ofText_eq, ofText_eq, String.toList_append, List.flatMap_append]

/-- Bytes that are text come back from their characters. -/
theorem ofText_text {bytes : Bytes} (h : isText bytes = true) : ofText (text bytes) = bytes := by
  obtain ⟨written, rfl⟩ := (isText_iff bytes).mp h
  rw [text, chars_ofText, String.ofList_toList]

end Utf8

end NamedBlobs
