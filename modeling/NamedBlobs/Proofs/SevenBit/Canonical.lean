import NamedBlobs.Proofs.SevenBit.Written

/-!
# Canonical sequences

A value has many complete sequences, and the writer's is the only canonical one
among them (`encode_value_eq_iff`). No sequence for the value is shorter
(`length_encode_value_le`). A sequence loses bits as a word exactly if it has a
fifth group of more than four bits (`payload_lt_iff`), and it has a group too
many exactly if the last of several is zero. So a value that was read is written
again as it was exactly if the sequence was canonical (`write_read_iff_canonical`).
-/

namespace NamedBlobs

namespace SevenBit

/-- What is written for the value of a sequence. -/
theorem encode_value (groups : Bytes) :
    encode (value groups) = ofWord (UInt32.ofNat (payload groups)) := rfl

theorem payload_append_singleton (init : Bytes) (last : UInt8) :
    payload (init ++ [last]) = payload init + 128 ^ init.length * (last.toNat % 128) := by
  rw [payload_append, payload_cons, payload, Nat.mul_zero, Nat.add_zero]

theorem toNat_lt_of_continues_eq_false {byte : UInt8} (h : continues byte = false) :
    byte.toNat < 128 := by
  by_contra hle
  have hcontinues : continues byte := (continues_iff byte).mpr (by omega)
  rw [h] at hcontinues
  cases hcontinues

/-- No sequence for a value is shorter than the one that is written. -/
theorem length_encode_value_le {groups : Bytes} (h : Complete groups) :
    (encode (value groups)).length ≤ groups.length := by
  obtain ⟨init, last, rfl, -, -, -⟩ := h
  have hpayload : payload (init ++ [last]) < 128 ^ (init.length + 1) := by
    have hlt := payload_lt (init ++ [last])
    rwa [List.length_append, List.length_singleton] at hlt
  have hword : (UInt32.ofNat (payload (init ++ [last]))).toNat < 128 ^ (init.length + 1) := by
    rw [UInt32.toNat_ofNat']
    exact Nat.lt_of_le_of_lt (Nat.mod_le _ _) hpayload
  obtain ⟨init', last', heq, -, -, hlength⟩ := ofWord_eq_append _ init.length hword
  rw [encode_value, heq]
  simp only [List.length_append, List.length_singleton]
  omega

/-- A complete sequence keeps all its bits in a word if and only if its fifth group,
where it has one, has four bits at most. -/
theorem payload_lt_iff {groups : Bytes} (h : Complete groups) :
    payload groups < 2 ^ 32 ↔ ∀ last, groups[4]? = some last → last < 0x10 := by
  obtain ⟨init, last, rfl, -, hlast, hlength⟩ := h
  rw [List.length_append, List.length_singleton, maxBytes] at hlength
  have hinit : payload init < 128 ^ init.length := payload_lt init
  have hgroup : last.toNat < 128 := toNat_lt_of_continues_eq_false hlast
  rcases Nat.lt_or_ge init.length 4 with hshort | hlong
  · have hpayload : payload (init ++ [last]) < 128 ^ 4 := by
      refine Nat.lt_of_lt_of_le (payload_lt _) (Nat.pow_le_pow_right (by decide) ?_)
      rw [List.length_append, List.length_singleton]
      omega
    have hnone : (init ++ [last])[4]? = none := by
      rw [List.getElem?_eq_none_iff, List.length_append, List.length_singleton]
      omega
    rw [hnone]
    simp only [reduceCtorEq, false_implies, implies_true, iff_true]
    omega
  · have hfour : init.length = 4 := by omega
    have hfifth : (init ++ [last])[4]? = some last := by
      rw [← hfour, List.getElem?_concat_length]
    rw [hfifth, payload_append_singleton, hfour]
    rw [hfour] at hinit
    simp only [Option.some.injEq, forall_eq', UInt8.lt_iff_toNat_lt, UInt8.reduceToNat]
    omega

/-- The writer's last step: a number below 128 is its own group. -/
theorem ofWord_singleton {last : UInt8} (h : last.toNat < 128) :
    ofWord (UInt32.ofNat last.toNat) = [last] := by
  have hword : (UInt32.ofNat last.toNat).toNat = last.toNat := by
    rw [UInt32.toNat_ofNat']
    omega
  have hhigher : UInt32.ofNat last.toNat >>> 7 = 0 := by
    apply UInt32.toNat_inj.mp
    rw [toNat_higher, hword, Nat.div_eq_of_lt h]
    rfl
  have hgroup : (UInt32.ofNat last.toNat &&& 0x7F).toUInt8 = last := by
    apply UInt8.toNat_inj.mp
    rw [toNat_group, hword, Nat.mod_eq_of_lt h]
  rw [ofWord]
  simp only [hhigher, dite_true, hgroup]

/-- One step of the writer: below the groups of `higher`, which is not zero, goes a
byte that announces them. -/
theorem ofWord_cons {byte : UInt8} {higher : Nat} (hbyte : continues byte) (hpos : 0 < higher)
    (hkept : byte.toNat % 128 + 128 * higher < 2 ^ 32) :
    ofWord (UInt32.ofNat (byte.toNat % 128 + 128 * higher)) =
      byte :: ofWord (UInt32.ofNat higher) := by
  have hword : (UInt32.ofNat (byte.toNat % 128 + 128 * higher)).toNat =
      byte.toNat % 128 + 128 * higher := by
    rw [UInt32.toNat_ofNat', Nat.mod_eq_of_lt hkept]
  have hhigher : UInt32.ofNat (byte.toNat % 128 + 128 * higher) >>> 7 = UInt32.ofNat higher := by
    apply UInt32.toNat_inj.mp
    rw [toNat_higher, hword, UInt32.toNat_ofNat']
    omega
  have hmore : UInt32.ofNat higher ≠ 0 := fun hzero => by
    have htoNat := congrArg UInt32.toNat hzero
    rw [UInt32.toNat_ofNat', UInt32.toNat_zero] at htoNat
    omega
  have hgroup : (UInt32.ofNat (byte.toNat % 128 + 128 * higher) &&& 0x7F).toUInt8 ||| 0x80 =
      byte := by
    have hlow : 128 ≤ byte.toNat := (continues_iff byte).mp hbyte
    have hhigh : byte.toNat < 256 := byte.toNat_lt
    apply UInt8.toNat_inj.mp
    rw [toNat_continued _ (by rw [toNat_group]; omega), toNat_group, hword]
    omega
  rw [ofWord]
  simp only [hhigher, hmore, dite_false, hgroup]

/-- A sequence without a group too many and without lost bits is what is written for
the number that it spells. -/
theorem ofWord_payload (init : Bytes) (last : UInt8) (hinit : ∀ byte ∈ init, continues byte)
    (hlast : continues last = false) (hneeded : init = [] ∨ last ≠ 0)
    (hkept : payload (init ++ [last]) < 2 ^ 32) :
    ofWord (UInt32.ofNat (payload (init ++ [last]))) = init ++ [last] := by
  have hgroup : last.toNat < 128 := toNat_lt_of_continues_eq_false hlast
  induction init with
  | nil =>
      have hpayload : payload ([] ++ [last]) = last.toNat := by
        rw [List.nil_append, payload_cons, payload, Nat.mod_eq_of_lt hgroup, Nat.mul_zero,
          Nat.add_zero]
      rw [hpayload, ofWord_singleton hgroup, List.nil_append]
  | cons byte init ih =>
      obtain ⟨hbyte, hinit⟩ := List.forall_mem_cons.mp hinit
      have hne : last ≠ 0 := by simpa using hneeded
      have hpos : 0 < last.toNat := Nat.pos_of_ne_zero fun hzero =>
        hne (UInt8.toNat_inj.mp hzero)
      have hrest : 0 < payload (init ++ [last]) := by
        rw [payload_append_singleton, Nat.mod_eq_of_lt hgroup]
        exact Nat.add_pos_right _ (Nat.mul_pos (Nat.pow_pos (by decide)) hpos)
      rw [List.cons_append, payload_cons] at hkept ⊢
      rw [ofWord_cons hbyte hrest hkept, ih hinit (Or.inr hne) (by omega)]

/-- The last group of a word that is not zero is not zero. -/
theorem getLast?_ofWord_ne (word : UInt32) (h : word ≠ 0) : (ofWord word).getLast? ≠ some 0 := by
  fun_induction ofWord word with
  | case1 word group higher hlast =>
      have hhigher : word.toNat / 128 = 0 := by
        rw [← toNat_higher word, show word >>> 7 = 0 from hlast]
        rfl
      have hgroup : group.toNat = word.toNat % 128 := toNat_group word
      rw [List.getLast?_singleton, ne_eq, Option.some.injEq]
      intro hzero
      rw [hzero] at hgroup
      refine h (UInt32.toNat_inj.mp ?_)
      simp only [UInt8.toNat_zero, UInt32.toNat_zero] at hgroup ⊢
      omega
  | case2 word group higher hmore ih =>
      obtain ⟨init, last, heq, -⟩ := complete_ofWord higher
      rw [heq] at ih ⊢
      rw [← List.cons_append, List.getLast?_concat]
      rw [List.getLast?_concat] at ih
      exact ih hmore

theorem canonical_encode (word : Int32) : Canonical (encode word) := by
  refine ⟨complete_encode word, ?_, ?_⟩
  · by_cases hword : word.toUInt32 = 0
    · left
      rw [encode, hword, ofWord]
      rfl
    · exact Or.inr (getLast?_ofWord_ne _ hword)
  · rw [← payload_lt_iff (complete_encode word), encode, payload_ofWord]
    exact word.toUInt32.toNat_lt

/-- A sequence is what is written for its value if and only if it is canonical. -/
theorem encode_value_eq_iff (groups : Bytes) :
    encode (value groups) = groups ↔ Canonical groups := by
  constructor
  · intro heq
    rw [← heq]
    exact canonical_encode _
  · rintro ⟨hcomplete, hneeded, hkept⟩
    rw [← payload_lt_iff hcomplete] at hkept
    obtain ⟨init, last, rfl, hinit, hlast, -⟩ := hcomplete
    refine ofWord_payload init last hinit hlast ?_ hkept
    rcases hneeded with hone | hlast
    · left
      rw [List.length_append, List.length_singleton] at hone
      exact List.length_eq_zero_iff.mp (by omega)
    · right
      rw [List.getLast?_concat] at hlast
      exact fun hzero => hlast (congrArg some hzero)

/-- What is written for a value opens what is written for that value only. -/
theorem eq_of_encode_isPrefix {word word' : Int32} (h : encode word <+: encode word') :
    word = word' := by
  obtain ⟨rest, hrest⟩ := h
  have hopens : encode word ++ rest = encode word' ++ [] := by rw [hrest, List.append_nil]
  obtain ⟨heq, -⟩ := (complete_encode word).eq_of_append_eq (complete_encode word') hopens
  rw [← value_encode word, heq, value_encode]

/-- A value is written in a canonical sequence, behind the bytes of the buffer. No
sequence that is read as the value is shorter, and one that is read is written again if
and only if it is canonical. What is written for a value does not open what is written
for any other. -/
theorem write_read_iff_canonical :
    (∀ (buffer : Bytes) (word : Int32),
      write buffer word = buffer ++ encode word ∧ Canonical (encode word)) ∧
    (∀ (reader reader' : Reader) (word : Int32),
      Decoder.sevenBit.run reader = .ok word reader' →
        ∃ groups, Complete groups ∧ reader.rest = groups ++ reader'.rest ∧
          reader'.position = reader.position + groups.length ∧
          0 < (encode word).length ∧ (encode word).length ≤ groups.length ∧
          groups.length ≤ maxBytes ∧ (encode word = groups ↔ Canonical groups)) ∧
    ∀ word word' : Int32, encode word <+: encode word' → word = word' := by
  refine ⟨fun buffer word => ⟨write_eq buffer word, canonical_encode word⟩, ?_,
    fun word word' => eq_of_encode_isPrefix⟩
  intro reader reader' word hread
  obtain ⟨groups, hgroups, hsplit, hposition, rfl⟩ := exists_complete_of_run hread
  exact ⟨groups, hgroups, hsplit, hposition, (complete_encode _).length_bounds.1,
    length_encode_value_le hgroups, hgroups.length_bounds.2, encode_value_eq_iff groups⟩

/-- A fifth group with a bit beyond the 32nd is read as one and not written again. -/
theorem write_read_iff_canonical_dropped_bit :
    Decoder.sevenBit.run ⟨2, [0x81, 0x80, 0x80, 0x80, 0x10, 0xFF]⟩ = .ok 1 ⟨7, [0xFF]⟩ ∧
      write [7, 8] 1 = [7, 8, 1] ∧ ¬ Canonical [0x81, 0x80, 0x80, 0x80, 0x10] := by
  have hread : Decoder.sevenBit.run ⟨2, [0x81, 0x80, 0x80, 0x80, 0x10, 0xFF]⟩ =
      .ok 1 ⟨7, [0xFF]⟩ := by
    rfl
  obtain ⟨hwrite, hagain, -⟩ := write_read_iff_canonical
  obtain ⟨groups, -, hsplit, -, -, -, -, hiff⟩ := hagain _ _ _ hread
  have hsplit' : [0x81, 0x80, 0x80, 0x80, 0x10] ++ [0xFF] = groups ++ [0xFF] := hsplit
  have hgroups := List.append_cancel_right hsplit'
  have hencode : encode 1 = [1] := by decide +kernel
  refine ⟨hread, ?_, ?_⟩
  · rw [(hwrite [7, 8] 1).1, hencode]
    rfl
  · rw [hgroups, ← hiff, hencode, ← hgroups]
    decide

end SevenBit

end NamedBlobs
