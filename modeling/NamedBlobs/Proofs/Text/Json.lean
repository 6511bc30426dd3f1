import NamedBlobs.Proofs.Text.Numeral
import NamedBlobs.Text.Quoted

/-!
# JSON texts

What a JSON text says. Numbers and the characters of strings are read by functions; the
values made of them are read by a relation, `Json.Reads`, that holds of a text, of a value
that the text begins with, and of what is behind that value. A text spells a value
(`Json.Spells`) if nothing but blanks is around the value. No text spells two values
(`Json.Spells.unique`).

What the program quotes is read back as a string (`Json.Reads.wrap`), whatever characters
are in it, and a numeral in front of a blank as its number (`Json.number?_integerChars`).
-/

namespace NamedBlobs

/-- The value of a JSON text. The members of an object are in the order of the text. -/
inductive Json where
  | null
  | bool (value : Bool)
  /-- The number `mantissa * 10 ^ exponent`. -/
  | number (mantissa exponent : Int)
  | string (chars : List Char)
  | array (items : List Json)
  | object (members : List (List Char × Json))

namespace Json

def isBlank (c : Char) : Bool := c == ' ' || c == '\t' || c == '\n' || c == '\r'

theorem isBlank_iff (c : Char) : isBlank c ↔ c = ' ' ∨ c = '\t' ∨ c = '\n' ∨ c = '\r' := by
  simp [isBlank, or_assoc]

/-- The text behind the blanks it begins with. -/
def skip (text : List Char) : List Char := text.dropWhile isBlank

theorem skip_cons_of_blank {c : Char} (h : isBlank c) (text : List Char) :
    skip (c :: text) = skip text :=
  List.dropWhile_cons_of_pos h

theorem skip_cons_of_not_blank {c : Char} (h : isBlank c = false) (text : List Char) :
    skip (c :: text) = c :: text :=
  List.dropWhile_cons_of_neg (by simp [h])

section Numbers

/-- The digits at the front, of which there must be one. -/
def digits? (text : List Char) : Option (List Char × List Char) :=
  match text.takeWhile Char.isDigit with
  | [] => none
  | digits => some (digits, text.dropWhile Char.isDigit)

/-- The digits in front of the point: zero is not in front of another digit. -/
def whole? (text : List Char) : Option (List Char × List Char) :=
  match digits? text with
  | some ('0' :: _ :: _, _) => none
  | found => found

/-- The digits behind the point, if there is one. -/
def fraction? : List Char → Option (List Char × List Char)
  | '.' :: text => digits? text
  | text => some ([], text)

def sign : List Char → Int × List Char
  | '-' :: text => (-1, text)
  | text => (1, text)

/-- The power of ten that a number is scaled by, if one is given. -/
def exponent? : List Char → Option (Int × List Char)
  | [] => some (0, [])
  | c :: text =>
      if c = 'e' ∨ c = 'E' then do
        let (sign, text) := match text with
          | '+' :: text => (1, text)
          | text => sign text
        let (digits, text) ← digits? text
        return (sign * (Nat.ofDigitChars 10 digits 0 : Nat), text)
      else some (0, c :: text)

/-- The mantissa and the exponent of the number at the front. -/
def number? (text : List Char) : Option (Int × Int × List Char) := do
  let (sign, text) := sign text
  let (whole, text) ← whole? text
  let (fraction, text) ← fraction? text
  let (exponent, text) ← exponent? text
  return (sign * (Nat.ofDigitChars 10 (whole ++ fraction) 0 : Nat),
    exponent - fraction.length, text)

end Numbers

section Strings

def hexDigit? (c : Char) : Option Nat :=
  if '0' ≤ c ∧ c ≤ '9' then some (c.toNat - 48)
  else if 'A' ≤ c ∧ c ≤ 'F' then some (c.toNat - 55)
  else if 'a' ≤ c ∧ c ≤ 'f' then some (c.toNat - 87)
  else none

/-- The number that four hexadecimal digits make. -/
def unit? : List Char → Option (Nat × List Char)
  | a :: b :: c :: d :: text => do
      let a ← hexDigit? a
      let b ← hexDigit? b
      let c ← hexDigit? c
      let d ← hexDigit? d
      return (((a * 16 + b) * 16 + c) * 16 + d, text)
  | _ => none

/-- The character that a number stands for. The first half of a surrogate pair stands for
one together with the second half, which must follow. -/
def paired? (high : Nat) (text : List Char) : Option (Char × List Char) :=
  if high < 0xD800 ∨ 0xDFFF < high then some (Char.ofNat high, text)
  else match text with
    | '\\' :: 'u' :: text => do
        let (low, text) ← unit? text
        if high < 0xDC00 ∧ 0xDC00 ≤ low ∧ low ≤ 0xDFFF then
          return (Char.ofNat (0x10000 + (high - 0xD800) * 0x400 + (low - 0xDC00)), text)
        else none
    | _ => none

/-- The character that a backslash introduces. -/
def escaped? : List Char → Option (Char × List Char)
  | '"' :: text => some ('"', text)
  | '\\' :: text => some ('\\', text)
  | '/' :: text => some ('/', text)
  | 'b' :: text => some ('\x08', text)
  | 'f' :: text => some ('\x0c', text)
  | 'n' :: text => some ('\n', text)
  | 'r' :: text => some ('\r', text)
  | 't' :: text => some ('\t', text)
  | 'u' :: text => do
      let (high, text) ← unit? text
      paired? high text
  | _ => none

/-- The character at the front of what is inside a string. Quotes and control characters
stand there only in an escaped form. -/
def character? : List Char → Option (Char × List Char)
  | [] => none
  | c :: text =>
      if c = '\\' then escaped? text
      else if c = '"' ∨ c.toNat < 0x20 then none
      else some (c, text)

/-- The text begins with the characters of a string and a quote, and `rest` is behind it. -/
inductive Characters : (text chars rest : List Char) → Prop
  | close (rest : List Char) : Characters ('"' :: rest) [] rest
  | more {text after chars rest : List Char} {c : Char} (first : character? text = some (c, after))
      (others : Characters after chars rest) : Characters text (c :: chars) rest

end Strings

/-- What is read: a value, the items of an array with the bracket behind them, a member of
an object, or the members with the brace behind them. -/
inductive Form where
  | value
  | items
  | member
  | members

/-- The text begins with a value, and `rest` is behind it. The items and the members that
are read make an array and an object. -/
inductive Reads : Form → (text : List Char) → (value : Json) → (rest : List Char) → Prop
  | nullWord (rest : List Char) : Reads .value ('n' :: 'u' :: 'l' :: 'l' :: rest) .null rest
  | trueWord (rest : List Char) :
      Reads .value ('t' :: 'r' :: 'u' :: 'e' :: rest) (.bool true) rest
  | falseWord (rest : List Char) :
      Reads .value ('f' :: 'a' :: 'l' :: 's' :: 'e' :: rest) (.bool false) rest
  | number {text rest : List Char} {mantissa exponent : Int}
      (reads : number? text = some (mantissa, exponent, rest)) :
      Reads .value text (.number mantissa exponent) rest
  | string {text chars rest : List Char} (reads : Characters text chars rest) :
      Reads .value ('"' :: text) (.string chars) rest
  | noItems {text rest : List Char} (close : skip text = ']' :: rest) :
      Reads .value ('[' :: text) (.array []) rest
  | array {text rest : List Char} {items : List Json}
      (reads : Reads .items text (.array items) rest) :
      Reads .value ('[' :: text) (.array items) rest
  | noMembers {text rest : List Char} (close : skip text = '\x7d' :: rest) :
      Reads .value ('\x7b' :: text) (.object []) rest
  | object {text rest : List Char} {members : List (List Char × Json)}
      (reads : Reads .members text (.object members) rest) :
      Reads .value ('\x7b' :: text) (.object members) rest
  | lastItem {text after rest : List Char} {item : Json}
      (first : Reads .value (skip text) item after) (close : skip after = ']' :: rest) :
      Reads .items text (.array [item]) rest
  | moreItems {text after more rest : List Char} {item : Json} {items : List Json}
      (first : Reads .value (skip text) item after) (comma : skip after = ',' :: more)
      (others : Reads .items more (.array items) rest) :
      Reads .items text (.array (item :: items)) rest
  | member {text name after behind rest : List Char} {value : Json}
      (key : Characters text name after) (colon : skip after = ':' :: behind)
      (reads : Reads .value (skip behind) value rest) :
      Reads .member ('"' :: text) (.object [(name, value)]) rest
  | lastMember {text after rest : List Char} {member : List Char × Json}
      (first : Reads .member (skip text) (.object [member]) after)
      (close : skip after = '\x7d' :: rest) : Reads .members text (.object [member]) rest
  | moreMembers {text after more rest : List Char} {member : List Char × Json}
      {members : List (List Char × Json)}
      (first : Reads .member (skip text) (.object [member]) after)
      (comma : skip after = ',' :: more) (others : Reads .members more (.object members) rest) :
      Reads .members text (.object (member :: members)) rest

/-- The text is a spelling of the value, with blanks around it at most. -/
def Spells (text : List Char) (value : Json) : Prop :=
  ∃ rest, Reads .value (skip text) value rest ∧ skip rest = []

theorem Characters.unique {text chars rest chars' rest' : List Char}
    (h : Characters text chars rest) (h' : Characters text chars' rest') :
    chars = chars' ∧ rest = rest' := by
  induction h generalizing chars' rest' with
  | close rest =>
      cases h' with
      | close => exact ⟨rfl, rfl⟩
      | more first others => cases first
  | more first others ih =>
      cases h' with
      | close => cases first
      | more first' others' =>
          rw [first, Option.some.injEq, Prod.mk.injEq] at first'
          obtain ⟨rfl, rfl⟩ := first'
          obtain ⟨rfl, rfl⟩ := ih others'
          exact ⟨rfl, rfl⟩

theorem sign_cons {c : Char} (h : c ≠ '-') (text : List Char) :
    sign (c :: text) = (1, c :: text) := by
  unfold sign
  split
  · next heq => exact absurd (List.cons.inj heq).1 h
  · rfl

/-- A number begins with a minus sign or a digit. -/
theorem number?_cons_eq_none {c : Char} (hminus : c ≠ '-') (hdigit : c.isDigit = false)
    (text : List Char) : number? (c :: text) = none := by
  have hwhole : whole? (c :: text) = none := by
    rw [whole?, digits?, List.takeWhile_cons_of_neg (by simp [hdigit])]
  rw [number?, sign_cons hminus]
  simp only [hwhole, Option.bind_eq_bind, Option.bind_none]

/-- No item begins with the bracket that closes an array. -/
theorem Reads.skip_ne_of_items {text rest : List Char} {value : Json}
    (h : Reads .items text value rest) (after : List Char) : skip text ≠ ']' :: after := by
  have hvalue : ∀ item behind, ¬ Reads .value (']' :: after) item behind := by
    intro item behind hreads
    cases hreads with
    | number reads =>
        rw [number?_cons_eq_none (by decide) rfl] at reads
        cases reads
  intro hskip
  cases h with
  | lastItem first close =>
      rw [hskip] at first
      exact hvalue _ _ first
  | moreItems first comma others =>
      rw [hskip] at first
      exact hvalue _ _ first

/-- No member begins with the brace that closes an object. -/
theorem Reads.skip_ne_of_members {text rest : List Char} {value : Json}
    (h : Reads .members text value rest) (after : List Char) : skip text ≠ '\x7d' :: after := by
  intro hskip
  cases h with
  | lastMember first =>
      rw [hskip] at first
      cases first
  | moreMembers first =>
      rw [hskip] at first
      cases first

/-- The value at the front, and where it ends, are settled by the text. -/
theorem Reads.unique {form : Form} {text rest rest' : List Char} {value value' : Json}
    (h : Reads form text value rest) (h' : Reads form text value' rest') :
    value = value' ∧ rest = rest' := by
  induction h generalizing value' rest' with
  | nullWord rest =>
      cases h' with
      | nullWord => exact ⟨rfl, rfl⟩
      | number reads => cases reads
  | trueWord rest =>
      cases h' with
      | trueWord => exact ⟨rfl, rfl⟩
      | number reads => cases reads
  | falseWord rest =>
      cases h' with
      | falseWord => exact ⟨rfl, rfl⟩
      | number reads => cases reads
  | number reads =>
      cases h' with
      | number reads' =>
          rw [reads] at reads'
          cases reads'
          exact ⟨rfl, rfl⟩
      | _ => cases reads
  | string reads =>
      cases h' with
      | number reads' => cases reads'
      | string reads' =>
          obtain ⟨rfl, rfl⟩ := reads.unique reads'
          exact ⟨rfl, rfl⟩
  | noItems close =>
      cases h' with
      | number reads => cases reads
      | noItems close' =>
          rw [close] at close'
          cases close'
          exact ⟨rfl, rfl⟩
      | array reads => exact absurd close (reads.skip_ne_of_items _)
  | array reads ih =>
      cases h' with
      | number reads' => cases reads'
      | noItems close => exact absurd close (reads.skip_ne_of_items _)
      | array reads' => exact ih reads'
  | noMembers close =>
      cases h' with
      | number reads => cases reads
      | noMembers close' =>
          rw [close] at close'
          cases close'
          exact ⟨rfl, rfl⟩
      | object reads => exact absurd close (reads.skip_ne_of_members _)
  | object reads ih =>
      cases h' with
      | number reads' => cases reads'
      | noMembers close => exact absurd close (reads.skip_ne_of_members _)
      | object reads' => exact ih reads'
  | lastItem first close ih =>
      cases h' with
      | lastItem first' close' =>
          obtain ⟨rfl, rfl⟩ := ih first'
          rw [close] at close'
          cases close'
          exact ⟨rfl, rfl⟩
      | moreItems first' comma' others' =>
          obtain ⟨rfl, rfl⟩ := ih first'
          rw [close] at comma'
          cases comma'
  | moreItems first comma others ihfirst ihothers =>
      cases h' with
      | lastItem first' close' =>
          obtain ⟨rfl, rfl⟩ := ihfirst first'
          rw [comma] at close'
          cases close'
      | moreItems first' comma' others' =>
          obtain ⟨rfl, rfl⟩ := ihfirst first'
          rw [comma] at comma'
          cases comma'
          obtain ⟨hitems, rfl⟩ := ihothers others'
          cases hitems
          exact ⟨rfl, rfl⟩
  | member key colon reads ih =>
      cases h' with
      | member key' colon' reads' =>
          obtain ⟨rfl, rfl⟩ := key.unique key'
          rw [colon] at colon'
          cases colon'
          obtain ⟨rfl, rfl⟩ := ih reads'
          exact ⟨rfl, rfl⟩
  | lastMember first close ih =>
      cases h' with
      | lastMember first' close' =>
          obtain ⟨hmember, rfl⟩ := ih first'
          rw [close] at close'
          cases close'
          cases hmember
          exact ⟨rfl, rfl⟩
      | moreMembers first' comma' others' =>
          obtain ⟨-, rfl⟩ := ih first'
          rw [close] at comma'
          cases comma'
  | moreMembers first comma others ihfirst ihothers =>
      cases h' with
      | lastMember first' close' =>
          obtain ⟨-, rfl⟩ := ihfirst first'
          rw [comma] at close'
          cases close'
      | moreMembers first' comma' others' =>
          obtain ⟨hmember, rfl⟩ := ihfirst first'
          rw [comma] at comma'
          cases comma'
          obtain ⟨hmembers, rfl⟩ := ihothers others'
          cases hmember
          cases hmembers
          exact ⟨rfl, rfl⟩

/-- No text spells two values. -/
theorem Spells.unique {text : List Char} {value value' : Json} (h : Spells text value)
    (h' : Spells text value') : value = value' := by
  obtain ⟨rest, hreads, -⟩ := h
  obtain ⟨rest', hreads', -⟩ := h'
  exact (hreads.unique hreads').1

section Strings

theorem hexDigit?_digitChar {n : Nat} (h : n < 16) : hexDigit? (Nat.digitChar n) = some n := by
  have hdigits : ∀ n < 16, hexDigit? (Nat.digitChar n) = some n := by decide
  exact hdigits n h

/-- The number of a control character is read as the character. -/
theorem character?_control {c : Char} (h : c.toNat < 0x20) (rest : List Char) :
    character? ('\\' :: 'u' :: '0' :: '0' :: Nat.digitChar (c.toNat / 16) ::
      Nat.digitChar (c.toNat % 16) :: rest) = some (c, rest) := by
  have hhigh : hexDigit? (Nat.digitChar (c.toNat / 16)) = some (c.toNat / 16) :=
    hexDigit?_digitChar (by omega)
  have hlow : hexDigit? (Nat.digitChar (c.toNat % 16)) = some (c.toNat % 16) :=
    hexDigit?_digitChar (by omega)
  have hcode : c.toNat / 16 * 16 + c.toNat % 16 = c.toNat := by omega
  have hzero : hexDigit? '0' = some 0 := rfl
  have hunit : unit? ('0' :: '0' :: Nat.digitChar (c.toNat / 16) ::
      Nat.digitChar (c.toNat % 16) :: rest) = some (c.toNat, rest) := by
    simp [unit?, hzero, hhigh, hlow, hcode]
  have hpaired : paired? c.toNat rest = some (c, rest) := by
    unfold paired?
    rw [if_pos (Or.inl (by omega)), Char.ofNat_toNat]
  simp [character?, escaped?, hunit, hpaired]

/-- The escaped form of a character is read as the character, whatever follows. -/
theorem character?_jsonChar (c : Char) (rest : List Char) :
    character? (Quoted.jsonChar c ++ rest) = some (c, rest) := by
  by_cases hshort : c ∈ ['"', '\\', '\x08', '\x0c', '\n', '\r', '\t']
  · simp only [List.mem_cons, List.not_mem_nil, or_false] at hshort
    rcases hshort with rfl | rfl | rfl | rfl | rfl | rfl | rfl <;> rfl
  · simp only [List.mem_cons, List.not_mem_nil, or_false, not_or] at hshort
    obtain ⟨hquote, hbackslash, hback, hform, hline, hreturn, htab⟩ := hshort
    rw [Quoted.jsonChar, if_neg hquote, if_neg hbackslash, if_neg hback, if_neg hform,
      if_neg hline, if_neg hreturn, if_neg htab]
    by_cases hcontrol : c.toNat < 0x20
    · rw [if_pos hcontrol]
      exact character?_control hcontrol rest
    · rw [if_neg hcontrol, List.singleton_append, character?, if_neg hbackslash,
        if_neg (not_or.mpr ⟨hquote, hcontrol⟩)]

theorem characters_flatMap_jsonChar (chars rest : List Char) :
    Characters (chars.flatMap Quoted.jsonChar ++ '"' :: rest) chars rest := by
  induction chars with
  | nil => exact .close rest
  | cons c chars ih =>
      rw [List.flatMap_cons, List.append_assoc]
      exact .more (character?_jsonChar c _) ih

/-- A quoted text is read as the text. -/
theorem Reads.wrap (chars rest : List Char) :
    Reads .value (Quoted.wrap Quoted.jsonChar chars ++ rest) (.string chars) rest := by
  have hchars := characters_flatMap_jsonChar chars rest
  rw [Quoted.wrap, List.cons_append, List.append_assoc]
  exact .string hchars

/-- A quoted name, a colon and a value are read as a member. -/
theorem Reads.wrap_member (name : List Char) {text rest : List Char} {value : Json}
    (h : Reads .value (skip text) value rest) :
    Reads .member (Quoted.wrap Quoted.jsonChar name ++ ':' :: text) (.object [(name, value)])
      rest := by
  have hchars := characters_flatMap_jsonChar name (':' :: text)
  rw [Quoted.wrap, List.cons_append, List.append_assoc]
  exact .member hchars rfl h

end Strings

section Numbers

variable {c : Char}

theorem digits?_decimalDigits (hdigit : c.isDigit = false) (n : Nat) (rest : List Char) :
    digits? (Numeral.decimalDigits n ++ c :: rest) = some (Numeral.decimalDigits n, c :: rest) := by
  have hdigits : ∀ d ∈ Numeral.decimalDigits n, d.isDigit = true := fun _ hmem =>
    Numeral.isDigit_of_mem_decimalDigits hmem
  have hrest : (c :: rest).takeWhile Char.isDigit = [] := by simp [hdigit]
  have hbehind : (c :: rest).dropWhile Char.isDigit = c :: rest := by simp [hdigit]
  rw [digits?, List.takeWhile_append_of_pos hdigits, List.dropWhile_append_of_pos hdigits, hrest,
    hbehind, List.append_nil]
  split
  · next hnil => exact absurd hnil Nat.toDigits_ne_nil
  · rfl

theorem whole?_decimalDigits (hdigit : c.isDigit = false) (n : Nat) (rest : List Char) :
    whole? (Numeral.decimalDigits n ++ c :: rest) = some (Numeral.decimalDigits n, c :: rest) := by
  rw [whole?, digits?_decimalDigits hdigit]
  split
  · next hzero =>
      rw [Option.some.injEq, Prod.mk.injEq] at hzero
      exact absurd hzero.1 (Numeral.decimalDigits_ne_zero_cons_cons n _ _)
  · rfl

theorem sign_decimalDigits (n : Nat) (rest : List Char) :
    sign (Numeral.decimalDigits n ++ rest) = (1, Numeral.decimalDigits n ++ rest) := by
  cases hdigits : Numeral.decimalDigits n with
  | nil => exact absurd hdigits Nat.toDigits_ne_nil
  | cons first others =>
      refine sign_cons ?_ _
      rintro rfl
      exact Numeral.decimalDigits_ne_cons_minus n others hdigits

/-- A numeral in front of a blank is read as its number. -/
theorem number?_integerChars (hblank : isBlank c) (value : Int) (rest : List Char) :
    number? (Numeral.integerChars value ++ c :: rest) = some (value, 0, c :: rest) := by
  have hcases := (isBlank_iff c).mp hblank
  have hdigit : c.isDigit = false := by
    rcases hcases with rfl | rfl | rfl | rfl <;> rfl
  have hfraction : fraction? (c :: rest) = some ([], c :: rest) := by
    rcases hcases with rfl | rfl | rfl | rfl <;> rfl
  have hexponent : exponent? (c :: rest) = some (0, c :: rest) := by
    rcases hcases with rfl | rfl | rfl | rfl <;> rfl
  have hback (n : Nat) : Nat.ofDigitChars 10 (Numeral.decimalDigits n) 0 = n :=
    Nat.ofDigitChars_ten_toDigits
  cases value with
  | ofNat n =>
      simp [number?, Numeral.integerChars, sign_decimalDigits, whole?_decimalDigits hdigit,
        hfraction, hexponent, hback]
  | negSucc n =>
      have hsign : sign ('-' :: (Numeral.decimalDigits (n + 1) ++ c :: rest)) =
          (-1, Numeral.decimalDigits (n + 1) ++ c :: rest) := rfl
      simp [number?, Numeral.integerChars, hsign, whole?_decimalDigits hdigit, hfraction,
        hexponent, hback, Int.negSucc_eq]

theorem skip_integerChars (value : Int) (rest : List Char) :
    skip (Numeral.integerChars value ++ rest) = Numeral.integerChars value ++ rest := by
  cases hdigits : Numeral.integerChars value with
  | nil => exact absurd hdigits (Numeral.integerChars_ne_nil value)
  | cons first others =>
      have hmem : first ∈ Numeral.integerChars value := by simp [hdigits]
      refine skip_cons_of_not_blank (Bool.eq_false_iff.mpr fun hblank => ?_) _
      rcases (isBlank_iff first).mp hblank with rfl | rfl | rfl | rfl <;>
        exact Numeral.notMem_integerChars rfl (by decide) value hmem

end Numbers

end Json

end NamedBlobs
