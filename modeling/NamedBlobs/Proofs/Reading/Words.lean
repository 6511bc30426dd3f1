import NamedBlobs.Proofs.Reading.Progress

/-!
# Reading in machine words

A `WordReader` keeps its position in 64 bits and takes blocks out of the data by their
two ends, so a sum may leave the range of a word and a block may lie outside of the
data: reading then halts for a reason that is no failure of the bytes. Neither
happens. Every read in machine words does what the read of a `Reader` does
(`WordDecoder.agrees_ofRead`), as long as the data has fewer than `2 ^ 64` bytes, since
no block is taken before its size was compared with what is left.
-/

namespace NamedBlobs

/-- A reader in machine words: all the bytes, and a position of 64 bits. -/
structure WordReader where
  data : Bytes
  position : UInt64
  deriving DecidableEq

/-- Why reading in machine words stops. -/
inductive Halt where
  /-- The bytes are not what is expected. -/
  | failure (failure : DecodeError)
  /-- A sum does not fit into a word, or a word is shifted by its width or more. -/
  | overflow
  /-- Bytes from outside of the data are asked for. -/
  | outside
  deriving DecidableEq

namespace WordReader

def length (reader : WordReader) : UInt64 := UInt64.ofNat reader.data.length

/-- The number of bytes that are left, and zero if the position is behind them. -/
def remaining (reader : WordReader) : UInt64 :=
  if reader.length < reader.position then 0 else reader.length - reader.position

end WordReader

/-- A computation that moves a reader in machine words. -/
abbrev WordDecoder := EStateM Halt WordReader

namespace WordDecoder

def position : WordDecoder Nat := fun reader => .ok reader.position.toNat reader

/-- Halts unless `count` bytes are left. -/
def ensure (count : UInt64) : WordDecoder Unit := fun reader =>
  if reader.remaining < count then
    .error (.failure (.truncated reader.position.toNat count.toNat reader.remaining.toNat)) reader
  else .ok () reader

def sum (first second : UInt64) : WordDecoder UInt64 :=
  if 2 ^ 64 ≤ first.toNat + second.toNat then throw .overflow else pure (first + second)

/-- The bytes from `start` on in front of `stop`. -/
def slice (start stop : UInt64) : WordDecoder Bytes := fun reader =>
  if start ≤ stop ∧ stop ≤ reader.length then
    .ok ((reader.data.take stop.toNat).drop start.toNat) reader
  else .error .outside reader

def bytes (count : UInt64) : WordDecoder Bytes := do
  ensure count
  let reader ← get
  let stop ← sum reader.position count
  let front ← slice reader.position stop
  set { reader with position := stop }
  return front

def fixed (width : FixedWidth) : WordDecoder Int := width.decode <$> bytes (.ofNat width.size)

def byte : WordDecoder UInt8 := (fun front => front.headD 0) <$> bytes 1

/-- Reads the groups from the one at bit `shift` on, at most `left` of them. -/
def readGroups (start : Nat) : (left : Nat) → (shift word : UInt32) → WordDecoder Int32
  | 0, _, _ => throw (.failure (.overlongInteger start))
  | left + 1, shift, word => do
      let byte ← byte
      if 32 ≤ shift then throw .overflow
      else
        let word := word ||| ((byte &&& 0x7F).toUInt32 <<< shift)
        if SevenBit.continues byte then readGroups start left (shift + 7) word
        else pure word.toInt32

def sevenBit : WordDecoder Int32 := do
  let start ← position
  readGroups start SevenBit.maxBytes 0 0

def string : WordDecoder Bytes := do
  let start ← position
  let length ← sevenBit
  if length < 0 then throw (.failure (.invalidLength start length))
  else if length = 0 then pure []
  else bytes length.toInt64.toUInt64

def ofRead : Read → WordDecoder Item
  | .fixed width => Item.integer <$> fixed width
  | .bytes count => Item.block <$> bytes (.ofNat count)
  | .sevenBit => Item.word <$> sevenBit
  | .string => Item.block <$> string

end WordDecoder

/-- The reader in machine words that stands in `data` where `reader` does. -/
def Reader.inWords (data : Bytes) (reader : Reader) : WordReader := ⟨data, .ofNat reader.position⟩

namespace Reader

variable {data : Bytes} {reader : Reader}

theorem Over.toNat_position (h : reader.Over data) (hdata : data.length < 2 ^ 64) :
    (reader.inWords data).position.toNat = reader.position :=
  UInt64.toNat_ofNat_of_lt' (Nat.lt_of_le_of_lt h.1 hdata)

theorem toNat_length (reader : Reader) (hdata : data.length < 2 ^ 64) :
    (reader.inWords data).length.toNat = data.length :=
  UInt64.toNat_ofNat_of_lt' hdata

theorem Over.toNat_remaining (h : reader.Over data) (hdata : data.length < 2 ^ 64) :
    (reader.inWords data).remaining.toNat = reader.remaining := by
  have hposition := h.toNat_position hdata
  have hlength := toNat_length reader hdata
  have hle := h.1
  have hwithin : (reader.inWords data).position ≤ (reader.inWords data).length := by
    rw [UInt64.le_iff_toNat_le]
    omega
  rw [WordReader.remaining, if_neg (UInt64.not_lt.mpr hwithin), UInt64.toNat_sub_of_le _ _ hwithin,
    hlength, hposition, h.remaining_eq]

end Reader

namespace WordDecoder

variable {α β : Type}

/-- From every place in data that is small enough for a machine, `x` does what `y` does
and `y` stays in the data. -/
def Agrees (x : WordDecoder α) (y : Decoder α) : Prop :=
  ∀ (data : Bytes) (reader : Reader), data.length < 2 ^ 64 → reader.Over data →
    (∀ value stop, y.run reader = .ok value stop →
      x.run (reader.inWords data) = .ok value (stop.inWords data) ∧ stop.Over data) ∧
    ∀ failure stop, y.run reader = .error failure stop →
      x.run (reader.inWords data) = .error (.failure failure) (stop.inWords data) ∧
        stop.Over data

theorem agrees_pure (value : α) : Agrees (pure value) (pure value) := by
  intro data reader _ hover
  refine ⟨?_, by rintro _ _ ⟨⟩⟩
  rintro _ _ ⟨⟩
  exact ⟨rfl, hover⟩

theorem agrees_throw (failure : DecodeError) :
    Agrees (α := α) (throw (.failure failure)) (throw failure) := by
  intro data reader _ hover
  refine ⟨by rintro _ _ ⟨⟩, ?_⟩
  rintro _ _ ⟨⟩
  exact ⟨rfl, hover⟩

theorem agrees_position : Agrees position Decoder.position := by
  intro data reader hdata hover
  refine ⟨?_, by rintro _ _ ⟨⟩⟩
  rintro _ _ ⟨⟩
  refine ⟨?_, hover⟩
  rw [EStateM.run, position, hover.toNat_position hdata]

theorem Agrees.bind {x : WordDecoder α} {y : Decoder α} {f : α → WordDecoder β}
    {g : α → Decoder β} (h : Agrees x y) (hnext : ∀ value, Agrees (f value) (g value)) :
    Agrees (x >>= f) (y >>= g) := by
  intro data reader hdata hover
  obtain ⟨hok, herror⟩ := h data reader hdata hover
  rcases hrun : y.run reader with ⟨value, stop⟩ | ⟨failure, stop⟩
  · obtain ⟨hword, hstop⟩ := hok value stop hrun
    rw [Decoder.run_bind_of_ok hrun, EStateM.run_bind, hword]
    exact hnext value data stop hdata hstop
  · obtain ⟨hword, hstop⟩ := herror failure stop hrun
    rw [Decoder.run_bind_of_error hrun, EStateM.run_bind, hword]
    refine ⟨by rintro _ _ ⟨⟩, ?_⟩
    rintro _ _ ⟨⟩
    exact ⟨rfl, hstop⟩

theorem Agrees.map {x : WordDecoder α} {y : Decoder α} (h : Agrees x y) (f : α → β) :
    Agrees (f <$> x) (f <$> y) := by
  rw [map_eq_pure_bind, map_eq_pure_bind]
  exact h.bind fun value => agrees_pure (f value)

theorem run_ensure_of_lt {reader : WordReader} {count : UInt64} (h : reader.remaining < count) :
    (ensure count).run reader =
      .error (.failure
        (.truncated reader.position.toNat count.toNat reader.remaining.toNat)) reader :=
  if_pos h

theorem run_ensure_of_le {reader : WordReader} {count : UInt64} (h : count ≤ reader.remaining) :
    (ensure count).run reader = .ok () reader :=
  if_neg (UInt64.not_lt.mpr h)

theorem run_sum_of_lt {first second : UInt64} (h : first.toNat + second.toNat < 2 ^ 64)
    (reader : WordReader) : (sum first second).run reader = .ok (first + second) reader := by
  rw [sum, if_neg (Nat.not_le.mpr h)]
  rfl

theorem run_slice_of_le (reader : WordReader) (start stop : UInt64) (hstart : start ≤ stop)
    (hstop : stop ≤ reader.length) :
    (slice start stop).run reader =
      .ok ((reader.data.take stop.toNat).drop start.toNat) reader :=
  if_pos ⟨hstart, hstop⟩

/-- A block that ends within the data is taken, and its end is a word. -/
theorem run_bytes_of_le {reader : WordReader} {count : UInt64} (h : count ≤ reader.remaining)
    (hend : reader.position.toNat + count.toNat ≤ reader.length.toNat) :
    (bytes count).run reader =
      .ok ((reader.data.drop reader.position.toNat).take count.toNat)
        ⟨reader.data, reader.position + count⟩ := by
  have hlength : reader.length.toNat < 2 ^ 64 := reader.length.toNat_lt
  have hstop : (reader.position + count).toNat = reader.position.toNat + count.toNat := by
    rw [UInt64.toNat_add]
    omega
  have hsum := run_sum_of_lt (Nat.lt_of_le_of_lt hend hlength) reader
  have hslice := run_slice_of_le reader reader.position (reader.position + count)
    (UInt64.le_iff_toNat_le.mpr (hstop ▸ Nat.le_add_right _ _))
    (UInt64.le_iff_toNat_le.mpr (hstop ▸ hend))
  rw [hstop, List.drop_take, Nat.add_sub_cancel_left] at hslice
  simp only [bytes, EStateM.run_bind, run_ensure_of_le h, EStateM.run_get, hsum, hslice,
    EStateM.run_set, EStateM.run_pure]

/-- What is compared with a count is what is left of the data, so the end of a block that
is there lies within it. -/
theorem agrees_bytes (count : UInt64) : Agrees (bytes count) (Decoder.bytes count.toNat) := by
  intro data reader hdata hover
  have hposition := hover.toNat_position hdata
  have hremaining := hover.toNat_remaining hdata
  rcases Nat.lt_or_ge reader.remaining count.toNat with hlt | hle
  · have hshort : (reader.inWords data).remaining < count := by
      rw [UInt64.lt_iff_toNat_lt, hremaining]
      exact hlt
    rw [Decoder.run_bytes_of_lt hlt, bytes, EStateM.run_bind, run_ensure_of_lt hshort, hposition,
      hremaining]
    refine ⟨by rintro _ _ ⟨⟩, ?_⟩
    rintro _ _ ⟨⟩
    exact ⟨rfl, hover⟩
  · have hfits : count ≤ (reader.inWords data).remaining := by
      rw [UInt64.le_iff_toNat_le, hremaining]
      exact hle
    have hend : (reader.inWords data).position.toNat + count.toNat ≤
        (reader.inWords data).length.toNat := by
      rw [hposition, Reader.toNat_length reader hdata]
      exact (hover.passing hle).1
    have hstop : (reader.inWords data).position + count =
        UInt64.ofNat (reader.position + count.toNat) := by
      rw [UInt64.ofNat_add, UInt64.ofNat_toNat]
      rfl
    rw [Decoder.run_bytes_of_le hle, run_bytes_of_le hfits hend, hposition, hstop, hover.2]
    refine ⟨?_, by rintro _ _ ⟨⟩⟩
    rintro _ _ ⟨⟩
    exact ⟨rfl, hover.2 ▸ hover.passing hle⟩

theorem agrees_fixed (width : FixedWidth) : Agrees (fixed width) (Decoder.fixed width) := by
  have hfixed : Decoder.fixed width = width.decode <$> Decoder.bytes width.size :=
    bind_pure_comp _ _
  have hsize : (UInt64.ofNat width.size).toNat = width.size := by cases width <;> rfl
  have hbytes := agrees_bytes (.ofNat width.size)
  rw [hsize] at hbytes
  rw [hfixed]
  exact hbytes.map width.decode

/-- A byte is a block of one. -/
theorem byte_eq_map_bytes : Decoder.byte = (fun front => front.headD 0) <$> Decoder.bytes 1 := by
  funext reader
  obtain ⟨position, rest⟩ := reader
  cases rest with
  | nil => rfl
  | cons byte rest => rfl

theorem agrees_byte : Agrees byte Decoder.byte := by
  rw [byte_eq_map_bytes]
  exact (agrees_bytes 1).map fun front => front.headD 0

/-- The groups that are left to read have their places within a word. -/
theorem agrees_readGroups (start left : Nat) (shift word : UInt32)
    (hshift : shift.toNat + 7 * left ≤ 35) :
    Agrees (readGroups start left shift word) (SevenBit.readGroups start left shift word) := by
  -- a group that is left to read takes seven of the 35 places, so its shift is below 32
  induction left generalizing shift word with
  | zero => exact agrees_throw (.overlongInteger start)
  | succ left ih =>
      have hwithin : ¬ 32 ≤ shift := fun hle => by
        have hwidth : 32 ≤ shift.toNat := UInt32.le_iff_toNat_le.mp hle
        omega
      have hnext : (shift + 7).toNat + 7 * left ≤ 35 := by
        have hsum : (shift + 7).toNat = (shift.toNat + 7) % 2 ^ 32 := UInt32.toNat_add shift 7
        omega
      refine agrees_byte.bind fun byte => ?_
      rw [if_neg hwithin]
      dsimp only
      split
      · exact ih (shift + 7) _ hnext
      · exact agrees_pure _

theorem agrees_sevenBit : Agrees sevenBit Decoder.sevenBit :=
  agrees_position.bind fun start => agrees_readGroups start SevenBit.maxBytes 0 0 (by decide)

/-- A length that is not negative is the same number as a word of 64 bits. -/
theorem toNat_toUInt64 {length : Int32} (h : 0 ≤ length.toInt) :
    length.toInt64.toUInt64.toNat = length.toInt.toNat := by
  have hle : 0 ≤ length.toInt64 := by
    rw [Int64.le_iff_toInt_le, Int32.toInt_toInt64]
    exact h
  rw [Int64.toNat_toUInt64_of_le hle, Int64.toNatClampNeg, Int32.toInt_toInt64]

theorem agrees_string : Agrees string Decoder.string := by
  refine agrees_position.bind fun start => agrees_sevenBit.bind fun length => ?_
  by_cases hnegative : length < 0
  · rw [if_pos hnegative, if_pos hnegative]
    exact agrees_throw (.invalidLength start length)
  · rw [if_neg hnegative, if_neg hnegative]
    have hnonneg : 0 ≤ length.toInt := by
      rw [Int32.lt_iff_toInt_lt, Int32.toInt_zero] at hnegative
      exact Int.not_lt.mp hnegative
    split
    · next hzero =>
        rw [hzero]
        exact agrees_pure []
    · rw [← toNat_toUInt64 hnonneg]
      exact agrees_bytes length.toInt64.toUInt64

end WordDecoder

namespace Read

/-- A read whose size is a word of 64 bits. -/
def Fits : Read → Prop
  | bytes count => count < 2 ^ 64
  | fixed _ | sevenBit | string => True

end Read

theorem WordDecoder.agrees_ofRead {read : Read} (h : read.Fits) :
    Agrees (ofRead read) read.decoder := by
  cases read with
  | fixed width => exact (agrees_fixed width).map Item.integer
  | bytes count =>
      have hbytes := agrees_bytes (.ofNat count)
      rw [UInt64.toNat_ofNat_of_lt' h] at hbytes
      exact hbytes.map Item.block
  | sevenBit => exact agrees_sevenBit.map Item.word
  | string => exact agrees_string.map Item.block

/-- The outcome of a read in machine words. -/
def Read.Outcome.inWords (data : Bytes) (outcome : Read.Outcome) :
    EStateM.Result Halt WordReader Item :=
  match outcome.result with
  | .ok item => .ok item (outcome.reader.inWords data)
  | .error failure => .error (.failure failure) (outcome.reader.inWords data)

/-- Within data that is small enough for a machine, a read in machine words comes to what the
read comes to. So no sum leaves its range, and no block lies outside of the data. -/
theorem WordDecoder.run_ofRead {data : Bytes} {reader : Reader} {read : Read}
    (hdata : data.length < 2 ^ 64) (hover : reader.Over data) (h : read.Fits) :
    (ofRead read).run (reader.inWords data) = (read.perform reader).inWords data := by
  obtain ⟨hok, herror⟩ := agrees_ofRead h data reader hdata hover
  rw [Read.perform]
  rcases hrun : read.decoder.run reader with ⟨item, stop⟩ | ⟨failure, stop⟩
  · exact (hok item stop hrun).1
  · exact (herror failure stop hrun).1

end NamedBlobs
