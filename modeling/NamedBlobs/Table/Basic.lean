import NamedBlobs.Bytes.SevenBit
import NamedBlobs.Journal

/-!
# Lookup tables

A table is a list of records, each a name and an identifier. Its binary form is
a count of four bytes, then as many records, each a length-prefixed name and an
identifier of eight bytes. Bytes too short for a count, and a count that is not
positive, are an empty table; bytes behind the last record are ignored.

`Table.scan` keeps what was read before a record failed, so that the records
held at every moment of a decoding are open to inspection; `Table.decode` keeps
only the outcome. Names need not be unique: lookups find the first record that
has the name.
-/

namespace NamedBlobs

/-- A name and the identifier it is registered under. -/
structure Record where
  name : Bytes
  identifier : Int64
  deriving DecidableEq

/-- Records in the order of their encoding. -/
structure Table where
  records : List Record
  deriving DecidableEq

namespace Record

def decoder : Decoder Record := do
  let name ← Decoder.string
  let identifier ← Decoder.int64
  return ⟨name, identifier⟩

def encode (record : Record) : Bytes :=
  SevenBit.encodeString record.name ++ FixedWidth.i64.encode record.identifier.toInt

end Record

namespace Table

def empty : Table := ⟨[]⟩

def countSize : Nat := 4

/-- The number of bytes of the smallest record: an empty name's length and an
identifier. -/
def minRecordSize : Nat := 9

/-- How a run of record reads ended: the records that were read, the reader that
was left, and the failure that stopped the run, if any. -/
structure Scan where
  records : Array Record
  reader : Reader
  failure : Option DecodeError

/-- Reads `count` records and appends them to those already `held`, until one
fails. -/
def scan : (count : Nat) → (held : Array Record) → Reader → Scan
  | 0, held, reader => ⟨held, reader, none⟩
  | count + 1, held, reader =>
      match Record.decoder reader with
      | .ok record reader => scan count (held.push record) reader
      | .error failure reader => ⟨held, reader, some failure⟩

/-- The number of records that room is made for before any is read: what the
count declares, but never more than the bytes behind the count can hold. -/
def capacity (declared : Int32) (remaining : Nat) : Nat :=
  min declared.toInt.toNat (remaining / minRecordSize)

/-- The steps of decoding a byte string. -/
inductive Decoding where
  /-- There is no room for a count. -/
  | short (length : Nat)
  /-- The declared count, and the run of record reads. -/
  | counted (count : Int32) (scan : Scan)

def decoding (data : Bytes) : Decoding :=
  match Decoder.int32 (Reader.ofBytes data) with
  | .error _ _ => .short data.length
  | .ok count reader =>
      let room := Array.emptyWithCapacity (capacity count reader.remaining)
      .counted count (scan count.toInt.toNat room reader)

namespace Decoding

def result : Decoding → Except DecodeError Table
  | short _ => .ok Table.empty
  | counted _ ⟨records, _, none⟩ => .ok ⟨records.toList⟩
  | counted _ ⟨_, _, some failure⟩ => .error failure

/-- What a decoding reports: its outcome, unless it failed. -/
def events : Decoding → List Event
  | short length =>
      [.make .trace "table shorter than count field" [("len", Numeral.decimal length)]]
  | counted count ⟨_, reader, none⟩ =>
      [.make .trace "table decoded"
        [("count", Numeral.integer count.toInt), ("trailing", Numeral.decimal reader.remaining)]]
  | counted _ ⟨_, _, some _⟩ => []

end Decoding

def decode (data : Bytes) : Except DecodeError Table := (decoding data).result

/-- The binary form of `records` under an arbitrary declared count. -/
def encodeDeclaring (count : Int32) (records : List Record) : Bytes :=
  FixedWidth.i32.encode count.toInt ++ records.flatMap Record.encode

def encode (table : Table) : Bytes :=
  encodeDeclaring (Int32.ofNat table.records.length) table.records

/-- The first record that has exactly the bytes `name` as its name. -/
def find (table : Table) (name : Bytes) : Option Record :=
  table.records.find? (·.name == name)

def identifierOf (table : Table) (name : Bytes) : Option Int64 :=
  (table.find name).map (·.identifier)

def size (table : Table) : Nat := table.records.length

def isEmpty (table : Table) : Bool := table.records.isEmpty

end Table

end NamedBlobs
