import NamedBlobs.Bytes.LittleEndian
import NamedBlobs.Text.Numeral

/-!
# Blobs

A blob is an owned copy of a resource's bytes. The empty blob stands for a
resource that is absent.
-/

namespace NamedBlobs

structure Blob where
  bytes : Bytes
  deriving DecidableEq

namespace Blob

def empty : Blob := ⟨[]⟩

instance : Inhabited Blob := ⟨empty⟩

def size (blob : Blob) : Nat := blob.bytes.length

def isEmpty (blob : Blob) : Bool := blob.bytes.isEmpty

/-- The size of a blob, in place of its bytes. -/
def describe (blob : Blob) : String :=
  s!"Blob \x7b len: {Numeral.decimal blob.size} \x7d"

end Blob

end NamedBlobs
