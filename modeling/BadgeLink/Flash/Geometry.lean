import BadgeLink.Word

/-!
# The geometry of a flash memory

What a flash controller reports about its memory, and the sizes that follow from it. The sizes are
computed in machine words, so they crash where they do not fit.
-/

namespace BadgeLink.Flash

/-- A flash memory as its controller describes it. -/
structure Descriptor where
  id : UInt32 := 0
  size : UInt32 := 0
  pageSize : UInt32 := 0
  /-- The number of pages in a sector, the unit of erasure. -/
  pagesPerSector : UInt32 := 0
  /-- The size of each plane in bytes. -/
  planes : List UInt32 := []
  /-- The size of each lock region in bytes. -/
  locks : List UInt32 := []
  base : UInt32 := 0
deriving DecidableEq, Repr

namespace Descriptor

def sectorSize (d : Descriptor) : Except Crash UInt32 :=
  Word.mul d.pageSize d.pagesPerSector

/-- The number of pages that `len` bytes need; none, if pages have no size. -/
def pageCount (d : Descriptor) (len : Nat) : Except Crash Nat :=
  if d.pageSize = 0 then .ok 0
  else do
    let padded ← Size.add len d.pageSize.toNat
    return (padded - 1) / d.pageSize.toNat

def text (d : Descriptor) : String :=
  s!"ID: 0x{Hex.word d.id} [planes: {d.planes.length}, size: {d.size} bytes, " ++
    s!"page size: {d.pageSize} bytes]"

end Descriptor

end BadgeLink.Flash
