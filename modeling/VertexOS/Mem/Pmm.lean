import VertexOS.Library.Bitmap
import VertexOS.Mem.Blocks

namespace VertexOS
open Library.Bitmap Library.Words

/-- `PMM_MAX_MEMORY_BYTES`: 256 MiB. -/
def pmmMaxMemoryBytes : UInt32 := 0x10000000

/-- `PMM_MAX_FRAMES`. -/
def pmmMaxFrames : Nat := 65536

structure MemoryRegion where
  base : UInt32
  length : UInt32
  deriving DecidableEq, Repr

structure Pmm where
  bitmap : Bits
  totalBytes : UInt32
  usedBytes : UInt32

def reserveFrame (p : Pmm) (frame : Nat) : Pmm :=
  if frame < pmmMaxFrames ∧ testBit p.bitmap frame = false then
    { p with bitmap := setBit p.bitmap frame, usedBytes := p.usedBytes + pageSize }
  else p

def releaseFrame (p : Pmm) (frame : Nat) : Pmm :=
  if testBit p.bitmap frame then
    { p with bitmap := clearBit p.bitmap frame, totalBytes := p.totalBytes + pageSize }
  else p

/-- The pages of a 32-bit address space: no loop over addresses goes further. -/
def addressPages : Nat := 1048576

/-- The loop of `reserve_range`. -/
def reserveLoop : Nat → Pmm → UInt32 → UInt32 → Pmm
  | 0, p, _, _ => p
  | n + 1, p, addr, stop =>
    if addr < stop then
      reserveLoop n (reserveFrame p (addr / pageSize).toNat) (addr + pageSize) stop
    else p

def reserveRange (p : Pmm) (start stop : UInt32) : Pmm :=
  reserveLoop addressPages p (start &&& ~~~(pageSize - 1)) (alignUp stop pageSize)

/-- The frames of one region in `pmm_init`. -/
def regionLoop : Nat → Pmm → UInt32 → UInt32 → Pmm
  | 0, p, _, _ => p
  | n + 1, p, addr, regionEnd =>
    if addr + pageSize ≤ regionEnd then
      regionLoop n (releaseFrame p (addr / pageSize).toNat) (addr + pageSize) regionEnd
    else p

def addRegion (p : Pmm) (r : MemoryRegion) : Pmm :=
  let regionEnd := r.base + r.length
  if regionEnd ≤ r.base then p
  else if r.base ≥ pmmMaxMemoryBytes then p
  else
    let regionEnd := if regionEnd > pmmMaxMemoryBytes then pmmMaxMemoryBytes else regionEnd
    regionLoop addressPages p r.base regionEnd

/-- `none`: no usable memory, the kernel panics. -/
def pmmInit (regions : List MemoryRegion) (kernelStart kernelEnd : UInt32) : Option Pmm :=
  let p := regions.foldl addRegion ⟨fun _ => 0xFF, 0, 0⟩
  let p := reserveRange p 0x00000000 0x00100000
  let p := reserveRange p kernelStart kernelEnd
  let p := reserveRange p 0x00004F00 0x00006000
  if p.totalBytes = 0 then none else some p

/-- The scan of `pmm_alloc_frame`, with `n` frames to go. -/
def allocLoop (p : Pmm) : Nat → Nat → Option (Pmm × UInt32)
  | 0, _ => none
  | n + 1, frame =>
    if testBit p.bitmap frame = false then
      some ({ p with bitmap := setBit p.bitmap frame, usedBytes := p.usedBytes + pageSize },
        UInt32.ofNat frame * pageSize)
    else allocLoop p n (frame + 1)

/-- `none`: out of frames, the kernel panics. -/
def pmmAllocFrame (p : Pmm) : Option (Pmm × UInt32) := allocLoop p pmmMaxFrames 0

def pmmFreeFrame (p : Pmm) (physicalAddr : UInt32) : Pmm :=
  let frame := (physicalAddr / pageSize).toNat
  if frame ≥ pmmMaxFrames then p
  else if testBit p.bitmap frame then
    { p with
      bitmap := clearBit p.bitmap frame
      usedBytes := if p.usedBytes ≥ pageSize then p.usedBytes - pageSize else p.usedBytes }
  else p

def pmmTotalMemoryBytes (p : Pmm) : UInt32 := p.totalBytes

def pmmUsedMemoryBytes (p : Pmm) : UInt32 := p.usedBytes

def pmmFreeMemoryBytes (p : Pmm) : UInt32 := p.totalBytes - p.usedBytes

end VertexOS
