import VertexOS.Mem.Pmm

namespace VertexOS

/-- `PAGE_PRESENT`. -/
def pagePresent : UInt32 := 0x001

/-- `PAGE_WRITABLE`. -/
def pageWritable : UInt32 := 0x002

def frameMask : UInt32 := 0xFFFFF000

def flagMask : UInt32 := 0xFFF

/-- Physical memory as frames of 1024 words, each at its physical address. -/
abbrev Ram := UInt32 → Nat → UInt32

def storeWord (m : Ram) (p : UInt32) (i : Nat) (w : UInt32) : Ram :=
  fun q j => if q = p ∧ j = i then w else m q j

structure Paging where
  pmm : Pmm
  ram : Ram
  pageDirectory : UInt32

def memset32 (m : Ram) (p value : UInt32) : Nat → Ram
  | 0 => m
  | count + 1 => storeWord (memset32 m p value count) p count value

def pdIndex (a : UInt32) : Nat := (a >>> 22).toNat

def ptIndex (a : UInt32) : Nat := ((a >>> 12) &&& 0x3FF).toNat

/-- A page table for an absent directory entry. -/
def addTable (s : Paging) (i : Nat) : Option Paging :=
  (pmmAllocFrame s.pmm).map fun r =>
    { s with
      pmm := r.1
      ram := storeWord (memset32 s.ram r.2 0 1024) s.pageDirectory i
        (r.2 ||| pagePresent ||| pageWritable) }

/-- `none`: paging is not initialized or memory has run out, the kernel panics. -/
def pagingMapPage (s : Paging) (virtualAddr physicalAddr flags : UInt32) : Option Paging :=
  if s.pageDirectory = 0 then none
  else
    (if s.ram s.pageDirectory (pdIndex virtualAddr) &&& pagePresent = 0 then
      addTable s (pdIndex virtualAddr)
    else some s).map fun s =>
      let table := s.ram s.pageDirectory (pdIndex virtualAddr) &&& frameMask
      { s with
        ram := storeWord s.ram table (ptIndex virtualAddr)
          ((physicalAddr &&& frameMask) ||| (flags &&& flagMask) ||| pagePresent) }

/-- The loop of `paging_init_identity`. -/
def identityLoop : Nat → Paging → UInt32 → UInt32 → Option Paging
  | 0, s, _, _ => some s
  | n + 1, s, addr, limitAddr =>
    if addr < limitAddr then
      (pagingMapPage s addr addr pageWritable).bind fun s =>
        identityLoop n s (addr + pageSize) limitAddr
    else some s

def pagingInitIdentity (pmm : Pmm) (ram : Ram) (limitAddr : UInt32) : Option Paging :=
  (pmmAllocFrame pmm).bind fun r =>
    identityLoop addressPages ⟨r.1, memset32 ram r.2 0 1024, r.2⟩ 0 (alignUp limitAddr pageSize)

/-- What the processor reads from the directory and a table: a write needs the
writable bit of both entries. -/
structure Translation where
  frame : UInt32
  flags : UInt32
  writable : Bool
  deriving DecidableEq, Repr

def walk (s : Paging) (a : UInt32) : Option Translation :=
  let pde := s.ram s.pageDirectory (pdIndex a)
  if pde &&& pagePresent = 0 then none
  else
    let pte := s.ram (pde &&& frameMask) (ptIndex a)
    if pte &&& pagePresent = 0 then none
    else some ⟨pte &&& frameMask, pte &&& flagMask,
      pde &&& pageWritable ≠ 0 && pte &&& pageWritable ≠ 0⟩

end VertexOS
