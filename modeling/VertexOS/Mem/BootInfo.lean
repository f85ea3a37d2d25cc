import VertexOS.Library.Memory
import VertexOS.Mem.Pmm

namespace VertexOS
open Library.Memory Library.Words

/-- `E820_MAX_ENTRIES`. -/
def e820MaxEntries : Nat := 32

/-- `E820_TYPE_USABLE`. -/
def e820TypeUsable : UInt32 := 1

structure E820Entry where
  baseLow : UInt32
  baseHigh : UInt32
  lengthLow : UInt32
  lengthHigh : UInt32
  type : UInt32
  deriving DecidableEq, Repr

def E820Entry.base (e : E820Entry) : UInt64 := joinHalves e.baseHigh e.baseLow

def E820Entry.length (e : E820Entry) : UInt64 := joinHalves e.lengthHigh e.lengthLow

/-- What one entry contributes in `bootinfo_get_usable_regions`. -/
def usableRegion (e : E820Entry) : Option MemoryRegion :=
  if e.type ≠ e820TypeUsable then none
  else
    let base := e.base
    let length := e.length
    if length = 0 then none
    else
      let stop := base + length
      if stop ≤ base then none
      else if base ≥ 0x100000000 then none
      else
        let stop := if stop > 0x100000000 then 0x100000000 else stop
        some ⟨base.toUInt32, (stop - base).toUInt32⟩

/-- The loop of `bootinfo_get_usable_regions`. -/
def usableLoop (maxRegions : Nat) : List E820Entry → List MemoryRegion → List MemoryRegion
  | [], out => out
  | e :: es, out =>
    match usableRegion e with
    | none => usableLoop maxRegions es out
    | some r => usableLoop maxRegions es (if out.length < maxRegions then out ++ [r] else out)

/-- `none` is the null array; the entry count is the length of the list. -/
def bootinfoGetUsableRegions (entries : Option (List E820Entry)) (maxRegions : Nat) :
    List MemoryRegion :=
  match entries with
  | none => []
  | some entries => if maxRegions = 0 then [] else usableLoop maxRegions (entries.take e820MaxEntries) []

/-- The fields of a `multiboot_mmap_entry` that follow its size. -/
def mmapEntry (m : Mem) (cursor : UInt32) : E820Entry where
  baseLow := load32 m (cursor + 4)
  baseHigh := load32 m (cursor + 8)
  lengthLow := load32 m (cursor + 12)
  lengthHigh := load32 m (cursor + 16)
  type := load32 m (cursor + 20)

/-- What one iteration of `bootinfo_parse_multiboot` stores. -/
def storedEntry (e : E820Entry) : E820Entry where
  baseLow := e.base.toUInt32
  baseHigh := (e.base >>> 32).toUInt32
  lengthLow := e.length.toUInt32
  lengthHigh := (e.length >>> 32).toUInt32
  type := e.type

/-- The cursor and the entries of `bootinfo_multiboot_map` filled so far. -/
structure MapScan where
  cursor : UInt32
  map : List E820Entry

/-- One iteration of the loop of `bootinfo_parse_multiboot`; `none`: its condition fails. -/
def mapStep (m : Mem) (stop : UInt32) (s : MapScan) : Option MapScan :=
  if s.cursor < stop ∧ s.map.length < e820MaxEntries then
    let e := mmapEntry m s.cursor
    some {
      cursor := s.cursor + (load32 m s.cursor + 4)
      map :=
        if e.type = e820TypeUsable ∧ e.length > 0 ∧ e.base < 0x100000000 then
          s.map ++ [storedEntry e]
        else s.map }
  else none

/-- The loop of `bootinfo_parse_multiboot`; `none`: out of fuel. -/
def mapLoop (m : Mem) (stop : UInt32) : Nat → MapScan → Option MapScan
  | 0, _ => none
  | fuel + 1, s =>
    match mapStep m stop s with
    | none => some s
    | some s' => mapLoop m stop fuel s'

/-- `bootinfo_multiboot_map` with its count; the inner `none` is the null return. -/
def bootinfoParseMultiboot (m : Mem) (fuel : Nat) (mbInfoAddr : UInt32) :
    Option (Option (List E820Entry)) :=
  if mbInfoAddr = 0 ∨ load32 m mbInfoAddr &&& 64 = 0 then some none
  else
    let cursor := load32 m (mbInfoAddr + 48)
    let stop := cursor + load32 m (mbInfoAddr + 44)
    (mapLoop m stop fuel ⟨cursor, []⟩).map fun s => some s.map

/-- Splitting an entry again loses nothing. -/
@[simp] theorem storedEntry_eq (e : E820Entry) : storedEntry e = e := by
  obtain ⟨baseLow, baseHigh, lengthLow, lengthHigh, type⟩ := e
  simp only [storedEntry, E820Entry.base, E820Entry.length, joinHalves_low, joinHalves_high]

end VertexOS
