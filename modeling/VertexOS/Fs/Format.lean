import VertexOS.Library.Words
import VertexOS.Fs.Device

namespace VertexOS
open Library.Words Library.BlockStore

def sfsMagic : UInt32 := 0x31534653
def sfsVersion : UInt32 := 1
def sfsStartLba : UInt32 := 128
def sfsSuperLba : UInt32 := sfsStartLba
def sfsTableLba : UInt32 := sfsStartLba + 1
def sfsTableSectors : UInt32 := 8
def sfsDataLba : UInt32 := sfsTableLba + sfsTableSectors
def sfsMaxEntries : UInt32 := 64
def sfsNameMax : Nat := 31

instance neZeroTable : NeZero 64 := ⟨by decide⟩

@[simp] theorem sfsSuperLba_toNat : sfsSuperLba.toNat = 128 := rfl
@[simp] theorem sfsTableLba_toNat : sfsTableLba.toNat = 129 := rfl
@[simp] theorem sfsDataLba_toNat : sfsDataLba.toNat = 137 := rfl
@[simp] theorem sfsMaxEntries_toNat : sfsMaxEntries.toNat = 64 := rfl

/-- `sfs_superblock`, a packed struct of one sector. -/
@[ext] structure Superblock where
  magic : UInt32
  version : UInt32
  totalSectors : UInt32
  maxEntries : UInt32
  nextFreeLba : UInt32
  rootId : UInt32
  reserved : Block 488

/-- `sfs_entry`, a packed struct of 64 bytes. -/
@[ext] structure Entry where
  used : UInt8
  type : UInt8
  perm : UInt8
  reserved0 : UInt8
  parent : UInt32
  startLba : UInt32
  size : UInt32
  capacitySectors : UInt32
  name : Block 32
  reserved1 : Block 12

/-- `g_entries`. -/
abbrev Table := Fin 64 → Entry

/-- The bytes of a superblock in memory, which `sfs_flush` writes as they are. -/
def Superblock.bytes (sb : Superblock) : Sector := fun i =>
  if i.val < 4 then byteOf sb.magic i
  else if i.val < 8 then byteOf sb.version (i - 4)
  else if i.val < 12 then byteOf sb.totalSectors (i - 8)
  else if i.val < 16 then byteOf sb.maxEntries (i - 12)
  else if i.val < 20 then byteOf sb.nextFreeLba (i - 16)
  else if h : i.val < 24 then byteOf sb.rootId (i - 20)
  else sb.reserved ⟨i - 24, by omega⟩

/-- The little-endian word at an offset of a block. -/
def wordAt (b : Block n) (k : Nat) (h : k + 3 < n) : UInt32 :=
  wordOf (b ⟨k, by omega⟩) (b ⟨k + 1, by omega⟩) (b ⟨k + 2, by omega⟩) (b ⟨k + 3, h⟩)

/-- The superblock that a sector holds when read into `g_super`. -/
def Superblock.ofBytes (b : Sector) : Superblock where
  magic := wordAt b 0 (by decide)
  version := wordAt b 4 (by decide)
  totalSectors := wordAt b 8 (by decide)
  maxEntries := wordAt b 12 (by decide)
  nextFreeLba := wordAt b 16 (by decide)
  rootId := wordAt b 20 (by decide)
  reserved i := b ⟨24 + i, by omega⟩

def Entry.bytes (e : Entry) : Block 64 := fun i =>
  if i.val = 0 then e.used
  else if i.val = 1 then e.type
  else if i.val = 2 then e.perm
  else if i.val = 3 then e.reserved0
  else if i.val < 8 then byteOf e.parent (i - 4)
  else if i.val < 12 then byteOf e.startLba (i - 8)
  else if i.val < 16 then byteOf e.size (i - 12)
  else if h : i.val < 20 then byteOf e.capacitySectors (i - 16)
  else if h : i.val < 52 then e.name ⟨i - 20, by omega⟩
  else e.reserved1 ⟨i - 52, by omega⟩

def Entry.ofBytes (b : Block 64) : Entry where
  used := b 0
  type := b 1
  perm := b 2
  reserved0 := b 3
  parent := wordAt b 4 (by decide)
  startLba := wordAt b 8 (by decide)
  size := wordAt b 12 (by decide)
  capacitySectors := wordAt b 16 (by decide)
  name i := b ⟨20 + i, by omega⟩
  reserved1 i := b ⟨52 + i, by omega⟩

/-- Sector `i` of the entry table: the entries `8 * i` to `8 * i + 7`. -/
def tableSector (es : Table) (i : Fin 8) : Sector := fun j =>
  (es ⟨8 * i + j / 64, by omega⟩).bytes ⟨j % 64, by omega⟩

theorem tableIndex_lt (n : Fin 64) : n.val / 8 < 8 := by omega

theorem tableOffset_lt (n k : Fin 64) : 64 * (n.val % 8) + k.val < 512 := by omega

/-- Entry `n` of the table that the table sectors hold. -/
def tableEntry (ss : Fin 8 → Sector) (n : Fin 64) : Entry :=
  Entry.ofBytes fun k => ss ⟨n / 8, tableIndex_lt n⟩ ⟨64 * (n % 8) + k, tableOffset_lt n k⟩

@[simp] theorem Superblock.ofBytes_bytes (sb : Superblock) :
    Superblock.ofBytes sb.bytes = sb := by
  ext : 1
  case reserved => funext i; simp (disch := omega) [ofBytes, bytes, if_neg]
  all_goals simp [ofBytes, bytes, wordAt]

@[simp] theorem Entry.ofBytes_bytes (e : Entry) : Entry.ofBytes e.bytes = e := by
  ext : 1
  case name => funext i; simp (disch := omega) [ofBytes, bytes, if_neg, dif_pos]
  case reserved1 => funext i; simp (disch := omega) [ofBytes, bytes, if_neg]
  all_goals simp [ofBytes, bytes, wordAt]

/-- An entry read back from a table sector is the entry written there. -/
theorem ofBytes_tableSector (es : Table) (n : Fin 64) (b : Sector)
    (h : b = tableSector es ⟨n / 8, by omega⟩) :
    Entry.ofBytes (fun k => b ⟨64 * (n % 8) + k, by omega⟩) = es n := by
  subst h
  have hb : (fun k : Fin 64 => tableSector es ⟨n / 8, by omega⟩
      ⟨64 * (n.val % 8) + k, by omega⟩) = (es n).bytes := by
    funext k
    have hi : (64 * (n.val % 8) + k.val) / 64 = n.val % 8 := by omega
    have hk : (64 * (n.val % 8) + k.val) % 64 = k.val := by omega
    have hn : 8 * (n.val / 8) + n.val % 8 = n.val := by omega
    simp only [tableSector, hi, hk, hn]
  rw [hb, Entry.ofBytes_bytes]

/-- Reading back all table sectors returns the table. -/
theorem tableEntry_tableSector (es : Table) : tableEntry (tableSector es) = es :=
  funext fun n => ofBytes_tableSector es n _ rfl

end VertexOS
