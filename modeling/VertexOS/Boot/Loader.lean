import VertexOS.Fs.BootImage
import VertexOS.Mem.UsableMemory

namespace VertexOS
open Library.Memory Library.BlockStore

/-! The boot sector: it brings the memory map and the kernel into memory. -/

/-- The packet of `int 13h`, `ah = 42h`. -/
structure Dap where
  count : UInt16
  offset : UInt16
  segment : UInt16
  lbaLo : UInt32
  lbaHi : UInt32

/-- The services of the BIOS that the boot sector calls. A disk service may deliver bytes before it
sets the carry flag; the memory map ends with the carry flag or with an `ebx` of zero. -/
structure Bios (σ : Type) where
  readSector : σ → UInt8 → UInt8 → UInt8 → σ × List UInt8 × Bool
  readPacket : σ → Dap → σ × List UInt8 × Bool
  memoryMap : σ → UInt32 → σ × Option (UInt32 × E820Entry × UInt32)

/-- The BIOS, and the memory without the boot sector's own stack and variables. -/
structure Booting (σ : Type) where
  bios : σ
  mem : Mem

def kernelSegment : UInt16 := 0x1000

def e820Buffer : UInt32 := 0x5000
def e820CountAddr : UInt32 := 0x4FF0

/-- The signature `SMAP`. -/
def smap : UInt32 := 0x534D4150

/-- The address of `segment:offset`. -/
def linear (segment offset : UInt16) : UInt32 := segment.toUInt32 * 16 + offset.toUInt32

/-- What a disk service stores; the offset wraps inside the segment. -/
def deliver (m : Mem) (segment offset : UInt16) : List UInt8 → Mem
  | [] => m
  | b :: bs => deliver (store8 m (linear segment offset) b) segment (offset + 1) bs

/-- A record of the memory map in memory. -/
def storeEntry (m : Mem) (a : UInt32) (e : E820Entry) : Mem :=
  store32 (store32 (store32 (store32 (store32 m a e.baseLow) (a + 4) e.baseHigh) (a + 8)
    e.lengthLow) (a + 12) e.lengthHigh) (a + 16) e.type

/-- The `e820_entry` at an address. -/
def loadEntry (m : Mem) (a : UInt32) : E820Entry where
  baseLow := load32 m a
  baseHigh := load32 m (a + 4)
  lengthLow := load32 m (a + 8)
  lengthHigh := load32 m (a + 12)
  type := load32 m (a + 16)

/-- Where record `i` of the memory map lies. -/
def entryAddr (i : Nat) : UInt32 := e820Buffer + UInt32.ofNat (20 * i)

/-- `e820_map` with its `e820_count`, as `kmain` is called with them. -/
def e820Args (m : Mem) : List E820Entry :=
  let count := (m e820CountAddr).toNat + 256 * (m (e820CountAddr + 1)).toNat
  (List.range count).map fun i => loadEntry m (entryAddr i)

/-- The sectors at the address that the boot sector jumps to. -/
def kernelImage (m : Mem) : List Sector :=
  (List.range kernelSectors).map fun k j => m (UInt32.ofNat (65536 + (512 * k + j)))

namespace Booting

/-- The loop of `read_kernel_chs` with `si` sectors to go, and the carry flag. -/
def chsLoop (b : Bios σ) : Nat → Booting σ → UInt16 → UInt8 → UInt8 → UInt8 → Booting σ × Bool
  | 0, t, _, _, _, _ => (t, false)
  | si + 1, t, es, ch, cl, dh =>
    match b.readSector t.bios ch cl dh with
    | (bios, bytes, true) => (⟨bios, deliver t.mem es 0 bytes⟩, true)
    | (bios, bytes, false) =>
      let t := ⟨bios, deliver t.mem es 0 bytes⟩
      let es := es + 0x20
      let cl := cl + 1
      if cl < 19 then chsLoop b si t es ch cl dh
      else
        -- behind sector 18 comes the other head, behind both the next cylinder
        let dh := dh + 1
        if dh < 2 then chsLoop b si t es ch 1 dh
        else chsLoop b si t es (ch + 1) 1 0

def readKernelChs (b : Bios σ) (t : Booting σ) : Booting σ × Bool :=
  chsLoop b kernelSectors t kernelSegment 0 2 0

/-- One call with the packet `dap`. -/
def readDap (b : Bios σ) (t : Booting σ) (dap : Dap) : Booting σ × Bool :=
  match b.readPacket t.bios dap with
  | (bios, bytes, carry) => (⟨bios, deliver t.mem dap.segment dap.offset bytes⟩, carry)

/-- The packets of `read_kernel_lba`. -/
def firstDap : Dap := ⟨UInt16.ofNat kernelFirstReadSectors, 0, kernelSegment, 1, 0⟩

def secondDap : Dap :=
  { firstDap with
    count := UInt16.ofNat (kernelSectors - kernelFirstReadSectors)
    segment := kernelSegment + UInt16.ofNat kernelFirstReadSectors * 32
    lbaLo := 1 + UInt32.ofNat kernelFirstReadSectors }

def readKernelLba (b : Bios σ) (t : Booting σ) : Booting σ × Bool :=
  match readDap b t firstDap with
  | (t, true) => (t, true)
  | (t, false) => readDap b t secondDap

/-- The loop of `detect_memory_map` with room for `left` more records; `bp` counts them. -/
def detectLoop (b : Bios σ) : Nat → Booting σ → UInt32 → UInt16 → UInt16 → Booting σ × UInt16
  | 0, t, _, _, bp => (t, bp)
  | left + 1, t, ebx, di, bp =>
    match b.memoryMap t.bios ebx with
    | (bios, none) => (⟨bios, t.mem⟩, bp)
    | (bios, some (eax, e, ebx)) =>
      -- the record is there before the signature is looked at
      let t := ⟨bios, storeEntry t.mem di.toUInt32 e⟩
      if eax ≠ smap then (t, bp)
      else
        let bp := bp + 1
        let di := di + 20
        if bp ≥ UInt16.ofNat e820MaxEntries then (t, bp)
        else if ebx ≠ 0 then detectLoop b left t ebx di bp
        else (t, bp)

def detectMemoryMap (b : Bios σ) (t : Booting σ) : Booting σ :=
  match detectLoop b e820MaxEntries t 0 e820Buffer.toUInt16 0 with
  | (t, bp) =>
    ⟨t.bios, store8 (store8 t.mem e820CountAddr bp.toUInt8) (e820CountAddr + 1) (bp >>> 8).toUInt8⟩

/-- `start`, from `.video_ready` to the jump into protected mode; with the carry flag it goes to
`disk_error` and hangs. -/
def start (b : Bios σ) (t : Booting σ) : Booting σ × Bool :=
  match readKernelLba b (detectMemoryMap b t) with
  | (t, false) => (t, false)
  | (t, true) => readKernelChs b t

end Booting

/-- The bytes of `count` sectors from `lba` on. -/
def sectorBytes (disk : Store 512) (lba count : Nat) : List UInt8 :=
  (List.range (512 * count)).map fun a => byte disk (512 * lba + a)

/-- The disk services deliver no more than they are asked for, and without the carry flag the
sectors that the packet, or the place on a floppy of 18 sectors and two heads, stands for. -/
structure Bios.Serves (b : Bios σ) (disk : Store 512) : Prop where
  packet : ∀ s p s' bytes carry, b.readPacket s p = (s', bytes, carry) →
    bytes.length ≤ 512 * p.count.toNat ∧
    (carry = false → p.lbaHi = 0 → bytes = sectorBytes disk p.lbaLo.toNat p.count.toNat)
  sector : ∀ s ch cl dh s' bytes carry, b.readSector s ch cl dh = (s', bytes, carry) →
    bytes.length ≤ 512 ∧ (carry = false → 1 ≤ cl.toNat → cl.toNat ≤ 18 → dh.toNat < 2 →
      bytes = sectorBytes disk ((ch.toNat * 2 + dh.toNat) * 18 + (cl.toNat - 1)) 1)

section Delivery

end Delivery

/-- The first `n` sectors of the kernel are at their place, and nothing else has changed. -/
structure KernelLoading (disk : Store 512) (n : Nat) (m m' : Mem) : Prop where
  outside : SameOutside 65536 172032 m m'
  loaded : ∀ a, a < 512 * n → m' (UInt32.ofNat (65536 + a)) = byte disk (512 + a)

section KernelLoading

variable {σ : Type} {b : Bios σ} {disk : Store 512} {m m' : Mem}

theorem KernelLoading.refl (disk : Store 512) (m : Mem) : KernelLoading disk 0 m m :=
  ⟨SameOutside.refl _ _ _, fun a ha => absurd ha (by omega)⟩

end KernelLoading

section MemoryMap

section Entry

variable {m m' : Mem} {a : UInt32}

/-- The addresses of the fields of an entry. -/
theorem field_toNat (ha : a.toNat + 20 ≤ 4294967296) : (a + 4).toNat = a.toNat + 4 ∧
    (a + 8).toNat = a.toNat + 8 ∧ (a + 12).toNat = a.toNat + 12 ∧ (a + 16).toNat = a.toNat + 16 :=
  ⟨toNat_add_small a 4 (by omega), toNat_add_small a 8 (by omega), toNat_add_small a 12 (by omega),
    toNat_add_small a 16 (by omega)⟩

theorem loadEntry_frame (h : SameOutside lo hi m m') (ha : a.toNat + 20 ≤ 4294967296)
    (hout : a.toNat + 20 ≤ lo ∨ hi ≤ a.toNat) : loadEntry m' a = loadEntry m a := by
  obtain ⟨h4, h8, h12, h16⟩ := field_toNat ha
  unfold loadEntry
  rw [load32_frame h (by omega) (by omega), load32_frame h (a := a + 4) (by omega) (by omega),
    load32_frame h (a := a + 8) (by omega) (by omega),
    load32_frame h (a := a + 12) (by omega) (by omega),
    load32_frame h (a := a + 16) (by omega) (by omega)]

end Entry

variable {σ : Type}

theorem entryAddr_toNat (hi : i < 33) : (entryAddr i).toNat = 20480 + 20 * i :=
  toNat_add_small e820Buffer (20 * i) (by
    show 20480 + 20 * i < 4294967296
    omega)

/-- The memory map lies in memory as the kernel is told of it. -/
structure FirmwareMap (es : List E820Entry) (m : Mem) : Prop where
  fits : es.length ≤ 32
  count : (m e820CountAddr).toNat + 256 * (m (e820CountAddr + 1)).toNat = es.length
  entries : ∀ i, i < es.length → some (loadEntry m (entryAddr i)) = es[i]?

theorem FirmwareMap.args (h : FirmwareMap es m) : e820Args m = es := by
  apply List.ext_getElem?
  intro i
  rw [e820Args, h.count, List.getElem?_map]
  by_cases hi : i < es.length
  · rw [List.getElem?_range hi, Option.map_some, h.entries i hi]
  · rw [List.getElem?_eq_none (by rw [List.length_range]; omega),
      List.getElem?_eq_none (l := es) (by omega), Option.map_none]

theorem FirmwareMap.frame (h : FirmwareMap es m) (hsame : SameOutside 65536 172032 m m') :
    FirmwareMap es m' := by
  have hlow : (m' e820CountAddr).toNat + 256 * (m' (e820CountAddr + 1)).toNat = es.length := by
    rw [hsame e820CountAddr (by decide), hsame (e820CountAddr + 1) (by decide)]
    exact h.count
  refine ⟨h.fits, hlow, fun i hi => ?_⟩
  have hfits := h.fits
  have haddr := entryAddr_toNat (i := i) (by omega)
  rw [loadEntry_frame hsame (by omega) (by omega)]
  exact h.entries i hi

end MemoryMap

section Start

variable {σ : Type} {disk : Store 512} {m m' : Mem}

theorem readKernelLba_eq (disk : Store 512) :
    readKernelLba disk = (List.range kernelSectors).map fun k => disk (1 + k) := by
  rfl

/-- The memory holds the sectors that the image has behind the boot sector. -/
theorem KernelLoading.image (h : KernelLoading disk kernelSectors m m') :
    kernelImage m' = readKernelLba disk := by
  rw [readKernelLba_eq, kernelImage]
  apply List.map_congr_left
  intro k hk
  rw [List.mem_range] at hk
  funext j
  rw [h.loaded (512 * k + j) (by omega), ← byte_block disk (1 + k) j]
  congr 1
  omega

end Start

end VertexOS
