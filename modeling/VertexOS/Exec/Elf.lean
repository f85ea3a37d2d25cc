import VertexOS.Vfs.Vfs
import VertexOS.Mem.Heap

namespace VertexOS
open Library.Memory Library.Words

def elfMagic : UInt32 := 0x464C457F
def elfClass32 : UInt8 := 1
def elfDataLsb : UInt8 := 1
def elfVersionCurrent : UInt8 := 1
def elfTypeExec : UInt16 := 2
def elfMachine386 : UInt16 := 3
def elfPtLoad : UInt32 := 1
def execImageLimit : UInt32 := 1024 * 1024

/-- `sizeof(elf32_ehdr)` and `sizeof(elf32_phdr)`. -/
def ehdrBytes : UInt32 := 52
def phdrBytes : UInt32 := 32

/-- What stops `exec_run_elf`: an error it reports, an access outside its buffer,
a fault in the file system below it, or too little fuel. -/
inductive ExecStop where
  | refused (msg : String)
  | file (offset : UInt32)
  | image (offset : UInt32)
  | jump (offset : UInt32)
  | fault (f : Fault)
  | spent
  deriving DecidableEq, Repr

/-- The access that a stop reports was outside `file_data` or `image`. -/
def ExecStop.Outside : ExecStop → Prop
  | .file _ | .image _ | .jump _ => True
  | _ => False

structure Machine where
  vfs : Vfs
  heap : Heap

/-- A pointer and the bytes behind it. -/
structure Buffer where
  base : UInt32
  size : UInt32
  deriving DecidableEq, Repr

def orSpent (x : Option α) : Except ExecStop α :=
  match x with
  | none => .error .spent
  | some a => .ok a

def orFault (x : Except Fault α) : Except ExecStop α := x.mapError .fault

/-- The loop of `read_file_all`. -/
def readFileLoop (fd : Fin 16) (data size : UInt32) :
    Nat → Machine → UInt32 → Option (Machine × UInt32)
  | 0, _, _ => none
  | fuel + 1, s, total =>
    if total < size then
      let r := vfsRead s.vfs fd.val (size - total)
      let out := vfsReadOut s.vfs fd.val (size - total)
      let s := ⟨r.1, { s.heap with mem := storeBytes s.heap.mem (data + total) out }⟩
      let chunk := UInt32.ofNat r.2.length
      if chunk = 0 then some (s, total) else readFileLoop fd data size fuel s (total + chunk)
    else some (s, total)

/-- `read_file_all`; the buffer is what it stores when it returns 1. -/
def readFileAll (fuel : Nat) (s : Machine) (session : Int) (path : List UInt8) :
    Except ExecStop (Machine × Option Buffer) := do
  match ← orFault (vfsStatPath s.vfs session path) with
  | none => .ok (s, none)
  | some st =>
    if st.type ≠ sfsTypeFile then .ok (s, none)
    else
      match ← orFault (vfsOpen s.vfs session path vfsORead) with
      | (vfs, none) => .ok (⟨vfs, s.heap⟩, none)
      | (vfs, some fd) =>
        let (heap, data) ← orSpent (kmalloc fuel s.heap (if st.size ≠ 0 then st.size else 1))
        if data = 0 then .ok (⟨vfsClose vfs fd.val, heap⟩, none)
        else
          let (s, total) ← orSpent (readFileLoop fd data st.size fuel ⟨vfs, heap⟩ 0)
          let vfs := vfsClose s.vfs fd.val
          if total ≠ st.size then
            let heap ← orSpent (kfree fuel s.heap data)
            .ok (⟨vfs, heap⟩, none)
          else .ok (⟨vfs, s.heap⟩, some ⟨data, st.size⟩)

section Access

variable (m : Mem) (f : Buffer)

/-- A byte of `file_data`. -/
def loadByte (off : UInt32) : Except ExecStop UInt8 :=
  if off < f.size then .ok (m (f.base + off)) else .error (.file off)

def loadHalf (off : UInt32) : Except ExecStop UInt16 := do
  let b0 ← loadByte m f off
  let b1 ← loadByte m f (off + 1)
  .ok (halfOf b0 b1)

def loadWord (off : UInt32) : Except ExecStop UInt32 := do
  let b0 ← loadByte m f off
  let b1 ← loadByte m f (off + 1)
  let b2 ← loadByte m f (off + 2)
  let b3 ← loadByte m f (off + 3)
  .ok (wordOf b0 b1 b2 b3)

/-- A byte of `image`. -/
def storeByte (img : Buffer) (off : UInt32) (b : UInt8) : Except ExecStop Mem :=
  if off < img.size then .ok (store8 m (img.base + off) b) else .error (.image off)

/-- The checks `exec_run_elf` makes of the ELF header. -/
def checkHeader : Except ExecStop Unit := do
  if f.size < ehdrBytes then .error (.refused "file too small")
  else
    let magic ← loadWord m f 0
    if magic ≠ elfMagic then .error (.refused "not an ELF file")
    else
      let cls ← loadByte m f 4
      let data ← loadByte m f 5
      let version ← loadByte m f 6
      if cls ≠ elfClass32 ∨ data ≠ elfDataLsb ∨ version ≠ elfVersionCurrent then
        .error (.refused "unsupported ELF class/data/version")
      else
        let type ← loadHalf m f 16
        let machine ← loadHalf m f 18
        if type ≠ elfTypeExec ∨ machine ≠ elfMachine386 then
          .error (.refused "unsupported ELF type or machine")
        else
          let phentsize ← loadHalf m f 42
          let phoff ← loadWord m f 28
          let phnum ← loadHalf m f 44
          if phentsize.toUInt32 ≠ phdrBytes ∨ phoff + phnum.toUInt32 * phdrBytes > f.size then
            .error (.refused "invalid program header table")
          else .ok ()

/-- `ph->type != ELF_PT_LOAD || ph->memsz == 0` does not hold. -/
def isLoad (ph : UInt32) : Except ExecStop Bool := do
  let type ← loadWord m f ph
  if type ≠ elfPtLoad then .ok false
  else
    let memsz ← loadWord m f (ph + 20)
    .ok (memsz ≠ 0)

/-- The first loop over the segments: the lowest address and the highest end. -/
def boundsLoop (i : Nat) (minVaddr maxVaddr : UInt32) : Except ExecStop (UInt32 × UInt32) := do
  let phnum ← loadHalf m f 44
  if _h : i < phnum.toNat then
    let phoff ← loadWord m f 28
    let ph := phoff + UInt32.ofNat i * phdrBytes
    if ← isLoad m f ph then
      let offset ← loadWord m f (ph + 4)
      let filesz ← loadWord m f (ph + 16)
      let memsz ← loadWord m f (ph + 20)
      if offset + filesz > f.size ∨ filesz > memsz then .error (.refused "invalid load segment")
      else
        let vaddr ← loadWord m f (ph + 8)
        let segEnd := vaddr + memsz
        boundsLoop (i + 1) (if vaddr < minVaddr then vaddr else minVaddr)
          (if segEnd > maxVaddr then segEnd else maxVaddr)
    else boundsLoop (i + 1) minVaddr maxVaddr
  else .ok (minVaddr, maxVaddr)
termination_by 65536 - i
decreasing_by
  all_goals
    have := phnum.toNat_lt
    omega

/-- All checks before `image` is allocated. -/
def validate : Except ExecStop (UInt32 × UInt32) := do
  checkHeader m f
  let (minVaddr, maxVaddr) ← boundsLoop m f 0 0xFFFFFFFF 0
  if minVaddr = 0xFFFFFFFF ∨ maxVaddr ≤ minVaddr then .error (.refused "no loadable segments")
  else if maxVaddr - minVaddr > execImageLimit then .error (.refused "program image too large")
  else .ok (minVaddr, maxVaddr)

end Access

/-- `mem_zero` of `n` bytes of the image from byte `k` on. -/
def memZero (img : Buffer) (m : Mem) (k : Nat) : Nat → Except ExecStop Mem
  | 0 => .ok m
  | n + 1 => do
    let m ← storeByte m img (UInt32.ofNat k) 0
    memZero img m (k + 1) n

/-- `mem_copy` of `n` bytes of the file to the image, from byte `k` on. -/
def memCopy (f img : Buffer) (dst src : UInt32) (m : Mem) (k : Nat) : Nat → Except ExecStop Mem
  | 0 => .ok m
  | n + 1 => do
    let b ← loadByte m f (src + UInt32.ofNat k)
    let m ← storeByte m img (dst + UInt32.ofNat k) b
    memCopy f img dst src m (k + 1) n

/-- The second loop over the segments. -/
def copyLoop (f img : Buffer) (minVaddr : UInt32) (m : Mem) (i : Nat) : Except ExecStop Mem := do
  let phnum ← loadHalf m f 44
  if _h : i < phnum.toNat then
    let phoff ← loadWord m f 28
    let ph := phoff + UInt32.ofNat i * phdrBytes
    if ← isLoad m f ph then
      let vaddr ← loadWord m f (ph + 8)
      let offset ← loadWord m f (ph + 4)
      let filesz ← loadWord m f (ph + 16)
      let m ← memCopy f img (vaddr - minVaddr) offset m 0 filesz.toNat
      copyLoop f img minVaddr m (i + 1)
    else copyLoop f img minVaddr m (i + 1)
  else .ok m
termination_by 65536 - i
decreasing_by
  all_goals
    have := phnum.toNat_lt
    omega

/-- How `exec_run_elf` ends: it returns 0 after an error, or it calls the entry
point at an offset of the image. -/
inductive ExecEnd where
  | failed (msg : String)
  | entered (offset : UInt32)
  deriving DecidableEq, Repr

/-- What is returned at that end, once the program has returned. -/
def ExecEnd.returned : ExecEnd → Bool
  | .failed _ => false
  | .entered _ => true

/-- `exec_error` and the release of the buffers. -/
def execFail (fuel : Nat) (s : Machine) (bufs : List UInt32) (msg : String) :
    Except ExecStop (Machine × ExecEnd) := do
  let heap ← orSpent (bufs.foldlM (kfree fuel) s.heap)
  .ok (⟨s.vfs, heap⟩, .failed msg)

/-- `exec_run_elf` once the file is read, up to the call of the program; what the
program does is its own. -/
def execLoaded (fuel : Nat) (s : Machine) (f : Buffer) : Except ExecStop (Machine × ExecEnd) :=
  match validate s.heap.mem f with
  | .error (.refused msg) => execFail fuel s [f.base] msg
  | .error e => .error e
  | .ok (minVaddr, maxVaddr) => do
    let imageSize := maxVaddr - minVaddr
    let (heap, image) ← orSpent (kmalloc fuel s.heap imageSize)
    if image = 0 then execFail fuel ⟨s.vfs, heap⟩ [f.base] "out of memory"
    else
      let img := ⟨image, imageSize⟩
      let m ← memZero img heap.mem 0 imageSize.toNat
      let m ← copyLoop f img minVaddr m 0
      let s := ⟨s.vfs, { heap with mem := m }⟩
      let entry ← loadWord m f 24
      if entry < minVaddr ∨ entry ≥ maxVaddr then
        execFail fuel s [image, f.base] "entry outside image"
      else
        let offset := entry - minVaddr
        if offset < imageSize then .ok (s, .entered offset) else .error (.jump offset)

/-- `image`, once it is allocated. -/
def imageOf (fuel : Nat) (s : Machine) (f : Buffer) : UInt32 :=
  match validate s.heap.mem f with
  | .error _ => 0
  | .ok (minVaddr, maxVaddr) =>
    match kmalloc fuel s.heap (maxVaddr - minVaddr) with
    | none => 0
    | some (_, image) => image

def execRunElf (fuel : Nat) (s : Machine) (session : Int) (path : List UInt8) :
    Except ExecStop (Machine × ExecEnd) := do
  if path.headD 0 = 0 then execFail fuel s [] "missing path"
  else
    match ← readFileAll fuel s session path with
    | (s, none) => execFail fuel s [] "unable to read file"
    | (s, some f) => execLoaded fuel s f

/-- `exec_run_elf` up to its return, with what it returns, around a program that
leaves the machine as `program` says when it is called at an address. -/
def execReturn (program : Machine → UInt32 → Machine) (fuel : Nat) (s : Machine) (session : Int)
    (path : List UInt8) : Except ExecStop (Machine × Bool) := do
  if path.headD 0 = 0 then .ok (s, false)
  else
    match ← readFileAll fuel s session path with
    | (s, none) => .ok (s, false)
    | (s, some f) =>
      match ← execLoaded fuel s f with
      | (s', .failed _) => .ok (s', false)
      | (s', .entered offset) =>
        let image := imageOf fuel s f
        let s' := program s' (image + offset)
        let heap ← orSpent ([image, f.base].foldlM (kfree fuel) s'.heap)
        .ok (⟨s'.vfs, heap⟩, true)

end VertexOS
