import VertexOS.Library.Memory

namespace VertexOS
open Library.Memory

def heapAlign : UInt32 := 8
def pageSize : UInt32 := 4096

/-- `HEAP_START` and `HEAP_SIZE` of the kernel. -/
def heapStart : UInt32 := 0x01000000
def heapSize : UInt32 := 1024 * 1024

/-- `sizeof(block_header)`: `size` at 0, `free` at 4, `next` at 8. -/
def headerBytes : UInt32 := 12

/-- `block_header`. -/
structure BlockHeader where
  size : UInt32
  free : UInt8
  next : UInt32
  deriving DecidableEq, Repr

/-- The header stored at an address. -/
def header (m : Mem) (p : UInt32) : BlockHeader := ⟨load32 m p, m (p + 4), load32 m (p + 8)⟩

def setSize (m : Mem) (p size : UInt32) : Mem := store32 m p size
def setFree (m : Mem) (p : UInt32) (free : UInt8) : Mem := store8 m (p + 4) free
def setNext (m : Mem) (p next : UInt32) : Mem := store32 m (p + 8) next

/-- Memory, `heap_head` and `heap_size_total`. -/
structure Heap where
  mem : Mem
  heapHead : UInt32
  heapSizeTotal : UInt32

def alignUp (value align : UInt32) : UInt32 := (value + align - 1) &&& ~~~(align - 1)

/-- `heap_init`, once its pages are mapped. -/
def heapInit (m : Mem) (heapStart heapSize : UInt32) : Heap :=
  let heapSize := alignUp heapSize pageSize
  let m := setSize m heapStart (heapSize - headerBytes)
  let m := setFree m heapStart 1
  let m := setNext m heapStart 0
  ⟨m, heapStart, heapSize⟩

/-- The block taken by `kmalloc`, split if what remains is worth a block. -/
def takeBlock (m : Mem) (current size : UInt32) : Mem :=
  let remaining := (header m current).size - size
  let m :=
    if remaining > headerBytes + heapAlign then
      let next := current + headerBytes + size
      let m := setSize m next (remaining - headerBytes)
      let m := setFree m next 1
      let m := setNext m next (header m current).next
      let m := setNext m current next
      setSize m current size
    else m
  setFree m current 0

/-- The list walk of `kmalloc`; it gives up when the fuel is spent. -/
def kmallocLoop (size : UInt32) : Nat → Mem → UInt32 → Option (Mem × UInt32)
  | 0, _, _ => none
  | fuel + 1, m, current =>
    if current = 0 then some (m, 0)
    else
      let h := header m current
      if h.free ≠ 0 ∧ h.size ≥ size then
        some (takeBlock m current size, current + headerBytes)
      else kmallocLoop size fuel m h.next

theorem kmallocLoop_mono (h : kmallocLoop size fuel m p = some x) (k : Nat) :
    kmallocLoop size (fuel + k) m p = some x := by
  induction fuel generalizing p with
  | zero => cases h
  | succ fuel ih =>
    rw [Nat.add_right_comm, kmallocLoop]
    rw [kmallocLoop] at h
    split
    · rwa [if_pos (by assumption)] at h
    · rw [if_neg (by assumption)] at h
      dsimp only at h ⊢
      split
      · rwa [if_pos (by assumption)] at h
      · rw [if_neg (by assumption)] at h
        exact ih h

def kmalloc (fuel : Nat) (h : Heap) (size : UInt32) : Option (Heap × UInt32) :=
  if size = 0 ∨ h.heapHead = 0 then some (h, 0)
  else (kmallocLoop (alignUp size heapAlign) fuel h.mem h.heapHead).map
    fun p => ({ h with mem := p.1 }, p.2)

/-- The merging walk of `kfree`. -/
def coalesceLoop : Nat → Mem → UInt32 → Option Mem
  | 0, _, _ => none
  | fuel + 1, m, current =>
    if current = 0 ∨ (header m current).next = 0 then some m
    else
      let next := (header m current).next
      if (header m current).free ≠ 0 ∧ (header m next).free ≠ 0 then
        let m := setSize m current ((header m current).size + (headerBytes + (header m next).size))
        let m := setNext m current (header m (header m current).next).next
        coalesceLoop fuel m current
      else coalesceLoop fuel m next

theorem coalesceLoop_mono (h : coalesceLoop fuel m p = some m') (k : Nat) :
    coalesceLoop (fuel + k) m p = some m' := by
  induction fuel generalizing m p with
  | zero => cases h
  | succ fuel ih =>
    rw [Nat.add_right_comm, coalesceLoop]
    rw [coalesceLoop] at h
    split
    · rwa [if_pos (by assumption)] at h
    · rw [if_neg (by assumption)] at h
      dsimp only at h ⊢
      split
      · rw [if_pos (by assumption)] at h
        exact ih h
      · rw [if_neg (by assumption)] at h
        exact ih h

def kfree (fuel : Nat) (h : Heap) (ptr : UInt32) : Option Heap :=
  if ptr = 0 then some h
  else
    let current := ptr - headerBytes
    (coalesceLoop fuel (setFree h.mem current 1) h.heapHead).map fun m => { h with mem := m }

def heapTotalBytes (h : Heap) : UInt32 := h.heapSizeTotal

/-- The loop of `heap_used_bytes`. -/
def usedLoop (m : Mem) : Nat → UInt32 → UInt32 → Option UInt32
  | 0, _, _ => none
  | fuel + 1, current, used =>
    if current = 0 then some used
    else
      let h := header m current
      usedLoop m fuel h.next (if h.free = 0 then used + h.size else used)

def heapUsedBytes (fuel : Nat) (h : Heap) : Option UInt32 := usedLoop h.mem fuel h.heapHead 0

/-- The block list from `current` on: the address and header of each block. -/
def blockList (m : Mem) : Nat → UInt32 → Option (List (UInt32 × BlockHeader))
  | 0, _ => none
  | fuel + 1, current =>
    if current = 0 then some []
    else (blockList m fuel (header m current).next).map ((current, header m current) :: ·)

end VertexOS
