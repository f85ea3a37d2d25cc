import VertexOS.Fs.Extents

namespace VertexOS
open Library.BlockStore Library.Packing

theorem needSectors_toNat (hw : offset.toNat + len.toNat + 511 < 4294967296) :
    (needSectors offset len).toNat = (offset.toNat + len.toNat + 511) / 512 := by
  have h1 : (offset + len).toNat = offset.toNat + len.toNat := by
    rw [UInt32.toNat_add]; omega
  have h2 : (offset + len + 511).toNat = offset.toNat + len.toNat + 511 := by
    rw [UInt32.toNat_add, h1, show (511 : UInt32).toNat = 511 from rfl]; omega
  rw [needSectors, UInt32.toNat_div, h2]
  rfl

theorem slotId_toNat (n : Fin 64) : (slotId n).toNat = n.val := by
  simp only [slotId, UInt32.toNat_ofNat']
  omega

theorem extendSize_other (es : Table) (endPos : UInt32) (hm : m ≠ n) :
    extendSize es n endPos m = es m := by
  unfold extendSize
  split
  · exact Function.update_of_ne hm _ _
  · rfl

/-- The larger of the old size and the end of a write. -/
def newSize (size endPos : UInt32) : UInt32 := if endPos > size then endPos else size

theorem newSize_toNat (a b : UInt32) : (newSize a b).toNat = max a.toNat b.toNat := by
  unfold newSize
  split
  · rename_i h
    have := UInt32.lt_iff_toNat_lt.mp h
    omega
  · rename_i h
    have := UInt32.le_iff_toNat_le.mp (UInt32.not_lt.mp h)
    omega

theorem extendSize_self (es : Table) (n : Fin 64) (endPos : UInt32) :
    extendSize es n endPos n = { es n with size := newSize (es n).size endPos } := by
  unfold extendSize newSize
  split
  · rw [Function.update_self]
  · rfl

/-- A successful `sfs_write`: the placement `s1` with its copy writes `ws1`, the
data writes `ws2`, then the flush of the metadata that `s'` holds. -/
structure WriteRun (s : SimpleFs) (n : Fin 64) (offset : UInt32) (data : Nat → UInt8)
    (len : UInt32) (s1 : SimpleFs) (ws1 ws2 : List (Write 512)) (s' : SimpleFs) : Prop where
  placed : Placed s n (needSectors offset len) s1 ws1
  touches : Touches (Set.Ico (512 * (s1.entries n).startLba.toNat + offset.toNat)
    (512 * (s1.entries n).startLba.toNat + offset.toNat + len.toNat)) s1.dev.sectors ws2
  stored : ∀ k, k < len.toNat → byte (replay s1.dev.sectors ws2)
    (512 * (s1.entries n).startLba.toNat + offset.toNat + k) = data k
  super : s'.super = s1.super
  entries : s'.entries = extendSize s1.entries n (offset + len)
  wrote : Wrote s1.dev (ws2 ++ metadataWrites s'.super s'.entries) s'.dev

/-- Once the file has its sectors, a write of a used, writable file succeeds. -/
theorem sfsWrite_placed {ws1 : List (Write 512)} (hr : s.dev.Reliable)
    (hf : (s.entries n).IsFile) (hp : (s.entries n).perm &&& sfsPermWrite ≠ 0)
    (hwrap : offset.toNat + len.toNat + 511 < 4294967296)
    (hres : sfsReserve s n (needSectors offset len) = (s1, true))
    (hpl : Placed s n (needSectors offset len) s1 ws1)
    (hroom : Reserved s1 n (needSectors offset len)) (hfree : s1.super.nextFreeLba.toNat ≤ 65536)
    (data : Nat → UInt8) :
    ∃ ws2 s', sfsWrite s (slotId n) offset data len = (s', some len) ∧
      WriteRun s n offset data len s1 ws1 ws2 s' := by
  have hneed := needSectors_toNat hwrap
  have hcap := hroom.capacity
  have hf1 := (hpl.isFile n).mpr hf
  have hfit : (0 : UInt32) < len →
      512 * (s1.entries n).startLba.toNat + offset.toNat + len.toNat ≤ 512 * 65536 := by
    intro hl
    have hl := UInt32.lt_iff_toNat_lt.mp hl
    rw [show (0 : UInt32).toNat = 0 from rfl] at hl
    have hm : (s1.entries n).startLba.toNat + (needSectors offset len).toNat - 1 ∈
        (s1.entries n).extent := by
      rw [extent_of_file hf1 hroom.start, Set.mem_Ico]; omega
    have := (hroom.allocation.bounds hm).2
    omega
  obtain ⟨d, ws2, hloop, hw2, htouch, hdata⟩ :=
    writeLoop_reliable (hpl.wrote.reliable hr) data 0 (Nat.zero_le _) hfit
  have hz : (0 : UInt32).toNat = 0 := rfl
  simp only [hz, Nat.add_zero, Nat.zero_le, true_implies] at htouch hdata
  obtain ⟨dev, hflush⟩ := sfsFlush_reliable
    (s := { s1 with dev := d, entries := extendSize s1.entries n (offset + len) })
    (hw2.reliable (hpl.wrote.reliable hr))
  obtain ⟨-, -, hw3⟩ := sfsFlush_done hflush
  refine ⟨ws2, ⟨s1.super, extendSize s1.entries n (offset + len), dev⟩, ?_, hpl,
    htouch, ?_, rfl, rfl, hw2.trans hw3⟩
  · simp only [sfsWrite, fileWith_slot s.entries n sfsPermWrite hf hp, hres, hloop, hflush]
  · rw [← hw2.sectors]
    exact hdata

/-- With room for a file that moves a write of a used, writable file succeeds. -/
theorem sfsWrite_spacious (hr : s.dev.Reliable) (hx : Allocation s.super s.entries)
    (hf : (s.entries n).IsFile) (hp : (s.entries n).perm &&& sfsPermWrite ≠ 0)
    (hwrap : offset.toNat + len.toNat + 511 < 4294967296)
    (hroom : Moves (s.entries n) (needSectors offset len) →
      s.super.nextFreeLba.toNat + (needSectors offset len).toNat ≤ 65536)
    (hfree : s.super.nextFreeLba.toNat ≤ 65536) (data : Nat → UInt8) :
    ∃ s1 ws1 ws2 s', sfsWrite s (slotId n) offset data len = (s', some len) ∧
      WriteRun s n offset data len s1 ws1 ws2 s' ∧
      Placing s n (needSectors offset len) s1 ws1 ∧ s1.super.nextFreeLba.toNat ≤ 65536 := by
  obtain ⟨s1, ws1, hres, hpl⟩ := sfsReserve_placed hx hr hf hroom
  have hfree1 : s1.super.nextFreeLba.toNat ≤ 65536 := by
    rcases sfsReserve_taken hres with ⟨hm, he⟩ | ⟨-, rfl⟩
    · have hend := hroom hm
      rw [he, UInt32.toNat_add]
      omega
    · exact hfree
  obtain ⟨ws2, s', hrun, h⟩ :=
    sfsWrite_placed hr hf hp hwrap hres hpl.placed hpl.reserved hfree1 data
  exact ⟨s1, ws1, ws2, s', hrun, h, hpl, hfree1⟩

/-- With room at the free end a write of a used, writable file succeeds. -/
theorem sfsWrite_run (hr : s.dev.Reliable) (hx : Allocation s.super s.entries)
    (hf : (s.entries n).IsFile) (hp : (s.entries n).perm &&& sfsPermWrite ≠ 0)
    (hwrap : offset.toNat + len.toNat + 511 < 4294967296)
    (hroom : s.super.nextFreeLba.toNat + (offset.toNat + len.toNat + 511) / 512 ≤ 65536)
    (data : Nat → UInt8) :
    ∃ s1 ws1 ws2 s', sfsWrite s (slotId n) offset data len = (s', some len) ∧
      WriteRun s n offset data len s1 ws1 ws2 s' ∧ Reserved s1 n (needSectors offset len) := by
  rw [← needSectors_toNat hwrap] at hroom
  obtain ⟨s1, ws1, ws2, s', hrun, h, hpl, -⟩ :=
    sfsWrite_spacious hr hx hf hp hwrap (fun _ => hroom) (by omega) data
  exact ⟨s1, ws1, ws2, s', hrun, h, hpl.reserved⟩

/-- Inside its extent a used, writable file is written in place. -/
theorem sfsWrite_inside (hr : s.dev.Reliable) (hf : (s.entries n).IsFile)
    (hp : (s.entries n).perm &&& sfsPermWrite ≠ 0)
    (hwrap : offset.toNat + len.toNat + 511 < 4294967296)
    (hroom : Reserved s n (needSectors offset len)) (hfree : s.super.nextFreeLba.toNat ≤ 65536)
    (data : Nat → UInt8) :
    ∃ ws2 s', sfsWrite s (slotId n) offset data len = (s', some len) ∧
      WriteRun s n offset data len s [] ws2 s' := by
  have hcap : ¬ needSectors offset len > (s.entries n).capacitySectors := by
    rw [gt_iff_lt, UInt32.lt_iff_toNat_lt]
    exact Nat.not_lt.mpr hroom.capacity
  have hres : sfsReserve s n (needSectors offset len) = (s, true) := by
    unfold sfsReserve
    dsimp only
    rw [if_neg hroom.start, if_neg hcap]
  exact sfsWrite_placed hr hf hp hwrap hres (.kept hroom.start hroom.capacity) hroom hfree data

section WriteRun

variable {s s1 s' : SimpleFs} {n : Fin 64} {offset len : UInt32} {data : Nat → UInt8}
  {ws1 ws2 : List (Write 512)}

theorem WriteRun.other (h : WriteRun s n offset data len s1 ws1 ws2 s') (hm : m ≠ n) :
    s'.entries m = s.entries m := by
  rw [h.entries, extendSize_other _ _ hm, h.placed.other hm]

theorem WriteRun.self (h : WriteRun s n offset data len s1 ws1 ws2 s') :
    s'.entries n = { s1.entries n with size := newSize (s.entries n).size (offset + len) } := by
  rw [h.entries, extendSize_self, h.placed.size]

theorem WriteRun.allWrites (h : WriteRun s n offset data len s1 ws1 ws2 s') :
    Wrote s.dev (ws1 ++ (ws2 ++ metadataWrites s'.super s'.entries)) s'.dev :=
  h.placed.wrote.trans h.wrote

/-- The invariant survives the write: its data fit into the sectors it asked for. -/
theorem WriteRun.allocation (h : WriteRun s n offset data len s1 ws1 ws2 s')
    (hx : Allocation s.super s.entries) (hf : (s.entries n).IsFile)
    (hwrap : offset.toNat + len.toNat + 511 < 4294967296)
    (hroom : Reserved s1 n (needSectors offset len)) :
    Allocation s'.super s'.entries := by
  have hneed := needSectors_toNat hwrap
  obtain ⟨hx1, hstart, hcap⟩ := hroom
  have hext : (fun m => (s'.entries m).extent) = fun m => (s1.entries m).extent := by
    funext m
    by_cases hm : m = n
    · subst hm
      rw [h.self]
      exact extent_congr Iff.rfl rfl rfl
    · rw [h.other hm, h.placed.other hm]
  have hsum : (offset + len).toNat = offset.toNat + len.toNat := by
    rw [UInt32.toNat_add]; omega
  refine ⟨⟨?_, ?_⟩, ?_, ?_⟩
  · rw [hext, h.super]
    exact hx1.packed
  · intro m hm
    by_cases hmn : m = n
    · subst hmn
      have hfit := hx1.fits m ((h.placed.isFile m).mpr hf)
      rw [h.placed.size] at hfit
      rw [h.self]
      simp only [newSize_toNat, hsum]
      omega
    · rw [h.other hmn] at hm ⊢
      exact hx.fits m hm
  · rw [h.super]
    exact hx1.frontier
  · intro m hm h0
    by_cases hmn : m = n
    · subst hmn
      rw [h.self] at h0
      exact absurd h0 hstart
    · rw [h.other hmn] at hm h0 ⊢
      exact hx.unallocated m hm h0

/-- The bytes of the file area are those after the data writes: the flush only
rewrites the nine metadata sectors. -/
theorem WriteRun.byte_data (h : WriteRun s n offset data len s1 ws1 ws2 s')
    (ha : 137 ≤ a / 512) : byte s'.dev.sectors a = byte (replay s1.dev.sectors ws2) a := by
  rw [h.wrote.sectors, replay_append, byte_flushed ha]

/-- Another file's bytes lie in none of the regions the write touches. -/
theorem WriteRun.content_other (h : WriteRun s n offset data len s1 ws1 ws2 s')
    (hx : Allocation s.super s.entries) (hf : (s.entries n).IsFile)
    (hwrap : offset.toNat + len.toNat + 511 < 4294967296)
    (hroom : Reserved s1 n (needSectors offset len))
    (hm : m ≠ n) (hfm : (s.entries m).IsFile) :
    content s'.entries s'.dev.sectors m = content s.entries s.dev.sectors m := by
  have hneed := needSectors_toNat hwrap
  obtain ⟨hx1, hstart, hcap⟩ := hroom
  unfold content
  rw [h.other hm]
  apply List.map_congr_left
  intro k hk
  rw [List.mem_range] at hk
  have hsm : (s.entries m).startLba ≠ 0 := by
    intro h0
    rw [hx.unallocated m hfm h0] at hk
    exact absurd hk (by simp)
  -- the byte lies in `m`'s extent, hence below the free end and outside `n`'s extent
  have hin := hx.mem_extent hfm hsm hk
  have hb := hx.bounds hin
  have hout : (512 * (s.entries m).startLba.toNat + k) / 512 ∉ (s1.entries n).extent := by
    have hdis := hx1.packed.disjoint m n hm
    simp only [h.placed.other hm] at hdis
    exact Set.disjoint_left.mp hdis hin
  rw [extent_of_file ((h.placed.isFile n).mpr hf) hstart, Set.mem_Ico] at hout
  rw [h.byte_data hb.1, h.touches.outside (by simp only [Set.mem_Ico]; omega)]
  exact h.placed.low hb.2

/-- Byte `k` of the written file, for every `k` below its new size. -/
theorem WriteRun.byte_self (h : WriteRun s n offset data len s1 ws1 ws2 s')
    (hf : (s.entries n).IsFile)
    (hwrap : offset.toNat + len.toNat + 511 < 4294967296)
    (hroom : Reserved s1 n (needSectors offset len))
    (hk : k < (s.entries n).size.toNat ∨ offset.toNat ≤ k ∧ k < offset.toNat + len.toNat) :
    byte s'.dev.sectors (512 * (s'.entries n).startLba.toNat + k) =
      if offset.toNat ≤ k ∧ k < offset.toNat + len.toNat then data (k - offset.toNat)
      else byte s.dev.sectors (512 * (s.entries n).startLba.toNat + k) := by
  have hneed := needSectors_toNat hwrap
  obtain ⟨hx1, hstart, hcap⟩ := hroom
  have hf1 := (h.placed.isFile n).mpr hf
  have hfit := hx1.fits n hf1
  rw [h.placed.size] at hfit
  have hmem : (512 * (s1.entries n).startLba.toNat + k) / 512 ∈ (s1.entries n).extent := by
    rw [extent_of_file hf1 hstart, Set.mem_Ico]; omega
  have hb := hx1.bounds hmem
  have hst : (s'.entries n).startLba = (s1.entries n).startLba := by rw [h.self]
  rw [hst, h.byte_data hb.1]
  split
  · rename_i hin
    have := h.stored (k - offset.toNat) (by omega)
    rwa [Nat.add_assoc, Nat.add_sub_cancel' hin.1] at this
  · rename_i hin
    have hlt : k < (s.entries n).size.toNat := by omega
    rw [h.touches.outside (by simp only [Set.mem_Ico]; omega)]
    exact h.placed.copied hlt

/-- Between the old end and the data the placement decides. -/
theorem WriteRun.byte_gap (h : WriteRun s n offset data len s1 ws1 ws2 s')
    (hf : (s.entries n).IsFile) (hwrap : offset.toNat + len.toNat + 511 < 4294967296)
    (hpl : Placing s n (needSectors offset len) s1 ws1) (hk : k < offset.toNat) :
    byte s'.dev.sectors (512 * (s'.entries n).startLba.toNat + k) =
      placedByte s n (needSectors offset len) k := by
  have hneed := needSectors_toNat hwrap
  obtain ⟨hx1, hstart, hcap⟩ := hpl.reserved
  have hf1 := (h.placed.isFile n).mpr hf
  have hmem : (512 * (s1.entries n).startLba.toNat + k) / 512 ∈ (s1.entries n).extent := by
    rw [extent_of_file hf1 hstart, Set.mem_Ico]
    omega
  have hst : (s'.entries n).startLba = (s1.entries n).startLba := by
    rw [h.self]
  rw [hst, h.byte_data (hx1.bounds hmem).1,
    h.touches.outside (by simp only [Set.mem_Ico]; omega), hpl.bytes]

end WriteRun

/-- `len` bytes from the data pointer on. -/
def dataBytes (data : Nat → UInt8) (len : UInt32) : List UInt8 := (List.range len.toNat).map data

theorem content_length (es : Table) (f : Store 512) (n : Fin 64) :
    (content es f n).length = (es n).size.toNat := by
  simp [content]

/-- A content is data overlaid on old bytes exactly when every byte of it is. -/
theorem content_overlaid {es es' : Table} {f f' : Store 512} {n : Fin 64} {offset len : UInt32}
    {data : Nat → UInt8} (hoff : offset.toNat ≤ (es n).size.toNat)
    (hsize : (es' n).size.toNat = max (es n).size.toNat (offset.toNat + len.toNat)) :
    content es' f' n = (content es f n).take offset.toNat ++ dataBytes data len ++
        (content es f n).drop (offset.toNat + len.toNat) ↔
      ∀ k, k < (es' n).size.toNat → byte f' (512 * (es' n).startLba.toNat + k) =
        if offset.toNat ≤ k ∧ k < offset.toNat + len.toNat then data (k - offset.toNat)
        else byte f (512 * (es n).startLba.toNat + k) := by
  have hlen : ((content es f n).take offset.toNat ++ dataBytes data len ++
      (content es f n).drop (offset.toNat + len.toNat)).length = (es' n).size.toNat := by
    simp only [content_length, hsize, dataBytes, List.length_append, List.length_take,
      List.length_drop, List.length_map, List.length_range]
    omega
  have hget : ∀ k (hk : k < ((content es f n).take offset.toNat ++ dataBytes data len ++
      (content es f n).drop (offset.toNat + len.toNat)).length),
      ((content es f n).take offset.toNat ++ dataBytes data len ++
        (content es f n).drop (offset.toNat + len.toNat))[k] =
      if offset.toNat ≤ k ∧ k < offset.toNat + len.toNat then data (k - offset.toNat)
      else byte f (512 * (es n).startLba.toNat + k) := by
    intro k hk
    have hk' := hk
    rw [hlen, hsize] at hk'
    by_cases hlow : k < offset.toNat
    · rw [if_neg (by omega), List.getElem_append_left (by simp [content_length]; omega),
        List.getElem_append_left (by simp [content_length]; omega)]
      simp [content]
    · by_cases hmid : k < offset.toNat + len.toNat
      · rw [if_pos (by omega),
          List.getElem_append_left (by simp [dataBytes, content_length]; omega),
          List.getElem_append_right (by simp [content_length]; omega)]
        simp only [dataBytes, List.getElem_map, List.getElem_range, List.length_take,
          content_length]
        exact congrArg data (by omega)
      · rw [if_neg (by omega),
          List.getElem_append_right (by simp [dataBytes, content_length]; omega)]
        simp only [content, dataBytes, List.getElem_drop, List.getElem_map, List.getElem_range,
          List.length_append, List.length_take, List.length_map, List.length_range]
        exact congrArg (byte f) (by omega)
  constructor
  · intro h k hk
    have hk' : k < (content es' f' n).length := by
      rwa [content_length]
    have hbyte : (content es' f' n)[k] = byte f' (512 * (es' n).startLba.toNat + k) := by
      simp [content]
    rw [← hbyte, ← hget k (by rwa [hlen]), List.getElem_of_eq h]
  · intro h
    apply List.ext_getElem
    · rw [hlen, content_length]
    · intro k hk hk'
      rw [hget k hk', ← h k (by rwa [content_length] at hk)]
      simp [content]

/-- The written file's content: the data overlaid on the old bytes. -/
theorem WriteRun.content_self {ws1 ws2 : List (Write 512)}
    (h : WriteRun s n offset data len s1 ws1 ws2 s')
    (hf : (s.entries n).IsFile) (hoff : offset.toNat ≤ (s.entries n).size.toNat)
    (hwrap : offset.toNat + len.toNat + 511 < 4294967296)
    (hroom : Reserved s1 n (needSectors offset len)) :
    content s'.entries s'.dev.sectors n =
      (content s.entries s.dev.sectors n).take offset.toNat ++ dataBytes data len ++
        (content s.entries s.dev.sectors n).drop (offset.toNat + len.toNat) := by
  have hsize : (s'.entries n).size.toNat =
      max (s.entries n).size.toNat (offset.toNat + len.toNat) := by
    have hsum : (offset + len).toNat = offset.toNat + len.toNat := by
      rw [UInt32.toNat_add]; omega
    rw [h.self]
    simp only [newSize_toNat, hsum]
  apply (content_overlaid hoff hsize).mpr
  intro k hk
  rw [hsize] at hk
  exact h.byte_self hf hwrap hroom (by omega)

/-- Reading a readable file delivers the asked-for slice of its content. -/
theorem sfsRead_content (hr : s.dev.Reliable) (hx : Allocation s.super s.entries)
    (hf : (s.entries n).IsFile) (hp : (s.entries n).perm &&& sfsPermRead ≠ 0)
    (hfree : s.super.nextFreeLba.toNat ≤ 65536) (offset len : UInt32) :
    (sfsRead s (slotId n) offset len).2 =
      some (((content s.entries s.dev.sectors n).drop offset.toNat).take len.toNat) := by
  simp only [sfsRead, fileWith_slot s.entries n sfsPermRead hf hp]
  by_cases hge : offset ≥ (s.entries n).size
  · have := UInt32.le_iff_toNat_le.mp hge
    rw [if_pos hge, List.drop_eq_nil_of_le (by rw [content_length]; exact this), List.take_nil]
  · rw [if_neg hge]
    have hlt := UInt32.lt_iff_toNat_lt.mp (UInt32.not_le.mp hge)
    have hs : (s.entries n).startLba ≠ 0 := by
      intro h0
      rw [hx.unallocated n hf h0] at hlt
      exact absurd hlt (by simp)
    have hlast := (hx.bounds (hx.mem_extent hf hs
      (k := (s.entries n).size.toNat - 1) (by omega))).2
    have hrem : ((s.entries n).size - offset).toNat =
        (s.entries n).size.toNat - offset.toNat :=
      UInt32.toNat_sub_of_le _ _ (UInt32.le_iff_toNat_le.mpr hlt.le)
    generalize hl : (if len > (s.entries n).size - offset then (s.entries n).size - offset
      else len) = l
    have hln : l.toNat = min len.toNat ((s.entries n).size.toNat - offset.toNat) := by
      rw [← hl]
      split
      · rename_i h
        have := UInt32.lt_iff_toNat_lt.mp h
        omega
      · rename_i h
        have := UInt32.le_iff_toNat_le.mp (UInt32.not_lt.mp h)
        omega
    obtain ⟨d', -, hloop⟩ := readLoop_reliable hr (s.entries n).startLba offset l 0 []
      (Nat.zero_le _) (by omega)
    rw [hloop]
    have hz : (0 : UInt32).toNat = 0 := rfl
    simp only [hz, Nat.sub_zero, Nat.add_zero, List.nil_append, Option.some.injEq]
    apply List.ext_getElem
    · simp [content_length, hln]
    · intro k hk hk'
      simp only [content, List.getElem_map, List.getElem_range, List.getElem_take,
        List.getElem_drop]
      exact congrArg (byte s.dev.sectors) (by omega)

/-- File contents behave as a map from nodes to byte strings. -/
theorem sfs_write_refines (s : SimpleFs) (n : Fin 64) (offset len : UInt32) (data : Nat → UInt8)
    (hr : s.dev.Reliable) (hx : Allocation s.super s.entries) (hf : (s.entries n).IsFile)
    (hread : (s.entries n).perm &&& sfsPermRead ≠ 0)
    (hwrite : (s.entries n).perm &&& sfsPermWrite ≠ 0)
    (hoff : offset.toNat ≤ (s.entries n).size.toNat)
    (hwrap : offset.toNat + len.toNat + 511 < 4294967296)
    (hroom : s.super.nextFreeLba.toNat + (offset.toNat + len.toNat + 511) / 512 ≤ 65536) :
    ∃ s', sfsWrite s (slotId n) offset data len = (s', some len) ∧
      content s'.entries s'.dev.sectors n =
        (content s.entries s.dev.sectors n).take offset.toNat ++ dataBytes data len ++
          (content s.entries s.dev.sectors n).drop (offset.toNat + len.toNat) ∧
      (∀ m, m ≠ n → (s.entries m).IsFile →
        content s'.entries s'.dev.sectors m = content s.entries s.dev.sectors m) ∧
      Allocation s'.super s'.entries ∧
      ∀ off amount : UInt32, (sfsRead s' (slotId n) off amount).2 =
        some (((content s'.entries s'.dev.sectors n).drop off.toNat).take amount.toNat) := by
  obtain ⟨s1, ws1, ws2, s', hrun, h, hhas⟩ := sfsWrite_run hr hx hf hwrite hwrap hroom data
  have hx' := h.allocation hx hf hwrap hhas
  have hself := h.self
  have hf1 := (h.placed.isFile n).mpr hf
  have hf' : (s'.entries n).IsFile := by rw [hself]; exact hf1
  have hperm : (s'.entries n).perm = (s.entries n).perm := by
    rw [hself, h.placed.self]
  have hfree : s'.super.nextFreeLba.toNat ≤ 65536 := by
    have hneed := needSectors_toNat hwrap
    have := (h.placed.room (by rw [hneed]; exact hroom)).2
    rw [h.super]
    omega
  exact ⟨s', hrun, h.content_self hf hoff hwrap hhas,
    fun m hm hfm => h.content_other hx hf hwrap hhas hm hfm, hx',
    sfsRead_content (h.allWrites.reliable hr) hx' hf' (by rw [hperm]; exact hread) hfree⟩

/-- A volume whose only used entry is a readable and writable file in slot 1. -/
def oneFile (sectors : Store 512) (start size capacity nextFree : UInt32) : SimpleFs where
  super := { Superblock.zero with nextFreeLba := nextFree }
  entries := Function.update (fun _ => Entry.zero) 1 { Entry.zero with
    used := 1, type := sfsTypeFile, perm := 3, startLba := start, size := size,
    capacitySectors := capacity }
  dev := ⟨sectors, fun _ => false, 0, []⟩

theorem oneFile_other (hn : n ≠ 1) : (oneFile f start size capacity nextFree).entries n =
    Entry.zero := by
  simp [oneFile, hn]

theorem zero_not_file : ¬ Entry.zero.IsFile := by decide

theorem oneFile_condition (f : Store 512)
    (hin : start ≠ 0 → 137 ≤ start.toNat ∧ start.toNat + capacity.toNat ≤ nextFree.toNat)
    (hfit : size.toNat ≤ 512 * capacity.toNat) :
    ExtentCondition (oneFile f start size capacity nextFree).super
      (oneFile f start size capacity nextFree).entries := by
  have hempty : ∀ n, n ≠ 1 → ((oneFile f start size capacity nextFree).entries n).extent = ∅ := by
    intro n hn
    rw [oneFile_other hn]
    exact if_neg (fun h => zero_not_file h.1)
  refine ⟨⟨?_, ?_⟩, ?_⟩
  · intro i j hij
    by_cases hi : i = 1
    · rw [hempty j (fun hj => hij (hi.trans hj.symm))]
      exact disjoint_bot_right
    · rw [hempty i hi]
      exact disjoint_bot_left
  · intro i a ha
    by_cases hi : i = 1
    · subst hi
      simp only [Entry.extent, oneFile, Function.update_self] at ha
      split at ha
      · rename_i hc
        have := hin hc.2
        rw [Set.mem_Ico] at ha
        exact ⟨by rw [sfsDataLba_toNat]; omega, by simp only [oneFile]; omega⟩
      · exact ha.elim
    · simp only [hempty i hi, Set.mem_empty_iff_false] at ha
  · intro n hn
    by_cases h1 : n = 1
    · subst h1
      simpa [oneFile] using hfit
    · rw [oneFile_other h1] at hn
      exact absurd hn zero_not_file

theorem oneFile_allocation (f : Store 512) (hin : 137 ≤ start.toNat)
    (hend : start.toNat + capacity.toNat ≤ nextFree.toNat)
    (hfit : size.toNat ≤ 512 * capacity.toNat) :
    Allocation (oneFile f start size capacity nextFree).super
      (oneFile f start size capacity nextFree).entries := by
  refine ⟨oneFile_condition f (fun _ => ⟨hin, hend⟩) hfit, ?_, ?_⟩
  · rw [sfsDataLba_toNat]
    simp only [oneFile]
    omega
  · intro n hn h0
    by_cases h1 : n = 1
    · subst h1
      simp only [oneFile, Function.update_self] at h0
      rw [h0] at hin
      exact absurd hin (by decide)
    · rw [oneFile_other h1] at hn
      exact absurd hn zero_not_file

theorem sfs_write_refines_append : ∃ s',
    sfsWrite (oneFile (fun _ _ => 65) 137 3 1 138) (slotId 1) 3 (fun _ => 66) 600 = (s', some 600) ∧
    (content s'.entries s'.dev.sectors 1).length = 603 := by
  obtain ⟨s', hrun, hc, -⟩ := sfs_write_refines (oneFile (fun _ _ => 65) 137 3 1 138) 1 3 600
    (fun _ => 66) (fun _ => rfl) (oneFile_allocation _ (by decide) (by decide) (by decide))
    (by decide) (by decide) (by decide) (by decide) (by decide) (by decide)
  refine ⟨s', hrun, ?_⟩
  rw [hc]
  simp only [List.length_append, List.length_take, List.length_drop, content_length, dataBytes,
    List.length_map, List.length_range]
  decide

/-- Two states the extent condition alone admits and no run produces: with the
free end below the data area a file is placed outside it, and a file with bytes
but no extent loses them when it gets one. -/
theorem sfs_write_outside_allocation :
    (ExtentCondition (oneFile (fun _ _ => 0) 0 0 0 5).super (oneFile (fun _ _ => 0) 0 0 0 5).entries ∧
      (sfsWrite (oneFile (fun _ _ => 0) 0 0 0 5) (slotId 1) 0 (fun _ => 9) 1).2 = some 1 ∧
      ¬ ExtentCondition (sfsWrite (oneFile (fun _ _ => 0) 0 0 0 5) (slotId 1) 0 (fun _ => 9) 1).1.super
        (sfsWrite (oneFile (fun _ _ => 0) 0 0 0 5) (slotId 1) 0 (fun _ => 9) 1).1.entries) ∧
    (ExtentCondition (oneFile (fun l _ => if l = 0 then 7 else 0) 0 1 1 137).super
        (oneFile (fun l _ => if l = 0 then 7 else 0) 0 1 1 137).entries ∧
      content (oneFile (fun l _ => if l = 0 then 7 else 0) 0 1 1 137).entries
        (fun l _ => if l = 0 then 7 else 0) 1 = [7] ∧
      ∃ s', sfsWrite (oneFile (fun l _ => if l = 0 then 7 else 0) 0 1 1 137) (slotId 1) 1
          (fun _ => 9) 1 = (s', some 1) ∧
        content s'.entries s'.dev.sectors 1 = [0, 9]) := by
  refine ⟨⟨oneFile_condition _ (by decide) (by decide), by decide +kernel, fun h => ?_⟩,
    oneFile_condition _ (by decide) (by decide), by decide +kernel, _, Prod.ext rfl ?_, ?_⟩
  · have hm : 5 ∈ ((sfsWrite (oneFile (fun _ _ => 0) 0 0 0 5) (slotId 1) 0
        (fun _ => 9) 1).1.entries 1).extent := by
      rw [extent_of_file (by decide +kernel) (by decide +kernel), Set.mem_Ico]
      decide +kernel
    exact absurd (h.packed.inside 1 hm).1 (by decide)
  · decide +kernel
  · decide +kernel

end VertexOS
