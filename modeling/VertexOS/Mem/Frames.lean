import VertexOS.Mem.Pmm

namespace VertexOS
open Library.Bitmap Library.Memory Library.Words

/-- The frames whose bit is clear. -/
def clearFrames (p : Pmm) : Finset Nat := clearBelow pmmMaxFrames p.bitmap

/-- The counters agree with the bitmap. -/
structure Balanced (p : Pmm) : Prop where
  accounts : p.usedBytes.toNat + 4096 * (clearFrames p).card = p.totalBytes.toNat
  bounded : p.totalBytes.toNat ≤ 268435456

theorem mem_clearFrames {p : Pmm} {f : Nat} :
    f ∈ clearFrames p ↔ f < 65536 ∧ testBit p.bitmap f = false := mem_clearBelow

theorem clearFrames_card_le (p : Pmm) : (clearFrames p).card ≤ 65536 :=
  clearBelow_card_le pmmMaxFrames p.bitmap

theorem page_div (a : UInt32) : (a / pageSize).toNat = a.toNat / 4096 := UInt32.toNat_div a pageSize

theorem page_add {a : UInt32} (h : a.toNat + 4096 < 4294967296) :
    (a + pageSize).toNat = a.toNat + 4096 := by
  rw [UInt32.toNat_add]
  exact Nat.mod_eq_of_lt h

theorem page_floor (a : UInt32) : (a &&& ~~~(pageSize - 1)).toNat = a.toNat / 4096 * 4096 := by
  rw [UInt32.toNat_and]
  exact and_highMask _ 12 20 a.toNat_lt

theorem page_ceil (a : UInt32) :
    (alignUp a pageSize).toNat = (a.toNat + 4095) % 4294967296 / 4096 * 4096 := by
  have hs : (a + pageSize - 1).toNat = (a.toNat + 4095) % 4294967296 := by
    simp only [pageSize, UInt32.toNat_sub, UInt32.toNat_add,
      show (4096 : UInt32).toNat = 4096 from rfl, show (1 : UInt32).toNat = 1 from rfl]
    omega
  rw [alignUp, UInt32.toNat_and, hs]
  exact and_highMask _ 12 20 (by omega)

/-- Taking a clear frame, by `reserve_range` or `pmm_alloc_frame`. -/
def Pmm.take (p : Pmm) (f : Nat) : Pmm :=
  { p with bitmap := setBit p.bitmap f, usedBytes := p.usedBytes + pageSize }

section Frames

variable {p : Pmm} {f : Nat}

theorem take_clear (p : Pmm) (f : Nat) : clearFrames (p.take f) = (clearFrames p).erase f :=
  clearBelow_setBit _ _ _

theorem take_balanced (h : Balanced p) (hf : f ∈ clearFrames p) : Balanced (p.take f) := by
  have hacc := h.accounts
  have hb := h.bounded
  have hcard := Finset.card_erase_add_one hf
  have hused : (p.take f).usedBytes.toNat = p.usedBytes.toNat + 4096 := by
    apply page_add
    omega
  refine ⟨?_, hb⟩
  rw [take_clear, hused]
  change _ = p.totalBytes.toNat
  omega

theorem reserveFrame_eq (p : Pmm) (f : Nat) :
    reserveFrame p f = if f ∈ clearFrames p then p.take f else p := by
  simp only [reserveFrame, mem_clearFrames]
  rfl

theorem reserveFrame_clear (p : Pmm) (f : Nat) :
    clearFrames (reserveFrame p f) = (clearFrames p).erase f := by
  rw [reserveFrame_eq]
  split
  · exact take_clear p f
  · next h => exact (Finset.erase_eq_of_notMem h).symm

theorem reserveFrame_balanced (h : Balanced p) : Balanced (reserveFrame p f) := by
  rw [reserveFrame_eq]
  split
  · next hf => exact take_balanced h hf
  · exact h

theorem releaseFrame_clear (hf : f < 65536) :
    clearFrames (releaseFrame p f) = insert f (clearFrames p) := by
  simp only [releaseFrame]
  split
  · exact clearBelow_clearBit p.bitmap hf
  · next h =>
    apply (Finset.insert_eq_of_mem _).symm
    exact mem_clearFrames.mpr ⟨hf, by simpa using h⟩

/-- While the regions are added no frame is in use. -/
def Unused (p : Pmm) : Prop := Balanced p ∧ p.usedBytes = 0

theorem releaseFrame_unused (hf : f < 65536) (h : Unused p) : Unused (releaseFrame p f) := by
  obtain ⟨⟨hacc, hb⟩, hu⟩ := h
  have hclear := releaseFrame_clear (p := p) hf
  have hle := clearFrames_card_le (releaseFrame p f)
  simp only [releaseFrame] at hclear hle ⊢
  split
  · next ht =>
    have hnot : f ∉ clearFrames p := by
      intro hm
      rw [(mem_clearFrames.mp hm).2] at ht
      cases ht
    simp only [ht, if_true] at hclear hle
    have hcard := Finset.card_insert_of_notMem hnot
    rw [← hclear] at hcard
    rw [hu] at hacc
    have htotal : (p.totalBytes + pageSize).toNat = p.totalBytes.toNat + 4096 := by
      apply page_add
      simp only [UInt32.toNat_zero] at hacc
      omega
    refine ⟨⟨?_, ?_⟩, hu⟩
    · change p.usedBytes.toNat + 4096 * (clearFrames _).card = (p.totalBytes + pageSize).toNat
      rw [htotal, hcard, hu]
      omega
    · change (p.totalBytes + pageSize).toNat ≤ _
      rw [htotal]
      simp only [UInt32.toNat_zero] at hacc
      omega
  · exact ⟨⟨hacc, hb⟩, hu⟩

theorem reserveFrame_total (p : Pmm) (f : Nat) :
    (reserveFrame p f).totalBytes = p.totalBytes := by
  simp only [reserveFrame]
  split <;> rfl

end Frames

section Loops

variable {p : Pmm} {f : Nat}

theorem reserveLoop_total (n : Nat) (p : Pmm) (addr stop : UInt32) :
    (reserveLoop n p addr stop).totalBytes = p.totalBytes := by
  induction n generalizing p addr with
  | zero => rfl
  | succ n ih =>
    simp only [reserveLoop]
    split
    · rw [ih, reserveFrame_total]
    · rfl

theorem reserveLoop_balanced (n : Nat) (addr stop : UInt32) (h : Balanced p) :
    Balanced (reserveLoop n p addr stop) := by
  induction n generalizing p addr with
  | zero => exact h
  | succ n ih =>
    simp only [reserveLoop]
    split
    · exact ih _ (reserveFrame_balanced h)
    · exact h

/-- The loop takes the frames from `i` up to `j`. -/
theorem reserveLoop_clear {n i j : Nat} {addr stop : UInt32} (hi : addr.toNat = i * 4096)
    (hj : stop.toNat = j * 4096) (hn : j ≤ i + n) :
    f ∈ clearFrames (reserveLoop n p addr stop) ↔ f ∈ clearFrames p ∧ ¬(i ≤ f ∧ f < j) := by
  induction n generalizing p addr i with
  | zero =>
    have : ¬(i ≤ f ∧ f < j) := by omega
    simp [reserveLoop, this]
  | succ n ih =>
    have hlt := stop.toNat_lt
    simp only [reserveLoop]
    split
    · next h =>
      rw [UInt32.lt_iff_toNat_lt] at h
      have hnext : (addr + pageSize).toNat = (i + 1) * 4096 := by
        rw [page_add] <;> omega
      have hframe : (addr / pageSize).toNat = i := by
        rw [page_div]
        omega
      rw [ih hnext (by omega), hframe, reserveFrame_clear, Finset.mem_erase]
      constructor
      · rintro ⟨⟨hne, hf⟩, hout⟩
        exact ⟨hf, by omega⟩
      · rintro ⟨hf, hout⟩
        exact ⟨⟨by omega, hf⟩, by omega⟩
    · next h =>
      rw [UInt32.lt_iff_toNat_lt] at h
      have : ¬(i ≤ f ∧ f < j) := by omega
      simp [this]

/-- The frames `reserve_range` covers; `end + 4095` is 32-bit arithmetic. -/
def Reserves (start stop : UInt32) (f : Nat) : Prop :=
  start.toNat / 4096 ≤ f ∧ f < (stop.toNat + 4095) % 4294967296 / 4096

instance (start stop : UInt32) (f : Nat) : Decidable (Reserves start stop f) :=
  inferInstanceAs (Decidable (_ ∧ _))

theorem reserveRange_clear (start stop : UInt32) :
    f ∈ clearFrames (reserveRange p start stop) ↔ f ∈ clearFrames p ∧ ¬Reserves start stop f := by
  apply reserveLoop_clear (page_floor start) (page_ceil stop)
  simp only [addressPages]
  omega

theorem reserveRange_balanced (start stop : UInt32) (h : Balanced p) :
    Balanced (reserveRange p start stop) := reserveLoop_balanced _ _ _ h

theorem reserveRange_total (p : Pmm) (start stop : UInt32) :
    (reserveRange p start stop).totalBytes = p.totalBytes := reserveLoop_total _ _ _ _

theorem regionLoop_unused (n : Nat) {addr stop : UInt32} (hstop : stop.toNat ≤ 268435456)
    (haddr : addr.toNat ≤ 268435456) (h : Unused p) : Unused (regionLoop n p addr stop) := by
  induction n generalizing p addr with
  | zero => exact h
  | succ n ih =>
    have hnext : (addr + pageSize).toNat = addr.toNat + 4096 := by
      apply page_add
      omega
    simp only [regionLoop]
    split
    · next hc =>
      rw [UInt32.le_iff_toNat_le, hnext] at hc
      apply ih (by omega)
      apply releaseFrame_unused _ h
      rw [page_div]
      omega
    · exact h

theorem regionLoop_clear {n : Nat} {addr stop : UInt32} (hstop : stop.toNat ≤ 268435456)
    (haddr : addr.toNat ≤ 268435456) (hn : stop.toNat ≤ addr.toNat + 4096 * n) :
    f ∈ clearFrames (regionLoop n p addr stop) ↔ f ∈ clearFrames p ∨
      (addr.toNat / 4096 ≤ f ∧ f < addr.toNat / 4096 + (stop.toNat - addr.toNat) / 4096) := by
  induction n generalizing p addr with
  | zero =>
    have : ¬(addr.toNat / 4096 ≤ f ∧
        f < addr.toNat / 4096 + (stop.toNat - addr.toNat) / 4096) := by omega
    simp [regionLoop, this]
  | succ n ih =>
    have hnext : (addr + pageSize).toNat = addr.toNat + 4096 := by
      apply page_add
      omega
    simp only [regionLoop]
    split
    · next hc =>
      rw [UInt32.le_iff_toNat_le, hnext] at hc
      have hframe : (addr / pageSize).toNat < 65536 := by
        rw [page_div]
        omega
      rw [ih (by omega) (by omega), hnext, releaseFrame_clear hframe, Finset.mem_insert, page_div]
      constructor
      · rintro ((hf | hf) | hf)
        · exact .inr (by omega)
        · exact .inl hf
        · exact .inr (by omega)
      · rintro (hf | hf)
        · exact .inl (.inr hf)
        · by_cases he : f = addr.toNat / 4096
          · exact .inl (.inl he)
          · exact .inr (by omega)
    · next hc =>
      rw [UInt32.le_iff_toNat_le, hnext] at hc
      have : ¬(addr.toNat / 4096 ≤ f ∧
          f < addr.toNat / 4096 + (stop.toNat - addr.toNat) / 4096) := by omega
      simp [this]

end Loops

section Init

variable {p : Pmm} {f : Nat}

/-- The region is used: it does not wrap and starts below 256 MiB. -/
def Accepted (r : MemoryRegion) : Prop :=
  r.base < r.base + r.length ∧ r.base < pmmMaxMemoryBytes

/-- The end of a region, cut at 256 MiB. -/
def regionStop (r : MemoryRegion) : Nat := min (r.base + r.length).toNat 268435456

/-- The frames that a region makes allocatable. -/
def Offers (r : MemoryRegion) (f : Nat) : Prop :=
  Accepted r ∧ r.base.toNat / 4096 ≤ f ∧
    f < r.base.toNat / 4096 + (regionStop r - r.base.toNat) / 4096

instance (r : MemoryRegion) : Decidable (Accepted r) := inferInstanceAs (Decidable (_ ∧ _))

instance (r : MemoryRegion) (f : Nat) : Decidable (Offers r f) :=
  inferInstanceAs (Decidable (_ ∧ _))

theorem addRegion_eq (p : Pmm) (r : MemoryRegion) (h : Accepted r) :
    ∃ stop : UInt32, stop.toNat = regionStop r ∧
      addRegion p r = regionLoop addressPages p r.base stop := by
  obtain ⟨hend, hbase⟩ := h
  have h1 : ¬r.base + r.length ≤ r.base := UInt32.not_le.mpr hend
  have h2 : ¬r.base ≥ pmmMaxMemoryBytes := UInt32.not_le.mpr hbase
  refine ⟨_, ?_, by simp only [addRegion, h1, h2, if_false]; rfl⟩
  simp only [regionStop]
  split
  · next hc =>
    rw [gt_iff_lt, UInt32.lt_iff_toNat_lt] at hc
    rw [min_eq_right]
    · rfl
    · exact Nat.le_of_lt hc
  · next hc =>
    rw [gt_iff_lt, UInt32.lt_iff_toNat_lt] at hc
    rw [min_eq_left]
    exact Nat.le_of_not_lt hc

theorem addRegion_skip (p : Pmm) (r : MemoryRegion) (h : ¬Accepted r) : addRegion p r = p := by
  simp only [addRegion]
  split
  · rfl
  · next hend =>
    split
    · rfl
    · next hbase =>
      exact absurd ⟨UInt32.not_le.mp hend, UInt32.not_le.mp hbase⟩ h

theorem accepted_base {r : MemoryRegion} (h : Accepted r) : r.base.toNat < 268435456 := by
  exact UInt32.lt_iff_toNat_lt.mp h.2

theorem addRegion_unused (r : MemoryRegion) (h : Unused p) : Unused (addRegion p r) := by
  by_cases ha : Accepted r
  · obtain ⟨stop, hstop, he⟩ := addRegion_eq p r ha
    rw [he]
    apply regionLoop_unused _ _ (Nat.le_of_lt (accepted_base ha)) h
    rw [hstop]
    exact min_le_right _ _
  · rw [addRegion_skip p r ha]
    exact h

theorem addRegion_clear (r : MemoryRegion) :
    f ∈ clearFrames (addRegion p r) ↔ f ∈ clearFrames p ∨ Offers r f := by
  by_cases ha : Accepted r
  · obtain ⟨stop, hstop, he⟩ := addRegion_eq p r ha
    have hle : stop.toNat ≤ 268435456 := by
      rw [hstop]
      exact min_le_right _ _
    rw [he, regionLoop_clear hle (Nat.le_of_lt (accepted_base ha)), hstop]
    · simp [Offers, ha]
    · simp only [addressPages]
      omega
  · simp [addRegion_skip p r ha, Offers, ha]

theorem addRegions_unused (rs : List MemoryRegion) (h : Unused p) :
    Unused (rs.foldl addRegion p) := by
  induction rs generalizing p with
  | nil => exact h
  | cons r rs ih => exact ih (addRegion_unused r h)

theorem addRegions_clear (rs : List MemoryRegion) :
    f ∈ clearFrames (rs.foldl addRegion p) ↔ f ∈ clearFrames p ∨ ∃ r ∈ rs, Offers r f := by
  induction rs generalizing p with
  | nil => simp
  | cons r rs ih =>
    rw [List.foldl_cons, ih, addRegion_clear, or_assoc]
    simp

/-- The state `pmm_init` starts from: every bit set. -/
def allTaken : Pmm := ⟨fun _ => 0xFF, 0, 0⟩

theorem allTaken_clear : clearFrames allTaken = ∅ := by
  have h : ∀ k : Fin 8, ((0xFF : UInt8).toNat).testBit k = true := by decide
  apply Finset.eq_empty_of_forall_notMem
  intro f hf
  have ht := (mem_clearFrames.mp hf).2
  rw [testBit_eq] at ht
  have := h ⟨f % 8, Nat.mod_lt _ (by decide)⟩
  rw [show allTaken.bitmap (f / 8) = 0xFF from rfl] at ht
  rw [ht] at this
  cases this

theorem allTaken_unused : Unused allTaken := by
  refine ⟨⟨?_, by decide⟩, rfl⟩
  rw [allTaken_clear]
  rfl

theorem addRegion_total_ne (rs : List MemoryRegion) {r : MemoryRegion} (hr : r ∈ rs)
    (hf : Offers r f) : (rs.foldl addRegion allTaken).totalBytes ≠ 0 := by
  obtain ⟨hb, hu⟩ := addRegions_unused rs allTaken_unused
  have hmem : f ∈ clearFrames (rs.foldl addRegion allTaken) :=
    (addRegions_clear rs).mpr (.inr ⟨r, hr, hf⟩)
  have hpos := Finset.card_pos.mpr ⟨f, hmem⟩
  have hacc := hb.accounts
  intro h0
  rw [h0, hu, UInt32.toNat_zero] at hacc
  omega

/-- `pmm_init` succeeds as soon as one region offers a frame. -/
theorem pmmInit_some {rs : List MemoryRegion} {r : MemoryRegion} (ks ke : UInt32) (hr : r ∈ rs)
    (hf : Offers r f) : ∃ p, pmmInit rs ks ke = some p := by
  have h0 := addRegion_total_ne rs hr hf
  simp only [pmmInit, reserveRange_total]
  exact ⟨_, if_neg h0⟩

/-- `pmm_init` leaves clear the frames that a region offers and no range reserves. -/
theorem pmmInit_spec {rs : List MemoryRegion} {ks ke : UInt32} (h : pmmInit rs ks ke = some p) :
    Balanced p ∧ ∀ f, f ∈ clearFrames p ↔
      (∃ r ∈ rs, Offers r f) ∧ 256 ≤ f ∧ ¬Reserves ks ke f := by
  simp only [pmmInit] at h
  split at h
  · cases h
  · cases h
    have hu := addRegions_unused rs allTaken_unused
    refine ⟨?_, ?_⟩
    · apply reserveRange_balanced
      apply reserveRange_balanced
      apply reserveRange_balanced
      exact hu.1
    · intro f
      have hc := addRegions_clear (p := allTaken) (f := f) rs
      rw [allTaken_clear] at hc
      simp only [Finset.notMem_empty, false_or] at hc
      rw [reserveRange_clear, reserveRange_clear, reserveRange_clear]
      change (((f ∈ clearFrames (rs.foldl addRegion allTaken) ∧ _) ∧ _) ∧ _) ↔ _
      rw [hc]
      have hlow : Reserves 0 0x00100000 f ↔ f < 256 := by
        simp [Reserves]
      have hboot : Reserves 0x00004F00 0x00006000 f ↔ 4 ≤ f ∧ f < 6 := by
        simp [Reserves]
      rw [hlow, hboot]
      constructor
      · rintro ⟨⟨⟨ho, h1⟩, h2⟩, -⟩
        exact ⟨ho, by omega, h2⟩
      · rintro ⟨ho, h1, h2⟩
        exact ⟨⟨⟨ho, by omega⟩, h2⟩, by omega⟩

end Init

end VertexOS
