import VertexOS.Fs.Crash

namespace VertexOS
open Library.BlockStore Library.Transitions

/-- `KERNEL_SECTORS` and `KERNEL_FIRST_READ_SECTORS` of the boot sector. -/
def kernelSectors : Nat := 208
def kernelFirstReadSectors : Nat := 127

/-- `os-image.bin`: the boot sector, the kernel payload, then zeros. -/
def osImage (boot : Sector) (kernel : Fin kernelSectors → Sector) : Store 512 := fun lba =>
  if lba = 0 then boot
  else if h : lba - 1 < kernelSectors then kernel ⟨lba - 1, h⟩
  else fun _ => 0

/-- The sectors `read_kernel_lba` loads, in its two reads. -/
def readKernelLba (f : Store 512) : List Sector :=
  (List.range kernelFirstReadSectors).map (fun i => f (1 + i)) ++
    (List.range (kernelSectors - kernelFirstReadSectors)).map
      (fun i => f (1 + kernelFirstReadSectors + i))

/-- The calls of a machine that may mount its volume again at any time. -/
inductive FsOp where
  | init
  | call (c : SfsCall)

def fsStep (s : SimpleFs) : FsOp → Except Fault (SimpleFs × Bool)
  | .init => .ok (sfsInit s)
  | .call c => sfsStep s c

def opStep (s : SimpleFs) (op : FsOp) (s' : SimpleFs) : Prop := ∃ ok, fsStep s op = .ok (s', ok)

/-- The superblock and the table can be read, and the superblock is signed. -/
def Mountable (s : SimpleFs) : Prop :=
  (∀ k, k < 9 → s.dev.faults (s.dev.accesses + k) = false) ∧ Signed (diskSuper s.dev.sectors)

/-- A call gets as far as `sfs_flush`: nothing in the state makes it return before. -/
def ReachesFlush (s : SimpleFs) : FsOp → Prop
  | .init => ¬ Mountable s
  | .call (.create path cwdId type perm) => ∃ p, sfsCreateEntry s path cwdId type perm = .ok (some p)
  | .call (.remove path cwdId) => ∃ n, sfsRemoveTarget s path cwdId = .ok (some n)
  | .call (.write nodeId offset data len) => ∃ n s1, fileWith s.entries nodeId sfsPermWrite = some n ∧
    sfsReserve s n (needSectors offset len) = (s1, true) ∧
    (writeLoop (s1.entries n).startLba offset data len s1.dev 0).2 ≠ none
  | .call (.truncate nodeId) => ∃ n, fileWith s.entries nodeId sfsPermWrite = some n

/-- The relocation of `sfs_write` starts to copy, to a free end below sector `b`. -/
def LowCopy (b : Nat) (s : SimpleFs) (n : Fin 64) (need : UInt32) : Prop :=
  (s.entries n).startLba ≠ 0 ∧ (s.entries n).capacitySectors < need ∧
    (s.entries n).capacitySectors ≠ 0 ∧ (blockdevRead s.dev (s.entries n).startLba).2 ≠ none ∧
    s.super.nextFreeLba.toNat < b

/-- The first data sector of an `sfs_write` lies below sector `b`. -/
def LowData (b : Nat) (s : SimpleFs) : FsOp → Prop
  | .call (.write nodeId offset _ len) => ∃ n, fileWith s.entries nodeId sfsPermWrite = some n ∧
    (LowCopy b s n (needSectors offset len) ∨
      ∃ s1, sfsReserve s n (needSectors offset len) = (s1, true) ∧ 0 < len ∧
        ((s1.entries n).startLba + offset / 512).toNat < b)
  | _ => False

/-- The call stops before its flush and puts no data below sector `b`. -/
def Spares (b : Nat) (s : SimpleFs) (op : FsOp) : Prop := ¬ ReachesFlush s op ∧ ¬ LowData b s op

/-- None of the recorded calls names a sector below `b`. -/
def Above (b : Nat) (xs : List (Write 512 × Bool)) : Prop := ∀ x ∈ xs, b ≤ x.1.block

theorem above_append : Above b (xs ++ ys) ↔ Above b xs ∧ Above b ys := List.forall_mem_append

theorem above_nil : Above b [] := fun x hx => by simp at hx

theorem loadTable_answered (d : Drive) (es : Table) (is : List (Fin 8)) :
    (loadTable d es is).2.2 = true ↔ ∀ k, k < is.length → d.faults (d.accesses + k) = false := by
  induction is generalizing d es with
  | nil => simp [loadTable]
  | cons i is ih =>
    have hl : ¬ sfsTableLba + UInt32.ofNat i ≥ sectorCount := by
      rw [ge_iff_le, UInt32.le_iff_toNat_le, tableLba_toNat, sectorCount_toNat]
      omega
    cases hf : d.faults d.accesses with
    | true =>
      simp only [loadTable, blockdevRead, if_neg hl, ataReadSector, hf, ↓reduceIte]
      refine ⟨fun h => by (cases h), fun h => ?_⟩
      have := h 0 (by simp)
      rw [Nat.add_zero, hf] at this
      cases this
    | false =>
      simp only [loadTable, blockdevRead, if_neg hl, ataReadSector, hf, Bool.false_eq_true,
        ↓reduceIte, ih, List.length_cons]
      refine ⟨fun h k hk => ?_, fun h k hk => ?_⟩
      · cases k with
        | zero => exact hf
        | succ k =>
          have := h k (by omega)
          rwa [Nat.add_assoc, Nat.add_comm 1] at this
      · have := h (k + 1) (by omega)
        rwa [Nat.add_assoc, Nat.add_comm 1]

theorem sfsLoad_answered (s : SimpleFs) :
    (sfsLoad s).2 = true ↔ ∀ k, k < 9 → s.dev.faults (s.dev.accesses + k) = false := by
  have hl : ¬ sfsSuperLba ≥ sectorCount := by decide
  cases hf : s.dev.faults s.dev.accesses with
  | true =>
    simp only [sfsLoad, blockdevRead, if_neg hl, ataReadSector, hf, ↓reduceIte]
    refine ⟨fun h => by (cases h), fun h => ?_⟩
    have := h 0 (by decide)
    rw [Nat.add_zero, hf] at this
    cases this
  | false =>
    simp only [sfsLoad, blockdevRead, if_neg hl, ataReadSector, hf, Bool.false_eq_true, ↓reduceIte,
      loadTable_answered, List.length_finRange]
    refine ⟨fun h k hk => ?_, fun h k hk => ?_⟩
    · cases k with
      | zero => exact hf
      | succ k =>
        have := h k (by omega)
        rwa [Nat.add_assoc, Nat.add_comm 1] at this
    · have := h (k + 1) (by omega)
      rwa [Nat.add_assoc, Nat.add_comm 1]

section Spares

variable {b : Nat} (hlow : 128 < b) (hhigh : b ≤ 65536)

include hlow

/-- A step that flushes writes the superblock, below `b`. -/
theorem flush_not_above (s : SimpleFs) : ∃ xs, Issued s.dev xs (sfsFlush s).1.dev ∧ ¬ Above b xs := by
  obtain ⟨xs, hx, ⟨x, hmem, h128⟩, -⟩ := sfsFlush_issued s
  refine ⟨xs, hx, fun h => ?_⟩
  have := h x hmem
  omega

theorem sfsInit_spares (s : SimpleFs) :
    ∃ xs, Issued s.dev xs (sfsInit s).1.dev ∧ (Above b xs ↔ Mountable s) := by
  have hanswer := sfsLoad_answered s
  obtain ⟨hsec, hcalls, hfaults⟩ := sfsLoad_frame s
  cases hl : sfsLoad s with
  | mk t ok =>
    rw [hl] at hanswer hsec hcalls hfaults
    have hload : Issued s.dev [] t.dev := ⟨hfaults, by rw [hcalls, List.append_nil], hsec⟩
    by_cases hm : Mountable s
    · obtain rfl := hanswer.mpr hm.1
      obtain ⟨hsup, -⟩ := sfsLoad_done hl
      have hsigned := hm.2
      rw [← hsup] at hsigned
      refine ⟨[], ?_, fun _ => hm, fun _ => above_nil⟩
      simpa only [sfsInit, hl, hsigned.1, hsigned.2, ne_eq, not_true_eq_false, Bool.true_eq_false,
        or_self, ↓reduceIte] using hload
    · have hcond : ok = false ∨ t.super.magic ≠ sfsMagic ∨ t.super.version ≠ sfsVersion := by
        cases ok with
        | false => exact Or.inl rfl
        | true =>
          refine Or.inr ?_
          by_contra hc
          push Not at hc
          refine hm ⟨hanswer.mp rfl, ?_⟩
          rw [← (sfsLoad_done hl).1]
          exact hc
      have hfree : sfsFindFreeEntry (fun _ => Entry.zero) = some 0 := by decide
      obtain ⟨xs, hx, hnot⟩ := flush_not_above hlow (formatted 0 t.dev)
      refine ⟨xs, ?_, fun h => absurd h hnot, fun h => absurd h hm⟩
      simp only [sfsInit, hl, if_pos hcond, hfree]
      exact hload.trans hx

include hhigh

omit hlow in
theorem sfsReserve_spares (s : SimpleFs) (n : Fin 64) (need : UInt32) :
    ∃ xs, Issued s.dev xs (sfsReserve s n need).1.dev ∧ (Above b xs ↔ ¬ LowCopy b s n need) := by
  unfold sfsReserve
  by_cases h0 : (s.entries n).startLba = 0
  · simp only [if_pos h0]
    exact ⟨[], Issued.refl s.dev, fun _ h => h.1 h0, fun _ => above_nil⟩
  · by_cases hc : need > (s.entries n).capacitySectors
    · simp only [if_neg h0, if_pos hc]
      obtain ⟨xs, hx, habove, hfirst, hnone⟩ := relocateLoop_issued (s.entries n).startLba
        s.super.nextFreeLba (s.entries n).capacitySectors.toNat s.dev 0
      rw [UInt32.add_zero] at hfirst hnone
      rw [UInt32.add_zero] at habove hfirst
      refine ⟨xs, ?_, fun h hlow => ?_, fun h => ?_⟩
      · cases hl : relocateLoop (s.entries n).startLba s.super.nextFreeLba
            (s.entries n).capacitySectors.toNat s.dev 0 with
        | mk dev ok =>
          rw [hl] at hx
          cases ok <;> exact hx
      · obtain ⟨-, -, hcap, hread, hbelow⟩ := hlow
        obtain ⟨x, hmem, hblock⟩ := hfirst (fun hz => hcap (UInt32.toNat_inj.mp hz)) hread
        have := h x hmem
        omega
      · by_cases hlt : s.super.nextFreeLba.toNat < b
        · -- the copy cannot have started
          by_cases hcap : (s.entries n).capacitySectors = 0
          · have hzero : xs = [] := by
              have hl : relocateLoop (s.entries n).startLba s.super.nextFreeLba
                  (s.entries n).capacitySectors.toNat s.dev 0 = (s.dev, true) := by
                rw [hcap]
                rfl
              rw [hl] at hx
              simpa using hx.calls
            rw [hzero]
            exact above_nil
          · have hread : (blockdevRead s.dev (s.entries n).startLba).2 = none := by
              by_contra hr
              exact h ⟨h0, hc, hcap, hr, hlt⟩
            rw [hnone hread]
            exact above_nil
        · exact habove b hhigh (by omega)
    · simp only [if_neg h0, if_neg hc]
      exact ⟨[], Issued.refl s.dev, fun _ h => hc h.2.1, fun _ => above_nil⟩

omit hlow hhigh in
theorem spares_write : Spares b s (.call (.write nodeId offset data len)) ↔
    ∀ n, fileWith s.entries nodeId sfsPermWrite = some n →
      ¬ LowCopy b s n (needSectors offset len) ∧
      ∀ s1, sfsReserve s n (needSectors offset len) = (s1, true) →
        (writeLoop (s1.entries n).startLba offset data len s1.dev 0).2 = none ∧
        ¬ (0 < len ∧ ((s1.entries n).startLba + offset / 512).toNat < b) := by
  refine ⟨fun h n hn => ⟨fun hl => h.2 ⟨n, hn, Or.inl hl⟩, fun s1 hr => ⟨?_, fun hl => ?_⟩⟩,
    fun h => ⟨?_, ?_⟩⟩
  · by_contra hw
    exact h.1 ⟨n, s1, hn, hr, hw⟩
  · exact h.2 ⟨n, hn, Or.inr ⟨s1, hr, hl⟩⟩
  · rintro ⟨n, s1, hn, hr, hw⟩
    exact hw ((h n hn).2 s1 hr).1
  · rintro ⟨n, hn, hl | ⟨s1, hr, hl⟩⟩
    · exact (h n hn).1 hl
    · exact ((h n hn).2 s1 hr).2 hl

omit hlow in
theorem writeLoop_above (start offset : UInt32) (data : Nat → UInt8) (len : UInt32) (d : Drive) :
    ∃ xs, Issued d xs (writeLoop start offset data len d 0).1 ∧
      (Above b xs ↔ ¬ (0 < len ∧ (start + offset / 512).toNat < b)) := by
  obtain ⟨xs, hx, habove, hfirst⟩ := writeLoop_issued start offset data len d 0
  rw [UInt32.add_zero] at habove hfirst
  refine ⟨xs, hx, fun h hl => ?_, fun h => ?_⟩
  · obtain ⟨x, hmem, hblock⟩ := hfirst hl.1
    have := h x hmem
    omega
  · by_cases hlen : 0 < len
    · refine habove b hhigh ?_
      by_contra hlt
      exact h ⟨hlen, by omega⟩
    · have hnil : xs = [] := by
        rw [writeLoop, dif_neg hlen] at hx
        simpa using hx.calls
      rw [hnil]
      exact above_nil

theorem sfsWrite_spares (s : SimpleFs) (nodeId offset : UInt32) (data : Nat → UInt8)
    (len : UInt32) : ∃ xs, Issued s.dev xs (sfsWrite s nodeId offset data len).1.dev ∧
      (Above b xs ↔ Spares b s (.call (.write nodeId offset data len))) := by
  rw [spares_write]
  unfold sfsWrite
  cases fileWith s.entries nodeId sfsPermWrite with
  | none => exact ⟨[], Issued.refl s.dev, fun _ n hn => by (cases hn), fun _ => above_nil⟩
  | some n =>
    obtain ⟨xs, hx, hcopy⟩ := sfsReserve_spares hhigh s n (needSectors offset len)
    have hone : ∀ P : Fin 64 → Prop, (∀ m, some n = some m → P m) ↔ P n :=
      fun P => ⟨fun h => h n rfl, fun h m hm => by (cases hm; exact h)⟩
    rw [hone]
    dsimp only
    cases hres : sfsReserve s n (needSectors offset len) with
    | mk s1 ok =>
      rw [hres] at hx
      cases ok with
      | false =>
        exact ⟨xs, hx, fun h => ⟨hcopy.mp h, fun s2 hr => by (cases hr)⟩, fun h => hcopy.mpr h.1⟩
      | true =>
        obtain ⟨ys, hy, hdata⟩ :=
          writeLoop_above hhigh (s1.entries n).startLba offset data len s1.dev
        dsimp only
        cases hloop : writeLoop (s1.entries n).startLba offset data len s1.dev 0 with
        | mk dev r =>
          rw [hloop] at hy
          cases r with
          | none =>
            refine ⟨_, hx.trans hy, fun h => ⟨?_, fun s2 hr => ?_⟩, fun h => above_append.mpr ?_⟩
            · exact hcopy.mp (above_append.mp h).1
            · cases hr
              exact ⟨by rw [hloop], hdata.mp (above_append.mp h).2⟩
            · exact ⟨hcopy.mpr h.1, hdata.mpr (h.2 s1 rfl).2⟩
          | some copied =>
            obtain ⟨zs, hz, hnot⟩ := flush_not_above hlow
              { s1 with dev, entries := extendSize s1.entries n (offset + len) }
            refine ⟨(xs ++ ys) ++ zs, ?_, fun h => absurd (above_append.mp h).2 hnot, fun h => ?_⟩
            · dsimp only
              cases hfl : sfsFlush
                  { s1 with dev, entries := extendSize s1.entries n (offset + len) } with
              | mk s2 done =>
                rw [hfl] at hz
                cases done <;> exact (hx.trans hy).trans hz
            · have hw := (h.2 s1 rfl).1
              rw [hloop] at hw
              cases hw

/-- A step names no sector below `b` exactly when it stops before its flush and
puts no data there. -/
theorem fsStep_spares (h : fsStep s op = .ok (s', ok)) :
    ∃ xs, Issued s.dev xs s'.dev ∧ (Above b xs ↔ Spares b s op) := by
  have hrefused : ∀ op, ¬ ReachesFlush s op → ¬ LowData b s op →
      ∃ xs, Issued s.dev xs s.dev ∧ (Above b xs ↔ Spares b s op) :=
    fun op h1 h2 => ⟨[], Issued.refl _, fun _ => ⟨h1, h2⟩, fun _ => above_nil⟩
  have hflush : ∀ op t t' ok, sfsFlush t = (t', ok) → t.dev = s.dev → ReachesFlush s op →
      ∃ xs, Issued s.dev xs t'.dev ∧ (Above b xs ↔ Spares b s op) := by
    intro op t t' ok hf hdev hr
    obtain ⟨xs, hx, hnot⟩ := flush_not_above hlow t
    rw [hf, hdev] at hx
    exact ⟨xs, hx, fun ha => absurd ha hnot, fun hs => absurd hr hs.1⟩
  cases op with
  | init =>
    obtain ⟨xs, hx, hiff⟩ := sfsInit_spares hlow s
    rw [Except.ok.inj h] at hx
    exact ⟨xs, hx, hiff.trans ⟨fun hm => ⟨fun hn => hn hm, fun hl => hl⟩, fun hs => by
      by_contra hn
      exact hs.1 hn⟩⟩
  | call c =>
    cases c with
    | create path cwd type perm =>
      simp only [fsStep, sfsStep, bind, Except.bind] at h
      cases hc : sfsCreate s path cwd type perm with
      | error => rw [hc] at h; cases h
      | ok p =>
        obtain ⟨s2, nodeId⟩ := p
        rw [hc] at h
        cases h
        rcases sfsCreate_cases hc with ⟨hnone, rfl, -⟩ | ⟨idx, e, hsome, hf, -⟩
        · refine hrefused _ ?_ (fun hl => hl)
          rintro ⟨p, hp⟩
          rw [hnone] at hp
          cases hp
        · exact hflush _ _ _ _ hf rfl ⟨_, hsome⟩
    | remove path cwd =>
      rcases sfsRemove_cases h with ⟨hnone, rfl, -⟩ | ⟨n, hsome, hf⟩
      · refine hrefused _ ?_ (fun hl => hl)
        rintro ⟨n, hn⟩
        rw [hnone] at hn
        cases hn
      · exact hflush _ _ _ _ hf rfl ⟨_, hsome⟩
    | write nodeId offset data len =>
      cases h
      exact sfsWrite_spares hlow hhigh s nodeId offset data len
    | truncate nodeId =>
      have h := Except.ok.inj h
      rcases sfsTruncate_cases s nodeId with ⟨hnone, ht⟩ | ⟨n, hsome, ht⟩
      · rw [ht] at h
        cases h
        refine hrefused _ ?_ (fun hl => hl)
        rintro ⟨n, hn⟩
        rw [hnone] at hn
        cases hn
      · rw [ht] at h
        exact hflush _ _ _ _ h rfl ⟨_, hsome⟩

theorem run_spares (h : Run opStep s ops s') : ∃ xs, Issued s.dev xs s'.dev ∧
    (Above b xs ↔ Run (fun s op s' => Spares b s op ∧ opStep s op s') s ops s') := by
  induction h with
  | nil s => exact ⟨[], Issued.refl _, fun _ => .nil s, fun _ => above_nil⟩
  | @cons s t u op ops head tail ih =>
    obtain ⟨ok, hok⟩ := head
    obtain ⟨xs, hx, hstep⟩ := fsStep_spares hlow hhigh hok
    obtain ⟨ys, hy, hrest⟩ := ih
    refine ⟨xs ++ ys, hx.trans hy, fun ha => ?_, fun hrun => ?_⟩
    · obtain ⟨ha1, ha2⟩ := above_append.mp ha
      exact .cons ⟨hstep.mp ha1, ok, hok⟩ (hrest.mp ha2)
    · cases hrun with
      | cons hhead htail =>
        obtain ⟨hsp, ok', hok'⟩ := hhead
        rw [hok] at hok'
        cases hok'
        exact above_append.mpr ⟨hstep.mpr hsp, hrest.mpr htail⟩

end Spares

/-- A run names no sector below `b`, the end of the boot image, exactly when each
of its steps stops before its flush and puts no data there; then the machine
boots the same kernel as before. -/
theorem boot_image_kept_iff (s s' : SimpleFs) (ops : List FsOp) (h : Run opStep s ops s') :
    ∃ xs, s'.dev.calls = s.dev.calls ++ xs ∧
      (∀ b, b = kernelSectors ∨ b = kernelSectors + 1 →
        ((∀ x ∈ xs, b ≤ x.1.block) ↔
          Run (fun s op s' => Spares b s op ∧ opStep s op s') s ops s') ∧
        (Run (fun s op s' => Spares b s op ∧ opStep s op s') s ops s' →
          ∀ lba, lba < b → s'.dev.sectors lba = s.dev.sectors lba)) ∧
      (Run (fun s op s' => Spares (kernelSectors + 1) s op ∧ opStep s op s') s ops s' →
        readKernelLba s'.dev.sectors = readKernelLba s.dev.sectors) := by
  have hkept : ∀ b, b = kernelSectors ∨ b = kernelSectors + 1 → ∃ xs, Issued s.dev xs s'.dev ∧
      (Above b xs ↔ Run (fun s op s' => Spares b s op ∧ opStep s op s') s ops s') := by
    intro b hb
    unfold kernelSectors at hb
    exact run_spares (by omega) (by omega) h
  have hsame : ∀ b, b = kernelSectors ∨ b = kernelSectors + 1 →
      Run (fun s op s' => Spares b s op ∧ opStep s op s') s ops s' →
      ∀ lba, lba < b → s'.dev.sectors lba = s.dev.sectors lba := by
    intro b hb hrun lba hlba
    obtain ⟨xs, hx, hiff⟩ := hkept b hb
    refine hx.other (fun x hmem he => ?_)
    have := hiff.mpr hrun x hmem
    omega
  obtain ⟨xs, hx, -⟩ := hkept kernelSectors (Or.inl rfl)
  refine ⟨xs, hx.calls, fun b hb => ⟨?_, hsame b hb⟩, fun hrun => ?_⟩
  · obtain ⟨ys, hy, hiff⟩ := hkept b hb
    have : xs = ys := List.append_cancel_left (hx.calls.symm.trans hy.calls)
    rw [this]
    exact hiff
  · have hlba := hsame _ (Or.inr rfl) hrun
    unfold readKernelLba
    congr 1 <;>
    · apply List.map_congr_left
      intro i hi
      rw [List.mem_range] at hi
      apply hlba
      unfold kernelSectors kernelFirstReadSectors at *
      omega

/-- Mounting a signed disk again spares the boot image. -/
theorem boot_image_kept_remount : ∃ s', Run opStep
      (flushed (formatted 0 blankDrive).super (formatted 0 blankDrive).entries) [.init] s' ∧
    readKernelLba s'.dev.sectors = readKernelLba
      (flushed (formatted 0 blankDrive).super (formatted 0 blankDrive).entries).dev.sectors := by
  have hstep : opStep (flushed (formatted 0 blankDrive).super (formatted 0 blankDrive).entries)
      .init (sfsInit (flushed (formatted 0 blankDrive).super (formatted 0 blankDrive).entries)).1 :=
    ⟨_, rfl⟩
  refine ⟨_, .cons hstep (.nil _), ?_⟩
  obtain ⟨xs, -, -, hboot⟩ := boot_image_kept_iff _ _ [.init] (.cons hstep (.nil _))
  refine hboot (.cons ⟨⟨fun hr => hr ⟨fun _ _ => rfl, ?_⟩, fun hl => hl⟩, hstep⟩ (.nil _))
  rw [(flushed_synced _ _).super]
  exact ⟨rfl, rfl⟩

/-- A machine that starts for the first time, its kernel one long row of `nop`. -/
def firstBoot : SimpleFs :=
  powerOn { blankDrive with sectors := osImage (fun _ => 0) fun _ _ => 0x90 }

/-- The first mount of the image that is built writes the superblock over the
kernel's sector 127. -/
theorem boot_image_overwritten : ∃ s', Run opStep firstBoot [.init] s' ∧
    (∃ x ∈ s'.dev.calls, x.1.block < kernelSectors) ∧
    readKernelLba s'.dev.sectors ≠ readKernelLba firstBoot.dev.sectors := by
  refine ⟨(sfsInit firstBoot).1, .cons ⟨_, rfl⟩ (.nil _), ?_, fun he => ?_⟩
  · have hfirst : (sfsInit firstBoot).1.dev.calls.any
        (fun x => x.1.block < kernelSectors) = true := by decide +kernel
    obtain ⟨x, hx, hlow⟩ := List.any_eq_true.mp hfirst
    exact ⟨x, hx, of_decide_eq_true hlow⟩
  · have := congrArg (fun l => l[127]?.map (fun b => b 0)) he
    revert this
    decide +kernel

end VertexOS
