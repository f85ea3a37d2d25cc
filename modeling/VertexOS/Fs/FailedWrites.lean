import VertexOS.Fs.WriteRange

namespace VertexOS
open Library.BlockStore

section LoopRun

variable {base stop : Nat} {len : UInt32} {data : Nat → UInt8} {d d' : Drive} {r : Option UInt32}

/-- A drive that refuses nothing ends the loop early exactly at its last sector. -/
theorem LoopRun.ends (h : LoopRun base len data d 0 d' r stop) (hr : d.Reliable) :
    r = some len ∧ (len.toNat = 0 ∨ base + len.toNat ≤ 512 * 65536) ∨
      r = none ∧ len.toNat ≠ 0 ∧ 512 * 65536 < base + len.toNat := by
  rcases h.finished with ⟨hsome, he⟩ | ⟨hnone, hlt, hend | hfault⟩
  · refine .inl ⟨hsome, ?_⟩
    by_cases h0 : len.toNat = 0
    · exact .inl h0
    · have hdev := h.device (by omega)
      exact .inr (by omega)
  · exact .inr ⟨hnone, by omega, by omega⟩
  · rw [hr] at hfault
    cases hfault

/-- It writes the data up to that sector. -/
theorem LoopRun.byte_reliable (h : LoopRun base len data d 0 d' r stop) (hr : d.Reliable) (a : Nat) :
    byte d'.sectors a = if base ≤ a ∧ a < base + len.toNat ∧ a < 512 * 65536 then data (a - base)
      else byte d.sectors a := by
  have hread : ¬(0 < stop ∧ (base + 0) / 512 ≤ a / 512 ∧ 512 * (a / 512) < base + stop ∧
      d.faults (d.accesses + 2 * (a / 512 - (base + 0) / 512)) = true) := by
    rintro ⟨-, -, -, hfault⟩
    rw [hr] at hfault
    cases hfault
  rw [h.bytes, loopByte, if_neg hread]
  apply if_congr _ rfl rfl
  rcases h.finished with ⟨-, he⟩ | ⟨-, hlt, hend | hfault⟩
  · constructor
    · rintro ⟨hlow, hhigh⟩
      have hdev := h.device (by omega)
      omega
    · rintro ⟨hlow, hhigh, -⟩
      omega
  · constructor
    · rintro ⟨hlow, hhigh⟩
      have hdev := h.device (by omega)
      omega
    · rintro ⟨hlow, hhigh, hlast⟩
      omega
  · rw [hr] at hfault
    cases hfault

end LoopRun

/-- The old sectors do not fit at the free end. -/
def CopyLacksSpace (s : SimpleFs) (n : Fin 64) (need : UInt32) : Prop :=
  Relocates (s.entries n) need ∧ 0 < (s.entries n).capacitySectors.toNat ∧
    65536 < s.super.nextFreeLba.toNat + (s.entries n).capacitySectors.toNat

/-- The data fits on the device where it is to be written. -/
def DataFits (s : SimpleFs) (n : Fin 64) (offset len : UInt32) : Prop :=
  len = 0 ∨ 512 * (placedStart s n (needSectors offset len)).toNat + offset.toNat + len.toNat ≤
    512 * 65536

/-- The file stays in place and the device already holds what it can take of the data. -/
def WritesSame (s : SimpleFs) (n : Fin 64) (offset : UInt32) (data : Nat → UInt8)
    (len : UInt32) : Prop :=
  ¬Moves (s.entries n) (needSectors offset len) ∧
    ∀ k, k < (s.entries n).size.toNat → offset.toNat ≤ k → k < offset.toNat + len.toNat →
      (s.entries n).startLba.toNat + k / 512 < 65536 →
      data (k - offset.toNat) = byte s.dev.sectors (512 * (s.entries n).startLba.toNat + k)

section Reserve

variable {s s1 : SimpleFs} {n : Fin 64} {need : UInt32}

theorem copyFails_reliable (hr : s.dev.Reliable) (hx : ExtentCondition s.super s.entries)
    (hf : (s.entries n).IsFile) (hno : s.super.nextFreeLba.toNat + need.toNat < 4294967296) :
    CopyFails s n need ↔ CopyLacksSpace s n need := by
  constructor
  · rintro ⟨hrel, j, hj, hstop⟩
    have hcap := UInt32.lt_iff_toNat_lt.mp hrel.2
    have hj' : (UInt32.ofNat j).toNat = j := by
      rw [UInt32.toNat_ofNat']
      omega
    refine ⟨hrel, by omega, ?_⟩
    have hend := hx.below hf hrel.1
    rcases hstop with h | h | h | h
    · rw [UInt32.toNat_add, hj'] at h
      omega
    · rw [UInt32.toNat_add, hj'] at h
      omega
    · rw [hr] at h
      cases h
    · rw [hr] at h
      cases h
  · rintro ⟨hrel, hpos, hfull⟩
    have hcap := UInt32.lt_iff_toNat_lt.mp hrel.2
    refine ⟨hrel, (s.entries n).capacitySectors.toNat - 1, by omega, .inr (.inl ?_)⟩
    rw [UInt32.toNat_add, UInt32.toNat_ofNat']
    omega

/-- A reservation that fails leaves superblock and table. -/
theorem sfsReserve_failed (h : sfsReserve s n need = (s1, false)) :
    s1.super = s.super ∧ s1.entries = s.entries := by
  rcases sfsReserve_cases s n need with ⟨-, he⟩ | ⟨-, he⟩ | ⟨-, he⟩
  · rw [he] at h
    cases h
  · rw [he] at h
    cases hl : relocateLoop (s.entries n).startLba s.super.nextFreeLba
        (s.entries n).capacitySectors.toNat s.dev 0 with
    | mk dev ok =>
      rw [hl] at h
      cases ok with
      | false =>
        cases h
        exact ⟨rfl, rfl⟩
      | true => cases h
  · rw [he] at h
    cases h

/-- Below the free end a reservation changes nothing, whatever the drive does. -/
theorem sfsReserve_low (s : SimpleFs) (n : Fin 64) (need : UInt32)
    (ha : a / 512 < s.super.nextFreeLba.toNat) :
    byte (sfsReserve s n need).1.dev.sectors a = byte s.dev.sectors a := by
  obtain ⟨xs, hxs⟩ := sfsReserve_issued s n need
  have hin : ∀ x ∈ s.dev.callsSince (sfsReserve s n need).1.dev, x.1.block ∈
      Set.Ico s.super.nextFreeLba.toNat (s.super.nextFreeLba.toNat + need.toNat) :=
    sfsReserve_inside
  rw [hxs.callsSince] at hin
  unfold byte
  rw [hxs.other fun x hx he => ?_]
  have hblock := hin x hx
  rw [he, Set.mem_Ico] at hblock
  omega

end Reserve

/-- A file whose entry stays keeps its content exactly when it keeps its bytes. -/
theorem content_kept {es es' : Table} {f f' : Store 512} {m : Fin 64} (he : es' m = es m) :
    content es' f' m = content es f m ↔ ∀ k, k < (es m).size.toNat →
      byte f' (512 * (es m).startLba.toNat + k) = byte f (512 * (es m).startLba.toNat + k) := by
  rw [content, content, he, List.map_inj_left]
  simp only [List.mem_range]

/-- With its sectors reserved, a write on a drive that refuses nothing fails exactly where its data
loop ends early. -/
theorem sfsWrite_loop {s1 : SimpleFs} (hr : s.dev.Reliable)
    (hfile : fileWith s.entries nodeId sfsPermWrite = some n)
    (hres : sfsReserve s n (needSectors offset len) = (s1, true))
    (hwrap : offset.toNat + len.toNat < 4294967296)
    (hno : (s1.entries n).startLba.toNat + (offset.toNat + len.toNat) / 512 < 4294967296)
    (data : Nat → UInt8) :
    ∃ d r stop, LoopRun (512 * (s1.entries n).startLba.toNat + offset.toNat) len data s1.dev 0 d r
        stop ∧
      (r = some len ∧ (sfsWrite s nodeId offset data len).2 = some len ∨
        r = none ∧ sfsWrite s nodeId offset data len = ({ s1 with dev := d }, none)) := by
  have hzero : (0 : UInt32).toNat ≤ len.toNat := Nat.zero_le _
  obtain ⟨d, r, stop, hloop, hrun⟩ := writeLoop_run data s1.dev hwrap hno hzero
  refine ⟨d, r, stop, hrun, ?_⟩
  simp only [sfsWrite, hfile, hres, hloop]
  rcases hrun.finished with ⟨rfl, -⟩ | ⟨rfl, -⟩
  · have hrel : d.Reliable := by
      intro k
      rw [hrun.faults, (sfsReserve_place hres).2.2.2]
      exact hr k
    obtain ⟨dev, hflush⟩ := sfsFlush_reliable
      (s := { s1 with dev := d, entries := extendSize s1.entries n (offset + len) }) hrel
    exact .inl ⟨rfl, by simp only [hflush]⟩
  · exact .inr ⟨rfl, rfl⟩

section Extents

variable {sb : Superblock} {es : Table} {m n : Fin 64} {k : Nat}

/-- A file's bytes lie in its extent. -/
theorem ExtentCondition.stored (hx : ExtentCondition sb es)
    (hempty : ∀ m, (es m).IsFile → (es m).startLba = 0 → (es m).size = 0) (hfm : (es m).IsFile)
    (hk : k < (es m).size.toNat) : (512 * (es m).startLba.toNat + k) / 512 ∈ (es m).extent := by
  have hs : (es m).startLba ≠ 0 := by
    intro h0
    rw [hempty m hfm h0] at hk
    exact absurd hk (by simp)
  exact hx.mem_extent hfm hs hk

/-- They lie outside the extent of another file. -/
theorem ExtentCondition.apart (hx : ExtentCondition sb es)
    (hempty : ∀ m, (es m).IsFile → (es m).startLba = 0 → (es m).size = 0) (hf : (es n).IsFile)
    (hs : (es n).startLba ≠ 0) (hm : m ≠ n) (hfm : (es m).IsFile) (hk : k < (es m).size.toNat) :
    (512 * (es m).startLba.toNat + k) / 512 < (es n).startLba.toNat ∨
      (es n).startLba.toNat + (es n).capacitySectors.toNat ≤
        (512 * (es m).startLba.toNat + k) / 512 := by
  have hin := hx.stored hempty hfm hk
  have hout := Set.disjoint_left.mp (hx.packed.disjoint m n hm) hin
  rw [extent_of_file hf hs, Set.mem_Ico] at hout
  omega

end Extents

/-- The data loop does not leave the address space. -/
theorem placedStart_numbers (hx : ExtentCondition s.super s.entries) (hf : (s.entries n).IsFile)
    (hwrap : offset.toNat + len.toNat + 511 < 4294967296)
    (hno : s.super.nextFreeLba.toNat + (needSectors offset len).toNat < 4294967296) :
    (placedStart s n (needSectors offset len)).toNat + (offset.toNat + len.toNat) / 512 <
      4294967296 := by
  have hneed := needSectors_toNat hwrap
  unfold placedStart
  split
  · omega
  · rename_i hstay
    obtain ⟨hs, hcap⟩ := not_or.mp hstay
    have hcap := UInt32.le_iff_toNat_le.mp (UInt32.not_lt.mp hcap)
    have hlt := (s.entries n).startLba.toNat_lt
    rcases hx.below hf hs with h0 | hend
    · omega
    · omega

/-- Where the data loop runs out of the device in place, the contents stay exactly when it writes
what is there. -/
theorem writesSame_iff {d : Drive} {r : Option UInt32} {stop : Nat} (hr : s.dev.Reliable)
    (hx : ExtentCondition s.super s.entries)
    (hempty : ∀ m, (s.entries m).IsFile → (s.entries m).startLba = 0 → (s.entries m).size = 0)
    (hf : (s.entries n).IsFile) (hwrap : offset.toNat + len.toNat + 511 < 4294967296)
    (hstay : ¬Moves (s.entries n) (needSectors offset len))
    (hrun : LoopRun (512 * (s.entries n).startLba.toNat + offset.toNat) len data s.dev 0 d r stop) :
    (∀ m, (s.entries m).IsFile → content s.entries d.sectors m = content s.entries s.dev.sectors m) ↔
      WritesSame s n offset data len := by
  have hneed := needSectors_toNat hwrap
  obtain ⟨hs, hcap⟩ := not_or.mp hstay
  have hcap := UInt32.le_iff_toNat_le.mp (UInt32.not_lt.mp hcap)
  have hkept : ∀ m, content s.entries d.sectors m = content s.entries s.dev.sectors m ↔ _ :=
    fun m => content_kept rfl
  constructor
  · intro h
    refine ⟨hstay, fun k hk hlow hhigh hdev => ?_⟩
    have hself := (hkept n).mp (h n hf) k hk
    rw [hrun.byte_reliable hr, if_pos (by omega)] at hself
    have hplace : 512 * (s.entries n).startLba.toNat + k -
        (512 * (s.entries n).startLba.toNat + offset.toNat) = k - offset.toNat := by
      omega
    rw [hplace] at hself
    exact hself
  · rintro ⟨-, hsame⟩ m hfm
    refine (hkept m).mpr fun k hk => ?_
    rw [hrun.byte_reliable hr]
    by_cases hm : m = n
    · subst hm
      by_cases hin : 512 * (s.entries m).startLba.toNat + offset.toNat ≤
            512 * (s.entries m).startLba.toNat + k ∧
          512 * (s.entries m).startLba.toNat + k <
            512 * (s.entries m).startLba.toNat + offset.toNat + len.toNat ∧
          512 * (s.entries m).startLba.toNat + k < 512 * 65536
      · have hplace : 512 * (s.entries m).startLba.toNat + k -
            (512 * (s.entries m).startLba.toNat + offset.toNat) = k - offset.toNat := by
          omega
        rw [if_pos hin, hplace]
        exact hsame k hk (by omega) (by omega) (by omega)
      · rw [if_neg hin]
    · have hapart := hx.apart hempty hf hs hm hfm hk
      rw [if_neg (by omega)]

/-- A failed write changes nothing exactly when it is refused, cannot copy the old sectors, has its
data on the device (it does not fail then) or writes in place what is there. -/
theorem sfs_write_failed_undone_iff (s : SimpleFs) (nodeId offset len : UInt32)
    (data : Nat → UInt8) (hr : s.dev.Reliable) (hx : ExtentCondition s.super s.entries)
    (hempty : ∀ m, (s.entries m).IsFile → (s.entries m).startLba = 0 → (s.entries m).size = 0)
    (hwrap : offset.toNat + len.toNat + 511 < 4294967296)
    (hno : s.super.nextFreeLba.toNat + (needSectors offset len).toNat < 4294967296) :
    (∀ s', sfsWrite s nodeId offset data len = (s', none) →
      s'.super = s.super ∧ s'.entries = s.entries ∧ ∀ m, (s.entries m).IsFile →
        content s'.entries s'.dev.sectors m = content s.entries s.dev.sectors m) ↔
    ∀ n, fileWith s.entries nodeId sfsPermWrite = some n →
      CopyLacksSpace s n (needSectors offset len) ∨ DataFits s n offset len ∨
        WritesSame s n offset data len := by
  have hneed := needSectors_toNat hwrap
  cases hfile : fileWith s.entries nodeId sfsPermWrite with
  | none =>
    refine iff_of_true (fun s' h => ?_) fun n hn => by cases hn
    simp only [sfsWrite, hfile] at h
    cases h
    exact ⟨rfl, rfl, fun m hm => rfl⟩
  | some n =>
    have hone : ∀ P : Fin 64 → Prop, (∀ m, some n = some m → P m) ↔ P n :=
      fun P => ⟨fun h => h n rfl, fun h m hm => by (cases hm; exact h)⟩
    rw [hone]
    have hf := (fileWith_some hfile).1
    cases hres : sfsReserve s n (needSectors offset len) with
    | mk s1 ok =>
      have hanswer : ok = true ↔ ¬CopyLacksSpace s n (needSectors offset len) := by
        rw [← copyFails_reliable hr hx hf hno, ← sfsReserve_answered, hres]
      cases ok with
      | false =>
        have hlacks : CopyLacksSpace s n (needSectors offset len) := by
          by_contra hc
          exact absurd (hanswer.mpr hc) (by decide)
        refine iff_of_true (fun s' h => ?_) (.inl hlacks)
        simp only [sfsWrite, hfile, hres] at h
        cases h
        obtain ⟨hsup, hent⟩ := sfsReserve_failed hres
        refine ⟨hsup, hent, fun m hm => ?_⟩
        rw [hent]
        refine (content_kept rfl).mpr fun k hk => ?_
        have hlow := sfsReserve_low s n (needSectors offset len)
          (hx.bounds (hx.stored hempty hm hk)).2
        rwa [hres] at hlow
      | true =>
        have hplace := (sfsReserve_place hres).1
        have hstart := placedStart_numbers hx hf hwrap hno
        obtain ⟨d, r, stop, hrun, hout⟩ := sfsWrite_loop hr hfile hres (by omega)
          (by rw [hplace]; exact hstart) data
        have hnolack : ¬CopyLacksSpace s n (needSectors offset len) := hanswer.mp rfl
        have hr1 : s1.dev.Reliable := by
          intro k
          rw [(sfsReserve_place hres).2.2.2]
          exact hr k
        rw [hplace] at hrun
        have hfits : DataFits s n offset len ↔ len.toNat = 0 ∨
            512 * (placedStart s n (needSectors offset len)).toNat + offset.toNat + len.toNat ≤
              512 * 65536 := by
          rw [DataFits, ← UInt32.toNat_inj]
          rfl
        rcases hout with ⟨rfl, hsome⟩ | ⟨rfl, hnone⟩
        · have hok : DataFits s n offset len := by
            rcases hrun.ends hr1 with ⟨-, hdev⟩ | ⟨hr0, -⟩
            · exact hfits.mpr hdev
            · cases hr0
          refine iff_of_true (fun s' h => ?_) (.inr (.inl hok))
          rw [h] at hsome
          cases hsome
        · have hover : ¬DataFits s n offset len := by
            rcases hrun.ends hr1 with ⟨hr0, -⟩ | ⟨-, hpos, hlast⟩
            · cases hr0
            · rw [hfits]
              omega
          rcases sfsReserve_taken hres with ⟨hm, hsup⟩ | ⟨hm, rfl⟩
          · refine iff_of_false (fun h => ?_) fun h => ?_
            · have hsame := (h _ hnone).1
              have hnext := congrArg Superblock.nextFreeLba hsame
              dsimp only at hnext
              rw [hsup] at hnext
              have hnum := congrArg UInt32.toNat hnext
              rw [UInt32.toNat_add] at hnum
              rw [hfits] at hover
              omega
            · rcases h with hc | hd | hw
              · exact hnolack hc
              · exact hover hd
              · exact hw.1 hm
          · have hstay : placedStart s1 n (needSectors offset len) = (s1.entries n).startLba :=
              if_neg hm
            rw [hstay] at hrun
            have hsame := writesSame_iff hr hx hempty hf hwrap hm hrun
            rw [or_iff_right hnolack, or_iff_right hover, ← hsame]
            constructor
            · intro h
              exact (h _ hnone).2.2
            · intro h s' hs'
              rw [hnone] at hs'
              cases hs'
              exact ⟨rfl, rfl, h⟩

/-- With the free end at the end of the device a file that must move stays as it is. -/
theorem sfs_write_failed_undone_full :
    let s := oneFile (fun _ _ => 65) 137 3 1 65536
    (sfsWrite s 1 0 (fun _ => 66) 600).2 = none ∧
      content (sfsWrite s 1 0 (fun _ => 66) 600).1.entries
        (sfsWrite s 1 0 (fun _ => 66) 600).1.dev.sectors 1 = content s.entries s.dev.sectors 1 := by
  have hfile : fileWith (oneFile (fun _ _ => 65) 137 3 1 65536).entries 1 sfsPermWrite = some 1 := by
    decide +kernel
  have hlacks : CopyLacksSpace (oneFile (fun _ _ => 65) 137 3 1 65536) 1 (needSectors 0 600) :=
    ⟨by decide +kernel, by decide, by decide⟩
  have hfail : (sfsWrite (oneFile (fun _ _ => 65) 137 3 1 65536) 1 0 (fun _ => 66) 600).2 = none := by
    decide +kernel
  have hx := oneFile_allocation (fun _ _ => 65) (show 137 ≤ (137 : UInt32).toNat by decide)
    (show (137 : UInt32).toNat + (1 : UInt32).toNat ≤ (65536 : UInt32).toNat by decide)
    (show (3 : UInt32).toNat ≤ 512 * (1 : UInt32).toNat by decide)
  have hiff := sfs_write_failed_undone_iff (oneFile (fun _ _ => 65) 137 3 1 65536) 1 0 600
    (fun _ => 66) (fun _ => rfl) hx.toExtentCondition hx.unallocated (by decide) (by decide)
  have hsame := hiff.mpr (fun n hn => .inl (by
    rw [hfile] at hn
    cases hn
    exact hlacks)) _ (Prod.ext rfl hfail)
  exact ⟨hfail, hsame.2.2 1 (by decide +kernel)⟩

/-- With one sector left it is moved, overwritten at its new place and still refused. -/
theorem sfs_write_fails_moved :
    let s := oneFile (fun _ _ => 65) 137 3 1 65535
    let s' := (sfsWrite s 1 0 (fun _ => 66) 600).1
    Allocation s.super s.entries ∧ (sfsWrite s 1 0 (fun _ => 66) 600).2 = none ∧
      content s.entries s.dev.sectors 1 = [65, 65, 65] ∧
      content s'.entries s'.dev.sectors 1 = [66, 66, 66] ∧ s'.super.nextFreeLba = 65537 := by
  refine ⟨oneFile_allocation (fun _ _ => 65) (by decide) (by decide) (by decide), ?_, ?_, ?_, ?_⟩
  · decide +kernel
  · decide +kernel
  · decide +kernel
  · decide +kernel

end VertexOS
