import VertexOS.Core.CopyFile
import VertexOS.Editor.Files
import VertexOS.Fs.Rewrites
import VertexOS.Vfs.OpenFails

namespace VertexOS
open Library.BlockStore

/-- The file system nine accesses later, behind a flush that was answered. -/
def SimpleFs.flushedOnce (s : SimpleFs) : SimpleFs :=
  { s with dev := { s.dev with accesses := s.dev.accesses + 9 } }

/-- A save of `len` bytes over node `n` ends before it has written them: the truncation is not
flushed, no descriptor is free, or the data cannot be written. -/
def SaveStops (v : Vfs) (n : Fin 64) (len : Nat) : Prop :=
  ¬v.fs.dev.Answers 9 ∨ (∀ i, (v.fds i).used ≠ 0) ∨
    RewriteStops v.fs.flushedOnce n (UInt32.ofNat len)

/-- The last flush of a save answers. Without data to write it does not matter. -/
def SaveCommits (v : Vfs) (n : Fin 64) (len : Nat) : Prop :=
  len = 0 ∨ RewriteCommits v.fs.flushedOnce n (UInt32.ofNat len)

/-- What a save leaves of the file at node `n`, and what it returns. -/
structure SaveOutcome (v : Vfs) (n : Fin 64) (text : List UInt8) (v' : Vfs) (ok : Bool) :
    Prop where
  ctx : v'.ctx = v.ctx
  kept : Kept v.fs v'.fs
  file : (v.fs.entries n).perm &&& sfsPermWrite = 0 ∧ ok = false ∧ v'.fs = v.fs ∨
    (v.fs.entries n).perm &&& sfsPermWrite ≠ 0 ∧ SaveStops v n text.length ∧ ok = false ∧
      content v'.fs.entries v'.fs.dev.sectors n = [] ∨
    (v.fs.entries n).perm &&& sfsPermWrite ≠ 0 ∧ ¬SaveStops v n text.length ∧
      content v'.fs.entries v'.fs.dev.sectors n = text ∧
      (ok = true ↔ SaveCommits v n text.length)

section Truncation

variable {s s' : SimpleFs} {n : Fin 64} {len : UInt32}

/-- Where a rewrite goes depends on the free end, on the extent and on the drive's schedule. -/
theorem rewrite_congr (hsuper : s'.super = s.super)
    (hstart : (s'.entries n).startLba = (s.entries n).startLba)
    (hcap : (s'.entries n).capacitySectors = (s.entries n).capacitySectors)
    (hfaults : s'.dev.faults = s.dev.faults) (hacc : s'.dev.accesses = s.dev.accesses) :
    (RewriteStops s' n len ↔ RewriteStops s n len) ∧
      (RewriteCommits s' n len ↔ RewriteCommits s n len) := by
  have hmoves : Moves (s'.entries n) (needSectors 0 len) ↔
      Moves (s.entries n) (needSectors 0 len) := by
    rw [Moves, Moves, hstart, hcap]
  have hrel : Relocates (s'.entries n) (needSectors 0 len) ↔
      Relocates (s.entries n) (needSectors 0 len) := by
    rw [Relocates, Relocates, hstart, hcap]
  have hplace : placedStart s' n (needSectors 0 len) = placedStart s n (needSectors 0 len) := by
    simp only [placedStart, hmoves, hsuper, hstart]
  have haccess : placedAccess s' n (needSectors 0 len) = placedAccess s n (needSectors 0 len) := by
    simp only [placedAccess, hrel, hacc, hcap]
  constructor
  · simp only [RewriteStops, CopyFails, CopyStops, hrel, hcap, hstart, hsuper, hfaults, hacc,
      hplace, haccess]
  · simp only [RewriteCommits, hfaults, haccess]

end Truncation

section Save

variable {v : Vfs} {session : Int} {path text before after : List UInt8} {n : Fin 64}
  {e : EditorState} {fs : SimpleFs} {i : Fin 16}

/-- What a save finds: a file that is there, on a sound volume whose free end is far from
2^32. -/
structure Saving (v : Vfs) (session : Int) (path : List UInt8) (n : Fin 64) : Prop where
  allocation : Allocation v.fs.super v.fs.entries
  path : sfsResolve v.fs path (v.cwd session) = .ok (some (slotId n))
  file : (v.fs.entries n).IsFile
  free : v.fs.super.nextFreeLba.toNat + 16 < 4294967296

theorem saved_bytes (h : EditorHolds e before after) :
    (UInt32.ofNat e.len).toNat = (before ++ after).length ∧
      dataBytes e.buf (UInt32.ofNat e.len) = before ++ after := by
  have hfits := h.fits
  have hlen : (UInt32.ofNat e.len).toNat = e.len := by
    rw [UInt32.toNat_ofNat', Nat.mod_eq_of_lt]
    exact Nat.lt_of_le_of_lt hfits (by decide)
  refine ⟨by rw [hlen, h.len, List.length_append], ?_⟩
  rw [← h.text, dataBytes, hlen, bytesAt]
  simp

/-- The truncation of a file that can be written. -/
theorem openNode_existing (hres : sfsResolve v.fs path (v.cwd session) = .ok (some (slotId n)))
    (flags : UInt32) :
    openNode v.fs path (v.cwd session) flags = .ok (v.fs, some (slotId n)) := by
  rw [openNode, hres]
  rfl

theorem sfsTruncate_writable (hf : (v.fs.entries n).IsFile)
    (hp : (v.fs.entries n).perm &&& sfsPermWrite ≠ 0) :
    openTruncate v.fs (slotId n) copyFlags = sfsFlush { v.fs with
      entries := Function.update v.fs.entries n { v.fs.entries n with size := 0 } } := by
  rw [openTruncate, if_pos (by decide), sfsTruncate,
    fileWith_slot v.fs.entries n sfsPermWrite hf hp]

/-- A file that cannot be written is not opened for a save. -/
theorem save_refused (h : Saving v session path n)
    (hp : (v.fs.entries n).perm &&& sfsPermWrite = 0) (e : EditorState) :
    saveToPath v session e path = .ok (v, e.statusSet "save failed: open error", false) := by
  have hnone := fileWith_refused hp
  have htrunc : openTruncate v.fs (slotId n) copyFlags = (v.fs, false) := by
    rw [openTruncate, if_pos (by decide), sfsTruncate, hnone]
  rw [saveToPath, vfsOpen, openNode_existing h.path]
  simp only [bind, Except.bind, htrunc]

/-- The truncation has been tried, and the open of the save fails behind it. -/
theorem vfsOpen_unsaved (h : Saving v session path n)
    (hp : (v.fs.entries n).perm &&& sfsPermWrite ≠ 0)
    (hflush : sfsFlush { v.fs with
      entries := Function.update v.fs.entries n { v.fs.entries n with size := 0 } } = (fs, ok))
    (hfail : ok = false ∨ freeFd v.fds = none) :
    vfsOpen v session path copyFlags = .ok ({ v with fs }, none) := by
  rw [vfsOpen, openNode_existing h.path]
  simp only [bind, Except.bind, sfsTruncate_writable h.file hp, hflush]
  cases ok with
  | false => rfl
  | true => simp [hfail.resolve_left]

theorem vfsOpen_saving (h : Saving v session path n)
    (hp : (v.fs.entries n).perm &&& sfsPermWrite ≠ 0)
    (hflush : sfsFlush { v.fs with
      entries := Function.update v.fs.entries n { v.fs.entries n with size := 0 } } = (fs, true))
    (hfree : freeFd v.fds = some i) :
    vfsOpen v session path copyFlags = .ok
      ({ v with fs, fds := Function.update v.fds i ⟨1, slotId n, 0, copyFlags⟩ }, some i) := by
  rw [vfsOpen, openNode_existing h.path]
  simp only [bind, Except.bind, sfsTruncate_writable h.file hp, hflush, hfree]

theorem rewriteStops_zero (s : SimpleFs) (n : Fin 64) : ¬RewriteStops s n 0 := by
  have hneed : (needSectors 0 0).toNat = 0 := rfl
  intro h
  rcases h with ⟨hrel, -⟩ | ⟨j, hj, -⟩
  · have hlt := UInt32.lt_iff_toNat_lt.mp hrel.2
    omega
  · omega

theorem vfsWrite_slot {w : Vfs} {data : Nat → UInt8} {len : UInt32} {r : Option UInt32}
    (hfd : w.fds i = ⟨1, slotId n, 0, copyFlags⟩)
    (hwrite : sfsWrite w.fs (slotId n) 0 data len = (fs, r)) :
    ∃ w', vfsWrite w i.val data len = (w', r.getD 0) ∧ w'.fs = fs ∧ w'.ctx = w.ctx := by
  have hopen : openFd w i.val vfsOWrite = some i := openFd_slot hfd (by decide)
  cases r with
  | none =>
    refine ⟨{ w with fs }, ?_, rfl, rfl⟩
    simp only [vfsWrite, hopen, hfd, hwrite, Option.getD_none]
  | some count =>
    refine ⟨w.advance fs i count, ?_, rfl, rfl⟩
    simp only [vfsWrite, hopen, hfd, hwrite, Option.getD_some]

/-- What the write of a save comes to, after an open that has emptied the file. -/
theorem save_written (h : Saving v session path n)
    (hp : (v.fs.entries n).perm &&& sfsPermWrite ≠ 0) (he : EditorHolds e before after)
    (hflush : sfsFlush { v.fs with
      entries := Function.update v.fs.entries n { v.fs.entries n with size := 0 } } = (fs, true))
    (hfree : freeFd v.fds = some i) :
    ∃ v' e' ok, saveToPath v session e path = .ok (v', e', ok) ∧ v'.ctx = v.ctx ∧
      Kept v.fs v'.fs ∧ (ok = false → ∃ msg, e' = e.statusSet msg) ∧
      (RewriteStops v.fs.flushedOnce n (UInt32.ofNat e.len) ∧ ok = false ∧
          content v'.fs.entries v'.fs.dev.sectors n = [] ∨
        ¬RewriteStops v.fs.flushedOnce n (UInt32.ofNat e.len) ∧
          content v'.fs.entries v'.fs.dev.sectors n = before ++ after ∧
          (ok = true ↔ SaveCommits v n e.len)) := by
  obtain ⟨hlen, hdata⟩ := saved_bytes he
  have hsmall : (UInt32.ofNat e.len).toNat ≤ 8192 := by
    rw [hlen, List.length_append, ← he.len]
    exact he.fits
  have hup := sfsFlush_updated hflush
  have hacc := sfsFlush_accesses hflush
  have hself := hup.self
  have hcongr : (RewriteStops fs n (UInt32.ofNat e.len) ↔
        RewriteStops v.fs.flushedOnce n (UInt32.ofNat e.len)) ∧
      (RewriteCommits fs n (UInt32.ofNat e.len) ↔
        RewriteCommits v.fs.flushedOnce n (UInt32.ofNat e.len)) :=
    rewrite_congr hup.super (by rw [hself]; rfl) (by rw [hself]; rfl) hup.dev.faults hacc
  have hneed : (needSectors 0 (UInt32.ofNat e.len)).toNat = _ := needSectors_whole (by omega)
  obtain ⟨s', r, hwrite, hresult⟩ : ∃ s' r, sfsWrite fs (slotId n) 0 e.buf (UInt32.ofNat e.len) =
      (s', r) ∧ (RewriteStops v.fs.flushedOnce n (UInt32.ofNat e.len) ∧ r = none ∧
          content s'.entries s'.dev.sectors n = [] ∨
        ¬RewriteStops v.fs.flushedOnce n (UInt32.ofNat e.len) ∧
          (r = some (UInt32.ofNat e.len) ∧
              RewriteCommits v.fs.flushedOnce n (UInt32.ofNat e.len) ∨
            r = none ∧ ¬RewriteCommits v.fs.flushedOnce n (UInt32.ofNat e.len)) ∧
          content s'.entries s'.dev.sectors n = before ++ after) := by
    rw [← hcongr.1, ← hcongr.2, ← hdata]
    have hrewrite := @sfsWrite_rewrites fs n (UInt32.ofNat e.len)
      (by rw [hup.super, hup.entries]; exact h.allocation.empty n)
      (by rw [hself]; exact h.file) (by rw [hself]; exact hp) (by rw [hself]) (by omega)
      (by rw [hup.super, hneed]; have := h.free; omega) e.buf
    rcases hrewrite with ⟨hstops, s', hw, hsize⟩ | ⟨hgo, s', r, hw, hr, hc⟩
    · exact ⟨s', none, hw, .inl ⟨hstops, rfl, (content_eq_nil _ _ _).mpr hsize⟩⟩
    · exact ⟨s', r, hw, .inr ⟨hgo, hr, hc⟩⟩
  let w : Vfs := { v with fs, fds := Function.update v.fds i ⟨1, slotId n, 0, copyFlags⟩ }
  obtain ⟨w', hvfs, hfs, hctx⟩ := vfsWrite_slot (w := w) (i := i) (n := n)
    (Function.update_self ..) hwrite
  have hopen : vfsOpen v session path copyFlags = .ok (w, some i) := by
    rw [vfsOpen_saving h hp hflush hfree]
  have hkept : Kept v.fs w'.fs := by
    have htrunc := sfsTruncate_kept v.fs (slotId n)
    have hdata' := sfsWrite_kept fs (slotId n) 0 e.buf (UInt32.ofNat e.len)
    rw [sfsTruncate, fileWith_slot v.fs.entries n sfsPermWrite h.file hp] at htrunc
    dsimp only at htrunc
    rw [hflush] at htrunc
    rw [hwrite] at hdata'
    rw [hfs]
    exact htrunc.trans hdata'
  have hsaved : r.getD 0 = UInt32.ofNat e.len → saveToPath v session e path =
      .ok (vfsClose w' i.val, { e with dirty := false }.statusSet "saved", true) := by
    intro hfull
    rw [saveToPath, hopen]
    simp only [bind, Except.bind, hvfs, hfull]
    simp
  have hshort : r.getD 0 ≠ UInt32.ofNat e.len → saveToPath v session e path =
      .ok (vfsClose w' i.val, e.statusSet "save failed: short write", false) := by
    intro hne
    rw [saveToPath, hopen]
    simp only [bind, Except.bind, hvfs]
    rw [if_pos hne]
  have hzero : UInt32.ofNat e.len = 0 ↔ e.len = 0 := by
    rw [← UInt32.toNat_inj, hlen, List.length_append, ← he.len]
    rfl
  rw [← vfsClose_fs w' i.val] at hfs hkept
  rw [← vfsClose_ctx w' i.val] at hctx
  rw [← hfs] at hresult
  rcases hresult with ⟨hstops, rfl, hc⟩ | ⟨hgo, hr, hc⟩
  · have hne : (0 : UInt32) ≠ UInt32.ofNat e.len := by
      intro h0
      rw [← h0] at hstops
      exact rewriteStops_zero _ _ hstops
    exact ⟨_, _, false, hshort hne, hctx, hkept, fun _ => ⟨_, rfl⟩, .inl ⟨hstops, rfl, hc⟩⟩
  · by_cases hcommit : SaveCommits v n e.len
    · -- without data the count is right even if the write has failed
      have hfull : r.getD 0 = UInt32.ofNat e.len := by
        rcases hr with ⟨hr, -⟩ | ⟨hr, hno⟩
        · rw [hr, Option.getD_some]
        · rw [hr]
          rw [hzero.mpr (hcommit.resolve_right hno), Option.getD_none]
      exact ⟨_, _, true, hsaved hfull, hctx, hkept, (fun hf => by cases hf),
        .inr ⟨hgo, hc, by simp [hcommit]⟩⟩
    · obtain ⟨hlen0, hno⟩ := not_or.mp hcommit
      obtain rfl : r = none := by
        rcases hr with ⟨-, hyes⟩ | ⟨hr, -⟩
        · exact absurd hyes hno
        · exact hr
      have hne : (0 : UInt32) ≠ UInt32.ofNat e.len := fun h0 => hlen0 (hzero.mp h0.symm)
      exact ⟨_, _, false, hshort hne, hctx, hkept, fun _ => ⟨_, rfl⟩,
        .inr ⟨hgo, hc, by simp [hcommit]⟩⟩

/-- What a save comes to, on any drive. -/
theorem saveToPath_outcome (h : Saving v session path n) (he : EditorHolds e before after) :
    ∃ v' e' ok, saveToPath v session e path = .ok (v', e', ok) ∧
      (ok = false → ∃ msg, e' = e.statusSet msg) ∧ SaveOutcome v n (before ++ after) v' ok := by
  by_cases hp : (v.fs.entries n).perm &&& sfsPermWrite = 0
  · exact ⟨v, _, false, save_refused h hp e, fun _ => ⟨_, rfl⟩, rfl, Kept.refl v.fs,
      .inl ⟨hp, rfl, rfl⟩⟩
  · have hlen : (before ++ after).length = e.len := by rw [he.len, List.length_append]
    cases hflush : sfsFlush { v.fs with
        entries := Function.update v.fs.entries n { v.fs.entries n with size := 0 } } with
    | mk fs ok =>
      have hanswers := sfsFlush_answered { v.fs with
        entries := Function.update v.fs.entries n { v.fs.entries n with size := 0 } }
      have htrunc := sfsTruncate_kept v.fs (slotId n)
      rw [sfsTruncate, fileWith_slot v.fs.entries n sfsPermWrite h.file hp] at htrunc
      dsimp only at htrunc
      rw [hflush] at hanswers htrunc
      have hunsaved : ok = false ∨ freeFd v.fds = none → SaveStops v n (before ++ after).length →
          ∃ v' e' ok, saveToPath v session e path = .ok (v', e', ok) ∧
            (ok = false → ∃ msg, e' = e.statusSet msg) ∧
            SaveOutcome v n (before ++ after) v' ok := by
        intro hfail hstops
        have hempty : content fs.entries fs.dev.sectors n = [] := by
          rw [content_eq_nil, (sfsFlush_updated hflush).self]
        refine ⟨{ v with fs }, e.statusSet "save failed: open error", false, ?_,
          fun _ => ⟨_, rfl⟩, rfl, htrunc, .inr (.inl ⟨hp, hstops, rfl, hempty⟩)⟩
        rw [saveToPath, vfsOpen_unsaved h hp hflush hfail]
        rfl
      cases ok with
      | false =>
        exact hunsaved (.inl rfl) (.inl fun ha => Bool.false_ne_true (hanswers.mpr ha))
      | true =>
        cases hfree : freeFd v.fds with
        | none => exact hunsaved (.inr hfree) (.inr (.inl (freeFd_none.mp hfree)))
        | some i =>
          obtain ⟨v', e', ok, hrun, hctx, hkept, hstatus, hcases⟩ :=
            save_written h hp he hflush hfree
          have hstops : SaveStops v n (before ++ after).length ↔
              RewriteStops v.fs.flushedOnce n (UInt32.ofNat e.len) := by
            have hfree' : ¬∀ j, (v.fds j).used ≠ 0 := fun hall => hall i (freeFd_some hfree)
            simp only [SaveStops, hlen, hanswers.mp rfl, hfree', not_true_eq_false, false_or]
          refine ⟨v', e', ok, hrun, hstatus, hctx, hkept, .inr ?_⟩
          rw [hstops, hlen]
          exact hcases.imp (fun hc => ⟨hp, hc⟩) (fun hc => ⟨hp, hc⟩)

/-- The file of a save is where it was. -/
theorem SaveOutcome.fileAt {v' : Vfs} {old : List UInt8} (h : SaveOutcome v n text v' ok)
    (hs : Saving v session path n) :
    FileAt v'.fs path (v'.cwd session) old ↔ content v'.fs.entries v'.fs.dev.sectors n = old := by
  have hcwd : v'.cwd session = v.cwd session := by
    rw [Vfs.cwd, Vfs.cwd, h.ctx]
  have hres : sfsResolve v'.fs path (v'.cwd session) = .ok (some (slotId n)) := by
    rw [hcwd, h.kept.shape.resolve h.kept.root]
    exact hs.path
  rw [fileAt_iff hres, and_iff_right ((h.kept.shape.isFile n).mpr hs.file)]

end Save

end VertexOS
