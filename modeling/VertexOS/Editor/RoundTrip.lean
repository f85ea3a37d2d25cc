import VertexOS.Editor.Saves

namespace VertexOS
open Library.BlockStore

/-- What the reads of a load leave of the VFS: everything but the descriptor that they use and
the place in the drive's schedule. -/
structure ReadOnly (v v' : Vfs) : Prop where
  ctx : v'.ctx = v.ctx
  super : v'.fs.super = v.fs.super
  entries : v'.fs.entries = v.fs.entries
  sectors : v'.fs.dev.sectors = v.fs.dev.sectors
  reliable : v'.fs.dev.Reliable

/-- The middle of a load: `done` bytes of the file are in the buffer. -/
structure Loading (v₀ : Vfs) (file : List UInt8) (fd : Fin 16) (n : Fin 64) (done : Nat) (v : Vfs)
    (e : EditorState) : Prop where
  same : ReadOnly v₀ v
  reading : v.fds fd = ⟨1, slotId n, UInt32.ofNat done, vfsORead⟩
  text : bytesAt e.buf 0 e.len = file.take done
  len : e.len = done
  cursor : e.cursor = 0
  progress : done ≤ file.length
  fits : done ≤ editMaxBytes

section Append

variable {e : EditorState} {text : List UInt8}

/-- The bytes of one read go behind the text, as far as they fit. -/
theorem appendRead_text (tmp : List UInt8) (htext : bytesAt e.buf 0 e.len = text)
    (hfits : e.len ≤ editMaxBytes) :
    bytesAt (e.appendRead tmp).1.buf 0 (e.appendRead tmp).1.len =
        text ++ tmp.take (editMaxBytes - e.len) ∧
      (e.appendRead tmp).1.len = e.len + min tmp.length (editMaxBytes - e.len) ∧
      (e.appendRead tmp).1.cursor = e.cursor ∧
      ((e.appendRead tmp).2 = true ↔ e.len + tmp.length ≤ editMaxBytes) := by
  induction tmp generalizing e text with
  | nil => simp [EditorState.appendRead, htext, hfits]
  | cons c tmp ih =>
    rw [EditorState.appendRead]
    by_cases hfull : e.len ≥ editMaxBytes
    · rw [if_pos hfull, Nat.sub_eq_zero_of_le hfull]
      simp only [List.take_zero, List.append_nil, Nat.min_zero, Nat.add_zero, List.length_cons,
        Bool.false_eq_true, false_iff]
      exact ⟨htext, trivial, trivial, by omega⟩
    · rw [if_neg hfull]
      have hnext : bytesAt (Function.update e.buf e.len c) 0 (e.len + 1) = text ++ [c] := by
        rw [bytesAt_add, Nat.zero_add, ← htext]
        congr 1
        · apply bytesAt_congr
          intro k hk
          exact Function.update_of_ne (by omega) _ _
        · simp [bytesAt]
      obtain ⟨hb, hl, hc, hok⟩ := ih (e := { e with
        buf := Function.update e.buf e.len c, len := e.len + 1 }) hnext (by dsimp only; omega)
      dsimp only at hb hl hc hok
      rw [hb, hl, hc, hok]
      obtain ⟨room, hroom⟩ : ∃ room, editMaxBytes - e.len = room + 1 :=
        ⟨editMaxBytes - e.len - 1, by omega⟩
      have hrest : editMaxBytes - (e.len + 1) = room := by omega
      rw [hroom, hrest, List.take_succ_cons, List.append_assoc, List.length_cons]
      exact ⟨rfl, by omega, rfl, by omega⟩

end Append

section Loading

variable {v₀ v : Vfs} {file : List UInt8} {fd : Fin 16} {n : Fin 64} {done : Nat} {e : EditorState}
  {session : Int} {path : List UInt8}

/-- The end of a load. -/
theorem Loading.terminated (htext : bytesAt e.buf 0 e.len = file) (hcursor : e.cursor = 0)
    (hfits : e.len ≤ editMaxBytes) (msg : String) :
    EditorHolds (e.terminate.statusSet msg) [] file := by
  refine ⟨?_, hcursor, hfits, ?_⟩
  · refine (bytesAt_congr ?_).trans htext
    intro k hk
    change k < e.len at hk
    exact Function.update_of_ne (by omega) _ _
  · exact Function.update_self ..

/-- A read of a load delivers the next bytes of the file. -/
theorem Loading.read (h : Loading v₀ file fd n done v e) (hx : Allocation v₀.fs.super v₀.fs.entries)
    (hfree : v₀.fs.super.nextFreeLba.toNat ≤ 65536) (hf : (v₀.fs.entries n).IsFile)
    (hp : (v₀.fs.entries n).perm &&& sfsPermRead ≠ 0)
    (hfile : content v₀.fs.entries v₀.fs.dev.sectors n = file) :
    ∃ v', vfsRead v fd.val 256 = (v', (file.drop done).take 256) ∧ ReadOnly v₀ v' ∧
      v'.fds fd = ⟨1, slotId n, UInt32.ofNat (done + ((file.drop done).take 256).length),
        vfsORead⟩ := by
  obtain ⟨hctx, hsuper, hentries, hsectors, hrel⟩ := h.same
  have hfits := h.fits
  have hopen : openFd v fd.val vfsORead = some fd := openFd_slot h.reading (by decide)
  have hdone : (UInt32.ofNat done).toNat = done := by
    rw [UInt32.toNat_ofNat', Nat.mod_eq_of_lt]
    exact Nat.lt_of_le_of_lt hfits (by decide)
  have hread := sfsRead_content (n := n) hrel (by rw [hsuper, hentries]; exact hx)
    (by rw [hentries]; exact hf) (by rw [hentries]; exact hp) (by rw [hsuper]; exact hfree)
    (UInt32.ofNat done) 256
  rw [hentries, hsectors, hfile, hdone] at hread
  obtain ⟨hsup, hent, hdev⟩ := sfsRead_confined ∅ v.fs (slotId n) (UInt32.ofNat done) 256
  cases hr : sfsRead v.fs (slotId n) (UInt32.ofNat done) 256 with
  | mk fs out =>
    rw [hr] at hread hsup hent hdev
    obtain rfl : out = some ((file.drop done).take 256) := hread
    refine ⟨v.advance fs fd (UInt32.ofNat ((file.drop done).take 256).length), ?_, ?_, ?_⟩
    · simp only [vfsRead, hopen, h.reading, hr]
    · refine ⟨hctx, hsup.trans hsuper, hent.trans hentries, ?_, hdev.reliable hrel⟩
      rw [← hsectors]
      exact funext fun b => hdev.sectors b (Set.notMem_empty b)
    · rw [advance_self h.reading, ← UInt32.ofNat_add]

/-- A turn of a load ends it, with as much of the file as the buffer holds, or goes on. -/
theorem Loading.turn (h : Loading v₀ file fd n done v e)
    (hx : Allocation v₀.fs.super v₀.fs.entries) (hfree : v₀.fs.super.nextFreeLba.toNat ≤ 65536)
    (hf : (v₀.fs.entries n).IsFile) (hp : (v₀.fs.entries n).perm &&& sfsPermRead ≠ 0)
    (hfile : content v₀.fs.entries v₀.fs.dev.sectors n = file) :
    (∃ w e', (∀ fuel, loadLoop fd.val (fuel + 1) v e = some (vfsClose w fd.val, e')) ∧
      ReadOnly v₀ w ∧ EditorHolds e' [] (file.take editMaxBytes)) ∨
    ∃ v' e' done', (∀ fuel, loadLoop fd.val (fuel + 1) v e = loadLoop fd.val fuel v' e') ∧
      Loading v₀ file fd n done' v' e' ∧ done < done' ∧
        (min file.length editMaxBytes ≤ done' ∨ done' = done + 256) := by
  obtain ⟨v', hread, hsame, hfd⟩ := h.read hx hfree hf hp hfile
  obtain ⟨-, -, htext, hlen, hcursor, hprogress, hfits⟩ := h
  have hcount : ((file.drop done).take 256).length = min 256 (file.length - done) := by
    rw [List.length_take, List.length_drop]
  by_cases hend : ((file.drop done).take 256).length = 0
  · left
    have hall : file.take done = file.take editMaxBytes := by
      rw [List.take_of_length_le (by omega), List.take_of_length_le (by omega)]
    refine ⟨v', e.terminate.statusSet "loaded", ?_, hsame,
      Loading.terminated (htext.trans hall) hcursor (by omega) _⟩
    intro fuel
    rw [loadLoop, hread]
    exact if_pos hend
  · obtain ⟨hbytes, hnew, hcur, hok⟩ := appendRead_text ((file.drop done).take 256) htext
      (by omega)
    cases happ : e.appendRead ((file.drop done).take 256) with
    | mk e' more =>
      rw [happ] at hbytes hnew hcur hok
      cases more with
      | true =>
        right
        have hroom := hok.mp rfl
        refine ⟨v', e', done + ((file.drop done).take 256).length, ?_,
          ⟨hsame, hfd, ?_, ?_, ?_, ?_, ?_⟩,
          by omega, by omega⟩
        · intro fuel
          rw [loadLoop, hread]
          dsimp only
          rw [if_neg hend, happ]
        · have hwhole : ((file.drop done).take 256).take (editMaxBytes - e.len) =
              (file.drop done).take 256 := List.take_of_length_le (by omega)
          rw [hbytes, hwhole, List.take_add, List.length_take, ← List.take_eq_take_min]
        · rw [hnew]
          omega
        · rw [hcur, hcursor]
        · omega
        · omega
      | false =>
        left
        have hfull : ¬e.len + ((file.drop done).take 256).length ≤ editMaxBytes :=
          fun hle => Bool.false_ne_true (hok.mpr hle)
        refine ⟨v', e'.terminate.statusSet "loaded (truncated to 8 KiB)", ?_, hsame,
          Loading.terminated (hbytes.trans ?_) (hcur.trans hcursor) (by omega) _⟩
        · intro fuel
          rw [loadLoop, hread]
          dsimp only
          rw [if_neg hend, happ]
        · have hpart : min (editMaxBytes - e.len) 256 = editMaxBytes - done := by omega
          have hsplit : editMaxBytes = done + (editMaxBytes - done) := by omega
          rw [List.take_take, hpart]
          conv_rhs => rw [hsplit, List.take_add]

/-- A load ends with as much of the file as the buffer holds. -/
theorem Loading.loop (hx : Allocation v₀.fs.super v₀.fs.entries)
    (hfree : v₀.fs.super.nextFreeLba.toNat ≤ 65536) (hf : (v₀.fs.entries n).IsFile)
    (hp : (v₀.fs.entries n).perm &&& sfsPermRead ≠ 0)
    (hfile : content v₀.fs.entries v₀.fs.dev.sectors n = file) (turns : Nat)
    (hturns : min file.length editMaxBytes ≤ done + 256 * turns)
    (h : Loading v₀ file fd n done v e) :
    ∃ w e', (∀ fuel, turns < fuel → loadLoop fd.val fuel v e = some (vfsClose w fd.val, e')) ∧
      ReadOnly v₀ w ∧ EditorHolds e' [] (file.take editMaxBytes) := by
  induction turns generalizing done v e with
  | zero =>
    rcases h.turn hx hfree hf hp hfile with ⟨w, e', hrun, hsame, hholds⟩ |
      ⟨v', e', done', -, hnext, hlt, -⟩
    · refine ⟨w, e', ?_, hsame, hholds⟩
      intro fuel hfuel
      obtain ⟨k, rfl⟩ := Nat.exists_eq_add_of_lt hfuel
      rw [Nat.zero_add]
      exact hrun k
    · have := hnext.progress
      have := hnext.fits
      omega
  | succ turns ih =>
    rcases h.turn hx hfree hf hp hfile with ⟨w, e', hrun, hsame, hholds⟩ |
      ⟨v', e', done', hrun, hnext, hlt, hfar⟩
    · refine ⟨w, e', ?_, hsame, hholds⟩
      intro fuel hfuel
      obtain ⟨k, rfl⟩ := Nat.exists_eq_add_of_lt hfuel
      exact hrun _
    · obtain ⟨w, e'', hrest, hsame, hholds⟩ := ih (by omega) hnext
      refine ⟨w, e'', ?_, hsame, hholds⟩
      intro fuel hfuel
      obtain ⟨k, rfl⟩ := Nat.exists_eq_add_of_lt hfuel
      exact (hrun _).trans (hrest _ (by omega))

/-- A descriptor is free, and the file can be read. -/
def Loadable (v : Vfs) (n : Fin 64) : Prop :=
  (∃ i, (v.fds i).used = 0) ∧ (v.fs.entries n).perm &&& sfsPermRead ≠ 0

theorem Saving.stat (h : Saving v session path n) :
    ∃ st, vfsStatPath v session path = .ok (some st) ∧ st.type = sfsTypeFile := by
  have hlt : (slotId n).toNat < 64 := by
    rw [slotId_toNat]
    exact n.isLt
  have hslot : (⟨(slotId n).toNat, hlt⟩ : Fin 64) = n := Fin.ext (slotId_toNat n)
  refine ⟨(v.fs.entries n).info (slotId n), ?_, h.file.2⟩
  rw [vfsStatPath, h.path]
  simp only [bind, Except.bind, sfsStat, dif_pos hlt, hslot]
  rw [if_neg h.file.1]

theorem Saving.openRead (h : Saving v session path n) :
    vfsOpen v session path vfsORead = .ok (match freeFd v.fds with
      | some i => ({ v with fds := Function.update v.fds i ⟨1, slotId n, 0, vfsORead⟩ }, some i)
      | none => (v, none)) := by
  have htrunc : openTruncate v.fs (slotId n) vfsORead = (v.fs, true) := if_neg (by decide)
  rw [vfsOpen, openNode_existing h.path]
  simp only [bind, Except.bind, htrunc]
  cases freeFd v.fds <;> rfl

/-- A file that cannot be read is loaded as an empty one. -/
theorem loadLoop_unreadable (hfd : v.fds fd = ⟨1, slotId n, 0, vfsORead⟩)
    (hp : (v.fs.entries n).perm &&& sfsPermRead = 0) (fuel : Nat) :
    loadLoop fd.val (fuel + 1) v e =
      some (vfsClose v fd.val, e.terminate.statusSet "loaded") := by
  have hopen : openFd v fd.val vfsORead = some fd := openFd_slot hfd (by decide)
  have hnone := fileWith_refused hp
  rw [loadLoop]
  simp [vfsRead, hopen, hfd, sfsRead, hnone]

theorem vfsClose_free (v : Vfs) (fd : Fin 16) : ((vfsClose v fd.val).fds fd).used = 0 := by
  have hi := fd.isLt
  have hslot : Fin.ofNat 16 (fd.val : Int).toNat = fd := Fin.ext (Nat.mod_eq_of_lt hi)
  rw [vfsClose, if_pos (by omega)]
  dsimp only
  rw [hslot, Function.update_self]

/-- What a load leaves: the text that the buffer has room for, if the file can be loaded. -/
structure Loaded (v : Vfs) (n : Fin 64) (v' : Vfs) (text : List UInt8) : Prop where
  same : ReadOnly v v'
  free : (∀ i, (v'.fds i).used ≠ 0) ↔ ∀ i, (v.fds i).used ≠ 0
  text : Loadable v n ∧ text = (content v.fs.entries v.fs.dev.sectors n).take editMaxBytes ∨
    ¬Loadable v n ∧ text = []

theorem loadFile_loads (h : Saving v session path n) (hr : v.fs.dev.Reliable)
    (hfree : v.fs.super.nextFreeLba.toNat ≤ 65536) (e : EditorState) :
    ∃ v' e' text, (∀ fuel, 32 < fuel → loadFile fuel v session e path = .ok (some (v', e'))) ∧
      EditorHolds e' [] text ∧ Loaded v n v' text := by
  obtain ⟨st, hstat, htype⟩ := h.stat
  have hopen := h.openRead
  have hsame : ReadOnly v v := ⟨rfl, rfl, rfl, rfl, hr⟩
  cases hslot : freeFd v.fds with
  | none =>
    rw [hslot] at hopen
    refine ⟨v, e.clear.statusSet "open failed", [], ?_, ⟨rfl, rfl, Nat.zero_le _, ?_⟩, hsame,
      Iff.rfl, .inr ⟨?_, rfl⟩⟩
    · intro fuel _
      rw [loadFile, hstat]
      simp only [bind, Except.bind, htype, hopen]
      rfl
    · simp [EditorState.statusSet, EditorState.clear]
    · intro hload
      obtain ⟨i, hi⟩ := hload.1
      exact freeFd_none.mp hslot i hi
  | some i =>
    rw [hslot] at hopen
    have hused := freeFd_some hslot
    let w : Vfs := { v with fds := Function.update v.fds i ⟨1, slotId n, 0, vfsORead⟩ }
    have hfd : w.fds i = ⟨1, slotId n, 0, vfsORead⟩ := Function.update_self ..
    have hrun : ∀ fuel, loadFile fuel v session e path = .ok (loadLoop i.val fuel w e.clear) := by
      intro fuel
      rw [loadFile, hstat]
      simp only [bind, Except.bind, htype, hopen]
      rfl
    have hclosed : ∀ u : Vfs, (∀ j, ((vfsClose u i.val).fds j).used ≠ 0) ↔
        ∀ j, (v.fds j).used ≠ 0 :=
      fun u => iff_of_false (fun hall => hall i (vfsClose_free u i)) (fun hall => hall i hused)
    by_cases hp : (v.fs.entries n).perm &&& sfsPermRead = 0
    · refine ⟨vfsClose w i.val, e.clear.terminate.statusSet "loaded", [], ?_, ?_, ?_, hclosed w,
        .inr ⟨fun hload => hload.2 hp, rfl⟩⟩
      · intro fuel hfuel
        obtain ⟨k, rfl⟩ := Nat.exists_eq_add_of_lt hfuel
        rw [hrun, loadLoop_unreadable hfd hp]
      · exact Loading.terminated rfl rfl (Nat.zero_le _) _
      · exact ⟨vfsClose_ctx _ _, by rw [vfsClose_fs], by rw [vfsClose_fs], by rw [vfsClose_fs],
          by rw [vfsClose_fs]; exact hr⟩
    · have hload : Loading v (content v.fs.entries v.fs.dev.sectors n) i n 0 w e.clear :=
        ⟨⟨rfl, rfl, rfl, rfl, hr⟩, hfd, rfl, rfl, rfl, Nat.zero_le _, Nat.zero_le _⟩
      obtain ⟨u, e', hloop, hsame', hholds⟩ := hload.loop h.allocation hfree h.file hp rfl 32
        (Nat.min_le_right _ _)
      refine ⟨vfsClose u i.val, e', _, fun fuel hfuel => by rw [hrun, hloop fuel hfuel], hholds, ?_,
        hclosed u, .inl ⟨⟨⟨i, hused⟩, hp⟩, rfl⟩⟩
      exact ⟨(vfsClose_ctx _ _).trans hsame'.ctx, by rw [vfsClose_fs]; exact hsame'.super,
        by rw [vfsClose_fs]; exact hsame'.entries, by rw [vfsClose_fs]; exact hsame'.sectors,
        by rw [vfsClose_fs]; exact hsame'.reliable⟩

/-- What comes through a load and a save: a file that cannot be written, or is empty, or is
loaded whole. -/
def RoundTrips (v : Vfs) (n : Fin 64) : Prop :=
  (v.fs.entries n).perm &&& sfsPermWrite = 0 ∨ (v.fs.entries n).size = 0 ∨
    Loadable v n ∧ (v.fs.entries n).size.toNat ≤ editMaxBytes

/-- On a drive that refuses nothing no more than the file held can be written over it. -/
theorem rewriteStops_reliable {s : SimpleFs} {len : UInt32} (hr : s.dev.Reliable)
    (hx : Allocation s.super s.entries) (hf : (s.entries n).IsFile)
    (hfree : s.super.nextFreeLba.toNat ≤ 65536) (hlen : len.toNat ≤ (s.entries n).size.toNat)
    (hwrap : len.toNat + 511 < 4294967296) : ¬RewriteStops s n len := by
  have hneed := needSectors_whole hwrap
  have hheld := hx.fits n hf
  intro hstops
  rcases hstops with ⟨hrel, -⟩ | ⟨j, hj, hbig | hfault⟩
  · have hcap := UInt32.lt_iff_toNat_lt.mp hrel.2
    omega
  · have hs : (s.entries n).startLba ≠ 0 := by
      intro h0
      rw [hx.unallocated n hf h0] at hlen
      have hzero : (0 : UInt32).toNat = 0 := rfl
      omega
    have hstay : ¬Moves (s.entries n) (needSectors 0 len) := by
      refine not_or.mpr ⟨hs, ?_⟩
      rw [gt_iff_lt, UInt32.lt_iff_toNat_lt]
      omega
    rw [placedStart, if_neg hstay] at hbig
    rcases hx.below hf hs with h0 | hend
    · omega
    · omega
  · rw [hr] at hfault
    cases hfault

/-- A save of what was loaded. -/
theorem Loaded.saved {v' : Vfs} {text before after : List UInt8} (hl : Loaded v n v' text)
    (h : Saving v session path n) (hfree : v.fs.super.nextFreeLba.toNat ≤ 65536)
    (htext : before ++ after = text)
    (he : EditorHolds e before after) :
    ∃ w e' ok, saveToPath v' session e path = .ok (w, e', ok) ∧
      (FileAt w.fs path (w.cwd session) (content v.fs.entries v.fs.dev.sectors n) ↔
        RoundTrips v n) := by
  obtain ⟨⟨hctx, hsuper, hentries, hsectors, hrel⟩, hfds, hwhat⟩ := hl
  have hcwd : v'.cwd session = v.cwd session := by
    rw [Vfs.cwd, Vfs.cwd, hctx]
  have hres : sfsResolve v'.fs path (v'.cwd session) = .ok (some (slotId n)) := by
    rw [hcwd, sfsResolve, hsuper, hentries]
    exact h.path
  have hs : Saving v' session path n :=
    ⟨by rw [hsuper, hentries]; exact h.allocation, hres, by rw [hentries]; exact h.file,
      by rw [hsuper]; exact h.free⟩
  obtain ⟨w, e', ok, hrun, -, hout⟩ := saveToPath_outcome hs he
  refine ⟨w, e', ok, hrun, ?_⟩
  rw [hout.fileAt hs]
  have hlength := content_length v.fs.entries v.fs.dev.sectors n
  have hnil := content_eq_nil v.fs.entries v.fs.dev.sectors n
  have hsmall : text.length ≤ (v.fs.entries n).size.toNat ∧ text.length ≤ editMaxBytes := by
    rcases hwhat with ⟨-, rfl⟩ | ⟨-, rfl⟩
    · rw [List.length_take, hlength]
      omega
    · exact ⟨Nat.zero_le _, Nat.zero_le _⟩
  have hmax : editMaxBytes = 8192 := rfl
  have hlen : (UInt32.ofNat text.length).toNat = text.length := by
    rw [UInt32.toNat_ofNat', Nat.mod_eq_of_lt (by omega)]
  have hstops : SaveStops v' n text.length ↔ ∀ i, (v.fds i).used ≠ 0 := by
    have hanswers : v'.fs.dev.Answers 9 := fun k _ => hrel _
    have hgo : ¬RewriteStops v'.fs.flushedOnce n (UInt32.ofNat text.length) :=
      rewriteStops_reliable hrel hs.allocation hs.file
        (show v'.fs.super.nextFreeLba.toNat ≤ 65536 by rw [hsuper]; exact hfree)
        (show _ ≤ (v'.fs.entries n).size.toNat by rw [hlen, hentries]; exact hsmall.1) (by omega)
    simp only [SaveStops, hanswers, hgo, not_true_eq_false, false_or, or_false, hfds]
  have hold : content v'.fs.entries v'.fs.dev.sectors n =
      content v.fs.entries v.fs.dev.sectors n := by rw [hentries, hsectors]
  rw [htext] at hout
  have hwrite : (v'.fs.entries n).perm = (v.fs.entries n).perm := by rw [hentries]
  rw [RoundTrips, ← hwrite]
  rcases hout.file with ⟨hp, -, hsame⟩ | ⟨hp, hst, -, hempty⟩ | ⟨hp, hst, htext', -⟩
  · rw [hsame, hold]
    exact iff_of_true rfl (.inl hp)
  · have hno : ¬Loadable v n := fun hload => hload.1.elim fun i hi => hstops.mp hst i hi
    rw [hempty, eq_comm, hnil]
    simp only [hp, hno, false_and, or_false, false_or]
  · rw [htext']
    simp only [hp, false_or]
    rcases hwhat with ⟨hload, rfl⟩ | ⟨hno, rfl⟩
    · rw [List.take_eq_self_iff, hlength]
      simp only [hload, true_and]
      refine ⟨.inr, fun hor => hor.elim (fun h0 => ?_) id⟩
      rw [h0]
      exact Nat.zero_le _
    · rw [eq_comm, hnil]
      simp only [hno, false_and, or_false]

end Loading

/-- On a drive that refuses nothing a file comes through a load and a save, with the cursor moved
anywhere in between, exactly if it cannot be written, is empty, or is loaded whole. -/
theorem round_trip_iff (v : Vfs) (session : Int) (path : List UInt8) (n : Fin 64)
    (e : EditorState) (h : Saving v session path n) (hr : v.fs.dev.Reliable)
    (hfree : v.fs.super.nextFreeLba.toNat ≤ 65536) :
    ∃ v₁ e₁ text, (∀ fuel, 32 < fuel → loadFile fuel v session e path = .ok (some (v₁, e₁))) ∧
      EditorHolds e₁ [] text ∧
      ∀ e' before after, before ++ after = text → EditorHolds e' before after →
        ∃ v₂ e₂ ok, saveToPath v₁ session e' path = .ok (v₂, e₂, ok) ∧
          (FileAt v₂.fs path (v₂.cwd session) (content v.fs.entries v.fs.dev.sectors n) ↔
            RoundTrips v n) := by
  obtain ⟨v₁, e₁, text, hload, hholds, hl⟩ := loadFile_loads h hr hfree e
  exact ⟨v₁, e₁, text, hload, hholds,
    fun e' before after htext he => hl.saved h hfree htext he⟩

/-- The file `a` with more bytes than the editor holds. -/
def longVolume : SimpleFs :=
  let s := grow emptyLetter 1 17
  { s with entries := Function.update s.entries 1 { s.entries 1 with size := 8193 } }

def longVfs : Vfs := { letterVfs with fs := longVolume }

theorem long_allocation : Allocation longVolume.super longVolume.entries := by
  have hx : Allocation emptyLetter.super emptyLetter.entries :=
    (formatted_allocation _).add (letter_new _)
  have hsize : (emptyLetter.entries 1).size.toNat = 0 := rfl
  have hplaced : Placed emptyLetter 1 17 (grow emptyLetter 1 17) [] :=
    .grown (Wrote.refl _) trivial (fun k hk => absurd hk (by omega)) (by omega)
  have hgrown := (hplaced.allocation hx ⟨by decide, rfl⟩ (by decide)).1
  exact hgrown.shrink (n := 1) (e := { (grow emptyLetter 1 17).entries 1 with size := 8193 })
    (fun a ha => ha) (fun _ => by decide) (fun _ h0 => absurd h0 (by decide))

theorem long_saving : Saving longVfs 0 [97] 1 where
  allocation := long_allocation
  path := by decide +kernel
  file := by decide +kernel
  free := by decide +kernel

/-- The last byte of a file of 8193 bytes is lost. -/
theorem round_trip_truncates : ∃ v₁ e₁ v₂ e₂ ok,
    loadFile 33 longVfs 0 (editorOn []) [97] = .ok (some (v₁, e₁)) ∧
    saveToPath v₁ 0 e₁ [97] = .ok (v₂, e₂, ok) ∧ longVfs.fs.dev.Reliable ∧
    Saving longVfs 0 [97] 1 ∧
    (content longVfs.fs.entries longVfs.fs.dev.sectors 1).length = 8193 ∧
    ¬FileAt v₂.fs [97] (v₂.cwd 0) (content longVfs.fs.entries longVfs.fs.dev.sectors 1) := by
  have hr : longVfs.fs.dev.Reliable := fun _ => rfl
  have hfree : longVfs.fs.super.nextFreeLba.toNat ≤ 65536 := by decide +kernel
  obtain ⟨v₁, e₁, text, hload, hholds, hl⟩ := loadFile_loads long_saving hr hfree (editorOn [])
  obtain ⟨v₂, e₂, ok, hsave, hiff⟩ := hl.saved long_saving hfree rfl hholds
  have hlength : (content longVfs.fs.entries longVfs.fs.dev.sectors 1).length = 8193 := by
    rw [content_length]
    rfl
  refine ⟨v₁, e₁, v₂, e₂, ok, hload 33 (by decide), hsave, hr, long_saving, hlength, ?_⟩
  rw [hiff]
  rintro (hp | hz | ⟨-, hbig⟩)
  · exact absurd hp (by decide +kernel)
  · exact absurd hz (by decide +kernel)
  · exact absurd hbig (by decide +kernel)

/-- A load and a save of one byte. -/
theorem round_trip_letter : ∃ v₁ e₁ text,
    (∀ fuel, 32 < fuel → loadFile fuel letterVfs 0 (editorOn []) [97] = .ok (some (v₁, e₁))) ∧
      EditorHolds e₁ [] text ∧
      ∀ e' before after, before ++ after = text → EditorHolds e' before after →
        ∃ v₂ e₂ ok, saveToPath v₁ 0 e' [97] = .ok (v₂, e₂, ok) ∧
          (FileAt v₂.fs [97] (v₂.cwd 0)
            (content letterVfs.fs.entries letterVfs.fs.dev.sectors 1) ↔ RoundTrips letterVfs 1) :=
  round_trip_iff letterVfs 0 [97] 1 (editorOn [])
    ⟨letter_allocation, letter_resolves, by decide +kernel, by decide +kernel⟩ (fun _ => rfl)
    (by decide +kernel)

end VertexOS
