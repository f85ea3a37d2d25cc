import VertexOS.Fs.Appends
import VertexOS.Fs.Refusals

namespace VertexOS
open Library.BlockStore Library.Packing Library.Transitions

/-! What a call leaves alone, whichever accesses the drive refuses. -/

/-- The numbers of a write stay below `2 ^ 32`, whether or not the disk has the sectors. -/
def SfsCall.Bounded (s : SimpleFs) : SfsCall → Prop
  | .write _ offset _ len => offset.toNat + len.toNat + 511 < 4294967296 ∧
    s.super.nextFreeLba.toNat + (offset.toNat + len.toNat + 511) / 512 < 4294967296
  | _ => True

/-- A call of which, above the boot sectors, at most entry `n` and its bytes feel anything. -/
structure OnlyAt (s : SimpleFs) (n : Fin 64) (s' : SimpleFs) : Prop where
  beside : Beside s n s'
  allocation : Allocation s'.super s'.entries
  low : Confined (Set.Ici 128) s.dev s'.dev

theorem Beside.trans (h : Beside s m s') (h' : Beside s' m s'') : Beside s m s'' := by
  refine ⟨fun k hk => (h'.entry k hk).trans (h.entry k hk), fun k hk hf => ?_⟩
  have hf' : (s'.entries k).IsFile := (h.entry k hk).symm ▸ hf
  exact (h'.content k hk hf').trans (h.content k hk hf)

theorem content_entry {es es' : Table} {f : Store 512} (he : es' k = es k) :
    content es' f k = content es f k :=
  (content_kept he).mpr fun _ _ => rfl

section Steps

variable {s s' s1 : SimpleFs} {n : Fin 64} {need : UInt32} {e : Entry} {d' : Drive} {r : Set Nat}

/-- Writes beside the extents of the other files do not reach their bytes. -/
theorem Confined.beside (h : Confined r s.dev s'.dev) (hx : Allocation s.super s.entries)
    (hentry : ∀ k, k ≠ n → s'.entries k = s.entries k)
    (hr : ∀ k, k ≠ n → ∀ b ∈ (s.entries k).extent, b ∉ r) : Beside s n s' := by
  refine ⟨hentry, fun k hk hf => ?_⟩
  rw [content_entry (hentry k hk)]
  exact h.content hx hf (hr k hk)

theorem Issued.confined {d d' : Drive} {xs : List (Write 512 × Bool)} (h : Issued d xs d')
    (hin : ∀ x ∈ xs, x.1.block ∈ r) : Confined r d d' :=
  ⟨h.faults, fun _ hb => h.other fun x hx he => hb (he ▸ hin x hx)⟩

/-- A table that differs in one entry, and a flush. -/
theorem flush_onlyAt {es : Table} (hx : Allocation s.super s.entries)
    (hentry : ∀ k, k ≠ n → es k = s.entries k) (hx' : Allocation s.super es) :
    OnlyAt s n (sfsFlush { s with entries := es }).1 := by
  have hentries := sfsFlush_entries { s with entries := es }
  have hsuper := sfsFlush_super { s with entries := es }
  have hflush := sfsFlush_confined { s with entries := es }
  refine ⟨Confined.beside hflush hx (fun k hk => ?_) fun k _ => hx.outside_metadata k, ?_,
    hflush.mono fun _ hb => hb.1⟩
  · rw [hentries]
    exact hentry k hk
  · rw [hentries, hsuper]
    exact hx'

/-- The file's new place is its extent, and starts where the others end. -/
theorem Allocation.grow (hx : Allocation s.super s.entries) (hf : (s.entries n).IsFile)
    (hwrap : s.super.nextFreeLba.toNat + need.toNat < 4294967296)
    (hsize : (s.entries n).size.toNat ≤ 512 * need.toNat) :
    Allocation (VertexOS.grow s n need).super (VertexOS.grow s n need).entries := by
  have hfront := hx.frontier
  have hsum : (s.super.nextFreeLba + need).toNat = s.super.nextFreeLba.toNat + need.toNat := by
    rw [UInt32.toNat_add]
    omega
  have hfree : s.super.nextFreeLba ≠ 0 := by
    intro h0
    rw [h0] at hfront
    exact absurd hfront (by decide)
  have hself : ((VertexOS.grow s n need).entries n).extent =
      Set.Ico s.super.nextFreeLba.toNat (s.super.nextFreeLba.toNat + need.toNat) := by
    rw [grow_self]
    exact extent_of_file hf hfree
  have hext : (fun m => ((VertexOS.grow s n need).entries m).extent) =
      Function.update (fun m => (s.entries m).extent) n
        (Set.Ico s.super.nextFreeLba.toNat (s.super.nextFreeLba.toNat + need.toNat)) := by
    funext m
    by_cases hm : m = n
    · subst hm
      rw [Function.update_self, hself]
    · rw [Function.update_of_ne hm, grow_other s need hm]
  refine ⟨⟨?_, fun m hm => ?_⟩, ?_, fun m hm h0 => ?_⟩
  · rw [hext, grow_super]
    dsimp only
    rw [hsum]
    exact hx.packed.place hfront (Nat.le_add_right _ _) n (le_refl _)
  · by_cases hmn : m = n
    · subst hmn
      rw [grow_self]
      exact hsize
    · rw [grow_other s need hmn] at hm ⊢
      exact hx.fits m hm
  · rw [grow_super]
    dsimp only
    omega
  · by_cases hmn : m = n
    · subst hmn
      rw [grow_self] at h0
      exact absurd h0 hfree
    · rw [grow_other s need hmn] at hm h0 ⊢
      exact hx.unallocated m hm h0

/-- A file that moves fits the sectors it is given. -/
theorem moves_fits (hx : Allocation s.super s.entries) (hf : (s.entries n).IsFile)
    (hm : Moves (s.entries n) need) : (s.entries n).size.toNat ≤ 512 * need.toNat := by
  rcases hm with h0 | hc
  · rw [hx.unallocated n hf h0]
    exact Nat.zero_le _
  · have hcap := UInt32.lt_iff_toNat_lt.mp hc
    have hfit := hx.fits n hf
    omega

/-- The reservation, with any end. -/
theorem sfsReserve_onlyAt (hx : Allocation s.super s.entries) (hf : (s.entries n).IsFile)
    (hwrap : s.super.nextFreeLba.toNat + need.toNat < 4294967296) :
    OnlyAt s n (sfsReserve s n need).1 := by
  obtain ⟨xs, hxs⟩ := sfsReserve_issued s n need
  have hin : ∀ x ∈ s.dev.callsSince (sfsReserve s n need).1.dev, x.1.block ∈
      Set.Ico s.super.nextFreeLba.toNat (s.super.nextFreeLba.toNat + need.toNat) :=
    sfsReserve_inside
  rw [hxs.callsSince] at hin
  have hfront : 137 ≤ s.super.nextFreeLba.toNat := hx.frontier
  refine ⟨(hxs.confined hin).beside hx (fun k hk => sfsReserve_other s n need hk) ?_, ?_,
    (hxs.confined hin).mono fun b hb => le_trans (by omega) hb.1⟩
  · intro k _ b hb hmem
    have hlow := (hx.bounds hb).2
    rw [Set.mem_Ico] at hmem
    omega
  · rcases sfsReserve_cases s n need with ⟨h0, he⟩ | ⟨hr, he⟩ | ⟨-, he⟩
    · rw [he]
      exact hx.grow hf hwrap (moves_fits hx hf (.inl h0))
    · rw [he]
      cases relocateLoop (s.entries n).startLba s.super.nextFreeLba
          (s.entries n).capacitySectors.toNat s.dev 0 with
      | mk dev ok =>
        cases ok with
        | false => exact hx
        | true =>
          exact Allocation.grow (s := { s with dev }) hx hf hwrap (moves_fits hx hf (.inr hr.2))
    · rw [he]
      exact hx

/-- A reservation that succeeds has the sectors asked for. -/
theorem sfsReserve_capacity (h : sfsReserve s n need = (s1, true)) :
    need.toNat ≤ (s1.entries n).capacitySectors.toNat := by
  rw [(sfsReserve_place h).2.1, placedCapacity]
  split
  · exact le_refl _
  · next hm =>
    have hc := (not_or.mp hm).2
    exact UInt32.le_iff_toNat_le.mp (UInt32.not_lt.mp hc)

/-- It leaves the file with an extent. -/
theorem sfsReserve_start (hx : Allocation s.super s.entries)
    (h : sfsReserve s n need = (s1, true)) : (s1.entries n).startLba ≠ 0 := by
  rw [(sfsReserve_place h).1, placedStart]
  split
  · intro h0
    have hfront := hx.frontier
    rw [h0] at hfront
    exact absurd hfront (by decide)
  · next hm => exact (not_or.mp hm).1

/-- The data loop keeps to the file's extent. -/
theorem writeLoop_confined {offset len : UInt32} (hx : Allocation s1.super s1.entries)
    (hf : (s1.entries n).IsFile) (hs : (s1.entries n).startLba ≠ 0)
    (hend : offset.toNat + len.toNat ≤ 512 * (s1.entries n).capacitySectors.toNat)
    (data : Nat → UInt8) :
    Confined (s1.entries n).extent s1.dev
      (writeLoop (s1.entries n).startLba offset data len s1.dev 0).1 := by
  by_cases hlen : 0 < len
  · have hpos := UInt32.lt_iff_toNat_lt.mp hlen
    have hz : (0 : UInt32).toNat = 0 := rfl
    have hoff := offset.toNat_lt
    have hfree := s1.super.nextFreeLba.toNat_lt
    have hbelow := hx.below hf hs
    obtain ⟨xs, hxs, -⟩ := writeLoop_issued (s1.entries n).startLba offset data len s1.dev 0
    have hfirst : (s1.entries n).startLba.toNat + (offset.toNat + (0 : UInt32).toNat) / 512 <
        4294967296 := by
      omega
    have hin : (offset.toNat + (0 : UInt32).toNat) / 512 <
        (s1.entries n).capacitySectors.toNat := by
      omega
    obtain ⟨ys, hys, hiff⟩ := writeLoop_inside (d := s1.dev) hlen data (by omega) hfirst hin
    have hsame : xs = ys := List.append_cancel_left (hxs.calls.symm.trans hys)
    rw [extent_of_file hf hs]
    exact hxs.confined (hsame ▸ hiff.mpr (.inl hend))
  · rw [writeLoop_end hlen]
    exact Confined.refl _ _

/-- A larger size within the extent. -/
theorem Allocation.extend {sb : Superblock} {es : Table} {endPos : UInt32}
    (hx : Allocation sb es) (hs : (es n).startLba ≠ 0)
    (hend : endPos.toNat ≤ 512 * (es n).capacitySectors.toNat) :
    Allocation sb (extendSize es n endPos) := by
  unfold extendSize
  split
  · refine hx.shrink ?_ (fun _ => hend) fun _ h0 => absurd h0 hs
    exact fun a ha => ha
  · exact hx

theorem extent_disjoint {sb : Superblock} {es : Table} {k : Fin 64} (hx : Allocation sb es)
    (hk : k ≠ n) : ∀ b ∈ (es k).extent, b ∉ (es n).extent :=
  fun _ hb hb' => Set.disjoint_left.mp (hx.packed.disjoint k n hk) hb hb'

end Steps

section Calls

variable {s s' : SimpleFs} {n : Fin 64} {c : SfsCall} {ok : Bool}

theorem sfsWrite_onlyAt {nodeId offset len : UInt32} (hx : Allocation s.super s.entries)
    (hfile : fileWith s.entries nodeId sfsPermWrite = some n) (data : Nat → UInt8)
    (hb : (SfsCall.write nodeId offset data len).Bounded s) :
    OnlyAt s n (sfsWrite s nodeId offset data len).1 := by
  obtain ⟨hf, -, -⟩ := fileWith_some hfile
  obtain ⟨hwrap, hfree⟩ := hb
  have hneed := needSectors_toNat hwrap
  have hres : OnlyAt s n (sfsReserve s n (needSectors offset len)).1 :=
    sfsReserve_onlyAt hx hf (by omega)
  simp only [sfsWrite, hfile]
  cases hr : sfsReserve s n (needSectors offset len) with
  | mk s1 done =>
    rw [hr] at hres
    cases done with
    | false => exact hres
    | true =>
      have hx1 : Allocation s1.super s1.entries := hres.allocation
      have hf1 : (s1.entries n).IsFile := by
        have hshape := (sfsReserve_shape s n (needSectors offset len)).1
        rw [hr] at hshape
        exact ⟨hshape.used n ▸ hf.1, (hshape.type n).trans hf.2⟩
      have hs1 := sfsReserve_start hx hr
      have hcap := sfsReserve_capacity hr
      have hend : offset.toNat + len.toNat ≤ 512 * (s1.entries n).capacitySectors.toNat := by
        omega
      have hloop := writeLoop_confined hx1 hf1 hs1 hend data
      dsimp only
      cases hl : writeLoop (s1.entries n).startLba offset data len s1.dev 0 with
      | mk d r =>
        rw [hl] at hloop
        have hwritten : Beside s1 n { s1 with dev := d } :=
          Confined.beside hloop hx1 (fun _ _ => rfl) fun _ hk => extent_disjoint hx1 hk
        have hbeside : Beside s n { s1 with dev := d } := hres.beside.trans hwritten
        have hlow : Confined (Set.Ici 128) s.dev d :=
          hres.low.trans (hloop.mono fun b hb => le_trans (by decide) (hx1.bounds hb).1)
        cases r with
        | none => exact ⟨hbeside, hx1, hlow⟩
        | some copied =>
          have hsum : (offset + len).toNat = offset.toNat + len.toNat := by
            rw [UInt32.toNat_add]
            omega
          have hflush := flush_onlyAt (s := { s1 with dev := d }) hx1
            (fun k hk => extendSize_other s1.entries (offset + len) hk)
            (hx1.extend hs1 (hsum ▸ hend))
          have hboth : OnlyAt s n (sfsFlush { s1 with
              dev := d, entries := extendSize s1.entries n (offset + len) }).1 :=
            ⟨hbeside.trans hflush.beside, hflush.allocation, hlow.trans hflush.low⟩
          dsimp only
          cases hfl : sfsFlush { s1 with
              dev := d, entries := extendSize s1.entries n (offset + len) } with
          | mk s2 finished =>
            rw [hfl] at hboth
            cases finished <;> exact hboth

/-- A call that works on an entry leaves the others, and any other call the volume. -/
theorem sfsStep_onlyAt (hx : Allocation s.super s.entries) (ht : DirectoryTree s.super s.entries)
    (hv : c.Valid s) (hb : c.Bounded s) (h : sfsStep s c = .ok (s', ok)) :
    c.target s = none ∧ s' = s ∨ ∃ n, c.target s = some n ∧ OnlyAt s n s' := by
  cases c with
  | create path cwd type perm =>
    simp only [sfsStep, bind, Except.bind] at h
    cases hc : sfsCreate s path cwd type perm with
    | error => rw [hc] at h; cases h
    | ok p =>
      obtain ⟨s2, nodeId⟩ := p
      rw [hc] at h
      cases h
      rcases sfsCreate_cases hc with ⟨he, rfl, -⟩ | ⟨idx, e, he, hf, -⟩
      · refine .inl ⟨?_, rfl⟩
        rw [SfsCall.target, he]
        rfl
      · refine .inr ⟨idx, ?_, ?_⟩
        · rw [SfsCall.target, he]
          rfl
        · obtain ⟨r, hr, hnew⟩ := sfsCreateEntry_new ht hv.1 path type perm
          have hentry := hnew idx e (Except.ok.inj (hr.symm.trans he))
          have hflush := flush_onlyAt hx (fun k hk => Function.update_of_ne hk e s.entries)
            (hx.add hentry)
          rw [hf] at hflush
          exact hflush
  | remove path cwd =>
    rcases sfsRemove_cases h with ⟨he, rfl, -⟩ | ⟨n, he, hf⟩
    · refine .inl ⟨?_, rfl⟩
      rw [SfsCall.target, he]
      rfl
    · refine .inr ⟨n, ?_, ?_⟩
      · rw [SfsCall.target, he]
        rfl
      · have hflush := flush_onlyAt hx
          (fun k hk => Function.update_of_ne hk Entry.zero s.entries) (hx.clear n)
        rw [hf] at hflush
        exact hflush
  | write nodeId offset data len =>
    cases hfile : fileWith s.entries nodeId sfsPermWrite with
    | none =>
      refine .inl ⟨hfile, ?_⟩
      simp only [sfsStep, sfsWrite, hfile] at h
      cases h
      rfl
    | some n =>
      refine .inr ⟨n, hfile, ?_⟩
      cases h
      exact sfsWrite_onlyAt hx hfile data hb
  | truncate nodeId =>
    rcases sfsTruncate_cases s nodeId with ⟨he, hcall⟩ | ⟨n, he, hcall⟩
    · refine .inl ⟨he, ?_⟩
      simp only [sfsStep, hcall] at h
      cases h
      rfl
    · refine .inr ⟨n, he, ?_⟩
      have hflush := flush_onlyAt hx
        (fun k hk => Function.update_of_ne hk { s.entries n with size := 0 } s.entries)
        (hx.empty n)
      have hs : sfsTruncate s nodeId = (s', ok) := Except.ok.inj h
      rw [← hcall, hs] at hflush
      exact hflush

end Calls

section Runs

variable {s s' : SimpleFs} {m : Fin 64} {dev : Drive} {before after : List SfsCall}

/-- A valid call whose numbers stay in bounds. -/
def boundedStep (s : SimpleFs) (c : SfsCall) (s' : SimpleFs) : Prop :=
  validStep s c s' ∧ c.Bounded s

/-- One that does not work on entry `m`. -/
def sparingStep (m : Fin 64) (s : SimpleFs) (c : SfsCall) (s' : SimpleFs) : Prop :=
  boundedStep s c s' ∧ c.target s ≠ some m

/-- A volume on which the files are kept apart. -/
structure Intact (s : SimpleFs) : Prop where
  tree : DirectoryTree s.super s.entries
  allocation : Allocation s.super s.entries

theorem Intact.step (h : Intact s) (hstep : boundedStep s c s') :
    Intact s' ∧ (s' = s ∨ ∃ n, c.target s = some n ∧ OnlyAt s n s') := by
  obtain ⟨⟨hv, ok, hcall⟩, hb⟩ := hstep
  obtain ⟨t, ok', hcall', ht⟩ := sfsStep_tree h.tree hv
  obtain ⟨rfl, rfl⟩ := Prod.mk.inj (Except.ok.inj (hcall.symm.trans hcall'))
  rcases sfsStep_onlyAt h.allocation h.tree hv hb hcall with ⟨-, rfl⟩ | ⟨n, hn, hat⟩
  · exact ⟨h, .inl rfl⟩
  · exact ⟨⟨ht, hat.allocation⟩, .inr ⟨n, hn, hat⟩⟩

theorem Intact.run (h : Intact s) (hrun : Run boundedStep s after s') : Intact s' :=
  hrun.invariant (P := Intact) (fun _ _ _ hs hstep => (hs.step hstep).1) h

/-- What a run leaves of a file that none of its calls works on. -/
theorem Intact.spared (h : Intact s) (hf : (s.entries m).IsFile)
    (hrun : Run (sparingStep m) s after s') :
    s'.entries m = s.entries m ∧
      content s'.entries s'.dev.sectors m = content s.entries s.dev.sectors m := by
  induction hrun with
  | nil => exact ⟨rfl, rfl⟩
  | cons head tail ih =>
    obtain ⟨hs, hcase⟩ := h.step head.1
    rcases hcase with rfl | ⟨n, hn, hat⟩
    · exact ih h hf
    · have hm : m ≠ n := by
        rintro rfl
        exact head.2 hn
      have hentry := hat.beside.entry m hm
      obtain ⟨he, hc⟩ := ih hs (hentry.symm ▸ hf)
      exact ⟨he.trans hentry, hc.trans (hat.beside.content m hm hf)⟩

/-- From a formatted disk on, whatever the drive refuses and whichever calls fail half way: the
extents of the files stay disjoint and in the data area, and a file keeps its entry and its bytes
through all calls that do not work on it. -/
theorem untouched_files_keep (dev : Drive) (hbefore : Run boundedStep (formatted 0 dev) before s)
    (hafter : Run (sparingStep m) s after s') (hf : (s.entries m).IsFile) :
    Allocation s'.super s'.entries ∧ s'.entries m = s.entries m ∧
      content s'.entries s'.dev.sectors m = content s.entries s.dev.sectors m := by
  have hs : Intact s := Intact.run ⟨formatted_tree dev, formatted_allocation dev⟩ hbefore
  have hs' : Intact s' := hs.run (hafter.mono fun _ _ _ h => h.1)
  exact ⟨hs'.allocation, hs.spared hf hafter⟩

end Runs

/-- The drive stops answering behind the flush of the first file. -/
theorem untouched_files_keep_second :
    let dev : Drive := { blankDrive with faults := fun k => 9 ≤ k }
    ∃ s s', Run boundedStep (formatted 0 dev) [.create [97] 0 sfsTypeFile 3] s ∧
      Run (sparingStep 1) s [.create [98] 0 sfsTypeFile 3] s' ∧ (s.entries 1).IsFile ∧
      s'.entries 1 = s.entries 1 := by
  intro dev
  have hv : (SfsCall.create [97] 0 sfsTypeFile 3).Valid (formatted 0 dev) :=
    ⟨⟨0, rfl, by decide, by decide⟩, .inl rfl⟩
  obtain ⟨s, ok, hs, ht⟩ := sfsStep_tree (formatted_tree dev) hv
  have hv' : (SfsCall.create [98] 0 sfsTypeFile 3).Valid s :=
    ⟨⟨0, rfl, ht.root_dir⟩, .inl rfl⟩
  obtain ⟨s', ok', hs', -⟩ := sfsStep_tree ht hv'
  have heval : (sfsStep (formatted 0 dev) (.create [97] 0 sfsTypeFile 3)).toOption.map
      (fun p => (decide (p.1.entries 1).IsFile,
        (SfsCall.create [98] 0 sfsTypeFile 3).target p.1)) = some (true, some 2) := by
    decide +kernel
  rw [hs] at heval
  obtain ⟨hfile, htarget⟩ := Prod.mk.inj (Option.some.inj heval)
  have hf : (s.entries 1).IsFile := of_decide_eq_true hfile
  have hbefore : Run boundedStep (formatted 0 dev) [.create [97] 0 sfsTypeFile 3] s :=
    .cons ⟨⟨hv, ok, hs⟩, trivial⟩ (.nil s)
  have hspares : (SfsCall.create [98] 0 sfsTypeFile 3).target s ≠ some 1 := by
    rw [htarget]
    decide
  have hafter : Run (sparingStep 1) s [.create [98] 0 sfsTypeFile 3] s' :=
    .cons ⟨⟨⟨hv', ok', hs'⟩, trivial⟩, hspares⟩ (.nil s')
  exact ⟨s, s', hbefore, hafter, hf, (untouched_files_keep dev hbefore hafter hf).2.1⟩

end VertexOS
