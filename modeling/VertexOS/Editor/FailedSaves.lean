import VertexOS.Editor.Saves

namespace VertexOS
open Library.BlockStore

/-- A save that returns 0 has left the file and the editor's text as they were. -/
def FailedSaveKeeps (v : Vfs) (session : Int) (e : EditorState) (path old : List UInt8) : Prop :=
  ∀ v' e', saveToPath v session e path = .ok (v', e', false) →
    FileAt v'.fs path (v'.cwd session) old ∧
      e'.buf = e.buf ∧ e'.len = e.len ∧ e'.cursor = e.cursor ∧ e'.dirty = e.dirty

/-- The file cannot be written. Otherwise it was empty if the save stops before its data is
written, and held what the editor holds if only the last flush fails. -/
def LosesNothing (v : Vfs) (n : Fin 64) (old text : List UInt8) : Prop :=
  (v.fs.entries n).perm &&& sfsPermWrite = 0 ∨
    (SaveStops v n text.length → old = []) ∧
      (¬SaveStops v n text.length → ¬SaveCommits v n text.length → old = text)

section Outcome

variable {v v' : Vfs} {session : Int} {path text : List UInt8} {n : Fin 64}

/-- A failed save leaves the old content exactly if there is nothing to lose. -/
theorem SaveOutcome.keeps_iff (h : SaveOutcome v n text v' false)
    (hs : Saving v session path n) :
    FileAt v'.fs path (v'.cwd session) (content v.fs.entries v.fs.dev.sectors n) ↔
      LosesNothing v n (content v.fs.entries v.fs.dev.sectors n) text := by
  rw [h.fileAt hs, LosesNothing]
  rcases h.file with ⟨hp, -, hsame⟩ | ⟨hp, hstops, -, hempty⟩ | ⟨hp, hgo, htext, hcommit⟩
  · simp [hp, hsame]
  · rw [hempty]
    simp only [hp, hstops, false_or, true_implies, not_true_eq_false, false_implies, and_true]
    exact eq_comm
  · have hno : ¬SaveCommits v n text.length := fun hyes => Bool.false_ne_true (hcommit.mpr hyes)
    rw [htext]
    simp only [hp, hgo, hno, false_or, true_implies, not_false_eq_true, false_implies, true_and]
    exact eq_comm

end Outcome

/-- Every save that fails keeps the old file and the text exactly where there is nothing to
lose. -/
theorem failed_save_keeps_iff (v : Vfs) (session : Int) (e : EditorState)
    (path before after : List UInt8) (n : Fin 64) (h : Saving v session path n)
    (he : EditorHolds e before after) :
    FailedSaveKeeps v session e path (content v.fs.entries v.fs.dev.sectors n) ↔
      LosesNothing v n (content v.fs.entries v.fs.dev.sectors n) (before ++ after) := by
  obtain ⟨w, e', ok, hrun, hstatus, hout⟩ := saveToPath_outcome h he
  cases ok with
  | false =>
    rw [← hout.keeps_iff h]
    obtain ⟨msg, rfl⟩ := hstatus rfl
    constructor
    · intro hkeeps
      exact (hkeeps w _ hrun).1
    · intro hfile w' e' hrun'
      rw [hrun] at hrun'
      cases hrun'
      exact ⟨hfile, rfl, rfl, rfl, rfl⟩
  | true =>
    refine iff_of_true ?_ ?_
    · intro w' e' hrun'
      rw [hrun] at hrun'
      cases hrun'
    · rcases hout.file with ⟨-, hno, -⟩ | ⟨-, -, hno, -⟩ | ⟨-, hgo, -, hcommit⟩
      · cases hno
      · cases hno
      · exact .inr ⟨fun hstops => absurd hstops hgo, fun _ hno => absurd (hcommit.mp rfl) hno⟩

/-- The file `a` with one byte, before a drive that refuses to write the data of the next
save. -/
def refusingVfs : Vfs :=
  let dev := letterVolume.dev
  { letterVfs with
    fs := { letterVolume with dev := { dev with faults := fun k => k == dev.accesses + 10 } } }

theorem refusing_saving : Saving refusingVfs 0 [97] 1 where
  allocation := letter_allocation
  path := by decide +kernel
  file := by decide +kernel
  free := by decide +kernel

theorem refusing_content :
    content refusingVfs.fs.entries refusingVfs.fs.dev.sectors 1 = [65] := by
  decide +kernel

/-- The save fails, and the byte that was in the file is gone. -/
theorem failed_save_empties : ∃ v' e',
    saveToPath refusingVfs 0 (editorOn [66]) [97] = .ok (v', e', false) ∧
    Saving refusingVfs 0 [97] 1 ∧
    content refusingVfs.fs.entries refusingVfs.fs.dev.sectors 1 = [65] ∧
    ¬FileAt v'.fs [97] (v'.cwd 0) [65] := by
  have hrun : (saveToPath refusingVfs 0 (editorOn [66]) [97]).toOption.map (fun r =>
      (r.2.2, (sfsResolve r.1.fs [97] (r.1.cwd 0)).toOption, (r.1.fs.entries 1).size)) =
        some (false, some (some (slotId 1)), 0) := by
    decide +kernel
  cases hs : saveToPath refusingVfs 0 (editorOn [66]) [97] with
  | error => simp [hs, Except.toOption] at hrun
  | ok r =>
    rw [hs] at hrun
    obtain ⟨v', e', ok⟩ := r
    obtain ⟨hok, hres, hsize⟩ : ok = false ∧
        (sfsResolve v'.fs [97] (v'.cwd 0)).toOption = some (some (slotId 1)) ∧
        (v'.fs.entries 1).size = 0 := by
      simpa [Except.toOption] using hrun
    subst hok
    refine ⟨v', e', rfl, refusing_saving, refusing_content, ?_⟩
    intro hfile
    obtain ⟨k, hk, -, hafter⟩ := hfile
    rw [hk] at hres
    obtain rfl : k = 1 := slotId_inj (Option.some.inj (Option.some.inj hres))
    rw [(content_eq_nil _ _ _).mpr hsize] at hafter
    cases hafter

/-- The save of one byte over the byte of the file, which the drive refuses. -/
theorem failed_save_keeps_refused :
    FailedSaveKeeps refusingVfs 0 (editorOn [66]) [97] [65] ↔
      LosesNothing refusingVfs 1 [65] [66] := by
  have he : EditorHolds (editorOn [66]) [66] [] := ⟨rfl, rfl, by decide, rfl⟩
  have hiff := failed_save_keeps_iff refusingVfs 0 (editorOn [66]) [97] [66] [] 1 refusing_saving he
  rwa [refusing_content] at hiff

end VertexOS
