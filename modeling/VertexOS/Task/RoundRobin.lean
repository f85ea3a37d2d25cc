import VertexOS.Task.Scheduler

namespace VertexOS
open Library.Transitions

/-- The runnable tasks in index order, cyclically from behind the current one. -/
def Scheduler.roundOrder (s : Scheduler) : List Nat :=
  ((List.range s.taskCount).map fun i =>
    ((s.currentIndex + 1).toNat + i) % s.taskCount).filter s.runnable

/-- Whether a call gets to `scheduler_pick_next`. -/
def SchedCall.picks (s : Scheduler) : SchedCall → Bool
  | .start => true
  | .yield => 2 ≤ s.taskCount
  | .maybePreempt => s.preemptPending ∧ 2 ≤ s.taskCount
  | .create .. | .onTick | .taskReturn => false

/-- No task is created, and none returns. -/
def SchedCall.Settled : SchedCall → Prop
  | .create .. | .taskReturn => False
  | _ => True

/-- The tasks that the picks of a run select, in order. -/
inductive Picked : Tasking → List SchedCall → List Int → Tasking → Prop
  | nil (t : Tasking) : Picked t [] [] t
  | pick {t t' t'' : Tasking} (hstep : SchedStep t c t') (hpick : c.picks t.sched = true)
      (hrest : Picked t' cs l t'') : Picked t (c :: cs) (t'.sched.currentIndex :: l) t''
  | pass {t t' t'' : Tasking} (hstep : SchedStep t c t') (hpick : c.picks t.sched = false)
      (hrest : Picked t' cs l t'') : Picked t (c :: cs) l t''

section Rounds

variable {s : Scheduler} {t t' : Tasking}

/-- The scan of a pick meets the tasks in that order. -/
theorem candidate_eq (hcur : -1 ≤ s.currentIndex) (i : Nat) :
    s.candidate i = ((s.currentIndex + 1).toNat + i) % s.taskCount := by
  obtain ⟨b, hb⟩ := Int.eq_ofNat_of_zero_le (show 0 ≤ s.currentIndex + 1 by omega)
  have hsum : s.currentIndex + 1 + (i : Int) = ((b + i : Nat) : Int) := by
    rw [hb]
    rfl
  rw [Scheduler.candidate, hsum, hb]
  rfl

theorem roundOrder_candidates (hcur : -1 ≤ s.currentIndex) :
    s.roundOrder = ((List.range s.taskCount).map s.candidate).filter s.runnable := by
  rw [Scheduler.roundOrder]
  congr 1
  apply List.map_congr_left
  intro i _
  exact (candidate_eq hcur i).symm

theorem promote_runnable {idx : Nat} (hidx : s.runnable idx = true) (j : Nat) :
    (s.promote idx).runnable j = s.runnable j := by
  rw [Bool.eq_iff_iff, runnable_iff, runnable_iff, promote_state]
  rw [runnable_iff] at hidx
  split
  · next hj =>
    rw [hj]
    exact iff_of_true (.inr rfl) hidx
  · split
    · next hrun => exact iff_of_true (.inl rfl) (.inr hrun.1)
    · exact Iff.rfl

/-- Counting on from the task at place `p` is counting from place `p + 1`, around the table. -/
theorem range_rotated (b n p : Nat) :
    ((List.range n).map fun i => ((b + p) % n + 1 + i) % n) =
      ((List.range n).map fun i => (b + i) % n).rotate (p + 1) := by
  apply List.ext_getElem
  · simp
  · intro i hi _
    have hin : i < n := by simpa using hi
    simp only [List.getElem_map, List.getElem_range, List.getElem_rotate, List.length_map,
      List.length_range]
    rw [Nat.add_assoc, Nat.mod_add_mod, Nat.add_mod_mod]
    congr 1
    omega

/-- Where the scan stops: the candidates before it are not runnable. -/
theorem pickNext_found (h : s.roundOrder ≠ []) (hcur : -1 ≤ s.currentIndex) :
    ∃ p < s.taskCount, s.runnable (s.candidate p) = true ∧
      (∀ i < p, s.runnable (s.candidate i) = false) ∧
      s.schedulerPickNext = s.promote (s.candidate p) := by
  rw [roundOrder_candidates hcur] at h
  obtain ⟨x, hx⟩ := List.exists_mem_of_ne_nil _ h
  obtain ⟨hmem, hrun⟩ := List.mem_filter.mp hx
  obtain ⟨i, hi, rfl⟩ := List.mem_map.mp hmem
  cases hf : (List.range s.taskCount).find? (fun i => s.runnable (s.candidate i)) with
  | none => exact absurd hrun (List.find?_eq_none.mp hf i hi)
  | some p =>
    obtain ⟨hp, hlt, hbefore⟩ := List.find?_range_eq_some.mp hf
    refine ⟨p, List.mem_range.mp hlt, hp, fun i hi => by simpa using hbefore i hi, ?_⟩
    rw [Scheduler.schedulerPickNext, hf]

theorem scanned_none (hbefore : ∀ i < p, s.runnable (s.candidate i) = false) :
    (((List.range s.taskCount).map s.candidate).take p).filter s.runnable = [] := by
  rw [List.filter_eq_nil_iff]
  intro x hx
  obtain ⟨i, hi, rfl⟩ := List.mem_take_iff_getElem.mp hx
  have hip : i < p := by omega
  simp [hbefore i hip]

/-- The order is the runnable candidates from where the scan stops on. -/
theorem roundOrder_found (hcur : -1 ≤ s.currentIndex) (hp : p < s.taskCount)
    (hrun : s.runnable (s.candidate p) = true)
    (hbefore : ∀ i < p, s.runnable (s.candidate i) = false) :
    s.roundOrder = s.candidate p ::
      (((List.range s.taskCount).map s.candidate).drop (p + 1)).filter s.runnable := by
  rw [roundOrder_candidates hcur]
  have hlen : p < ((List.range s.taskCount).map s.candidate).length := by
    simpa using hp
  conv_lhs => rw [← List.take_append_drop p ((List.range s.taskCount).map s.candidate)]
  rw [List.filter_append, scanned_none hbefore, List.nil_append, List.drop_eq_getElem_cons hlen]
  simp [hrun]

/-- Behind a pick the scan goes around from the next place. -/
theorem roundOrder_promoted (hcur : -1 ≤ s.currentIndex)
    (hrun : s.runnable (s.candidate p) = true) :
    (s.promote (s.candidate p)).roundOrder =
      (((List.range s.taskCount).map s.candidate).rotate (p + 1)).filter s.runnable := by
  have hcount : (s.promote (s.candidate p)).taskCount = s.taskCount := (demote_fields s).1
  have hcurrent : ((s.promote (s.candidate p)).currentIndex + 1).toNat =
      ((s.currentIndex + 1).toNat + p) % s.taskCount + 1 := by
    rw [← candidate_eq hcur]
    rfl
  have hcandidates : (List.range s.taskCount).map s.candidate =
      (List.range s.taskCount).map fun i => ((s.currentIndex + 1).toNat + i) % s.taskCount :=
    List.map_congr_left fun i _ => candidate_eq hcur i
  rw [Scheduler.roundOrder, hcount, hcurrent, range_rotated, hcandidates]
  exact List.filter_congr fun j _ => promote_runnable hrun j

/-- A pick selects the first task of the order and puts it behind the others. -/
theorem pickNext_order (hcur : -1 ≤ s.currentIndex) (ho : s.roundOrder = x :: rest) :
    s.schedulerPickNext.currentIndex = x ∧ s.schedulerPickNext.roundOrder = rest ++ [x] := by
  obtain ⟨p, hp, hrun, hbefore, he⟩ :=
    pickNext_found (by rw [ho]; exact List.cons_ne_nil x rest) hcur
  obtain ⟨hx, hrest⟩ := List.cons.inj ((roundOrder_found hcur hp hrun hbefore).symm.trans ho)
  have hlen : p < ((List.range s.taskCount).map s.candidate).length := by
    simpa using hp
  subst hx
  rw [he]
  refine ⟨rfl, ?_⟩
  rw [roundOrder_promoted hcur hrun, List.rotate_eq_drop_append_take hlen, List.filter_append,
    hrest, List.take_succ_eq_append_getElem hlen, List.filter_append, scanned_none hbefore]
  simp [hrun]

theorem roundOrder_nodup (s : Scheduler) : s.roundOrder.Nodup := by
  apply List.Nodup.filter
  apply List.Nodup.map_on _ List.nodup_range
  intro i hi j hj h
  rw [List.mem_range] at hi hj
  have hmod : (s.currentIndex + 1).toNat + i ≡ (s.currentIndex + 1).toNat + j [MOD s.taskCount] := h
  exact (Nat.ModEq.add_left_cancel' _ hmod).eq_of_lt_of_lt hi hj

theorem mem_roundOrder (s : Scheduler) (i : Nat) :
    i ∈ s.roundOrder ↔ i < s.taskCount ∧ s.runnable i = true := by
  rw [Scheduler.roundOrder, List.mem_filter]
  refine and_congr_left fun _ => ?_
  constructor
  · intro h
    obtain ⟨j, hj, rfl⟩ := List.mem_map.mp h
    exact Nat.mod_lt _ (Nat.lt_of_le_of_lt (Nat.zero_le j) (List.mem_range.mp hj))
  · intro h
    have hb := Nat.mod_lt (s.currentIndex + 1).toNat (Nat.lt_of_le_of_lt (Nat.zero_le i) h)
    refine List.mem_map.mpr ⟨(i + s.taskCount - (s.currentIndex + 1).toNat % s.taskCount) %
      s.taskCount, List.mem_range.mpr (Nat.mod_lt _ (by omega)), ?_⟩
    rw [Nat.add_mod_mod, ← Nat.mod_add_mod,
      show (s.currentIndex + 1).toNat % s.taskCount +
        (i + s.taskCount - (s.currentIndex + 1).toNat % s.taskCount) = i + s.taskCount by omega,
      Nat.add_mod_right, Nat.mod_eq_of_lt h]

/-- A call without a pick leaves the order as it is. -/
theorem settled_order (hset : c.Settled) (hstep : SchedStep t c t')
    (hpick : c.picks t.sched = false) : t'.sched.roundOrder = t.sched.roundOrder ∧
      t'.sched.currentIndex = t.sched.currentIndex := by
  cases hstep with
  | create => exact hset.elim
  | start => cases hpick
  | yield =>
    have hlt : t.sched.taskCount < 2 := by
      simpa [SchedCall.picks] using hpick
    rw [Scheduler.schedulerYield, if_pos hlt]
    exact ⟨rfl, rfl⟩
  | onTick =>
    simp only [Scheduler.schedulerOnTick]
    split
    · exact ⟨rfl, rfl⟩
    · exact ⟨rfl, rfl⟩
  | maybePreempt =>
    simp only [Scheduler.schedulerMaybePreempt]
    split
    · next hpend =>
      have hlt : t.sched.taskCount < 2 := by
        simpa [SchedCall.picks, hpend] using hpick
      rw [Scheduler.schedulerYield, if_pos hlt]
      exact ⟨rfl, rfl⟩
    · exact ⟨rfl, rfl⟩
  | taskReturn => exact hset.elim

theorem pickNext_pending (s : Scheduler) (b : Bool) :
    { s with preemptPending := b }.schedulerPickNext =
      { s.schedulerPickNext with preemptPending := b } := by
  have hdemote : { s with preemptPending := b }.demote = { s.demote with preemptPending := b } := by
    simp only [Scheduler.demote]
    split
    · rfl
    · rfl
  have hsame : (List.range { s with preemptPending := b }.taskCount).find? (fun i =>
      { s with preemptPending := b }.runnable ({ s with preemptPending := b }.candidate i)) =
      (List.range s.taskCount).find? (fun i => s.runnable (s.candidate i)) := rfl
  rw [Scheduler.schedulerPickNext, Scheduler.schedulerPickNext, hsame]
  cases (List.range s.taskCount).find? (fun i => s.runnable (s.candidate i)) with
  | none => rfl
  | some i =>
    simp only [Scheduler.promote, hdemote]
    rfl

/-- A call with a pick does what the pick does. -/
theorem picked_order (hstep : SchedStep t c t') (hpick : c.picks t.sched = true) :
    t'.sched.roundOrder = t.sched.schedulerPickNext.roundOrder ∧
      t'.sched.currentIndex = t.sched.schedulerPickNext.currentIndex := by
  cases hstep with
  | create => cases hpick
  | start hstart =>
    rw [Scheduler.schedulerStart] at hstart
    split at hstart
    · cases hstart
    · cases hstart
      exact ⟨rfl, rfl⟩
  | yield =>
    rw [Scheduler.schedulerYield, if_neg (Nat.not_lt.mpr (of_decide_eq_true hpick))]
    exact ⟨rfl, rfl⟩
  | onTick => cases hpick
  | maybePreempt =>
    obtain ⟨hpend, hcount⟩ := of_decide_eq_true hpick
    rw [Scheduler.schedulerMaybePreempt, if_pos hpend, Scheduler.schedulerYield,
      if_neg (Nat.not_lt.mpr hcount), pickNext_pending]
    exact ⟨rfl, rfl⟩
  | taskReturn => cases hpick

/-- The picks of a run go through the order, once around. -/
theorem Picked.order {l : List Int} (hpicked : Picked t cs l t') (hcur : -1 ≤ t.sched.currentIndex)
    (hset : ∀ c ∈ cs, c.Settled) (hlen : l.length ≤ todo.length)
    (ho : t.sched.roundOrder = todo ++ done) : l = (todo.take l.length).map Int.ofNat := by
  induction hpicked generalizing todo done with
  | nil => rfl
  | @pick c cs l t t' t'' hstep hpick hrest ih =>
    obtain ⟨horder, hcurrent⟩ := picked_order hstep hpick
    cases todo with
    | nil => exact absurd hlen (by simp)
    | cons x todo =>
      obtain ⟨hx, hround⟩ := pickNext_order hcur (ho.trans (List.cons_append ..))
      rw [hx] at hcurrent
      rw [hround, List.append_assoc] at horder
      have htail := ih (by omega) (fun c hc => hset c (List.mem_cons_of_mem _ hc))
        (Nat.le_of_succ_le_succ hlen) horder
      rw [hcurrent, List.length_cons, List.take_succ_cons, List.map_cons, ← htail]
      rfl
  | @pass c cs l t t' t'' hstep hpick hrest ih =>
    obtain ⟨horder, hcurrent⟩ := settled_order (hset _ List.mem_cons_self) hstep hpick
    exact ih (by omega) (fun c hc => hset c (List.mem_cons_of_mem _ hc)) hlen (horder.trans ho)

/-- The picks one after the other. -/
theorem pickNext_iterate (hcur : -1 ≤ s.currentIndex) (ho : s.roundOrder = todo ++ done) {j : Nat}
    (hj : j < todo.length) :
    (Scheduler.schedulerPickNext^[j + 1] s).currentIndex = (todo[j] : Nat) := by
  induction j generalizing s todo done with
  | zero =>
    cases todo with
    | nil => exact absurd hj (by simp)
    | cons x todo => exact (pickNext_order hcur (ho.trans (List.cons_append ..))).1
  | succ j ih =>
    cases todo with
    | nil => exact absurd hj (by simp)
    | cons x todo =>
      obtain ⟨hx, hround⟩ := pickNext_order hcur (ho.trans (List.cons_append ..))
      rw [List.append_assoc] at hround
      rw [Function.iterate_succ_apply, List.getElem_cons_succ]
      exact ih (by omega) hround _

end Rounds

theorem SchedInv.current_ge {t : Tasking} (h : SchedInv t) : -1 ≤ t.sched.currentIndex := by
  cases hs : t.started with
  | false => exact (h.before hs).1.ge
  | true =>
    obtain ⟨c, -, hc, -⟩ := h.current hs
    omega

/-- From every reachable state the next picks select every runnable task once, in index order
around the table, whatever calls without creation or return stand between them. -/
theorem scheduler_round_robin (t : Tasking) (cs : List SchedCall)
    (hrun : Run SchedStep freshTasking cs t) :
    t.sched.roundOrder.Nodup ∧
    (∀ i, i ∈ t.sched.roundOrder ↔ i < t.sched.taskCount ∧ t.sched.runnable i = true) ∧
    (∀ j (hj : j < t.sched.roundOrder.length),
      (Scheduler.schedulerPickNext^[j + 1] t.sched).currentIndex = (t.sched.roundOrder[j] : Nat)) ∧
    ∀ (cs' : List SchedCall) (picked : List Int) (t' : Tasking), Picked t cs' picked t' →
      (∀ c ∈ cs', c.Settled) → picked.length ≤ t.sched.roundOrder.length →
        picked = (t.sched.roundOrder.take picked.length).map Int.ofNat := by
  have hinv : SchedInv t := hrun.invariant (fun _ _ _ h hstep => h.step hstep) schedInv_fresh
  refine ⟨roundOrder_nodup t.sched, mem_roundOrder t.sched, ?_, ?_⟩
  · intro j hj
    exact pickNext_iterate hinv.current_ge (List.append_nil _).symm hj
  · intro cs' picked t' hpicked hset hlen
    exact hpicked.order hinv.current_ge hset hlen (List.append_nil _).symm

/-- Of three tasks the second has ended: the third and the first take turns. -/
theorem scheduler_round_robin_ended : ∃ t, Run SchedStep freshTasking
      [.create 1 0 .kernel, .create 2 0 .kernel, .create 3 0 .kernel, .start, .yield, .taskReturn] t ∧
    t.sched.roundOrder = [2, 0] ∧
    (Scheduler.schedulerPickNext^[1] t.sched).currentIndex = 2 ∧
    (Scheduler.schedulerPickNext^[2] t.sched).currentIndex = 0 := by
  have hrun : Run SchedStep freshTasking
      [.create 1 0 .kernel, .create 2 0 .kernel, .create 3 0 .kernel, .start, .yield, .taskReturn] _ :=
    .cons (.create _ 1 0 .kernel) <| .cons (.create _ 2 0 .kernel) <|
      .cons (.create _ 3 0 .kernel) <| .cons (.start rfl) <| .cons (.yield rfl) <|
      .cons (.taskReturn rfl) <| .nil _
  obtain ⟨-, -, hpicks, -⟩ := scheduler_round_robin _ _ hrun
  exact ⟨_, hrun, by decide, hpicks 0 (by decide), hpicks 1 (by decide)⟩

end VertexOS
