import VertexOS.Library.SlotMap
import VertexOS.Library.Transitions
import VertexOS.Fs.Names
import VertexOS.Vfs.Vfs

namespace VertexOS
open Library.BlockStore Library.SlotMap Library.Transitions

/-- `env_key_valid`. -/
def envKeyValid (key : List UInt8) : Bool := key.headD 0 ≠ 0

/-- `s_len`. -/
def sLen (s : List UInt8) : Nat := (cString s).length

/-- The character loop of `env_find_slot` and the check that both strings end where it stops. -/
def sameText : List UInt8 → List UInt8 → Bool
  | a :: as, b :: bs =>
    if a ≠ 0 ∧ b ≠ 0 ∧ a = b then sameText as bs else a = 0 ∧ b = 0
  | [], b :: _ => b = 0
  | a :: _, [] => a = 0
  | [], [] => true

/-- The bytes of `env_keys[i]`; the slot of a used key holds its NUL. -/
def VfsContext.keyBytes (c : VfsContext) (i : Fin 16) : List UInt8 := List.ofFn (c.envKeys i)

def VfsContext.valueBytes (c : VfsContext) (i : Fin 16) : List UInt8 := List.ofFn (c.envValues i)

def envFindSlot (c : VfsContext) (key : List UInt8) : Option (Fin 16) :=
  if envKeyValid key then
    (List.finRange 16).find? fun i =>
      c.envUsed i ≠ 0 ∧ sLen (c.keyBytes i) = sLen key ∧ sameText (c.keyBytes i) key
  else none

def envFindFreeSlot (c : VfsContext) : Option (Fin 16) :=
  (List.finRange 16).find? fun i => c.envUsed i = 0

/-- The stores of `vfs_setenv` into a slot. -/
def VfsContext.setSlot (c : VfsContext) (slot : Fin 16) (key value : List UInt8) : VfsContext :=
  { c with
    envUsed := Function.update c.envUsed slot 1
    envKeys := Function.update c.envKeys slot (sCopy (c.envKeys slot) key)
    envValues := Function.update c.envValues slot (sCopy (c.envValues slot) value) }

/-- The stores of `vfs_unsetenv`. -/
def VfsContext.clearSlot (c : VfsContext) (slot : Fin 16) : VfsContext :=
  { c with
    envUsed := Function.update c.envUsed slot 0
    envKeys := Function.update c.envKeys slot (Function.update (c.envKeys slot) 0 0)
    envValues := Function.update c.envValues slot (Function.update (c.envValues slot) 0 0) }

def Vfs.setCtx (v : Vfs) (session : Int) (c : VfsContext) : Vfs :=
  { v with ctx := Function.update v.ctx (sessionSlot session) c }

def vfsSetenv (v : Vfs) (session : Int) (key value : List UInt8) : Vfs × Bool :=
  let c := v.ctx (sessionSlot session)
  if envKeyValid key then
    match (envFindSlot c key).or (envFindFreeSlot c) with
    | none => (v, false)
    | some slot => (v.setCtx session (c.setSlot slot key value), true)
  else (v, false)

/-- The string behind the pointer that `vfs_getenv` returns. -/
def vfsGetenv (v : Vfs) (session : Int) (key : List UInt8) : Option (List UInt8) :=
  let c := v.ctx (sessionSlot session)
  (envFindSlot c key).map fun slot => cString (c.valueBytes slot)

def vfsUnsetenv (v : Vfs) (session : Int) (key : List UInt8) : Vfs × Bool :=
  let c := v.ctx (sessionSlot session)
  match envFindSlot c key with
  | none => (v, false)
  | some slot => (v.setCtx session (c.clearSlot slot), true)

/-- The variables of a context: what its used slots hold, as strings. -/
def VfsContext.vars (c : VfsContext) : Fin 16 → Option (List UInt8 × List UInt8) := fun i =>
  if c.envUsed i ≠ 0 then some (cString (c.keyBytes i), cString (c.valueBytes i)) else none

/-- A used slot holds the NUL of its key, and the key is not empty. -/
def VfsContext.Keyed (c : VfsContext) : Prop :=
  ∀ i, c.envUsed i ≠ 0 → 0 ∈ c.keyBytes i ∧ cString (c.keyBytes i) ≠ []

section Strings

/-- Equal strings are what the loop accepts. -/
theorem sameText_iff (as bs : List UInt8) : sameText as bs = true ↔ cString as = cString bs := by
  induction as generalizing bs with
  | nil =>
    cases bs with
    | nil => simp [sameText]
    | cons b bs => by_cases hb : b = 0 <;> simp [sameText, hb, cString]
  | cons a as ih =>
    cases bs with
    | nil => by_cases ha : a = 0 <;> simp [sameText, ha, cString]
    | cons b bs =>
      rw [sameText, cString_cons, cString_cons]
      by_cases ha : a = 0
      · by_cases hb : b = 0 <;> simp [ha, hb]
      · by_cases hb : b = 0
        · simp [ha, hb]
        · by_cases hab : a = b
          · simp [hb, hab, ih]
          · simp [ha, hb, hab]

theorem envKeyValid_iff (key : List UInt8) : envKeyValid key = true ↔ cString key ≠ [] := by
  cases key with
  | nil => simp [envKeyValid, cString]
  | cons a as => by_cases ha : a = 0 <;> simp [envKeyValid, cString_cons, ha]

end Strings

section Slots

variable {c : VfsContext} {key value : List UInt8} {slot : Fin 16}

theorem keyAt_vars (c : VfsContext) (i : Fin 16) (k : List UInt8) :
    keyAt c.vars i = some k ↔ c.envUsed i ≠ 0 ∧ cString (c.keyBytes i) = k := by
  simp only [keyAt, VfsContext.vars]
  split
  · next hu => simp [hu]
  · next hu => simp [hu]

/-- The lookup of a slot is the lookup of its key. -/
theorem envFindSlot_eq (c : VfsContext) (hkey : cString key ≠ []) :
    envFindSlot c key = slotOf c.vars (cString key) := by
  rw [envFindSlot, if_pos ((envKeyValid_iff key).mpr hkey), slotOf]
  congr 1
  funext i
  rw [decide_eq_decide, keyAt_vars, sameText_iff]
  refine and_congr_right fun _ => ⟨fun h => h.2, fun h => ⟨?_, h⟩⟩
  rw [sLen, sLen, h]

theorem envFindFreeSlot_eq (c : VfsContext) : envFindFreeSlot c = freeSlot c.vars := by
  rw [envFindFreeSlot, freeSlot]
  congr 1
  funext i
  rw [VfsContext.vars]
  by_cases hu : c.envUsed i = 0
  · simp [hu]
  · simp [hu]

theorem setSlot_vars (c : VfsContext) (slot : Fin 16) (key value : List UInt8) :
    (c.setSlot slot key value).vars =
      Function.update c.vars slot (some ((cString key).take 15, (cString value).take 63)) := by
  funext i
  by_cases hi : i = slot
  · subst hi
    rw [Function.update_self]
    simp only [VfsContext.vars, VfsContext.setSlot, VfsContext.keyBytes, VfsContext.valueBytes,
      Function.update_self]
    rw [if_pos (by decide), cString_sCopy (by omega), cString_sCopy (by omega)]
  · simp only [VfsContext.vars, VfsContext.setSlot, VfsContext.keyBytes, VfsContext.valueBytes,
      Function.update_of_ne hi]

theorem clearSlot_vars (c : VfsContext) (slot : Fin 16) :
    (c.clearSlot slot).vars = Function.update c.vars slot none := by
  funext i
  by_cases hi : i = slot
  · subst hi
    simp [VfsContext.vars, VfsContext.clearSlot]
  · simp only [VfsContext.vars, VfsContext.clearSlot, VfsContext.keyBytes, VfsContext.valueBytes,
      Function.update_of_ne hi]

theorem setSlot_keyed (h : c.Keyed) (hkey : cString key ≠ []) :
    (c.setSlot slot key value).Keyed := by
  intro i hu
  by_cases hi : i = slot
  · subst hi
    simp only [VfsContext.setSlot, VfsContext.keyBytes, Function.update_self]
    constructor
    · exact (sCopy_starting (by omega) _ _).subset (by simp)
    · rw [cString_sCopy (by omega)]
      simpa using hkey
  · simp only [VfsContext.setSlot, VfsContext.keyBytes, Function.update_of_ne hi] at hu ⊢
    exact h i hu

theorem clearSlot_keyed (h : c.Keyed) : (c.clearSlot slot).Keyed := by
  intro i hu
  by_cases hi : i = slot
  · subst hi
    simp [VfsContext.clearSlot] at hu
  · simp only [VfsContext.clearSlot, VfsContext.keyBytes, Function.update_of_ne hi] at hu ⊢
    exact h i hu

/-- No slot holds a key of more than 15 characters. -/
theorem VfsContext.Keyed.short (h : c.Keyed) (hlong : ¬(cString key).length ≤ 15) (i : Fin 16) :
    keyAt c.vars i ≠ some (cString key) := by
  intro hk
  obtain ⟨hu, he⟩ := (keyAt_vars c i _).mp hk
  have h0 := (h i hu).1
  have hlen : (cString (c.keyBytes i)).length < (c.keyBytes i).length := by
    refine lt_of_le_of_ne (List.takeWhile_prefix _).length_le fun heq => ?_
    have hall : cString (c.keyBytes i) = c.keyBytes i :=
      (List.takeWhile_prefix _).eq_of_length heq
    exact no_nul_cString (c.keyBytes i) (by rwa [hall])
  rw [he] at hlen
  simp only [VfsContext.keyBytes, List.length_ofFn] at hlen
  omega

end Slots

/-- The VFS and, for each context, the variables as the successful calls have set them. -/
structure EnvLog where
  vfs : Vfs
  vars : Fin 16 → List UInt8 → Option (List UInt8)

inductive EnvCall where
  | set (session : Int) (key value : List UInt8)
  | get (session : Int) (key : List UInt8)
  | unset (session : Int) (key : List UInt8)

def EnvLog.record (t : EnvLog) (session : Int) (key : List UInt8) (value : Option (List UInt8)) :
    Fin 16 → List UInt8 → Option (List UInt8) :=
  Function.update t.vars (sessionSlot session)
    (Function.update (t.vars (sessionSlot session)) (cString key) value)

/-- A call, and what a successful one means. -/
def envNext (t : EnvLog) : EnvCall → EnvLog
  | .set session key value =>
    match vfsSetenv t.vfs session key value with
    | (v, true) => ⟨v, t.record session key (some ((cString value).take 63))⟩
    | (v, false) => ⟨v, t.vars⟩
  | .get _ _ => t
  | .unset session key =>
    match vfsUnsetenv t.vfs session key with
    | (v, true) => ⟨v, t.record session key none⟩
    | (v, false) => ⟨v, t.vars⟩

def envStep (t : EnvLog) (c : EnvCall) (t' : EnvLog) : Prop := envNext t c = t'

/-- The environment is the map the calls have made of it. -/
structure EnvExact (t : EnvLog) : Prop where
  read : ∀ session key, cString key ≠ [] →
    vfsGetenv t.vfs session key = t.vars (sessionSlot session) (cString key)
  single : ∀ s i j, (t.vfs.ctx s).envUsed i ≠ 0 → (t.vfs.ctx s).envUsed j ≠ 0 →
    cString ((t.vfs.ctx s).keyBytes i) = cString ((t.vfs.ctx s).keyBytes j) → i = j
  refused : ∀ session key value, cString key ≠ [] → (vfsSetenv t.vfs session key value).2 = false →
    t.vars (sessionSlot session) (cString key) = none ∧
      ∃ ks : List (List UInt8), ks.Nodup ∧ ks.length = 16 ∧
        ∀ k ∈ ks, k ≠ cString key ∧ (t.vars (sessionSlot session) k).isSome

/-- A key fits in its slot, or there is no slot for it. -/
def EnvCall.Fits (v : Vfs) : EnvCall → Prop
  | .set session key _ =>
    (cString key).length ≤ 15 ∨ ∀ i, (v.ctx (sessionSlot session)).envUsed i ≠ 0
  | _ => True

section Steps

variable {t : EnvLog} {session : Int} {key value : List UInt8}

theorem sessionSlot_val (s : Fin 16) : sessionSlot s.val = s := by
  have hlt := s.isLt
  rw [sessionSlot, if_pos (by omega)]
  exact Fin.ext (Nat.mod_eq_of_lt hlt)

theorem cString_idem (l : List UInt8) : cString (cString l) = cString l :=
  List.takeWhile_idem

theorem vfsSetenv_eq (v : Vfs) (session : Int) (value : List UInt8) (hkey : cString key ≠ []) :
    vfsSetenv v session key value =
      match target (v.ctx (sessionSlot session)).vars (cString key) with
      | none => (v, false)
      | some slot =>
        (v.setCtx session ((v.ctx (sessionSlot session)).setSlot slot key value), true) := by
  simp only [vfsSetenv]
  rw [if_pos ((envKeyValid_iff key).mpr hkey), envFindSlot_eq _ hkey, envFindFreeSlot_eq]
  rfl

theorem vfsSetenv_invalid (v : Vfs) (session : Int) (value : List UInt8) (hkey : cString key = []) :
    vfsSetenv v session key value = (v, false) := by
  have hvalid : ¬envKeyValid key = true := fun h => (envKeyValid_iff key).mp h hkey
  simp only [vfsSetenv]
  rw [if_neg hvalid]

theorem vfsGetenv_eq (v : Vfs) (session : Int) (hkey : cString key ≠ []) :
    vfsGetenv v session key = lookup (v.ctx (sessionSlot session)).vars (cString key) := by
  simp only [vfsGetenv]
  rw [envFindSlot_eq _ hkey, lookup]
  cases hs : slotOf (v.ctx (sessionSlot session)).vars (cString key) with
  | none => rfl
  | some i =>
    have hu := ((keyAt_vars _ i _).mp (slotOf_key hs)).1
    rw [Option.map_some, Option.bind_some, VfsContext.vars, if_pos hu]
    rfl

/-- The slots of a context hold the variables `m`. -/
structure Mirrors (c : VfsContext) (m : List UInt8 → Option (List UInt8)) : Prop where
  distinct : Distinct c.vars
  found : ∀ key, cString key ≠ [] → lookup c.vars (cString key) = m (cString key)

/-- What a context with no slot left for a key holds. -/
theorem Mirrors.full {c : VfsContext} {m : List UInt8 → Option (List UInt8)} (h : Mirrors c m)
    (hc : c.Keyed) (hkey : cString key ≠ []) (ht : target c.vars (cString key) = none) :
    m (cString key) = none ∧ ∃ ks : List (List UInt8), ks.Nodup ∧ ks.length = 16 ∧
      ∀ k ∈ ks, k ≠ cString key ∧ (m k).isSome := by
  obtain ⟨hnone, ks, hnodup, hlen, hks⟩ := target_none h.distinct ht
  refine ⟨(h.found key hkey).symm.trans hnone, ks, hnodup, hlen, fun k hk => ?_⟩
  obtain ⟨hne, hsome⟩ := hks k hk
  refine ⟨hne, ?_⟩
  -- a key that is found is the string of a used slot
  cases hs : slotOf c.vars k with
  | none => simp [lookup, hs] at hsome
  | some i =>
    obtain ⟨hu, rfl⟩ := (keyAt_vars c i k).mp (slotOf_key hs)
    have hstring := cString_idem (c.keyBytes i)
    have hfound := h.found (cString (c.keyBytes i)) (by rw [hstring]; exact (hc i hu).2)
    rw [hstring] at hfound
    rwa [← hfound]

theorem envExact_iff (hkeyed : ∀ s, (t.vfs.ctx s).Keyed) :
    EnvExact t ↔ ∀ s, Mirrors (t.vfs.ctx s) (t.vars s) := by
  constructor
  · intro h s
    constructor
    · intro i j k hi hj
      obtain ⟨hu, he⟩ := (keyAt_vars _ i k).mp hi
      obtain ⟨hu', he'⟩ := (keyAt_vars _ j k).mp hj
      exact h.single s i j hu hu' (he.trans he'.symm)
    · intro key hkey
      have hread := h.read s.val key hkey
      rwa [vfsGetenv_eq _ _ hkey, sessionSlot_val] at hread
  · intro h
    constructor
    · intro session key hkey
      rw [vfsGetenv_eq _ _ hkey]
      exact (h _).found key hkey
    · intro s i j hu hu' he
      exact (h s).distinct i j _ ((keyAt_vars _ i _).mpr ⟨hu, rfl⟩)
        ((keyAt_vars _ j _).mpr ⟨hu', he.symm⟩)
    · intro session key value hkey hfail
      rw [vfsSetenv_eq _ _ _ hkey] at hfail
      cases ht : target (t.vfs.ctx (sessionSlot session)).vars (cString key) with
      | none => exact (h _).full (hkeyed _) hkey ht
      | some slot =>
        rw [ht] at hfail
        cases hfail

theorem setCtx_ctx (v : Vfs) (session : Int) (c : VfsContext) (s : Fin 16) :
    (v.setCtx session c).ctx s = if s = sessionSlot session then c else v.ctx s := by
  rw [Vfs.setCtx]
  exact Function.update_apply ..

/-- One context changed: the others hold what they held. -/
theorem mirrors_setCtx {c : VfsContext} {m : List UInt8 → Option (List UInt8)}
    (h : ∀ s, Mirrors (t.vfs.ctx s) (t.vars s)) (hc : Mirrors c m) (s : Fin 16) :
    Mirrors ((t.vfs.setCtx session c).ctx s)
      (Function.update t.vars (sessionSlot session) m s) := by
  rw [setCtx_ctx, Function.update_apply]
  split
  · exact hc
  · exact h s

theorem keyed_setCtx {v : Vfs} {c : VfsContext} (h : ∀ s, (v.ctx s).Keyed) (hc : c.Keyed)
    (s : Fin 16) : ((v.setCtx session c).ctx s).Keyed := by
  rw [setCtx_ctx]
  split
  · exact hc
  · exact h s

theorem Mirrors.set {c : VfsContext} {m : List UInt8 → Option (List UInt8)} {slot : Fin 16}
    (h : Mirrors c m) (ht : target c.vars (cString key) = some slot)
    (hshort : (cString key).length ≤ 15) : Mirrors (c.setSlot slot key value)
      (Function.update m (cString key) (some ((cString value).take 63))) := by
  have hvars := setSlot_vars c slot key value
  rw [List.take_of_length_le hshort] at hvars
  constructor
  · rw [hvars]
    exact insert_distinct h.distinct ht _
  · intro q hq
    rw [hvars, lookup_insert h.distinct ht]
    by_cases he : cString q = cString key
    · rw [he, Function.update_self, Function.update_self]
    · rw [Function.update_of_ne he, Function.update_of_ne he]
      exact h.found q hq

theorem Mirrors.unset {c : VfsContext} {m : List UInt8 → Option (List UInt8)} {slot : Fin 16}
    (h : Mirrors c m) (hk : keyAt c.vars slot = some (cString key)) :
    Mirrors (c.clearSlot slot) (Function.update m (cString key) none) := by
  constructor
  · rw [clearSlot_vars]
    exact erase_distinct h.distinct slot
  · intro q hq
    rw [clearSlot_vars, lookup_erase h.distinct hk]
    by_cases he : cString q = cString key
    · rw [he, Function.update_self, Function.update_self]
    · rw [Function.update_of_ne he, Function.update_of_ne he]
      exact h.found q hq

theorem envNext_keyed (h : ∀ s, (t.vfs.ctx s).Keyed) (c : EnvCall) (s : Fin 16) :
    ((envNext t c).vfs.ctx s).Keyed := by
  cases c with
  | set session key value =>
    by_cases hkey : cString key = []
    · simp only [envNext, vfsSetenv_invalid _ _ _ hkey]
      exact h s
    · simp only [envNext, vfsSetenv_eq _ _ _ hkey]
      cases target (t.vfs.ctx (sessionSlot session)).vars (cString key) with
      | none => exact h s
      | some slot => exact keyed_setCtx h (setSlot_keyed (h _) hkey) s
  | get session key => exact h s
  | unset session key =>
    simp only [envNext, vfsUnsetenv]
    cases envFindSlot (t.vfs.ctx (sessionSlot session)) key with
    | none => exact h s
    | some slot => exact keyed_setCtx h (clearSlot_keyed (h _)) s

/-- A variable whose key does not fit in its slot is not found again. -/
theorem set_long (hkeyed : ∀ s, (t.vfs.ctx s).Keyed) (hlong : ¬(cString key).length ≤ 15)
    (slot : Fin 16) : ¬EnvExact ⟨t.vfs.setCtx session
      ((t.vfs.ctx (sessionSlot session)).setSlot slot key value),
      t.record session key (some ((cString value).take 63))⟩ := by
  have hkey : cString key ≠ [] := by
    intro he
    simp [he] at hlong
  intro h
  have hread := h.read session key hkey
  rw [vfsGetenv_eq _ _ hkey] at hread
  simp only [setCtx_ctx, if_true, EnvLog.record, Function.update_self] at hread
  rw [lookup_none ((setSlot_keyed (hkeyed _) hkey).short hlong)] at hread
  cases hread

/-- One call keeps the environment exact unless it stores a key that does not fit. -/
theorem envNext_exact_iff (hkeyed : ∀ s, (t.vfs.ctx s).Keyed) (h : EnvExact t) (c : EnvCall) :
    EnvExact (envNext t c) ↔ c.Fits t.vfs := by
  have hall := (envExact_iff hkeyed).mp h
  cases c with
  | set session key value =>
    by_cases hkey : cString key = []
    · simp only [envNext, vfsSetenv_invalid _ _ _ hkey]
      exact iff_of_true h (.inl (by simp [hkey]))
    · simp only [envNext, vfsSetenv_eq _ _ _ hkey]
      cases ht : target (t.vfs.ctx (sessionSlot session)).vars (cString key) with
      | none =>
        refine iff_of_true h (.inr fun i hu => ?_)
        have hfree := freeSlot_none (Option.or_eq_none_iff.mp ht).2 i
        simp [VfsContext.vars, hu] at hfree
      | some slot =>
        by_cases hshort : (cString key).length ≤ 15
        · refine iff_of_true ?_ (.inl hshort)
          refine (envExact_iff fun s => keyed_setCtx hkeyed (setSlot_keyed (hkeyed _) hkey) s).mpr ?_
          exact mirrors_setCtx hall ((hall _).set ht hshort)
        · refine iff_of_false (set_long hkeyed hshort slot) ?_
          rintro (hle | hused)
          · exact hshort hle
          · -- the key had no slot of its own, so it went to a free one
            cases hs : slotOf (t.vfs.ctx (sessionSlot session)).vars (cString key) with
            | none =>
              rw [target, hs, Option.none_or] at ht
              have hfree := freeSlot_free ht
              rw [VfsContext.vars, if_pos (hused slot)] at hfree
              cases hfree
            | some i => exact (hkeyed _).short hshort i (slotOf_key hs)
  | get session key => exact iff_of_true h trivial
  | unset session key =>
    refine iff_of_true ?_ trivial
    simp only [envNext, vfsUnsetenv]
    cases hs : envFindSlot (t.vfs.ctx (sessionSlot session)) key with
    | none => exact h
    | some slot =>
      have hkey : cString key ≠ [] := by
        intro he
        have hvalid : ¬envKeyValid key = true := fun hv => (envKeyValid_iff key).mp hv he
        rw [envFindSlot, if_neg hvalid] at hs
        cases hs
      rw [envFindSlot_eq _ hkey] at hs
      refine (envExact_iff fun s => keyed_setCtx hkeyed (clearSlot_keyed (hkeyed _)) s).mpr ?_
      exact mirrors_setCtx hall ((hall _).unset (slotOf_key hs))

/-- `vfs_init` has left all slots empty. -/
def EnvLog.start (v : Vfs) : EnvLog := ⟨v, fun _ _ => none⟩

theorem start_exact {v : Vfs} (hv : ∀ s i, (v.ctx s).envUsed i = 0) :
    (∀ s, ((EnvLog.start v).vfs.ctx s).Keyed) ∧ EnvExact (EnvLog.start v) := by
  have hkeyed : ∀ s, ((EnvLog.start v).vfs.ctx s).Keyed := fun s i hu => absurd (hv s i) hu
  have hempty : ∀ s i, (v.ctx s).vars i = none := by
    intro s i
    rw [VfsContext.vars, if_neg (not_not.mpr (hv s i))]
  refine ⟨hkeyed, (envExact_iff hkeyed).mpr fun s => ⟨?_, ?_⟩⟩
  · intro i j k hi
    rw [keyAt, show (EnvLog.start v).vfs.ctx s = v.ctx s from rfl, hempty] at hi
    cases hi
  · intro key _
    refine lookup_none fun i hi => ?_
    rw [keyAt, show (EnvLog.start v).vfs.ctx s = v.ctx s from rfl, hempty] at hi
    cases hi

theorem vfsInit_unset {v v' : Vfs} (h : vfsInit v = (v', true)) :
    ∀ s i, (v'.ctx s).envUsed i = 0 := by
  simp only [vfsInit] at h
  split at h
  · cases h
  · cases h
    exact fun _ _ => rfl

end Steps

/-- From `vfs_init` on the environment is exact all along a run if and only if every key that
`vfs_setenv` stores fits in its slot. -/
theorem environment_exact_iff (v v' : Vfs) (hinit : vfsInit v = (v', true)) (calls : List EnvCall) :
    (∀ done t, done <+: calls → Run envStep (EnvLog.start v') done t → EnvExact t) ↔
    ∀ done c t, done ++ [c] <+: calls → Run envStep (EnvLog.start v') done t → c.Fits t.vfs := by
  obtain ⟨hkeyed, hexact⟩ := start_exact (vfsInit_unset hinit)
  refine (Run.all_iff (I := fun t => ∀ s, (t.vfs.ctx s).Keyed) (C := fun t c => EnvCall.Fits t.vfs c)
    ?_ ?_ ?_ hkeyed calls).trans (and_iff_right hexact)
  · exact fun t c _ => ⟨envNext t c, rfl⟩
  · intro t c t' ht he
    rw [← he]
    exact envNext_keyed ht c
  · intro t c t' ht hP he
    rw [← he]
    exact envNext_exact_iff ht hP c

/-- The kernel's tables before `vfs_init`, and a blank disk. -/
def unsetVfs : Vfs :=
  ⟨powerOn blankDrive, fun _ => ⟨0, 0, 0, 0⟩, fun _ => ⟨0, [], fun _ => 0, fun _ _ => 0, fun _ _ => 0⟩⟩

theorem unsetVfs_init : vfsInit unsetVfs = ((vfsInit unsetVfs).1, true) :=
  Prod.ext rfl (by decide +kernel)

/-- Two sessions, a variable each, and one of them taken back. -/
theorem environment_exact_two : ∃ t,
    Run envStep (EnvLog.start (vfsInit unsetVfs).1)
      [.set 0 [65] [120], .set 1 [66] [121], .unset 0 [65]] t ∧
    EnvExact t ∧ t.vars 0 [65] = none ∧ t.vars 1 [66] = some [121] := by
  have hrun : Run envStep (EnvLog.start (vfsInit unsetVfs).1)
      [.set 0 [65] [120], .set 1 [66] [121], .unset 0 [65]] _ :=
    .cons rfl (.cons rfl (.cons rfl (.nil _)))
  refine ⟨_, hrun, (environment_exact_iff _ _ unsetVfs_init _).mpr ?_ _ _ (List.prefix_refl _) hrun,
    by decide +kernel, by decide +kernel⟩
  intro done c t hpre _
  have hmem := hpre.subset (List.mem_append_right done List.mem_cons_self)
  simp only [List.mem_cons, List.not_mem_nil, or_false] at hmem
  rcases hmem with rfl | rfl | rfl
  · exact .inl (by decide)
  · exact .inl (by decide)
  · exact trivial

/-- A key of 16 characters is stored without its last one, and not found. -/
theorem environment_loses_long : ∃ t,
    Run envStep (EnvLog.start (vfsInit unsetVfs).1) [.set 0 (List.replicate 16 65) [120]] t ∧
    t.vars 0 (List.replicate 16 65) = some [120] ∧
    vfsGetenv t.vfs 0 (List.replicate 16 65) = none ∧ ¬EnvExact t := by
  have hnone : vfsGetenv (envNext (EnvLog.start (vfsInit unsetVfs).1)
      (.set 0 (List.replicate 16 65) [120])).vfs 0 (List.replicate 16 65) = none := by
    decide +kernel
  have hvars : (envNext (EnvLog.start (vfsInit unsetVfs).1)
      (.set 0 (List.replicate 16 65) [120])).vars 0 (List.replicate 16 65) = some [120] := by
    decide +kernel
  refine ⟨_, .cons rfl (.nil _), hvars, hnone, fun h => ?_⟩
  have hread := h.read 0 (List.replicate 16 65) (by decide)
  rw [hnone] at hread
  cases hread.trans hvars

end VertexOS
