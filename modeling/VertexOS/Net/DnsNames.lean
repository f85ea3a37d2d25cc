import VertexOS.Net.Dns
import VertexOS.Net.Url

namespace VertexOS

/-- The cursors of `dns_encode_name`. -/
structure NameCursors where
  i : Nat := 0
  w : Nat := 0
  labelStart : Nat := 0
  labelLen : Nat := 0
  hadLabel : Bool := false

/-- `out[w++] = (u8)host[label_start++]`, so many times. -/
def copyLabel (host : List UInt8) : Nat → Nat → Nat → Buf → Buf
  | 0, _, _, out => out
  | n + 1, labelStart, w, out =>
    copyLabel host n (labelStart + 1) (w + 1) (Function.update out w (host.getD labelStart 0))

/-- The label before `i`, with its length in front. -/
def storeLabel (host : List UInt8) (c : NameCursors) (out : Buf) : Buf :=
  copyLabel host (c.i - c.labelStart) c.labelStart (c.w + 1)
    (Function.update out c.w (UInt8.ofNat c.labelLen))

/-- The end of `dns_encode_name`, behind its loop. -/
def closeName (host : List UInt8) (outSize : Nat) (c : NameCursors) (out : Buf) :
    Option Nat × Buf :=
  if c.labelLen = 0 ∧ ¬c.hadLabel then (none, out)
  else if c.labelLen = 0 ∧ c.hadLabel then (none, out)
  else if c.labelLen > 63 ∨ c.w + 1 + c.labelLen + 1 > outSize then (none, out)
  else
    let w := c.w + 1 + (c.i - c.labelStart)
    (some (w + 1), Function.update (storeLabel host c out) w 0)

/-- The loop of `dns_encode_name`, with the text from `i` on. -/
def nameCursorLoop (host : List UInt8) (outSize : Nat) :
    List UInt8 → NameCursors → Buf → Option Nat × Buf
  | [], c, out => closeName host outSize c out
  | ch :: rest, c, out =>
    if ch = 46 then
      if c.labelLen = 0 ∨ c.labelLen > 63 ∨ c.w + 1 + c.labelLen ≥ outSize then (none, out)
      else
        nameCursorLoop host outSize rest
          { i := c.i + 1
            w := c.w + 1 + (c.i - c.labelStart)
            labelStart := c.i + 1
            labelLen := 0
            hadLabel := true } (storeLabel host c out)
    else if ch < 33 ∨ ch > 126 then (none, out)
    else nameCursorLoop host outSize rest { c with i := c.i + 1, labelLen := c.labelLen + 1 } out

/-- `dns_encode_name` on its buffer: `*out_len`, or `none` for a result of 0, and
what the buffer holds then. -/
def dnsEncodeNameInto (host : List UInt8) (out : Buf) (outSize : Nat) : Option Nat × Buf :=
  nameCursorLoop host outSize host {} out

/-- One label of a host name. -/
structure NameLabel (l : List UInt8) : Prop where
  nonempty : l ≠ []
  short : l.length ≤ 63
  shown : ∀ c ∈ l, 33 ≤ c ∧ c ≤ 126 ∧ c ≠ 46

/-- A host name in its parts. -/
structure HostName (labels : List (List UInt8)) : Prop where
  nonempty : labels ≠ []
  label : ∀ l ∈ labels, NameLabel l

/-- The labels with single dots between them. -/
def dotted : List (List UInt8) → List UInt8
  | [] => []
  | [l] => l
  | l :: ls => l ++ 46 :: dotted ls

/-- The labels as a message carries them. -/
def wireName : List (List UInt8) → List UInt8
  | [] => [0]
  | l :: ls => UInt8.ofNat l.length :: l ++ wireName ls

section Labels

variable {l l' : List UInt8} {labels : List (List UInt8)} {host : List UInt8} {outSize : Nat}

theorem dotted_cons (l : List UInt8) (h : labels ≠ []) :
    dotted (l :: labels) = l ++ 46 :: dotted labels := by
  cases labels with
  | nil => exact absurd rfl h
  | cons l' ls => rfl

theorem wireName_length (h : labels ≠ []) :
    (wireName labels).length = (dotted labels).length + 2 := by
  induction labels with
  | nil => exact absurd rfl h
  | cons l ls ih =>
    cases ls with
    | nil => simp [wireName, dotted]
    | cons l' ls =>
      have ih := ih (List.cons_ne_nil _ _)
      rw [dotted_cons l (List.cons_ne_nil _ _), wireName]
      simp [ih]
      omega

/-- The first dot ends the first label. -/
theorem split_at_dot {rest rest' : List UInt8} (h : 46 ∉ l) (h' : 46 ∉ l')
    (heq : l ++ 46 :: rest = l' ++ 46 :: rest') : l = l' ∧ rest = rest' := by
  have htake : ∀ (k m : List UInt8), 46 ∉ k → (k ++ 46 :: m).takeWhile (· ≠ 46) = k := by
    intro k m hk
    rw [List.takeWhile_append_of_pos]
    · simp
    · intro a ha
      have hne : a ≠ 46 := fun h46 => hk (h46 ▸ ha)
      simp [hne]
  have hl : l = l' := by
    rw [← htake l rest h, heq, htake l' rest' h']
  subst hl
  exact ⟨rfl, (List.cons.inj (List.append_cancel_left heq)).2⟩

theorem NameLabel.no_dot (h : NameLabel l) : 46 ∉ l := by
  intro hm
  exact (h.shown 46 hm).2.2 rfl

theorem HostName.single (h : NameLabel l) : HostName [l] :=
  ⟨List.cons_ne_nil _ _, fun _ hm => List.mem_singleton.mp hm ▸ h⟩

theorem HostName.cons (h : NameLabel l) (hs : HostName labels) : HostName (l :: labels) := by
  refine ⟨List.cons_ne_nil _ _, ?_⟩
  intro k hk
  rcases List.mem_cons.mp hk with rfl | hk
  · exact h
  · exact hs.label k hk

/-- A name that starts with a label and a dot goes on with a name. -/
theorem HostName.split {rest : List UInt8} (h : HostName labels) (hl : 46 ∉ l)
    (heq : l ++ 46 :: rest = dotted labels) :
    ∃ ls, labels = l :: ls ∧ HostName ls ∧ rest = dotted ls := by
  cases labels with
  | nil => exact absurd rfl h.nonempty
  | cons k ls =>
    have hk := (h.label k List.mem_cons_self).no_dot
    by_cases hls : ls = []
    · subst hls
      replace heq : l ++ 46 :: rest = k := heq
      rw [← heq] at hk
      simp at hk
    · rw [dotted_cons k hls] at heq
      obtain ⟨rfl, hrest⟩ := split_at_dot hl hk heq
      exact ⟨ls, rfl, ⟨hls, fun x hx => h.label x (List.mem_cons_of_mem _ hx)⟩, hrest⟩

/-- A name without a dot is one label. -/
theorem HostName.undotted (h : HostName labels) (hl : 46 ∉ dotted labels) :
    labels = [dotted labels] := by
  cases labels with
  | nil => exact absurd rfl h.nonempty
  | cons k ls =>
    cases ls with
    | nil => rfl
    | cons k' ls => simp [dotted] at hl

/-- Every character of a name is printable. -/
theorem HostName.shown (h : HostName labels) : ∀ c ∈ dotted labels, 33 ≤ c ∧ c ≤ 126 := by
  obtain ⟨-, h⟩ := h
  induction labels with
  | nil => simp [dotted]
  | cons l ls ih =>
    have hl := (h l List.mem_cons_self).shown
    have ih := ih fun k hk => h k (List.mem_cons_of_mem _ hk)
    cases ls with
    | nil => exact fun c hc => ⟨(hl c hc).1, (hl c hc).2.1⟩
    | cons k ls =>
      intro c hc
      rw [dotted_cons l (List.cons_ne_nil _ _), List.mem_append, List.mem_cons] at hc
      rcases hc with hc | rfl | hc
      · exact ⟨(hl c hc).1, (hl c hc).2.1⟩
      · decide
      · exact ih c hc

/-- The loop accepts exactly the names whose labels are those of the grammar. -/
theorem encodeNameLoop_iff {label out rest bytes : List UInt8}
    (hlabel : ∀ c ∈ label, 33 ≤ c ∧ c ≤ 126 ∧ c ≠ 46) :
    encodeNameLoop outSize label out rest = some bytes ↔
      ∃ labels, HostName labels ∧ label ++ rest = dotted labels ∧
        out.length + (label ++ rest).length + 2 ≤ outSize ∧ bytes = out ++ wireName labels := by
  have hdot : 46 ∉ label := fun hm => (hlabel 46 hm).2.2 rfl
  induction rest generalizing label out with
  | nil =>
    rw [encodeNameLoop, List.append_nil]
    constructor
    · intro h
      split at h
      · cases h
      next hne =>
      split at h
      · cases h
      next hfits =>
      obtain rfl := Option.some.inj h
      refine ⟨[label], .single ⟨hne, by omega, hlabel⟩, rfl, by omega, ?_⟩
      simp [wireName]
    · intro h
      obtain ⟨labels, hname, heq, hfits, rfl⟩ := h
      obtain rfl : labels = [label] := heq ▸ hname.undotted (heq ▸ hdot)
      obtain ⟨hne, hshort, -⟩ := hname.label label List.mem_cons_self
      rw [if_neg hne, if_neg (by omega)]
      simp [wireName]
  | cons c rest ih =>
    rw [encodeNameLoop]
    by_cases hc : c = 46
    · subst hc
      rw [if_pos rfl]
      constructor
      · intro h
        split at h
        · cases h
        next hfits =>
        obtain ⟨labels, hname, heq, hsize, rfl⟩ := (ih (by simp) (by simp)).mp h
        simp only [not_or] at hfits
        refine ⟨label :: labels, .cons ⟨hfits.1, by omega, hlabel⟩ hname, ?_, ?_, ?_⟩
        · rw [dotted_cons label hname.nonempty, ← heq]
          rfl
        · simp only [List.length_append, List.length_cons, List.length_nil] at hsize ⊢
          omega
        · simp [wireName]
      · intro h
        obtain ⟨labels, hname, heq, hsize, rfl⟩ := h
        obtain ⟨ls, rfl, hrest, rfl⟩ := hname.split hdot heq
        obtain ⟨hne, hshort, -⟩ := hname.label label List.mem_cons_self
        simp only [List.length_append, List.length_cons] at hsize
        rw [if_neg (by simp only [not_or]; exact ⟨hne, by omega, by omega⟩)]
        refine (ih (by simp) (by simp)).mpr ⟨ls, hrest, rfl, ?_, ?_⟩
        · simp only [List.length_append, List.length_cons, List.length_nil]
          omega
        · simp [wireName]
    · rw [if_neg hc]
      by_cases hshown : c < 33 ∨ c > 126
      · rw [if_pos hshown]
        simp only [reduceCtorEq, false_iff, not_exists, not_and]
        intro labels hname heq
        obtain ⟨hlow, hhigh⟩ := hname.shown c (heq ▸ List.mem_append_right _ List.mem_cons_self)
        rcases hshown with h | h
        · exact absurd hlow (UInt8.not_le.mpr h)
        · exact absurd hhigh (UInt8.not_le.mpr h)
      · rw [if_neg hshown]
        rw [not_or, UInt8.not_lt, UInt8.not_lt] at hshown
        have hlabel' : ∀ a ∈ label ++ [c], 33 ≤ a ∧ a ≤ 126 ∧ a ≠ 46 := by
          intro a ha
          rcases List.mem_append.mp ha with ha | ha
          · exact hlabel a ha
          · obtain rfl := List.mem_singleton.mp ha
            exact ⟨hshown.1, hshown.2, hc⟩
        have hstep := @ih _ out hlabel' (fun hm => (hlabel' 46 hm).2.2 rfl)
        rw [List.append_assoc, List.singleton_append] at hstep
        exact hstep

/-- `dns_encode_name` accepts the host names that fit, and writes their labels. -/
theorem dnsEncodeName_iff {bytes : List UInt8} : dnsEncodeName host outSize = some bytes ↔
    ∃ labels, HostName labels ∧ host = dotted labels ∧ host.length + 2 ≤ outSize ∧
      bytes = wireName labels := by
  rw [dnsEncodeName, encodeNameLoop_iff (by simp)]
  simp

end Labels

section Cursors

variable {host label written rest : List UInt8} {outSize : Nat} {c : NameCursors} {out : Buf}

theorem copyLabel_eq (host : List UInt8) (n labelStart w : Nat) (out : Buf) :
    copyLabel host n labelStart w out =
      memCopyAt out w (fun k => host.getD (labelStart + k) 0) n := by
  induction n generalizing labelStart w out with
  | zero =>
    funext j
    simp [copyLabel, memCopyAt]
  | succ n ih =>
    rw [copyLabel, ih]
    funext j
    simp only [memCopyAt, Function.update_apply]
    by_cases hj : j = w
    · subst hj
      rw [if_neg (by omega), if_pos rfl, if_pos (by omega), Nat.sub_self, Nat.add_zero]
    · by_cases hin : w + 1 ≤ j ∧ j < w + 1 + n
      · rw [if_pos hin, if_pos (by omega)]
        congr 1
        omega
      · rw [if_neg hin, if_neg hj, if_neg (by omega)]

/-- Where the loop stands: `label` is the label so far, `written` what is in the buffer. -/
structure AtCursors (host rest : List UInt8) (c : NameCursors) (label written : List UInt8)
    (out : Buf) : Prop where
  text : ∃ before, host = before ++ label ++ rest ∧ before.length = c.labelStart
  index : c.i = c.labelStart + label.length
  labelLen : c.labelLen = label.length
  w : c.w = written.length
  bytes : bytesAt out 0 c.w = written

theorem AtCursors.stored (h : AtCursors host rest c label written out) :
    bytesAt (storeLabel host c out) 0 (c.w + 1 + label.length) =
      written ++ [UInt8.ofNat label.length] ++ label ∧
    ∀ j, c.w + 1 + label.length ≤ j → storeLabel host c out j = out j := by
  obtain ⟨⟨before, rfl, hstart⟩, hindex, hlen, hw, hbytes⟩ := h
  have hcount : c.i - c.labelStart = label.length := by omega
  rw [storeLabel, copyLabel_eq, hcount, hlen]
  constructor
  · rw [bytesAt_add, bytesAt_memCopyAt_apart (by omega), Nat.zero_add, bytesAt_memCopyAt, bytesAt_add]
    congr 1
    · congr 1
      · rw [← hbytes]
        apply bytesAt_congr
        intro k hk
        rw [Function.update_of_ne (by omega)]
      · simp [bytesAt]
    · refine Eq.trans (bytesAt_congr ?_) (bytesAt_bufOf label)
      intro k hk
      simp [bufOf, ← hstart, hk, List.getElem?_append_right, List.getElem?_append_left]
  · intro j hj
    simp only [memCopyAt]
    rw [if_neg (by omega), Function.update_of_ne (by omega)]

/-- The cursors do what the loop over labels does, inside the buffer. -/
theorem nameCursorLoop_spec {r : Option Nat × Buf} (h : AtCursors host rest c label written out)
    (hr : nameCursorLoop host outSize rest c out = r) :
    encodeNameLoop outSize label written rest = r.1.map (bytesAt r.2 0) ∧
    ∀ j, outSize ≤ j → r.2 j = out j := by
  induction rest generalizing c label written out with
  | nil =>
    obtain ⟨hbytes, hframe⟩ := h.stored
    obtain ⟨-, hindex, hlen, hw, -⟩ := h
    have hcount : c.i - c.labelStart = label.length := by omega
    simp only [nameCursorLoop, closeName, hcount, hlen] at hr
    simp only [encodeNameLoop, ← hw]
    by_cases hne : label = []
    · have hnone : r = (none, out) := by
        rw [← hr]
        cases hhad : c.hadLabel <;> simp [hne]
      rw [if_pos hne, hnone]
      exact ⟨rfl, fun _ _ => rfl⟩
    · have hpos : ¬label.length = 0 := by simpa using hne
      rw [if_neg (fun h0 => hpos h0.1), if_neg (fun h0 => hpos h0.1)] at hr
      rw [if_neg hne]
      by_cases hfits : label.length > 63 ∨ c.w + 1 + label.length + 1 > outSize
      · rw [if_pos hfits] at hr ⊢
        subst hr
        exact ⟨rfl, fun _ _ => rfl⟩
      · rw [if_neg hfits] at hr ⊢
        subst hr
        refine ⟨?_, ?_⟩
        · have hlast : bytesAt (Function.update (storeLabel host c out) (c.w + 1 + label.length) 0)
              (c.w + 1 + label.length) 1 = [0] := by
            simp [bytesAt]
          have hfront : bytesAt (Function.update (storeLabel host c out) (c.w + 1 + label.length) 0)
              0 (c.w + 1 + label.length) = written ++ [UInt8.ofNat label.length] ++ label := by
            rw [← hbytes]
            apply bytesAt_congr
            intro k hk
            rw [Function.update_of_ne (by omega)]
          rw [Option.map_some, bytesAt_add, Nat.zero_add, hlast, hfront]
        · intro j hj
          change Function.update (storeLabel host c out) (c.w + 1 + label.length) 0 j = out j
          rw [Function.update_of_ne (by omega), hframe j (by omega)]
  | cons ch rest ih =>
    obtain ⟨hbytes, hframe⟩ := h.stored
    obtain ⟨⟨before, hhost, hstart⟩, hindex, hlen, hw, hheld⟩ := h
    have hcount : c.i - c.labelStart = label.length := by omega
    simp only [nameCursorLoop, hcount, hlen] at hr
    simp only [encodeNameLoop, ← hw]
    by_cases hdot : ch = 46
    · subst hdot
      rw [if_pos rfl] at hr ⊢
      have hnil : label.length = 0 ↔ label = [] := by simp
      simp only [hnil] at hr
      by_cases hfits : label = [] ∨ label.length > 63 ∨ c.w + 1 + label.length ≥ outSize
      · rw [if_pos hfits] at hr ⊢
        subst hr
        exact ⟨rfl, fun _ _ => rfl⟩
      · rw [if_neg hfits] at hr ⊢
        simp only [not_or] at hfits
        have hat : AtCursors host rest
            { i := c.i + 1, w := c.w + 1 + label.length, labelStart := c.i + 1, labelLen := 0,
              hadLabel := true } [] (written ++ [UInt8.ofNat label.length] ++ label)
            (storeLabel host c out) := by
          refine ⟨⟨before ++ label ++ [46], ?_, ?_⟩, rfl, rfl, ?_, hbytes⟩
          · simp [hhost]
          · simp only [List.length_append, List.length_cons, List.length_nil]
            omega
          · simp only [List.length_append, List.length_cons, List.length_nil]
            omega
        obtain ⟨heq, hrest⟩ := ih hat hr
        refine ⟨heq, ?_⟩
        intro j hj
        rw [hrest j hj, hframe j (by omega)]
    · rw [if_neg hdot] at hr ⊢
      by_cases hshown : ch < 33 ∨ ch > 126
      · rw [if_pos hshown] at hr ⊢
        subst hr
        exact ⟨rfl, fun _ _ => rfl⟩
      · rw [if_neg hshown] at hr ⊢
        have hat : AtCursors host rest { c with i := c.i + 1, labelLen := label.length + 1 }
            (label ++ [ch]) written out := by
          refine ⟨⟨before, ?_, hstart⟩, ?_, ?_, hw, hheld⟩
          · simp [hhost]
          · simp only [List.length_append, List.length_cons, List.length_nil]
            omega
          · simp
        exact ih hat hr

/-- `dns_encode_name` in its buffer: nothing is written behind it. -/
theorem dnsEncodeNameInto_spec (host : List UInt8) (out : Buf) (outSize : Nat) :
    dnsEncodeName host outSize =
      (dnsEncodeNameInto host out outSize).1.map (bytesAt (dnsEncodeNameInto host out outSize).2 0) ∧
    ∀ j, outSize ≤ j → (dnsEncodeNameInto host out outSize).2 j = out j :=
  nameCursorLoop_spec ⟨⟨[], rfl, rfl⟩, rfl, rfl, rfl, rfl⟩ rfl

end Cursors

section Skip

variable {labels : List (List UInt8)} {msg : Buf} {msgLen pos : Nat}

/-- The length of a label is no pointer and no end. -/
theorem label_byte {k : Nat} (h0 : 0 < k) (h63 : k ≤ 63) : UInt8.ofNat k ≠ 0 ∧
    UInt8.ofNat k &&& 0xC0 ≠ 0xC0 ∧ ¬UInt8.ofNat k > 63 ∧ (UInt8.ofNat k).toNat = k := by
  have hall : ∀ k < 64, 0 < k → UInt8.ofNat k ≠ 0 ∧ UInt8.ofNat k &&& 0xC0 ≠ 0xC0 ∧
      ¬UInt8.ofNat k > 63 ∧ (UInt8.ofNat k).toNat = k := by
    decide
  exact hall k (by omega) h0

theorem bytesAt_cons (msg : Buf) (pos len : Nat) :
    bytesAt msg pos (len + 1) = msg pos :: bytesAt msg (pos + 1) len := by
  rw [Nat.add_comm, bytesAt_add]
  simp [bytesAt]

/-- `dns_skip_name` walks over the labels of a name to its end. -/
theorem skipNameLoop_wire {fuel : Nat} (jumps : Nat) (hlabels : ∀ l ∈ labels, NameLabel l)
    (hmsg : bytesAt msg pos (wireName labels).length = wireName labels)
    (hfits : pos + (wireName labels).length ≤ msgLen) (hfuel : labels.length < fuel) :
    skipNameLoop msg msgLen fuel pos jumps none = some (pos + (wireName labels).length) := by
  induction labels generalizing pos fuel with
  | nil =>
    cases fuel with
    | zero => cases hfuel
    | succ fuel =>
      obtain ⟨hzero, -⟩ := List.cons.inj ((bytesAt_cons msg pos 0).symm.trans hmsg)
      have hin : pos < msgLen := Nat.lt_of_succ_le hfits
      rw [skipNameLoop, if_pos hin]
      simp [hzero, wireName]
  | cons l ls ih =>
    cases fuel with
    | zero => cases hfuel
    | succ fuel =>
      obtain ⟨hne, hshort, -⟩ := hlabels l List.mem_cons_self
      have hpos : 0 < l.length := List.length_pos_of_ne_nil hne
      obtain ⟨hend, hptr, hlong, hval⟩ := label_byte hpos hshort
      have hlen : (wireName (l :: ls)).length = l.length + (wireName ls).length + 1 := by
        simp [wireName]
      have hsplit : bytesAt msg pos (l.length + (wireName ls).length + 1) =
          UInt8.ofNat l.length :: (l ++ wireName ls) := hlen ▸ hmsg
      rw [bytesAt_cons, bytesAt_add] at hsplit
      obtain ⟨hhead, htail⟩ := List.cons.inj hsplit
      obtain ⟨-, hrest⟩ := List.append_inj htail (bytesAt_length _ _ _)
      rw [hlen] at hfits ⊢
      rw [skipNameLoop, if_pos (by omega)]
      simp only [hhead]
      rw [if_neg hend, if_neg hptr, hval, if_neg (by rw [not_or]; exact ⟨hlong, by omega⟩)]
      rw [ih (fun k hk => hlabels k (List.mem_cons_of_mem _ hk)) hrest (by omega)
        (Nat.lt_of_succ_lt_succ hfuel)]
      congr 1
      omega

theorem labels_length_le (hlabels : ∀ l ∈ labels, NameLabel l) :
    labels.length < (wireName labels).length := by
  induction labels with
  | nil => decide
  | cons l ls ih =>
    have hls := ih fun k hk => hlabels k (List.mem_cons_of_mem _ hk)
    simp only [wireName, List.cons_append, List.length_cons, List.length_append]
    omega

theorem dnsSkipName_wire (hname : HostName labels)
    (hmsg : bytesAt msg pos (wireName labels).length = wireName labels)
    (hfits : pos + (wireName labels).length ≤ msgLen) :
    dnsSkipName msg msgLen pos = some (pos + (wireName labels).length) := by
  have hcount := labels_length_le hname.label
  exact skipNameLoop_wire 0 hname.label hmsg hfits (by omega)

/-- Encoding and skipping agree: `dns_encode_name` accepts exactly the host names that
fit, stays inside its buffer and leaves the name's bytes there, which `dns_skip_name`
walks over wherever a message has them. -/
theorem dns_name_agrees (host : List UInt8) (out : Buf) (outSize : Nat) :
    ((∃ w, (dnsEncodeNameInto host out outSize).1 = some w) ↔
      (∃ labels, HostName labels ∧ host = dotted labels) ∧ host.length + 2 ≤ outSize) ∧
    (∀ j, outSize ≤ j → (dnsEncodeNameInto host out outSize).2 j = out j) ∧
    ∀ w, (dnsEncodeNameInto host out outSize).1 = some w →
      w = host.length + 2 ∧
      (∀ labels, HostName labels → host = dotted labels →
        bytesAt (dnsEncodeNameInto host out outSize).2 0 w = wireName labels) ∧
      ∀ (msg : Buf) (len o : Nat), o + w ≤ len →
        bytesAt msg o w = bytesAt (dnsEncodeNameInto host out outSize).2 0 w →
        dnsSkipName msg len o = some (o + w) := by
  obtain ⟨heq, hframe⟩ := dnsEncodeNameInto_spec host out outSize
  refine ⟨?_, hframe, ?_⟩
  · constructor
    · intro h
      obtain ⟨w, hw⟩ := h
      rw [hw] at heq
      obtain ⟨labels, hname, hhost, hfits, -⟩ := dnsEncodeName_iff.mp heq
      exact ⟨⟨labels, hname, hhost⟩, hfits⟩
    · intro h
      obtain ⟨⟨labels, hname, hhost⟩, hfits⟩ := h
      rw [dnsEncodeName_iff.mpr ⟨labels, hname, hhost, hfits, rfl⟩] at heq
      obtain ⟨w, hw, -⟩ := Option.map_eq_some_iff.mp heq.symm
      exact ⟨w, hw⟩
  · intro w hw
    rw [hw] at heq
    obtain ⟨labels, hname, hhost, hfits, hbytes⟩ := dnsEncodeName_iff.mp heq
    have hlen : w = (wireName labels).length := by
      rw [← hbytes, bytesAt_length]
    refine ⟨?_, ?_, ?_⟩
    · rw [hlen, wireName_length hname.nonempty, hhost]
    · intro labels' hname' hhost'
      rw [dnsEncodeName_iff.mpr ⟨labels', hname', hhost', hfits, rfl⟩] at heq
      exact (Option.some.inj heq).symm
    · intro msg len o hlong hmsg
      rw [hbytes, hlen] at hmsg
      rw [hlen] at hlong ⊢
      exact dnsSkipName_wire hname hmsg hlong

end Skip

end VertexOS
