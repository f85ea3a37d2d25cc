import VertexOS.Video.Font

namespace VertexOS

/-- A row or column of a glyph of the size that a sample can fall into without a wrap. -/
def Sampled (size place : Nat) : Prop :=
  ∃ num den : Nat, num < den ∧ den < 2 ^ 32 ∧ num * size < 2 ^ 32 ∧ num * size / den = place

/-- The last of them. -/
def farthestPlace (size : Nat) : Nat :=
  4294967295 / size * size / (4294967295 / size + 1)

section Places

variable {size place : Nat}

/-- The quotient does not fall when both numbers grow. -/
theorem next_place_le {num more : Nat} (h : num ≤ more) :
    num * size / (num + 1) ≤ more * size / (more + 1) := by
  rw [Nat.le_div_iff_mul_le (Nat.succ_pos _)]
  have hq : num * size / (num + 1) * (num + 1) ≤ num * size := Nat.div_mul_le_self _ _
  generalize num * size / (num + 1) = q at hq ⊢
  have hsize : q ≤ size := by
    by_contra hlt
    have hgrow : num * size ≤ num * q := Nat.mul_le_mul_left _ (by omega)
    have hsplit : q * (num + 1) = num * q + q := by ring
    omega
  obtain ⟨gap, rfl⟩ := Nat.exists_eq_add_of_le hsize
  have hgap : q ≤ num * gap := by
    have hleft : q * (num + 1) = num * q + q := by ring
    have hright : num * (q + gap) = num * q + num * gap := by ring
    omega
  have hmore : num * gap ≤ more * gap := Nat.mul_le_mul_right _ h
  calc q * (more + 1) = more * q + q := by ring
    _ ≤ more * q + more * gap := by omega
    _ = more * (q + gap) := by ring

theorem Sampled.le_farthest (hsize : 0 < size) (h : Sampled size place) :
    place ≤ farthestPlace size := by
  obtain ⟨num, den, hlt, -, hfit, rfl⟩ := h
  have hnum : num ≤ 4294967295 / size := by
    rw [Nat.le_div_iff_mul_le hsize]
    omega
  calc num * size / den ≤ num * size / (num + 1) := Nat.div_le_div_left hlt (Nat.succ_pos _)
    _ ≤ farthestPlace size := next_place_le hnum

theorem sampled_zero (size : Nat) : Sampled size 0 :=
  ⟨0, 1, Nat.one_pos, by decide, by simp, by simp⟩

/-- The samples with the largest numerator, whatever the denominator is. -/
theorem sampled_div {den : Nat} (hlow : 4294967295 / size < den)
    (hhigh : den < 2 ^ 32) : Sampled size (4294967295 / size * size / den) := by
  have hfit := Nat.div_mul_le_self 4294967295 size
  exact ⟨_, den, hlow, hhigh, by omega, rfl⟩

theorem sampled_farthest (hsize : 0 < size) : Sampled size (farthestPlace size) := by
  by_cases hone : size = 1
  · subst hone
    exact sampled_zero 1
  · have hhalf : 4294967295 / size ≤ 4294967295 / 2 := Nat.div_le_div_left (by omega) (by decide)
    exact sampled_div (Nat.lt_succ_self _) (by omega)

/-- Glyphs of a usual size are sampled up to their end. -/
theorem farthestPlace_small (hsize : 0 < size) (hsmall : size ≤ 65536) :
    farthestPlace size = size - 1 := by
  have hmany : size - 1 ≤ 4294967295 / size := by
    rw [Nat.le_div_iff_mul_le hsize]
    calc (size - 1) * size ≤ 65535 * 65536 := Nat.mul_le_mul (by omega) hsmall
      _ ≤ 4294967295 := by decide
  rw [farthestPlace]
  generalize 4294967295 / size = num at hmany ⊢
  obtain ⟨last, rfl⟩ : ∃ last, size = last + 1 := ⟨size - 1, by omega⟩
  rw [Nat.add_sub_cancel] at hmany ⊢
  apply Nat.div_eq_of_lt_le
  · have hleft : last * (num + 1) = last * num + last := by ring
    have hright : num * (last + 1) = last * num + num := by ring
    omega
  · have hleft : num * (last + 1) = last * num + num := by ring
    have hright : (last + 1) * (num + 1) = last * num + num + (last + 1) := by ring
    omega

/-- Where the farthest sample lies too far for 32 bits, another one lies in their upper half: from
one denominator to the next the place falls by a third at most. -/
theorem sampled_upper_half {base row last : Nat} (hsize : 0 < size) (hfit : size < 2 ^ 32)
    (hbase : base < 2 ^ 31) (hrow : row ≤ 2 ^ 29) (hlast : last < 2 ^ 29)
    (hover : 2 ^ 32 ≤ base + farthestPlace size * row + last) :
    ∃ place, Sampled size place ∧ 2 ^ 31 ≤ base + place * row + last ∧
      base + place * row + last < 2 ^ 32 := by
  have hsome : 0 < 4294967295 / size := Nat.div_pos (by omega) hsize
  have htop : 4294967295 / size * size < 2 ^ 32 := by
    have hmul := Nat.div_mul_le_self 4294967295 size
    omega
  have hfall := fun den (h : 4294967295 / size < den) (hd : den < 2 ^ 32) => sampled_div h hd
  change 2 ^ 32 ≤ base + 4294967295 / size * size / (4294967295 / size + 1) * row + last at hover
  generalize 4294967295 / size * size = top at htop hover hfall
  generalize 4294967295 / size = num at hsome hover hfall
  have hends : ∃ den, num < den ∧ base + top / den * row + last < 2 ^ 32 := by
    refine ⟨max num top + 1, by omega, ?_⟩
    rw [Nat.div_eq_of_lt (by omega)]
    omega
  obtain ⟨hafter, hbelow⟩ := Nat.find_spec hends
  have hbefore := fun den (h : den < Nat.find hends) => Nat.find_min hends h
  generalize Nat.find hends = next at hafter hbelow hbefore
  have hne : next ≠ num + 1 := fun heq => absurd hbelow (by rw [heq]; omega)
  obtain ⟨den, rfl⟩ : ∃ den, next = den + 1 := ⟨next - 1, by omega⟩
  have habove : 2 ^ 32 ≤ base + top / den * row + last := by
    by_contra hlow
    exact hbefore den (Nat.lt_succ_self _) ⟨by omega, by omega⟩
  have htwo : 2 ≤ den := by omega
  have hfirst : top / den * den ≤ top := Nat.div_mul_le_self _ _
  have hsecond : top < (den + 1) * (top / (den + 1) + 1) :=
    Nat.lt_mul_div_succ top (Nat.succ_pos den)
  generalize top / den = place at habove hfirst
  have hplace : 3 ≤ place := by
    by_contra hlow
    have hsmall : place * row ≤ 2 * 2 ^ 29 := Nat.mul_le_mul (by omega) hrow
    omega
  have hden : 3 * den ≤ place * den := Nat.mul_le_mul_right _ hplace
  refine ⟨_, hfall (den + 1) hafter (by omega), ?_, hbelow⟩
  generalize top / (den + 1) = lower at hsecond hbelow ⊢
  have hthird : 2 * place ≤ 3 * lower + 2 := by
    by_contra hfar
    have hstep : den * (3 * lower + 3) ≤ den * (2 * place) := Nat.mul_le_mul_left _ (by omega)
    have hleft : (den + 1) * (lower + 1) = den * lower + lower + den + 1 := by ring
    have hright : den * (3 * lower + 3) = 3 * (den * lower) + 3 * den := by ring
    have hswap : den * (2 * place) = 2 * (place * den) := by ring
    have hlower : 2 * lower ≤ den * lower := Nat.mul_le_mul_right _ htwo
    omega
  have hrows : 2 * (place * row) ≤ 3 * (lower * row) + 2 * row := by
    calc 2 * (place * row) = 2 * place * row := by ring
      _ ≤ (3 * lower + 2) * row := Nat.mul_le_mul_right _ hthird
      _ = 3 * (lower * row) + 2 * row := by ring
  omega

end Places

/-- The places of all samples of all glyphs lie in front of `len` if that of the farthest sample of
the last glyph does. -/
theorem places_inside_iff {first count glyphSize row height width len : Nat} (hcount : 0 < count)
    (hglyphs : first + count * glyphSize ≤ len) (hlen : len < 2 ^ 31) (hrow : row ≤ 2 ^ 29)
    (hheight : 0 < height) (htall : height < 2 ^ 32) (hwidth : 0 < width) :
    (∀ i < count, ∀ y x, Sampled height y → Sampled width x →
      (first + i * glyphSize + (y * row + x / 8)) % 2 ^ 32 < len) ↔
      first + (count - 1) * glyphSize + farthestPlace height * row + farthestPlace width / 8 <
        len := by
  constructor
  · intro hinside
    by_contra hover
    have hlast : farthestPlace width / 8 < 2 ^ 29 := by
      have hplace : farthestPlace width ≤ 4294967295 / width * width := Nat.div_le_self _ _
      have hmul := Nat.div_mul_le_self 4294967295 width
      omega
    have hbase : first + (count - 1) * glyphSize < 2 ^ 31 := by
      have hmul : (count - 1) * glyphSize ≤ count * glyphSize :=
        Nat.mul_le_mul_right _ (Nat.sub_le _ _)
      omega
    obtain ⟨y, hy, hout, hfits⟩ : ∃ y, Sampled height y ∧
        len ≤ first + (count - 1) * glyphSize + y * row + farthestPlace width / 8 ∧
        first + (count - 1) * glyphSize + y * row + farthestPlace width / 8 < 2 ^ 32 := by
      by_cases hfits : first + (count - 1) * glyphSize + farthestPlace height * row +
          farthestPlace width / 8 < 2 ^ 32
      · exact ⟨_, sampled_farthest hheight, Nat.not_lt.mp hover, hfits⟩
      · obtain ⟨y, hy, hupper, hfits⟩ := sampled_upper_half hheight htall hbase hrow hlast
          (Nat.not_lt.mp hfits)
        exact ⟨y, hy, by omega, hfits⟩
    have hread := hinside (count - 1) (by omega) y _ hy (sampled_farthest hwidth)
    rw [Nat.mod_eq_of_lt (by omega)] at hread
    omega
  · intro hlast i hi y x hy hx
    have hi : i * glyphSize ≤ (count - 1) * glyphSize := Nat.mul_le_mul_right _ (by omega)
    have hy : y * row ≤ farthestPlace height * row :=
      Nat.mul_le_mul_right _ (hy.le_farthest hheight)
    have hx : x / 8 ≤ farthestPlace width / 8 := Nat.div_le_div_right (hx.le_farthest hwidth)
    rw [Nat.mod_eq_of_lt (by omega)]
    omega

namespace PsfFont

/-- The place in the file that `glyph_sample_covered` reads, if it reads one. -/
def samplePlaceRead (f : PsfFont)
    (glyph sampleXNum sampleXDen sampleYNum sampleYDen : UInt32) : Option UInt32 :=
  if f.glyphWidth = 0 ∨ f.glyphHeight = 0 ∨ sampleXDen = 0 ∨ sampleYDen = 0 then none
  else
    some (glyph + (samplePlace sampleYNum f.glyphHeight sampleYDen * f.bytesPerRow +
      (samplePlace sampleXNum f.glyphWidth sampleXDen >>> 3)))

/-- The byte at that place is all of the file that the answer depends on. -/
theorem glyphSampleCovered_read (f : PsfFont)
    (glyph sampleXNum sampleXDen sampleYNum sampleYDen : UInt32) :
    f.glyphSampleCovered glyph sampleXNum sampleXDen sampleYNum sampleYDen =
      match f.samplePlaceRead glyph sampleXNum sampleXDen sampleYNum sampleYDen with
      | none => false
      | some place => fontByte f.data place.toNat &&&
          ((0x80 : UInt32) >>> (samplePlace sampleXNum f.glyphWidth sampleXDen &&& 7)).toUInt8 ≠ 0 := by
  rw [glyphSampleCovered, samplePlaceRead]
  split <;> rfl

/-- Whatever character is drawn and wherever its glyph is sampled, the read is in the file. The
samples are those in front of the glyph's end whose products fit into 32 bits. -/
def ReadsInside (f : PsfFont) : Prop :=
  ∀ codepoint glyph sampleXNum sampleXDen sampleYNum sampleYDen place,
    f.fontGlyphAt codepoint = some glyph → sampleXNum < sampleXDen → sampleYNum < sampleYDen →
    sampleXNum.toNat * f.glyphWidth.toNat < 2 ^ 32 →
    sampleYNum.toNat * f.glyphHeight.toNat < 2 ^ 32 →
    f.samplePlaceRead glyph sampleXNum sampleXDen sampleYNum sampleYDen = some place →
    place.toNat < f.data.length

/-- What the loader has checked of a font. -/
structure Accepted (f : PsfFont) : Prop where
  valid : f.valid = true
  count : 0 < f.glyphCount.toNat
  glyph : 0 < f.glyphSize.toNat
  height : 0 < f.glyphHeight.toNat
  width : 0 < f.glyphWidth.toNat
  row : f.bytesPerRow.toNat ≤ 2 ^ 29
  glyphs : f.headerSize.toNat + f.glyphCount.toNat * f.glyphSize.toNat ≤ f.data.length

section Accepted

variable {f : PsfFont}

/-- The place of a sample is computed without a wrap. -/
theorem samplePlace_toNat {num size den : UInt32} (hsize : 0 < size.toNat) (hlt : num < den)
    (hfit : num.toNat * size.toNat < 2 ^ 32) :
    (samplePlace num size den).toNat = num.toNat * size.toNat / den.toNat ∧
      Sampled size.toNat (samplePlace num size den).toNat := by
  have hden := UInt32.lt_iff_toNat_lt.mp hlt
  have hquot : (num * size / den).toNat = num.toNat * size.toNat / den.toNat := by
    rw [UInt32.toNat_div, UInt32.toNat_mul, Nat.mod_eq_of_lt hfit]
  have hinside : num.toNat * size.toNat / den.toNat < size.toNat := by
    rw [Nat.div_lt_iff_lt_mul (by omega), Nat.mul_comm]
    exact Nat.mul_lt_mul_of_pos_left hden hsize
  have hplace : (samplePlace num size den).toNat = num.toNat * size.toNat / den.toNat := by
    rw [samplePlace, if_neg, hquot]
    rw [ge_iff_le, UInt32.le_iff_toNat_le, hquot]
    omega
  exact ⟨hplace, _, _, hden, den.toNat_lt, hfit, hplace.symm⟩

theorem sampled_words {size : UInt32} {place : Nat} (hsize : 0 < size.toNat)
    (h : Sampled size.toNat place) :
    ∃ num den : UInt32, num < den ∧ num.toNat * size.toNat < 2 ^ 32 ∧
      (samplePlace num size den).toNat = place := by
  obtain ⟨num, den, hlt, hden, hfit, hplace⟩ := h
  have hnum : num.toUInt32.toNat = num := UInt32.toNat_ofNat_of_lt' (Nat.lt_trans hlt hden)
  have hden : den.toUInt32.toNat = den := UInt32.toNat_ofNat_of_lt' hden
  have hless : num.toUInt32 < den.toUInt32 := by rwa [UInt32.lt_iff_toNat_lt, hnum, hden]
  have hfits : num.toUInt32.toNat * size.toNat < 2 ^ 32 := by rwa [hnum]
  refine ⟨_, _, hless, hfits, ?_⟩
  rw [(samplePlace_toNat hsize hless hfits).1, hnum, hden, hplace]

/-- The glyphs are those in the file. -/
theorem Accepted.glyph_place (h : Accepted f) (hlen : f.data.length < 2 ^ 31) {i : UInt32}
    (hi : i < f.glyphCount) :
    (f.headerSize + i * f.glyphSize).toNat =
      f.headerSize.toNat + i.toNat * f.glyphSize.toNat := by
  have hlt := UInt32.lt_iff_toNat_lt.mp hi
  have hglyphs := h.glyphs
  have hplace : i.toNat * f.glyphSize.toNat ≤ f.glyphCount.toNat * f.glyphSize.toNat :=
    Nat.mul_le_mul_right _ (Nat.le_of_lt hlt)
  rw [UInt32.toNat_add, UInt32.toNat_mul, Nat.add_mod_mod, Nat.mod_eq_of_lt (by omega)]

theorem Accepted.glyphAt (h : Accepted f) {codepoint glyph : UInt32}
    (hglyph : f.fontGlyphAt codepoint = some glyph) :
    ∃ i < f.glyphCount, glyph = f.headerSize + i * f.glyphSize := by
  have hcount := h.count
  rw [fontGlyphAt] at hglyph
  split at hglyph
  · cases hglyph
  · refine ⟨_, ?_, (Option.some.inj hglyph).symm⟩
    split
    · split
      · rwa [UInt32.lt_iff_toNat_lt]
      · next hquestion => exact UInt32.not_le.mp hquestion
    · next hknown => exact UInt32.not_le.mp hknown

theorem Accepted.glyphAt_known (h : Accepted f) {i : UInt32} (hi : i < f.glyphCount) :
    f.fontGlyphAt i = some (f.headerSize + i * f.glyphSize) := by
  have hsome : ¬(f.valid = false ∨ f.glyphSize = 0) := by
    rintro (hinvalid | hempty)
    · exact absurd h.valid (by simp [hinvalid])
    · exact absurd h.glyph (by simp [hempty])
  have hknown : ¬i ≥ f.glyphCount := UInt32.not_le.mpr hi
  simp only [fontGlyphAt, if_neg hsome, if_neg hknown]

/-- The place of a read, from those of the glyph and the sample. -/
theorem place_toNat (f : PsfFont) (glyph sy sx : UInt32) :
    (glyph + (sy * f.bytesPerRow + (sx >>> 3))).toNat =
      (glyph.toNat + (sy.toNat * f.bytesPerRow.toNat + sx.toNat / 8)) % 2 ^ 32 := by
  have hshift : (sx >>> 3).toNat = sx.toNat / 8 := by
    rw [UInt32.toNat_shiftRight]
    exact Nat.shiftRight_eq_div_pow _ 3
  rw [UInt32.toNat_add, UInt32.toNat_add, UInt32.toNat_mul, hshift, Nat.mod_add_mod,
    Nat.add_mod_mod]

/-- No sample of an accepted font is left out. -/
theorem Accepted.sampled (h : Accepted f) {xNum xDen yNum yDen : UInt32} (hx : xNum < xDen)
    (hy : yNum < yDen) :
    ¬(f.glyphWidth = 0 ∨ f.glyphHeight = 0 ∨ xDen = 0 ∨ yDen = 0) := by
  have hwidth := h.width
  have hheight := h.height
  rintro (h0 | h0 | h0 | h0)
  · simp [h0] at hwidth
  · simp [h0] at hheight
  · simp [h0] at hx
  · simp [h0] at hy

theorem Accepted.reads_iff (h : Accepted f) (hlen : f.data.length < 2 ^ 31) :
    f.ReadsInside ↔ f.headerSize.toNat + (f.glyphCount.toNat - 1) * f.glyphSize.toNat +
      farthestPlace f.glyphHeight.toNat * f.bytesPerRow.toNat +
      farthestPlace f.glyphWidth.toNat / 8 < f.data.length := by
  rw [← places_inside_iff h.count h.glyphs hlen h.row h.height f.glyphHeight.toNat_lt h.width]
  constructor
  · intro hreads i hi y x hy hx
    obtain ⟨yNum, yDen, hylt, hyfit, rfl⟩ := sampled_words h.height hy
    obtain ⟨xNum, xDen, hxlt, hxfit, rfl⟩ := sampled_words h.width hx
    have hword : i.toUInt32.toNat = i :=
      UInt32.toNat_ofNat_of_lt' (Nat.lt_trans hi f.glyphCount.toNat_lt)
    have hknown : i.toUInt32 < f.glyphCount := by rwa [UInt32.lt_iff_toNat_lt, hword]
    have hread := hreads i.toUInt32 _ xNum xDen yNum yDen _ (h.glyphAt_known hknown) hxlt hylt
      hxfit hyfit (if_neg (h.sampled hxlt hylt))
    rwa [place_toNat, h.glyph_place hlen hknown, hword] at hread
  · intro hplaces codepoint glyph xNum xDen yNum yDen place hglyph hxlt hylt hxfit hyfit hread
    obtain ⟨i, hi, rfl⟩ := h.glyphAt hglyph
    rw [samplePlaceRead] at hread
    split at hread
    · cases hread
    · cases hread
      rw [place_toNat, h.glyph_place hlen hi]
      exact hplaces i.toNat (UInt32.lt_iff_toNat_lt.mp hi) _ _
        (samplePlace_toNat h.height hylt hyfit).2 (samplePlace_toNat h.width hxlt hxfit).2

end Accepted

/-- The bytes of a row of a glyph, as the loader takes them from the width. -/
def psf2RowBytes (data : List UInt8) : UInt32 :=
  if (fontWord data 28 + 7) / 8 = 0 then 1 else (fontWord data 28 + 7) / 8

/-- Where the farthest sample of the last glyph of a PSF2 file lies, by its header. -/
def psf2LastPlace (data : List UInt8) : Nat :=
  (fontWord data 8).toNat + ((fontWord data 16).toNat - 1) * (fontWord data 20).toNat +
    farthestPlace (fontWord data 24).toNat * (psf2RowBytes data).toNat +
    farthestPlace (fontWord data 28).toNat / 8

section Loaded

variable {data : List UInt8} {f : PsfFont}

theorem psf2RowBytes_le (data : List UInt8) : (psf2RowBytes data).toNat ≤ 2 ^ 29 := by
  rw [psf2RowBytes]
  split
  · decide
  · have hlt := (fontWord data 28 + 7).toNat_lt
    rw [UInt32.toNat_div]
    change (fontWord data 28 + 7).toNat / 8 ≤ 2 ^ 29
    omega

theorem psf2_accepted (h : psf2Load data = some f) :
    Accepted f ∧ f.data = data ∧ f.headerSize = fontWord data 8 ∧
      f.glyphCount = fontWord data 16 ∧ f.glyphSize = fontWord data 20 ∧
      f.glyphHeight = fontWord data 24 ∧ f.glyphWidth = fontWord data 28 ∧
      f.bytesPerRow = psf2RowBytes data := by
  simp only [psf2Load] at h
  split at h
  · next hchecks =>
    obtain ⟨-, -, -, -, -, hcount, hglyph, hheight, hwidth, hglyphs⟩ := hchecks
    cases h
    refine ⟨?_, rfl, rfl, rfl, rfl, rfl, rfl, rfl⟩
    exact ⟨rfl, UInt32.lt_iff_toNat_lt.mp hcount, UInt32.lt_iff_toNat_lt.mp hglyph,
      UInt32.lt_iff_toNat_lt.mp hheight, UInt32.lt_iff_toNat_lt.mp hwidth, psf2RowBytes_le data,
      hglyphs⟩
  · cases h

/-- A PSF1 font has glyphs of as many rows as bytes. -/
theorem psf1_accepted (h : psf1Load data = some f) :
    Accepted f ∧ f.data = data ∧ f.glyphHeight = f.glyphSize ∧ f.glyphWidth = 8 ∧
      f.bytesPerRow = 1 ∧ f.glyphSize.toNat ≤ 255 := by
  have hcount : 0 < (if fontByte data 2 &&& 1 ≠ 0 then (512 : UInt32) else 256).toNat := by
    split <;> decide
  simp only [psf1Load] at h
  generalize (if fontByte data 2 &&& 1 ≠ 0 then (512 : UInt32) else 256) = count at h hcount
  split at h
  · cases h
  split at h
  · cases h
  · next hchecks =>
    obtain ⟨hsize, hglyphs⟩ := not_or.mp hchecks
    have hbyte := (fontByte data 3).toNat_lt
    have hword : (fontByte data 3).toUInt32.toNat = (fontByte data 3).toNat :=
      UInt8.toNat_toUInt32 _
    have hpos : 0 < (fontByte data 3).toNat :=
      Nat.pos_of_ne_zero fun h0 => hsize (UInt8.toNat_inj.mp h0)
    cases h
    have hwidth : 0 < (8 : UInt32).toNat := by decide
    have hrow : (1 : UInt32).toNat ≤ 2 ^ 29 := by decide
    refine ⟨⟨rfl, hcount, ?_, ?_, hwidth, hrow, ?_⟩, rfl, rfl, rfl, rfl, ?_⟩
    · rwa [hword]
    · rwa [hword]
    · rw [hword]
      exact Nat.not_lt.mp hglyphs
    · rw [hword]
      omega

theorem psf1_reads_inside (h : psf1Load data = some f) (hlen : data.length < 2 ^ 31) :
    f.ReadsInside := by
  obtain ⟨haccepted, hdata, hheight, hwidth, hrow, hsmall⟩ := psf1_accepted h
  rw [haccepted.reads_iff (hdata ▸ hlen), hheight, hwidth, hrow,
    farthestPlace_small haccepted.glyph (by omega),
    show farthestPlace (8 : UInt32).toNat = 7 from farthestPlace_small (by decide) (by decide)]
  have hglyphs := haccepted.glyphs
  have hglyph := haccepted.glyph
  obtain ⟨count, hcount⟩ := Nat.exists_eq_succ_of_ne_zero (Nat.ne_of_gt haccepted.count)
  rw [hcount, Nat.succ_mul] at hglyphs
  rw [hcount, Nat.succ_sub_one]
  rw [show (1 : UInt32).toNat = 1 from rfl, hdata] at *
  omega

theorem psf2_reads_iff (h : psf2Load data = some f) (hlen : data.length < 2 ^ 31) :
    f.ReadsInside ↔ psf2LastPlace data < data.length := by
  obtain ⟨haccepted, hdata, hheader, hcount, hsize, hheight, hwidth, hrow⟩ := psf2_accepted h
  rw [haccepted.reads_iff (hdata ▸ hlen), hdata, hheader, hcount, hsize, hheight, hwidth, hrow]
  rfl

theorem missing_reads : missing.ReadsInside := by
  intro codepoint glyph xNum xDen yNum yDen place hglyph
  cases hglyph

end Loaded

end PsfFont

/-- An accepted font is read in its file exactly if the farthest sample of its last glyph is, which
the check of the glyphs' sizes does not compare with the header of a PSF2 file. A file is shorter
than `2 ^ 31`: the difference of its ends is a `ptrdiff_t`. -/
theorem font_reads_inside_iff (data : List UInt8) (hlen : data.length < 2 ^ 31) :
    (fontLoadFromMemory data).ReadsInside ↔
      ((psf2Load data).isSome → PsfFont.psf2LastPlace data < data.length) := by
  rw [fontLoadFromMemory]
  split
  · next hshort =>
    have hnone : psf2Load data = none := by
      simp only [psf2Load]
      rw [if_neg]
      rintro ⟨hheader, -⟩
      exact absurd (Nat.lt_of_lt_of_le hshort (by decide)) (Nat.not_lt.mpr hheader)
    rw [hnone]
    simp [PsfFont.missing_reads]
  cases h2 : psf2Load data with
  | some f => simpa using PsfFont.psf2_reads_iff h2 hlen
  | none =>
    cases h1 : psf1Load data with
    | some f => simpa using PsfFont.psf1_reads_inside h1 hlen
    | none => simp [PsfFont.missing_reads]

/-- The header of a PSF2 file with one glyph of 8 columns and 16 rows. -/
def psf2HeaderOf (bytesPerGlyph : UInt8) : List UInt8 :=
  [114, 181, 74, 134, 0, 0, 0, 0, 32, 0, 0, 0, 0, 0, 0, 0, 1, 0, 0, 0, bytesPerGlyph, 0, 0, 0,
    16, 0, 0, 0, 8, 0, 0, 0]

/-- A font whose glyph has all its rows. -/
theorem font_reads_inside_full :
    (fontLoadFromMemory (psf2HeaderOf 16 ++ List.replicate 16 255)).ReadsInside :=
  (font_reads_inside_iff _ (by decide)).mpr fun _ => by decide +kernel

/-- A glyph of one byte is accepted with 16 rows. -/
theorem font_reads_outside : (fontLoadFromMemory (psf2HeaderOf 1 ++ [255])).valid = true ∧
    ¬(fontLoadFromMemory (psf2HeaderOf 1 ++ [255])).ReadsInside := by
  refine ⟨by decide +kernel, fun hreads => ?_⟩
  have hread := hreads 63 32 0 1 1 2 40 (by decide +kernel) (by decide) (by decide)
    (by decide +kernel) (by decide +kernel) (by decide +kernel)
  exact absurd hread (by decide +kernel)

end VertexOS
