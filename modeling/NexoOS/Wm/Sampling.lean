import NexoOS.Wm.Composite

/-!
# Scaled sampling

A pixel of a window is a mean of four texels of its buffer, with weights in
parts of 256. The weights sum to 65536, and rounding does not leave the range of
the four.
-/

namespace NexoOS.Wm

theorem mean_between {l u a b : Nat} (p q : Nat) (ha : l ≤ a ∧ a ≤ u) (hb : l ≤ b ∧ b ≤ u) :
    l * (p + q) ≤ a * p + b * q ∧ a * p + b * q ≤ u * (p + q) := by
  rw [Nat.mul_add, Nat.mul_add]
  constructor
  · exact Nat.add_le_add (Nat.mul_le_mul_right p ha.1) (Nat.mul_le_mul_right q hb.1)
  · exact Nat.add_le_add (Nat.mul_le_mul_right p ha.2) (Nat.mul_le_mul_right q hb.2)

/-- The value is between the least and the greatest of four. -/
def Between (v : UInt8) (a b c d : Nat) : Prop :=
  min (min a b) (min c d) ≤ v.toNat ∧ v.toNat ≤ max (max a b) (max c d)

namespace Window

/-- A sample point, in parts of 256 of a texel, is inside the buffer. -/
theorem point_lt {c size src : Int} (hc : 0 ≤ c ∧ c < size) (hsrc : 0 < src) :
    max (((2 * c + 1) * src * 128).tdiv size - 128) 0 / 256 < src := by
  have hle : (2 * c + 1) * src * 128 < 256 * src * size := by nlinarith
  rw [Int.tdiv_eq_ediv_of_nonneg (by have := mul_nonneg hc.1 hsrc.le; nlinarith)]
  have := Int.ediv_lt_of_lt_mul (by omega) hle
  omega

section
variable {fx fy a b c d : Nat} (hfx : fx ≤ 256) (hfy : fy ≤ 256) (ha : a ≤ 255)
include hfx hfy ha

theorem lerp2_between (hb : b ≤ 255) (hc : c ≤ 255) (hd : d ≤ 255) :
    Between (lerp2 fx fy a b c d) a b c d := by
  unfold Between lerp2
  generalize hl : min (min a b) (min c d) = l
  generalize hu : max (max a b) (max c d) = u
  have htop := mean_between (l := l) (u := u) (a := a) (b := b) (256 - fx) fx (by omega) (by omega)
  have hbot := mean_between (l := l) (u := u) (a := c) (b := d) (256 - fx) fx (by omega) (by omega)
  have hall := mean_between (256 - fy) fy htop hbot
  rw [Nat.sub_add_cancel hfx, Nat.sub_add_cancel hfy] at hall
  dsimp only
  generalize (a * (256 - fx) + b * fx) * (256 - fy) + (c * (256 - fx) + d * fx) * fy = v at hall
  rw [UInt8.toNat_ofNat']
  omega

theorem lerp2_self : lerp2 fx fy a a a a = .ofNat a := by
  have h := lerp2_between hfx hfy ha ha ha ha
  rw [Between, min_self, min_self, max_self, max_self] at h
  rw [← UInt8.toNat_inj, UInt8.toNat_ofNat']
  omega

end

variable (w : Window)

theorem texel_le {x y : Int} {t : Nat × Nat × Nat} (h : w.texel x y = some t) :
    t.1 ≤ 255 ∧ t.2.1 ≤ 255 ∧ t.2.2 ≤ 255 := by
  have hle : ∀ k, (w.pixels.getD k 0).toNat ≤ 255 := fun k => Nat.le_of_lt_succ (UInt8.toNat_lt _)
  unfold texel at h
  dsimp only at h
  split at h
  · cases h
  split at h
  all_goals cases h
  all_goals exact ⟨hle _, hle _, hle _⟩

def InBuffer (x y : Int) : Prop := 0 ≤ x ∧ x < w.srcW ∧ 0 ≤ y ∧ y < w.srcH

/-- The mean of the four texels. -/
def bilinear (fx fy : Nat) (x0 x1 y0 y1 : Int) : Option Color := do
  let c00 ← w.texel x0 y0
  let c10 ← w.texel x1 y0
  let c01 ← w.texel x0 y1
  let c11 ← w.texel x1 y1
  pure ⟨lerp2 fx fy c00.1 c10.1 c01.1 c11.1, lerp2 fx fy c00.2.1 c10.2.1 c01.2.1 c11.2.1,
    lerp2 fx fy c00.2.2 c10.2.2 c01.2.2 c11.2.2, w.alpha⟩

variable {w} {cx cy : Int}

theorem bilinear_self {fx fy : Nat} (hfx : fx ≤ 256) (hfy : fy ≤ 256) {x0 x1 y0 y1 : Int}
    {t : Nat × Nat × Nat} (h00 : w.texel x0 y0 = some t) (h10 : w.texel x1 y0 = some t)
    (h01 : w.texel x0 y1 = some t) (h11 : w.texel x1 y1 = some t) :
    w.bilinear fx fy x0 x1 y0 y1 = some ⟨.ofNat t.1, .ofNat t.2.1, .ofNat t.2.2, w.alpha⟩ := by
  obtain ⟨hr, hg, hb⟩ := w.texel_le h00
  simp [bilinear, h00, h10, h01, h11, lerp2_self hfx hfy, hr, hg, hb]

/-- A pixel of the window is the mean of four texels of the buffer. -/
theorem sample_eq_bilinear (hx : 0 ≤ cx ∧ cx < w.rect.w) (hy : 0 ≤ cy ∧ cy < w.rect.h) :
    ∃ fx fy x0 x1 y0 y1, fx ≤ 256 ∧ fy ≤ 256 ∧ w.InBuffer x0 y0 ∧ w.InBuffer x1 y1 ∧
      w.sample cx cy = w.bilinear fx fy x0 x1 y0 y1 := by
  have hin : ¬ (cx < 0 ∨ cy < 0 ∨ w.rect.w ≤ cx ∨ w.rect.h ≤ cy) := by omega
  by_cases hsame : w.rect.w = w.srcW ∧ w.rect.h = w.srcH
  · have hbuf : w.InBuffer cx cy := ⟨hx.1, hsame.1 ▸ hx.2, hy.1, hsame.2 ▸ hy.2⟩
    refine ⟨0, 0, cx, cx, cy, cy, by omega, by omega, hbuf, hbuf, ?_⟩
    rw [sample, if_neg hin, if_pos hsame]
    rcases h : w.texel cx cy with _ | t
    · simp [bilinear, h]
    · exact (bilinear_self (by omega) (by omega) h h h h).symm
  · have hxlt := point_lt hx w.src_pos.1
    have hylt := point_lt hy w.src_pos.2
    refine ⟨_, _, _, _, _, _, ?_, ?_, ?_, ?_, (if_neg hin).trans (if_neg hsame)⟩
    · omega
    · omega
    · exact ⟨by omega, hxlt, by omega, hylt⟩
    · have := w.src_pos
      exact ⟨by omega, by omega, by omega, by omega⟩

/-- A pixel of the window is made of four texels of the buffer, each channel
between their least and greatest; a buffer of one colour gives that colour, and
at scale 1 it is the texel. -/
theorem sample_interpolates (w : Window) (hx : 0 ≤ cx ∧ cx < w.rect.w)
    (hy : 0 ≤ cy ∧ cy < w.rect.h) :
    (∃ fx fy x0 x1 y0 y1, w.InBuffer x0 y0 ∧ w.InBuffer x1 y1 ∧
      w.sample cx cy = w.bilinear fx fy x0 x1 y0 y1 ∧
      ∀ c, w.sample cx cy = some c → ∃ c00 c10 c01 c11, w.texel x0 y0 = some c00 ∧
        w.texel x1 y0 = some c10 ∧ w.texel x0 y1 = some c01 ∧ w.texel x1 y1 = some c11 ∧
        Between c.r c00.1 c10.1 c01.1 c11.1 ∧ Between c.g c00.2.1 c10.2.1 c01.2.1 c11.2.1 ∧
        Between c.b c00.2.2 c10.2.2 c01.2.2 c11.2.2 ∧ c.a = w.alpha) ∧
    (∀ t, (∀ x y, w.InBuffer x y → w.texel x y = some t) →
      w.sample cx cy = some ⟨.ofNat t.1, .ofNat t.2.1, .ofNat t.2.2, w.alpha⟩) ∧
    (w.rect.w = w.srcW → w.rect.h = w.srcH → w.sample cx cy =
      (w.texel cx cy).map fun t => ⟨.ofNat t.1, .ofNat t.2.1, .ofNat t.2.2, w.alpha⟩) := by
  obtain ⟨fx, fy, x0, x1, y0, y1, hfx, hfy, h0, h1, heq⟩ := sample_eq_bilinear hx hy
  refine ⟨⟨fx, fy, x0, x1, y0, y1, h0, h1, heq, fun c hc => ?_⟩, fun t ht => ?_, fun hw hh => ?_⟩
  · rw [heq] at hc
    simp only [bilinear, Option.bind_eq_bind, Option.bind_eq_some_iff, Option.pure_def] at hc
    obtain ⟨c00, h00, c10, h10, c01, h01, c11, h11, hc⟩ := hc
    cases hc
    obtain ⟨r00, g00, b00⟩ := w.texel_le h00
    obtain ⟨r10, g10, b10⟩ := w.texel_le h10
    obtain ⟨r01, g01, b01⟩ := w.texel_le h01
    obtain ⟨r11, g11, b11⟩ := w.texel_le h11
    exact ⟨c00, c10, c01, c11, h00, h10, h01, h11, lerp2_between hfx hfy r00 r10 r01 r11,
      lerp2_between hfx hfy g00 g10 g01 g11, lerp2_between hfx hfy b00 b10 b01 b11, rfl⟩
  · rw [heq]
    exact bilinear_self hfx hfy (ht _ _ h0) (ht _ _ ⟨h1.1, h1.2.1, h0.2.2⟩)
      (ht _ _ ⟨h0.1, h0.2.1, h1.2.2⟩) (ht _ _ h1)
  · exact (if_neg (by omega)).trans (if_pos ⟨hw, hh⟩)

/-- A black and a white texel over four pixels. -/
def twoTexels : Window where
  rect := ⟨0, 0, 4, 1⟩
  z := 0
  pixels := [0, 0, 0, 0, 255, 255, 255, 0]
  stride := 2
  srcW := 2
  srcH := 1
  format := .rgbx8888
  alpha := 255
  src_pos := by decide

/-- The second pixel is a quarter of the way. -/
theorem sample_interpolates_twoTexels : twoTexels.sample 1 0 = some ⟨64, 64, 64, 255⟩ ∧
    ∃ x0 x1 y0 y1, twoTexels.InBuffer x0 y0 ∧ twoTexels.InBuffer x1 y1 := by
  have hx : (0 : Int) ≤ 1 ∧ 1 < twoTexels.rect.w := by decide
  have hy : (0 : Int) ≤ 0 ∧ 0 < twoTexels.rect.h := by decide
  obtain ⟨⟨_, _, x0, x1, y0, y1, h0, h1, -⟩, -⟩ := sample_interpolates twoTexels hx hy
  exact ⟨by decide +kernel, x0, x1, y0, y1, h0, h1⟩

end Window
end NexoOS.Wm
