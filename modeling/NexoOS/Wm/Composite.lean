import NexoOS.Lib.StableSort
import NexoOS.Wm.Gfx

/-!
# Composition of windows

`nexo_wm`: the windows over a background, from the lowest to the highest, inside
a damaged rectangle, and the list of damaged rectangles. A pixel inside the
damage is the outcome of the layers at that place alone, and a window that does
not cover it has no part in it.
-/

namespace NexoOS.Wm

open List Rect Surface

def maxWindows : Nat := 32
def maxDamage : Nat := 16

/-- A window of the scene and the buffer of its client. -/
structure Window where
  rect : Rect
  z : Int
  pixels : List UInt8
  stride : Nat
  srcW : Int
  srcH : Int
  format : PixelFormat
  alpha : UInt8
  src_pos : 0 < srcW ∧ 0 < srcH

namespace Window

variable (w : Window)

/-- The colour in the buffer; nothing if the buffer is too short. -/
def texel (tx ty : Int) : Option (Nat × Nat × Nat) :=
  let o := ((ty * w.stride + tx) * 4).toNat
  if w.pixels.length < o + 4 then none
  else
    let p := fun k => (w.pixels.getD (o + k) 0).toNat
    match w.format with
    | .rgbx8888 => some (p 0, p 1, p 2)
    | .bgrx8888 => some (p 2, p 1, p 0)
    | .unknown => none

/-- Bilinear interpolation with the weights `fx`, `fy` of 256. -/
def lerp2 (fx fy a b c d : Nat) : UInt8 :=
  let top := a * (256 - fx) + b * fx
  let bot := c * (256 - fx) + d * fx
  .ofNat ((top * (256 - fy) + bot * fy + 32768) / 65536)

/-- The colour at a place of the window; the buffer is scaled to the window. -/
def sample (cx cy : Int) : Option Color :=
  if cx < 0 ∨ cy < 0 ∨ w.rect.w ≤ cx ∨ w.rect.h ≤ cy then none
  else if w.rect.w = w.srcW ∧ w.rect.h = w.srcH then
    (w.texel cx cy).map fun t => ⟨.ofNat t.1, .ofNat t.2.1, .ofNat t.2.2, w.alpha⟩
  else
    let sx := max (((2 * cx + 1) * w.srcW * 128).tdiv w.rect.w - 128) 0
    let sy := max (((2 * cy + 1) * w.srcH * 128).tdiv w.rect.h - 128) 0
    let x0 := sx / 256
    let y0 := sy / 256
    let fx := (sx % 256).toNat
    let fy := (sy % 256).toNat
    let x1 := min (x0 + 1) (w.srcW - 1)
    let y1 := min (y0 + 1) (w.srcH - 1)
    do
      let c00 ← w.texel x0 y0
      let c10 ← w.texel x1 y0
      let c01 ← w.texel x0 y1
      let c11 ← w.texel x1 y1
      pure ⟨lerp2 fx fy c00.1 c10.1 c01.1 c11.1, lerp2 fx fy c00.2.1 c10.2.1 c01.2.1 c11.2.1,
        lerp2 fx fy c00.2.2 c10.2.2 c01.2.2 c11.2.2, w.alpha⟩

/-- The colour at a point of the screen. -/
def colorAt (x y : Int) : Option Color := w.sample (x - w.rect.x) (y - w.rect.y)

theorem colorAt_of_not_contains {x y : Int} (h : w.rect.contains x y = false) :
    w.colorAt x y = none := by
  rw [Bool.eq_false_iff, Ne, contains_iff] at h
  exact if_pos (by omega)

end Window

namespace Surface

def drawWindow (area : Rect) (out : Surface) (w : Window) : Surface :=
  let vis := w.rect.intersect area
  if vis.isEmpty then out else out.blendAll w.colorAt vis.points

/-- The windows in the order in which they are drawn: by `z`, and those of the
same `z` as they were given. -/
def order (windows : List Window) : List Window := stableSort Window.z (windows.take maxWindows)

def composite (out : Surface) (windows : List Window) (damage : Rect) (background : Color) :
    Surface :=
  let area := damage.intersect out.layout.bounds
  if area.isEmpty then out
  else
    let saved := out.clip
    let out := (out.setClip area).fillRect area background
    ((order windows).foldl (drawWindow area) out).setClip saved

end Surface

/-! ## Damage -/

/-- The damaged rectangles. -/
structure Damage where
  rects : List Rect
  len_le : rects.length ≤ maxDamage

namespace Damage

def empty : Damage := ⟨[], Nat.zero_le _⟩

/-- The envelope of all rectangles. -/
def bounds (d : Damage) : Rect :=
  match d.rects with
  | [] => ⟨0, 0, 0, 0⟩
  | b :: rs => rs.foldl union b

/-- A full list becomes one envelope. -/
def add (d : Damage) (r : Rect) : Damage :=
  if r.isEmpty then d
  else if h : d.rects.length < maxDamage then ⟨d.rects ++ [r], by simpa using Nat.succ_le_of_lt h⟩
  else ⟨[d.bounds.union r], by simp [maxDamage]⟩

/-- The point is in a damaged rectangle. -/
def Covers (d : Damage) (x y : Int) : Prop := ∃ r ∈ d.rects, r.contains x y = true

theorem contains_foldl_union {x y : Int} {rs : List Rect} {b : Rect}
    (h : b.contains x y = true ∨ ∃ r ∈ rs, r.contains x y = true) :
    (rs.foldl union b).contains x y = true := by
  induction rs generalizing b with
  | nil =>
    rcases h with h | ⟨r, hr, -⟩
    · exact h
    · cases hr
  | cons r rs ih =>
    refine ih ?_
    rcases h with h | ⟨r', hr', h⟩
    · exact .inl (contains_union (.inl h))
    rcases mem_cons.1 hr' with rfl | hr'
    · exact .inl (contains_union (.inr h))
    · exact .inr ⟨r', hr', h⟩

theorem contains_bounds {d : Damage} {x y : Int} (h : d.Covers x y) :
    d.bounds.contains x y = true := by
  obtain ⟨r, hr, hxy⟩ := h
  unfold bounds
  split
  · rename_i hnil
    rw [hnil] at hr
    cases hr
  rename_i b rs hcons
  rw [hcons] at hr
  refine contains_foldl_union ?_
  rcases mem_cons.1 hr with rfl | hr
  · exact .inl hxy
  · exact .inr ⟨r, hr, hxy⟩

theorem Covers.add {d : Damage} {r : Rect} {x y : Int}
    (h : d.Covers x y ∨ r.contains x y = true) : (d.add r).Covers x y := by
  unfold Damage.add
  split
  · rename_i hempty
    rw [not_contains_of_isEmpty hempty] at h
    exact h.resolve_right nofun
  split
  · rcases h with ⟨r', hr', hxy⟩ | hxy
    · exact ⟨r', mem_append_left _ hr', hxy⟩
    · exact ⟨r, mem_append_right _ (mem_singleton_self r), hxy⟩
  · refine ⟨_, mem_singleton_self _, contains_union ?_⟩
    exact h.imp_left contains_bounds

end Damage

/-! ## The pixels of a composition -/

namespace Surface

variable {out : Surface} {windows : List Window} {damage area : Rect} {x y : Int} {r g b : UInt8}

/-- The layers at a place, over the background. -/
def shade (format : PixelFormat) (windows : List Window) (background : Color) (x y : Int) : Px :=
  (order windows).foldl (fun px w => layer format (w.colorAt x y) px) (format.encode background)

theorem Like.drawWindow {s₀ : Surface} (h : s₀.Like out) (w : Window) :
    s₀.Like (drawWindow area out w) := by
  unfold Surface.drawWindow
  dsimp only
  split
  · exact h
  · exact h.blendAll _ _

theorem pixel_drawWindow (harea : area.contains x y = true)
    (hclip : out.clip.contains x y = true) (w : Window) : (drawWindow area out w).pixel x y =
      layer out.layout.format (w.colorAt x y) (out.pixel x y) := by
  by_cases hrect : w.rect.contains x y = true
  · have hvis : (w.rect.intersect area).contains x y = true :=
      contains_intersect.2 ⟨hrect, harea⟩
    unfold drawWindow
    rw [if_neg]
    · exact pixel_blendAll (nodup_points _) (mem_points.2 hvis) hclip
    · intro hempty
      rw [not_contains_of_isEmpty hempty] at hvis
      cases hvis
  · -- a window that is not there leaves the pixel
    have hfalse := Bool.eq_false_iff.2 hrect
    rw [w.colorAt_of_not_contains hfalse]
    unfold drawWindow
    dsimp only
    split
    · rfl
    refine pixel_blendAll_off (out.clip_le x y hclip) ?_
    rw [mem_points, contains_intersect]
    exact fun h => hrect h.1

theorem pixel_drawWindow_off (hq : out.layout.bounds.contains x y = true)
    (hout : area.contains x y = false) (w : Window) :
    (drawWindow area out w).pixel x y = out.pixel x y := by
  unfold drawWindow
  dsimp only
  split
  · rfl
  refine pixel_blendAll_off hq ?_
  rw [mem_points, contains_intersect, hout]
  exact fun h => nomatch h.2

theorem pixel_drawWindows (harea : area.contains x y = true)
    (hclip : out.clip.contains x y = true) (ws : List Window) :
    (ws.foldl (drawWindow area) out).pixel x y =
      ws.foldl (fun px w => layer out.layout.format (w.colorAt x y) px) (out.pixel x y) := by
  induction ws generalizing out with
  | nil => rfl
  | cons w ws ih =>
    have hlike : out.Like (drawWindow area out w) := (Like.refl out).drawWindow w
    rw [foldl_cons, foldl_cons, ih (hlike.2 ▸ hclip), pixel_drawWindow harea hclip,
      hlike.1]

theorem Like.drawWindows {s₀ : Surface} (h : s₀.Like out) (ws : List Window) :
    s₀.Like (ws.foldl (Surface.drawWindow area) out) :=
  foldl_inv (fun _ w hs => hs.drawWindow w) h ws

/-- Inside the damage, a pixel is made of the layers at its place. -/
theorem pixel_composite (hq : out.layout.bounds.contains x y = true)
    (hdamage : damage.contains x y = true) : (out.composite windows damage (.rgb r g b)).pixel x y =
      shade out.layout.format windows (.rgb r g b) x y := by
  have harea : (damage.intersect out.layout.bounds).contains x y = true :=
    contains_intersect.2 ⟨hdamage, hq⟩
  unfold composite
  rw [if_neg]
  · generalize damage.intersect out.layout.bounds = area at harea ⊢
    have hclip : (out.setClip area).clip.contains x y = true :=
      contains_intersect.2 ⟨harea, hq⟩
    have hlike : (out.setClip area).Like ((out.setClip area).fillRect area (.rgb r g b)) :=
      (Like.refl _).fillRect
    have hfill : ((out.setClip area).fillRect area (.rgb r g b)).pixel x y =
        out.layout.format.encode (.rgb r g b) :=
      pixel_fillRect harea hclip
    refine (pixel_drawWindows harea (hlike.2 ▸ hclip) (order windows)).trans ?_
    rw [hfill, hlike.1]
    rfl
  · intro hempty
    rw [not_contains_of_isEmpty hempty] at harea
    cases harea

theorem pixel_composite_off (hq : out.layout.bounds.contains x y = true)
    (hdamage : damage.contains x y = false) (background : Color) :
    (out.composite windows damage background).pixel x y = out.pixel x y := by
  have harea : (damage.intersect out.layout.bounds).contains x y = false := by
    rw [Bool.eq_false_iff, Ne, contains_intersect, hdamage]
    exact fun h => nomatch h.1
  unfold composite
  dsimp only
  split
  · rfl
  generalize damage.intersect out.layout.bounds = area at harea ⊢
  have hlike : (out.setClip area).Like ((out.setClip area).fillRect area background) :=
    (Like.refl _).fillRect
  have hfill : ((out.setClip area).fillRect area background).pixel x y = out.pixel x y := by
    refine pixel_fillRect_off hq ?_
    rw [Bool.eq_false_iff, Ne, contains_intersect, harea]
    exact fun h => nomatch h.1
  rw [← hfill]
  refine foldl_off (I := (out.setClip area).Like) (fun s => s.pixel x y)
    (fun s w hs => hs.drawWindow w) (fun s w _ hs => ?_) hlike
  exact pixel_drawWindow_off (hs.1 ▸ hq) harea w

theorem Drawn.drawWindow {m : Nat → Px} (h : Drawn m out) (w : Window) :
    Drawn m (drawWindow area out w) := by
  unfold Surface.drawWindow
  dsimp only
  split
  · exact h
  · exact h.blendAll _ _

theorem Drawn.composite {m : Nat → Px} (h : Drawn m out) (windows : List Window) (damage : Rect)
    (background : Color) : Drawn m (out.composite windows damage background) := by
  unfold Surface.composite
  dsimp only
  split
  · exact h
  · have hclip : Drawn m (out.setClip (damage.intersect out.layout.bounds)) := h
    exact foldl_inv (I := Drawn m) (fun _ w hs => hs.drawWindow w) hclip.fillRect (order windows)

theorem composite_layout (out : Surface) (windows : List Window) (damage : Rect)
    (background : Color) : (out.composite windows damage background).layout = out.layout := by
  unfold composite
  dsimp only
  split
  · rfl
  · exact (((Like.refl (out.setClip _)).fillRect).drawWindows _).1

theorem composite_clip (out : Surface) (windows : List Window) (damage : Rect)
    (background : Color) : (out.composite windows damage background).clip =
      if (damage.intersect out.layout.bounds).isEmpty then out.clip
      else out.clip.intersect out.layout.bounds := by
  unfold composite
  dsimp only
  split
  · rfl
  · exact congrArg (fun l : Layout => out.clip.intersect l.bounds)
      (((Like.refl (out.setClip _)).fillRect).drawWindows _).1

/-! ## Locality -/

theorem shade_eq_covering (format : PixelFormat) {windows : List Window}
    (hlen : windows.length ≤ maxWindows) (background : Color) (x y : Int) :
    shade format windows background x y =
      shade format (windows.filter fun w => w.rect.contains x y) background x y := by
  have hfilter : (windows.filter fun w => w.rect.contains x y).length ≤ maxWindows :=
    (length_filter_le _ _).trans hlen
  unfold shade order
  rw [take_of_length_le hlen, take_of_length_le hfilter, ← filter_stableSort]
  generalize format.encode background = px
  generalize stableSort Window.z windows = ws
  induction ws generalizing px with
  | nil => rfl
  | cons w ws ih =>
    rw [foldl_cons, filter_cons]
    split
    · exact ih _
    rename_i hrect
    rw [w.colorAt_of_not_contains (Bool.eq_false_iff.2 hrect)]
    exact ih _

end Surface
end NexoOS.Wm
