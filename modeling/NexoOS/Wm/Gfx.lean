import NexoOS.Lib.Stores
import NexoOS.Wm.State

/-!
# The software renderer

`nexo_gfx`: rectangles, and a surface of 32-bit pixels with a clip. A pixel is
one cell of the buffer; `stores` keeps the stores into the buffer in their order.
Coordinates do not overflow.
-/

namespace NexoOS.Wm

open Rect

/-! ## Rectangles -/

namespace Rect

def intersect (r o : Rect) : Rect :=
  let x0 := max r.x o.x
  let y0 := max r.y o.y
  let x1 := min (r.x + r.w) (o.x + o.w)
  let y1 := min (r.y + r.h) (o.y + o.h)
  ⟨x0, y0, max (x1 - x0) 0, max (y1 - y0) 0⟩

def isEmpty (r : Rect) : Bool := r.w ≤ 0 ∨ r.h ≤ 0

/-- The envelope of two rectangles; an empty one is ignored. -/
def union (r o : Rect) : Rect :=
  if r.isEmpty then o
  else if o.isEmpty then r
  else
    let x0 := min r.x o.x
    let y0 := min r.y o.y
    let x1 := max (r.x + r.w) (o.x + o.w)
    let y1 := max (r.y + r.h) (o.y + o.h)
    ⟨x0, y0, x1 - x0, y1 - y0⟩

variable {r : Rect} {x y : Int}

theorem contains_iff :
    r.contains x y = true ↔ r.x ≤ x ∧ x < r.x + r.w ∧ r.y ≤ y ∧ y < r.y + r.h := by
  simp [contains]

theorem contains_intersect {o : Rect} :
    (r.intersect o).contains x y = true ↔ r.contains x y = true ∧ o.contains x y = true := by
  simp only [contains_iff, intersect]
  omega

theorem not_contains_of_isEmpty (h : r.isEmpty = true) (x y : Int) : r.contains x y = false := by
  have hempty : r.w ≤ 0 ∨ r.h ≤ 0 := by simpa [isEmpty] using h
  rw [Bool.eq_false_iff, Ne, contains_iff]
  omega

theorem contains_union {o : Rect} (h : r.contains x y = true ∨ o.contains x y = true) :
    (r.union o).contains x y = true := by
  unfold union
  split
  · rename_i hr
    rw [not_contains_of_isEmpty hr] at h
    exact h.resolve_left nofun
  split
  · rename_i ho
    rw [not_contains_of_isEmpty ho] at h
    exact h.resolve_right nofun
  · simp only [contains_iff] at h ⊢
    omega

/-- The numbers `a..a + n`. -/
def span (a n : Int) : List Int := (List.range n.toNat).map fun k : Nat => a + k

/-- The points of a rectangle, row by row. -/
def points (r : Rect) : List (Int × Int) :=
  (span r.y r.h).flatMap fun y => (span r.x r.w).map fun x => (x, y)

theorem mem_span {a n : Int} : x ∈ span a n ↔ a ≤ x ∧ x < a + n := by
  simp only [span, List.mem_map, List.mem_range]
  constructor
  · rintro ⟨k, hk, rfl⟩
    omega
  · rintro ⟨hle, hlt⟩
    exact ⟨(x - a).toNat, by omega, by omega⟩

theorem nodup_span (a n : Int) : (span a n).Nodup := by
  refine List.Nodup.map (fun k k' h => ?_) List.nodup_range
  have : a + (k : Int) = a + k' := h
  omega

theorem mem_points : (x, y) ∈ r.points ↔ r.contains x y = true := by
  simp only [points, List.mem_flatMap, List.mem_map, mem_span, Prod.mk.injEq, contains_iff]
  constructor
  · rintro ⟨y', hy, x', hx, rfl, rfl⟩
    omega
  · intro h
    exact ⟨y, by omega, x, by omega, rfl, rfl⟩

theorem nodup_points (r : Rect) : r.points.Nodup := by
  refine List.nodup_flatMap.2 ⟨fun y _ => ?_, ?_⟩
  · exact (nodup_span _ _).map fun x x' h => (Prod.mk.inj h).1
  · refine (nodup_span r.y r.h).imp fun hne p hp hp' => ?_
    obtain ⟨x, _, rfl⟩ := List.mem_map.1 hp
    obtain ⟨x', _, heq⟩ := List.mem_map.1 hp'
    exact hne (Prod.mk.inj heq).2.symm

end Rect

/-! ## Colours -/

structure Color where
  r : UInt8
  g : UInt8
  b : UInt8
  a : UInt8
  deriving DecidableEq

/-- An opaque colour. -/
def Color.rgb (r g b : UInt8) : Color := ⟨r, g, b, 255⟩

inductive PixelFormat where
  | unknown
  | rgbx8888
  | bgrx8888
  deriving DecidableEq

/-- The four bytes of a pixel. -/
abbrev Px : Type := UInt8 × UInt8 × UInt8 × UInt8

namespace PixelFormat

def encode (c : Color) : PixelFormat → Px
  | rgbx8888 => (c.r, c.g, c.b, 0)
  | bgrx8888 => (c.b, c.g, c.r, 0)
  | unknown => (0, 0, 0, 0)

def decode (px : Px) : PixelFormat → Color
  | rgbx8888 => .rgb px.1 px.2.1 px.2.2.1
  | bgrx8888 => .rgb px.2.2.1 px.2.1 px.1
  | unknown => .rgb 0 0 0

/-- A byte over another with the weight `a` of 255. -/
def mix (a s d : UInt8) : UInt8 :=
  .ofNat ((s.toNat * a.toNat + d.toNat * (255 - a.toNat) + 127) / 255)

def srcOver (f : PixelFormat) (c : Color) (px : Px) : Px :=
  if c.a = 0 then px
  else if c.a = 255 then f.encode c
  else
    let d := f.decode px
    f.encode (.rgb (mix c.a c.r d.r) (mix c.a c.g d.g) (mix c.a c.b d.b))

end PixelFormat

/-! ## Surfaces -/

structure Layout where
  width : Int
  height : Int
  stride : Int
  format : PixelFormat
  stride_le : width ≤ stride

namespace Layout

def bounds (l : Layout) : Rect := ⟨0, 0, l.width, l.height⟩

/-- The cell of a pixel. -/
def offset (l : Layout) (x y : Int) : Nat := (y * l.stride + x).toNat

theorem offset_inj {l : Layout} {x y x' y' : Int} (h : l.bounds.contains x y = true)
    (h' : l.bounds.contains x' y' = true) (heq : l.offset x y = l.offset x' y') :
    x = x' ∧ y = y' := by
  simp only [bounds, contains_iff, Int.zero_add] at h h'
  have hstride := l.stride_le
  have hy0 : 0 ≤ y * l.stride := Int.mul_nonneg (by omega) (by omega)
  have hy0' : 0 ≤ y' * l.stride := Int.mul_nonneg (by omega) (by omega)
  have hsum : y * l.stride + x = y' * l.stride + x' := by
    unfold offset at heq
    omega
  have hy : y = y' := by
    rcases lt_trichotomy y y' with hlt | heq | hgt
    · have := Int.mul_le_mul_of_nonneg_right (show y + 1 ≤ y' by omega) (show 0 ≤ l.stride by omega)
      rw [Int.add_mul, Int.one_mul] at this
      omega
    · exact heq
    have := Int.mul_le_mul_of_nonneg_right (show y' + 1 ≤ y by omega) (show 0 ≤ l.stride by omega)
    rw [Int.add_mul, Int.one_mul] at this
    omega
  subst hy
  exact ⟨by omega, rfl⟩

end Layout

structure Surface where
  layout : Layout
  clip : Rect
  pixels : Nat → Px
  stores : List (Nat × Px)
  clip_le : ∀ x y, clip.contains x y = true → layout.bounds.contains x y = true

namespace Surface

variable (s : Surface)

def pixel (x y : Int) : Px := s.pixels (s.layout.offset x y)

def setClip (clip : Rect) : Surface :=
  { s with
    clip := clip.intersect s.layout.bounds
    clip_le := fun _ _ h => (contains_intersect.1 h).2 }

/-- A store of one pixel into the buffer. -/
def store (cell : Nat) (px : Px) : Surface :=
  { s with pixels := Function.update s.pixels cell px, stores := s.stores ++ [(cell, px)] }

/-- A pixel as a colour; black outside the surface. -/
def get (x y : Int) : Color :=
  if s.layout.bounds.contains x y then s.layout.format.decode (s.pixel x y) else .rgb 0 0 0

def put (x y : Int) (c : Color) : Surface :=
  if s.clip.contains x y then s.store (s.layout.offset x y) (s.layout.format.encode c) else s

/-- A colour over what is there. -/
def blend (x y : Int) (c : Color) : Surface :=
  if ¬ s.clip.contains x y ∨ c.a = 0 then s
  else if c.a = 255 then s.put x y c
  else
    let d := s.get x y
    s.put x y (.rgb (PixelFormat.mix c.a c.r d.r) (PixelFormat.mix c.a c.g d.g)
      (PixelFormat.mix c.a c.b d.b))

/-- A loop of `blend` over points that have a colour. -/
def blendAll (f : Int → Int → Option Color) (l : List (Int × Int)) : Surface :=
  l.foldl (fun s p => match f p.1 p.2 with
    | none => s
    | some c => s.blend p.1 p.2 c) s

def fillRect (rect : Rect) (c : Color) : Surface :=
  let r := rect.intersect s.clip
  if r.isEmpty ∨ c.a = 0 then s
  else if c.a = 255 then
    r.points.foldl (fun s p => s.store (s.layout.offset p.1 p.2) (s.layout.format.encode c)) s
  else s.blendAll (fun _ _ => some c) r.points

/-- An outline of one pixel. -/
def strokeRect (r : Rect) (c : Color) : Surface :=
  let s := s.fillRect ⟨r.x, r.y, r.w, 1⟩ c
  let s := s.fillRect ⟨r.x, r.y + r.h - 1, r.w, 1⟩ c
  let s := s.fillRect ⟨r.x, r.y, 1, r.h⟩ c
  s.fillRect ⟨r.x + r.w - 1, r.y, 1, r.h⟩ c

/-! ## What drawing does to a pixel -/

/-- Layout and clip are as in another surface. -/
def Like (s₀ s : Surface) : Prop := s.layout = s₀.layout ∧ s.clip = s₀.clip

variable {s} {s₀ : Surface} {x y qx qy : Int} {c : Color} {rect : Rect}

theorem Like.refl (s : Surface) : s.Like s := ⟨rfl, rfl⟩

theorem Like.store (h : s₀.Like s) (cell : Nat) (px : Px) : s₀.Like (s.store cell px) := h

theorem Like.put (h : s₀.Like s) : s₀.Like (s.put x y c) := by
  unfold Surface.put
  split
  · exact h
  · exact h

theorem Like.blend (h : s₀.Like s) : s₀.Like (s.blend x y c) := by
  unfold Surface.blend
  split
  · exact h
  split
  · exact h.put
  · exact h.put

theorem Like.blendAll (h : s₀.Like s) (f : Int → Int → Option Color) (l : List (Int × Int)) :
    s₀.Like (s.blendAll f l) := by
  refine foldl_inv (fun s p hs => ?_) h l
  split
  · exact hs
  · exact hs.blend

theorem Like.fillRect (h : s₀.Like s) : s₀.Like (s.fillRect rect c) := by
  unfold Surface.fillRect
  dsimp only
  split
  · exact h
  split
  · exact foldl_inv (I := s₀.Like) (fun s p hs => hs.store _ _) h _
  · exact h.blendAll _ _

/-- The buffer is what the stores made of `m`. -/
def Drawn (m : Nat → Px) (s : Surface) : Prop := s.pixels = stored m s.stores

variable {m : Nat → Px}

theorem Drawn.store (h : Drawn m s) (cell : Nat) (px : Px) : Drawn m (s.store cell px) := by
  unfold Drawn Surface.store
  rw [stored_append, ← h]
  rfl

theorem Drawn.put (h : Drawn m s) : Drawn m (s.put x y c) := by
  unfold Surface.put
  split
  · exact h.store _ _
  · exact h

theorem Drawn.blend (h : Drawn m s) : Drawn m (s.blend x y c) := by
  unfold Surface.blend
  split
  · exact h
  split
  · exact h.put
  · exact h.put

theorem Drawn.blendAll (h : Drawn m s) (f : Int → Int → Option Color) (l : List (Int × Int)) :
    Drawn m (s.blendAll f l) := by
  refine foldl_inv (fun s p hs => ?_) h l
  split
  · exact hs
  · exact hs.blend

theorem Drawn.fillRect (h : Drawn m s) : Drawn m (s.fillRect rect c) := by
  unfold Surface.fillRect
  dsimp only
  split
  · exact h
  split
  · exact foldl_inv (I := Drawn m) (fun s p hs => hs.store _ _) h _
  · exact h.blendAll _ _

/-- A store into the cell of a pixel is seen at that pixel only. -/
theorem pixel_store (hp : s.layout.bounds.contains x y = true)
    (hq : s.layout.bounds.contains qx qy = true) (px : Px) :
    (s.store (s.layout.offset x y) px).pixel qx qy =
      if (x, y) = (qx, qy) then px else s.pixel qx qy := by
  unfold pixel store
  split
  · rename_i heq
    cases heq
    exact Function.update_self ..
  rename_i hne
  refine Function.update_of_ne (fun heq => hne ?_) ..
  obtain ⟨rfl, rfl⟩ := Layout.offset_inj hq hp heq
  rfl

theorem pixel_put (hq : s.layout.bounds.contains qx qy = true) : (s.put x y c).pixel qx qy =
      if (x, y) = (qx, qy) ∧ s.clip.contains qx qy = true then s.layout.format.encode c
      else s.pixel qx qy := by
  unfold put
  split
  · rename_i hclip
    rw [pixel_store (s.clip_le x y hclip) hq]
    split
    · rename_i heq
      cases heq
      rw [if_pos ⟨rfl, hclip⟩]
    · rename_i hne
      rw [if_neg fun h => hne h.1]
  · rename_i hclip
    rw [if_neg]
    rintro ⟨heq, hq⟩
    cases heq
    exact hclip hq

theorem pixel_blend (hq : s.layout.bounds.contains qx qy = true) : (s.blend x y c).pixel qx qy =
      if (x, y) = (qx, qy) ∧ s.clip.contains qx qy = true then
        s.layout.format.srcOver c (s.pixel qx qy) else s.pixel qx qy := by
  by_cases hpoint : (x, y) = (qx, qy) ∧ s.clip.contains qx qy = true
  · obtain ⟨heq, hclip⟩ := hpoint
    cases heq
    rw [if_pos ⟨rfl, hclip⟩]
    unfold blend PixelFormat.srcOver
    by_cases ha : c.a = 0
    · rw [if_pos (.inr ha), if_pos ha]
    rw [if_neg (not_or.2 ⟨not_not.2 hclip, ha⟩), if_neg ha]
    split
    · rw [pixel_put hq, if_pos ⟨rfl, hclip⟩]
    · dsimp only
      rw [pixel_put hq, if_pos ⟨rfl, hclip⟩, get, if_pos hq]
  · rw [if_neg hpoint]
    unfold blend
    split
    · rfl
    split <;> exact (pixel_put hq).trans (if_neg hpoint)

/-- What a point of a loop of blends does to its pixel. -/
def layer (format : PixelFormat) : Option Color → Px → Px
  | none, px => px
  | some c, px => format.srcOver c px

theorem pixel_blendAll {f : Int → Int → Option Color} {l : List (Int × Int)} (hl : l.Nodup)
    (hin : (qx, qy) ∈ l) (hclip : s.clip.contains qx qy = true) :
    (s.blendAll f l).pixel qx qy = layer s.layout.format (f qx qy) (s.pixel qx qy) := by
  have hq := s.clip_le qx qy hclip
  refine foldl_at (I := s.Like) (fun s' => s'.pixel qx qy) (layer s.layout.format (f qx qy))
    (fun s' p hs => ?_) hl hin (fun s' hs => ?_) (fun s' p _ hne hs => ?_) (Like.refl s)
  · split
    · exact hs
    · exact hs.blend
  · dsimp only
    rcases f qx qy with _ | c
    · rfl
    · dsimp only [layer]
      rw [pixel_blend (hs.1 ▸ hq), hs.1, hs.2, if_pos ⟨rfl, hclip⟩]
  · rcases f p.1 p.2 with _ | c
    · rfl
    · dsimp only
      rw [pixel_blend (hs.1 ▸ hq), if_neg fun h => hne h.1]

theorem pixel_blendAll_off {f : Int → Int → Option Color} {l : List (Int × Int)}
    (hq : s.layout.bounds.contains qx qy = true) (hout : (qx, qy) ∉ l) :
    (s.blendAll f l).pixel qx qy = s.pixel qx qy := by
  refine foldl_off (I := s.Like) (fun s' => s'.pixel qx qy) (fun s' p hs => ?_)
    (fun s' p hp hs => ?_) (Like.refl s)
  · split
    · exact hs
    · exact hs.blend
  rcases f p.1 p.2 with _ | c
  · rfl
  · dsimp only
    rw [pixel_blend (hs.1 ▸ hq), if_neg]
    rintro ⟨heq, -⟩
    exact hout (heq ▸ hp)

theorem pixel_fillRect (hrect : rect.contains qx qy = true) (hclip : s.clip.contains qx qy = true) :
    (s.fillRect rect c).pixel qx qy = s.layout.format.srcOver c (s.pixel qx qy) := by
  have hin : (rect.intersect s.clip).contains qx qy = true :=
    contains_intersect.2 ⟨hrect, hclip⟩
  have hnonempty : ¬ (rect.intersect s.clip).isEmpty = true := by
    intro h
    rw [not_contains_of_isEmpty h] at hin
    cases hin
  have hq := s.clip_le qx qy hclip
  unfold fillRect
  by_cases ha : c.a = 0
  · rw [if_pos (.inr ha), PixelFormat.srcOver, if_pos ha]
  rw [if_neg (not_or.2 ⟨hnonempty, ha⟩)]
  split
  · rename_i hopaque
    rw [PixelFormat.srcOver, if_neg ha, if_pos hopaque]
    refine foldl_at (I := s.Like) (fun s' => s'.pixel qx qy) (fun _ => s.layout.format.encode c)
      (fun s' p hs => hs.store _ _) (nodup_points _) (mem_points.2 hin)
      (fun s' hs => ?_) (fun s' p hp hne hs => ?_) (Like.refl s)
    · dsimp only
      rw [pixel_store (hs.1 ▸ hq) (hs.1 ▸ hq), if_pos rfl, hs.1]
    · have hp := s.clip_le _ _ (contains_intersect.1 (mem_points.1 hp)).2
      rw [pixel_store (hs.1 ▸ hp) (hs.1 ▸ hq), if_neg hne]
  · exact pixel_blendAll (nodup_points _) (mem_points.2 hin) hclip

theorem pixel_fillRect_off (hq : s.layout.bounds.contains qx qy = true)
    (hout : (rect.intersect s.clip).contains qx qy = false) :
    (s.fillRect rect c).pixel qx qy = s.pixel qx qy := by
  have hnot : (qx, qy) ∉ (rect.intersect s.clip).points := by
    rw [mem_points, hout]
    nofun
  unfold fillRect
  dsimp only
  split
  · rfl
  split
  · refine foldl_off (I := s.Like) (fun s' => s'.pixel qx qy) (fun s' p hs => hs.store _ _)
      (fun s' p hp hs => ?_) (Like.refl s)
    have hin := s.clip_le _ _ (contains_intersect.1 (mem_points.1 hp)).2
    rw [pixel_store (hs.1 ▸ hin) (hs.1 ▸ hq), if_neg]
    intro heq
    exact hnot (heq ▸ hp)
  · exact pixel_blendAll_off hq hnot

/-- The same pixels, layout and clip. -/
def Agree (s t : Surface) : Prop :=
  s.Like t ∧ ∀ x y, s.layout.bounds.contains x y = true → t.pixel x y = s.pixel x y

theorem Agree.fillRect {t : Surface} (h : s.Agree t) (rect : Rect) (c : Color) :
    (s.fillRect rect c).Agree (t.fillRect rect c) := by
  have hs : s.Like (s.fillRect rect c) := (Like.refl s).fillRect
  have ht : s.Like (t.fillRect rect c) := h.1.fillRect
  refine ⟨⟨ht.1.trans hs.1.symm, ht.2.trans hs.2.symm⟩, fun x y hq => ?_⟩
  rw [hs.1] at hq
  by_cases hin : (rect.intersect s.clip).contains x y = true
  · obtain ⟨hrect, hclip⟩ := contains_intersect.1 hin
    rw [pixel_fillRect hrect hclip, pixel_fillRect hrect (h.1.2 ▸ hclip), h.2 x y hq, h.1.1]
  · have hout := Bool.eq_false_iff.2 hin
    rw [pixel_fillRect_off hq hout, pixel_fillRect_off (h.1.1 ▸ hq) (h.1.2 ▸ hout), h.2 x y hq]

end Surface
end NexoOS.Wm
