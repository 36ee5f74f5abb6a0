import NexoOS.Lib.Seqlock
import NexoOS.Wm.Repaint

/-!
# Published frames

`recompose` of one display: the frame is composed in the back buffer, with the
banner over it, and published under the sequence lock of the header. Every cell of
the buffer is painted, so that a frame is made from the windows and the banner
alone, and a reader that accepts has read one such frame. The stores go to memory
byte by byte.
-/

namespace NexoOS.Wm

open List Surface

/-! ## Text -/

namespace Surface

-- The font: the rows of a character, of eight pixels each.
variable (glyph : Char → List UInt8)

def drawGlyph (s : Surface) (c : Char) (x y scale : Int) (fg : Color) (bg : Option Color) :
    Surface :=
  let s := match bg with
    | none => s
    | some bgc => s.fillRect ⟨x, y, 8 * scale, 8 * scale⟩ bgc
  (glyph c).zipIdx.foldl (fun s row =>
    (range 8).foldl (fun s col =>
      if row.1 &&& ((0x80 : UInt8) >>> UInt8.ofNat col) ≠ 0 then
        s.fillRect ⟨x + col * scale, y + row.2 * scale, scale, scale⟩ fg
      else s) s) s

/-- The text from `(cx, cy)` on; a new line begins at `x`. -/
def drawText (x scale : Int) (fg : Color) (bg : Option Color) :
    List Char → Int → Int → Surface → Surface
  | [], _, _, s => s
  | c :: text, cx, cy, s =>
    if c = '\n' then drawText x scale fg bg text x (cy + 8 * scale) s
    else drawText x scale fg bg text (cx + 8 * scale) cy (drawGlyph glyph s c cx cy scale fg bg)

end Surface

/-! ## Composing a frame -/

/-- The windows of the display in the active context, and the title of the banner
if it is shown there. -/
structure Picture where
  windows : List Window
  banner : Option (List Char)

/-- The surface over a buffer of a display. -/
def outSurface (pixels : Nat → Px) : Surface where
  layout :=
    { width := outW, height := outH, stride := outW, format := .rgbx8888, stride_le := le_rfl }
  clip := ⟨0, 0, outW, outH⟩
  pixels
  stores := []
  clip_le := fun _ _ h => h

/-- The whole output. -/
def outRect : Rect := ⟨0, 0, outW, outH⟩

def bannerRect : Rect := ⟨outW - 32, 0, 32, 10⟩

section

variable (glyph : Char → List UInt8)

/-- The banner over the windows. -/
def drawBanner (out : Surface) : Option (List Char) → Surface
  | none => out
  | some title =>
    let out := out.fillRect bannerRect (.rgb 40 80 200)
    let out := out.strokeRect bannerRect (.rgb 255 255 255)
    out.drawText glyph (bannerRect.x + 2) 1 (.rgb 255 255 255) none title (bannerRect.x + 2)
      (bannerRect.y + 1)

/-- What `recompose` draws over a buffer. -/
def drawFrame (p : Picture) (pixels : Nat → Px) : Surface :=
  let dmg := Damage.empty.add outRect
  drawBanner glyph ((outSurface pixels).composite p.windows dmg.bounds (.rgb 0 0 0)) p.banner

end

/-! ## Bytes -/

/-- The pixels of a buffer of bytes. -/
def cellsOf (m : Nat → UInt8) (c : Nat) : Px := (m (4 * c), m (4 * c + 1), m (4 * c + 2), m (4 * c + 3))

/-- The bytes of a buffer of pixels. -/
def bytesOf (f : Nat → Px) (o : Nat) : UInt8 :=
  if o % 4 = 0 then (f (o / 4)).1
  else if o % 4 = 1 then (f (o / 4)).2.1
  else if o % 4 = 2 then (f (o / 4)).2.2.1
  else (f (o / 4)).2.2.2

def byteStores (s : Nat × Px) : List (Nat × UInt8) :=
  [(4 * s.1, s.2.1), (4 * s.1 + 1, s.2.2.1), (4 * s.1 + 2, s.2.2.2.1), (4 * s.1 + 3, s.2.2.2.2)]

theorem bytesOf_cellsOf (m : Nat → UInt8) : bytesOf (cellsOf m) = m := by
  funext o
  unfold bytesOf cellsOf
  dsimp only
  split
  · exact congrArg m (by omega)
  split
  · exact congrArg m (by omega)
  split
  · exact congrArg m (by omega)
  · exact congrArg m (by omega)

theorem stored_byteStores (f : Nat → Px) (s : Nat × Px) :
    stored (bytesOf f) (byteStores s) = bytesOf (Function.update f s.1 s.2) := by
  funext o
  by_cases ho : o / 4 = s.1
  · have hcases : o = 4 * s.1 ∨ o = 4 * s.1 + 1 ∨ o = 4 * s.1 + 2 ∨ o = 4 * s.1 + 3 := by omega
    unfold bytesOf
    rw [ho, Function.update_self]
    rcases hcases with rfl | rfl | rfl | rfl
    · simp [stored, byteStores]
    · simp [stored, byteStores]
    · simp [stored, byteStores]
    · simp [stored, byteStores]
  · have hnot : o ∉ (byteStores s).map Prod.fst := by
      intro hmem
      simp only [byteStores, map_cons, map_nil, mem_cons, not_mem_nil,
        or_false] at hmem
      omega
    rw [stored_of_not_mem hnot]
    unfold bytesOf
    rw [Function.update_of_ne ho]

theorem stored_flatMap_byteStores (f : Nat → Px) (l : List (Nat × Px)) :
    stored (bytesOf f) (l.flatMap byteStores) = bytesOf (stored f l) := by
  induction l generalizing f with
  | nil => rfl
  | cons s l ih =>
    rw [flatMap_cons, stored_append, stored_byteStores, ih]
    rfl

/-! ## What drawing keeps -/

section

variable (glyph : Char → List UInt8) {R : Surface → Surface → Prop}
  (hfill : ∀ (s t : Surface) (r : Rect) (c : Color), R s t → R (s.fillRect r c) (t.fillRect r c))
  {s t : Surface}

include hfill

theorem drawGlyph_rel (h : R s t) (c : Char) (x y scale : Int) (fg : Color) (bg : Option Color) :
    R (s.drawGlyph glyph c x y scale fg bg) (t.drawGlyph glyph c x y scale fg bg) := by
  refine foldl_rel (fun s t row hs => ?_) ?_ _
  · refine foldl_rel (fun s t col hs => ?_) hs _
    split
    · exact hfill _ _ _ _ hs
    · exact hs
  · cases bg with
    | none => exact h
    | some bgc => exact hfill _ _ _ _ h

theorem drawText_rel (x scale : Int) (fg : Color) (bg : Option Color) (text : List Char)
    (cx cy : Int) (h : R s t) : R (drawText glyph x scale fg bg text cx cy s)
      (drawText glyph x scale fg bg text cx cy t) := by
  induction text generalizing cx cy s t with
  | nil => exact h
  | cons c text ih =>
    unfold drawText
    split
    · exact ih _ _ h
    · exact ih _ _ (drawGlyph_rel glyph hfill h c cx cy scale fg bg)

theorem drawBanner_rel (h : R s t) (banner : Option (List Char)) :
    R (drawBanner glyph s banner) (drawBanner glyph t banner) := by
  cases banner with
  | none => exact h
  | some title =>
    refine drawText_rel glyph hfill _ _ _ _ _ _ _ ?_
    have hback := hfill _ _ bannerRect (.rgb 40 80 200) h
    exact hfill _ _ _ _ (hfill _ _ _ _ (hfill _ _ _ _ (hfill _ _ _ _ hback)))

end

/-! ## A frame is made from its picture alone -/

section

variable (glyph : Char → List UInt8) (p : Picture)

theorem drawn_drawFrame (m : Nat → Px) : Surface.Drawn m (drawFrame glyph p m) := by
  have hout : Surface.Drawn m (outSurface m) := rfl
  have hcomp := hout.composite p.windows (Damage.empty.add outRect).bounds (.rgb 0 0 0)
  exact drawBanner_rel (R := fun s _ => Surface.Drawn m s) (t := outSurface m) glyph
    (fun _ _ _ _ h => h.fillRect) hcomp p.banner

theorem layout_drawFrame (m : Nat → Px) : (drawFrame glyph p m).layout = (outSurface m).layout := by
  refine drawBanner_rel (R := fun s _ => s.layout = (outSurface m).layout) (t := outSurface m) glyph
    (fun s _ r c h => ?_) ?_ p.banner
  · have hlike : s.Like (s.fillRect r c) := (Surface.Like.refl s).fillRect
    exact hlike.1.trans h
  · exact composite_layout ..

theorem bounds_full : (Damage.empty.add outRect).bounds = outRect := by
  decide

theorem pixel_outSurface (windows : List Window) (m : Nat → Px) {x y : Int}
    (hq : outRect.contains x y = true) :
    ((outSurface m).composite windows outRect (.rgb 0 0 0)).pixel x y =
      shade .rgbx8888 windows (.rgb 0 0 0) x y :=
  pixel_composite hq hq

theorem agree_drawFrame (m m' : Nat → Px) : (drawFrame glyph p m).Agree (drawFrame glyph p m') := by
  refine drawBanner_rel glyph (fun _ _ r c h => h.fillRect r c) ?_ p.banner
  rw [bounds_full]
  refine ⟨⟨?_, ?_⟩, fun x y hq => ?_⟩
  · rw [composite_layout, composite_layout]
    rfl
  · rw [composite_clip, composite_clip]
    rfl
  · rw [composite_layout] at hq
    rw [pixel_outSurface p.windows m hq, pixel_outSurface p.windows m' hq]

/-- The size of a buffer in bytes. -/
def frameBytes : Nat := 64 * 48 * 4

theorem cell_pixel {c : Nat} (hc : c < 64 * 48) (m : Nat → Px) :
    outRect.contains ((c % 64 : Nat) : Int) (c / 64 : Nat) = true ∧
      (outSurface m).layout.offset ((c % 64 : Nat) : Int) (c / 64 : Nat) = c := by
  simp only [outSurface, outRect, Layout.offset, Rect.contains_iff, outW, outH]
  omega

theorem pixels_drawFrame (m m' : Nat → Px) {c : Nat} (hc : c < 64 * 48) :
    (drawFrame glyph p m').pixels c = (drawFrame glyph p m).pixels c := by
  have hagree := agree_drawFrame glyph p m m'
  have hlayout := layout_drawFrame glyph p m
  have hlayout' : (drawFrame glyph p m').layout = (outSurface m).layout :=
    layout_drawFrame glyph p m'
  obtain ⟨hin, hcell⟩ := cell_pixel hc m
  have hbounds : (outSurface m).layout.bounds.contains ((c % 64 : Nat) : Int) (c / 64 : Nat) = true :=
    hin
  have := hagree.2 _ _ (hlayout ▸ hbounds)
  unfold pixel at this
  rw [hlayout, hlayout', hcell] at this
  exact this

/-- The stores of `recompose` into a back buffer. -/
def frameStores (m : Nat → UInt8) : List (Nat × UInt8) :=
  (drawFrame glyph p (cellsOf m)).stores.flatMap byteStores

def frameOf : Nat → UInt8 := bytesOf (drawFrame glyph p fun _ => (0, 0, 0, 0)).pixels

theorem holds_frameStores (m : Nat → UInt8) :
    Seqlock.Holds (frameOf glyph) frameBytes (stored m (frameStores glyph p m)) p := by
  intro o ho
  have hstored : stored m (frameStores glyph p m) =
      bytesOf (drawFrame glyph p (cellsOf m)).pixels := by
    rw [drawn_drawFrame glyph p (cellsOf m), ← stored_flatMap_byteStores, bytesOf_cellsOf]
    rfl
  have hcell : o / 4 < 64 * 48 := by
    unfold frameBytes at ho
    omega
  rw [hstored]
  unfold frameOf bytesOf
  rw [pixels_drawFrame glyph p (fun _ => (0, 0, 0, 0)) (cellsOf m) hcell]

/-- A new object is the frame of an empty output. -/
theorem holds_blank :
    Seqlock.Holds (frameOf glyph) frameBytes (fun _ => (0 : UInt8)) ⟨[], none⟩ := by
  intro o ho
  have hc : o / 4 < 64 * 48 := by
    unfold frameBytes at ho
    omega
  obtain ⟨hin, hcell⟩ := cell_pixel hc fun _ => (0, 0, 0, 0)
  have hblack : (drawFrame glyph ⟨[], none⟩ fun _ => (0, 0, 0, 0)).pixels (o / 4) = (0, 0, 0, 0) := by
    have := pixel_outSurface [] (fun _ => (0, 0, 0, 0)) hin
    unfold pixel at this
    rw [composite_layout, hcell] at this
    unfold drawFrame drawBanner
    dsimp only
    rw [bounds_full]
    exact this
  unfold frameOf bytesOf
  rw [hblack]
  simp

/-- The object of one display, as it is created. -/
def newDisplay : Seqlock.System UInt8 Picture := .blank fun _ => 0

/-- `recompose` of a display, over and over, and readers of its object. -/
def runDisplay (as : List (Seqlock.Action Picture)) : Seqlock.System UInt8 Picture :=
  newDisplay.run (frameStores glyph) frameBytes as

/-- What a reader accepts is one frame: the bytes that composing one picture leaves
over any buffer, for one of the pictures composed so far or for the empty output at
the start. -/
theorem accepted_frame_whole (as : List (Seqlock.Action Picture))
    (hlen : (runDisplay glyph as).jobs.length < 2 ^ 31) (i : Nat) (seq : UInt32) (got : List UInt8)
    (hdone : (runDisplay glyph as).readers i = .done seq got) :
    ∃ p ∈ ⟨[], none⟩ :: (runDisplay glyph as).jobs,
      ∀ m, got = (range frameBytes).map (stored m (frameStores glyph p m)) := by
  obtain ⟨p, hp, hgot⟩ := Seqlock.accepted_of_done (holds_frameStores glyph) (holds_blank glyph) as
    hlen hdone
  refine ⟨p, hp, fun m => ?_⟩
  rw [hgot]
  refine map_congr_left fun o ho => ?_
  exact (holds_frameStores glyph p m o (mem_range.1 ho)).symm

end

/-- A reader starts while a frame is composed, and reads again when it is published. -/
def readDuring (glyph : Char → List UInt8) (p : Picture) : List (Seqlock.Action Picture) :=
  let back := newDisplay.shared.bufs (1 - newDisplay.shared.front)
  .write p :: .read 0 :: .read 0 ::
    (replicate ((frameStores glyph p back).length + 4) (.write p) ++
      (replicate (frameBytes + 1) (.read 0) ++ replicate (frameBytes + 3) (.read 0)))

theorem runDisplay_readDuring (glyph : Char → List UInt8) (p : Picture) :
    (runDisplay glyph (readDuring glyph p)).jobs = [p] ∧
      ∃ seq got, (runDisplay glyph (readDuring glyph p)).readers 0 = .done seq got := by
  obtain ⟨hjobs, got, hgot⟩ := @Seqlock.run_reader_during _ _ (frameStores glyph) frameBytes
    newDisplay p 0 rfl rfl (by decide) (by decide) (by decide)
  exact ⟨hjobs, _, got, hgot⟩

def sampleGlyph (_ : Char) : List UInt8 := replicate 8 0x18

/-- A window of one texel, and a banner. -/
def samplePicture : Picture :=
  ⟨[⟨⟨4, 4, 2, 1⟩, 0, [9, 9, 9, 0], 1, 1, 1, .rgbx8888, 255, by decide⟩], some ['a']⟩

theorem accepted_frame_whole_once :
    ∃ seq got, (runDisplay sampleGlyph (readDuring sampleGlyph samplePicture)).readers 0 =
        .done seq got ∧ ∃ p ∈ [⟨[], none⟩, samplePicture],
        ∀ m, got = (range frameBytes).map (stored m (frameStores sampleGlyph p m)) := by
  obtain ⟨hjobs, seq, got, hgot⟩ := runDisplay_readDuring sampleGlyph samplePicture
  have hwhole := accepted_frame_whole _ _ (by rw [hjobs]; decide) 0 seq got hgot
  rw [hjobs] at hwhole
  exact ⟨seq, got, hgot, hwhole⟩

end NexoOS.Wm
