import NexoOS.Wm.Composite

/-!
# Repainting what changed

A scene has a slot for each window. A change of a slot reports the rectangles of
the old and the new window. Painting the damaged rectangles, or their envelope,
over the previous frame gives the frame that painting everything would give.
-/

namespace NexoOS.Wm

abbrev Scene : Type := Fin maxWindows → Option Window

namespace Scene

def windows (sc : Scene) : List Window := (List.finRange maxWindows).filterMap sc

theorem length_windows_le (sc : Scene) : sc.windows.length ≤ maxWindows :=
  (List.length_filterMap_le _ _).trans (List.length_finRange).le

/-- The windows at a place, slot by slot. -/
theorem covering_windows (sc : Scene) (x y : Int) :
    (sc.windows.filter fun w => w.rect.contains x y) =
      (List.finRange maxWindows).filterMap fun i => (sc i).filter fun w => w.rect.contains x y :=
  List.filter_filterMap ..

end Scene

/-- A slot gets another window, or none. -/
structure Change where
  slot : Fin maxWindows
  window : Option Window

namespace Change

def apply (sc : Scene) (c : Change) : Scene := Function.update sc c.slot c.window

/-- The rectangle of a window that is there becomes damaged. -/
def damaged (d : Damage) : Option Window → Damage
  | none => d
  | some w => d.add w.rect

/-- The old and the new rectangle are reported. -/
def report (sc : Scene) (d : Damage) (c : Change) : Damage := damaged (damaged d (sc c.slot)) c.window

def applyAll (sc : Scene) (d : Damage) : List Change → Scene × Damage
  | [] => (sc, d)
  | c :: cs => applyAll (c.apply sc) (c.report sc d) cs

variable {d : Damage} {sc : Scene} {x y : Int}

theorem covers_damaged {w : Option Window} (h : d.Covers x y) : (damaged d w).Covers x y := by
  cases w with
  | none => exact h
  | some w => exact .add (.inl h)

theorem filter_of_not_covers {w : Option Window} (h : ¬ (damaged d w).Covers x y) :
    (w.filter fun w => w.rect.contains x y) = none := by
  cases w with
  | none => rfl
  | some w =>
    refine Option.filter_some_neg (Bool.eq_false_iff.2 fun hw => h ?_)
    exact .add (.inr hw)

theorem covers_report (c : Change) (h : d.Covers x y) : (c.report sc d).Covers x y :=
  covers_damaged (covers_damaged h)

theorem covers_applyAll (cs : List Change) (h : d.Covers x y) :
    (applyAll sc d cs).2.Covers x y := by
  induction cs generalizing sc d with
  | nil => exact h
  | cons c cs ih => exact ih (covers_report c h)

theorem covering_apply (c : Change) (h : ¬ (c.report sc d).Covers x y) :
    ((c.apply sc).windows.filter fun w => w.rect.contains x y) =
      sc.windows.filter fun w => w.rect.contains x y := by
  rw [Scene.covering_windows, Scene.covering_windows]
  refine List.filterMap_congr fun i _ => ?_
  by_cases hi : i = c.slot
  · subst hi
    rw [apply, Function.update_self, filter_of_not_covers h,
      filter_of_not_covers fun hold => h (covers_damaged hold)]
  · rw [apply, Function.update_of_ne hi]

theorem covering_applyAll (cs : List Change) (h : ¬ (applyAll sc d cs).2.Covers x y) :
    ((applyAll sc d cs).1.windows.filter fun w => w.rect.contains x y) =
      sc.windows.filter fun w => w.rect.contains x y := by
  induction cs generalizing sc d with
  | nil => rfl
  | cons c cs ih =>
    refine (ih h).trans (c.covering_apply (d := d) fun hc => h ?_)
    exact covers_applyAll cs hc

end Change

namespace Surface

/-- The frame: the pixels of the surface, row by row. -/
def image (s : Surface) : List Px := s.layout.bounds.points.map fun p => s.pixel p.1 p.2

/-- Everything is composed. -/
def compose (out : Surface) (sc : Scene) (background : Color) : Surface :=
  out.composite sc.windows out.layout.bounds background

def paint (out : Surface) (sc : Scene) (rects : List Rect) (background : Color) : Surface :=
  rects.foldl (fun out r => out.composite sc.windows r background) out

/-- The changes of one frame, and the frame after them: what `regions` makes of
the damage is painted. -/
def repaint (regions : Damage → List Rect) (background : Color) (s : Surface × Scene)
    (cs : List Change) : Surface × Scene :=
  let r := Change.applyAll s.2 .empty cs
  (s.1.paint r.1 (regions r.2) background, r.1)

variable {out : Surface} {sc : Scene} {rects : List Rect} {x y : Int} {r g b : UInt8}

theorem paint_layout (out : Surface) (sc : Scene) (rects : List Rect) (background : Color) :
    (out.paint sc rects background).layout = out.layout := by
  refine foldl_inv (I := fun s : Surface => s.layout = out.layout) (fun s r hs => ?_) rfl rects
  rw [composite_layout]
  exact hs

theorem pixel_paint (hq : out.layout.bounds.contains x y = true)
    (hin : ∃ d ∈ rects, d.contains x y = true) : (out.paint sc rects (.rgb r g b)).pixel x y =
      shade out.layout.format sc.windows (.rgb r g b) x y := by
  induction rects generalizing out with
  | nil =>
    obtain ⟨d, hd, -⟩ := hin
    cases hd
  | cons d rects ih =>
    have hlayout := composite_layout out sc.windows d (.rgb r g b)
    by_cases hlater : ∃ d ∈ rects, d.contains x y = true
    · exact hlayout ▸ ih (hlayout ▸ hq) hlater
    obtain ⟨d', hd', hxy⟩ := hin
    have hd : d.contains x y = true := by
      rcases List.mem_cons.1 hd' with rfl | hd'
      · exact hxy
      · exact absurd ⟨d', hd', hxy⟩ hlater
    -- the rectangles after the last one that covers the pixel leave it
    refine Eq.trans ?_ (pixel_composite hq hd)
    refine foldl_off (I := fun s : Surface => s.layout = out.layout) (fun s => s.pixel x y)
      (fun s e hs => ?_) (fun s e he hs => ?_) hlayout
    · rw [composite_layout]
      exact hs
    · refine pixel_composite_off (hs ▸ hq) (Bool.eq_false_iff.2 fun h => ?_) _
      exact hlater ⟨e, he, h⟩

theorem pixel_paint_off (hq : out.layout.bounds.contains x y = true)
    (hout : ∀ d ∈ rects, d.contains x y = false) (background : Color) :
    (out.paint sc rects background).pixel x y = out.pixel x y := by
  refine foldl_off (I := fun s : Surface => s.layout = out.layout) (fun s => s.pixel x y)
    (fun s e hs => ?_) (fun s e he hs => ?_) rfl
  · rw [composite_layout]
    exact hs
  · exact pixel_composite_off (hs ▸ hq) (hout e he) _

/-- The surface shows the scene. -/
def Shows (s : Surface × Scene) (layout : Layout) (background : Color) : Prop :=
  s.1.layout = layout ∧ ∀ x y, layout.bounds.contains x y = true →
    s.1.pixel x y = shade layout.format s.2.windows background x y

theorem shows_compose (out : Surface) (sc : Scene) :
    Shows (out.compose sc (.rgb r g b), sc) out.layout (.rgb r g b) :=
  ⟨composite_layout .., fun _ _ hq => pixel_composite hq hq⟩

variable {s : Surface × Scene}

theorem image_of_shows (h : Shows s out.layout (.rgb r g b)) :
    s.1.image = (out.compose s.2 (.rgb r g b)).image := by
  obtain ⟨hlayout, hpixel⟩ := shows_compose out s.2 (r := r) (g := g) (b := b)
  unfold image
  dsimp only at hlayout hpixel
  rw [hlayout, h.1]
  refine List.map_congr_left fun p hp => ?_
  have hq := Rect.mem_points.1 hp
  rw [h.2 _ _ hq, hpixel _ _ hq]

/-- A region that has all damaged points. -/
def Adequate (regions : Damage → List Rect) : Prop :=
  ∀ d x y, Damage.Covers d x y → ∃ r ∈ regions d, r.contains x y = true

theorem adequate_rects : Adequate Damage.rects := fun _ _ _ h => h

theorem adequate_bounds : Adequate fun d => [d.bounds] :=
  fun d _ _ h => ⟨d.bounds, List.mem_singleton_self _, Damage.contains_bounds h⟩

theorem Shows.repaint {regions : Damage → List Rect} (hreg : Adequate regions) {layout : Layout}
    (h : Shows s layout (.rgb r g b)) (cs : List Change) :
    Shows (Surface.repaint regions (.rgb r g b) s cs) layout (.rgb r g b) := by
  obtain ⟨rfl, hpixel⟩ := h
  refine ⟨paint_layout .., fun x y hq => ?_⟩
  by_cases hin : ∃ d ∈ regions (Change.applyAll s.2 .empty cs).2, d.contains x y = true
  · exact pixel_paint hq hin
  have hout : ∀ d ∈ regions (Change.applyAll s.2 .empty cs).2, d.contains x y = false :=
    fun d hd => Bool.eq_false_iff.2 fun hxy => hin ⟨d, hd, hxy⟩
  have hcovers : ¬ (Change.applyAll s.2 .empty cs).2.Covers x y := fun hc => hin (hreg _ _ _ hc)
  refine (pixel_paint_off hq hout _).trans ((hpixel x y hq).trans ?_)
  -- the windows at this place are the same as before
  rw [shade_eq_covering _ s.2.length_windows_le, ← Change.covering_applyAll cs hcovers,
    ← shade_eq_covering _ (Scene.length_windows_le _)]
  rfl

theorem Shows.repaints {regions : Damage → List Rect} (hreg : Adequate regions) {layout : Layout}
    (h : Shows s layout (.rgb r g b)) (frames : List (List Change)) :
    Shows (frames.foldl (Surface.repaint regions (.rgb r g b)) s) layout (.rgb r g b) :=
  foldl_inv (I := fun s => Shows s layout (.rgb r g b)) (fun _ cs hs => hs.repaint hreg cs) h frames

/-- From any composed scene on, whatever changes from frame to frame, the frames
that are painted from the damage alone are those that composing everything from the
current windows gives; with the damaged rectangles and with their envelope. -/
theorem repaint_eq_compose (out : Surface) (sc : Scene) (r g b : UInt8)
    (frames : List (List Change)) : let first := (out.compose sc (.rgb r g b), sc)
    let byRects := frames.foldl (repaint Damage.rects (.rgb r g b)) first
    let byBounds := frames.foldl (repaint (fun d => [d.bounds]) (.rgb r g b)) first
    byRects.1.image = (out.compose byRects.2 (.rgb r g b)).image ∧
      byBounds.1.image = (out.compose byBounds.2 (.rgb r g b)).image := by
  have hfirst := shows_compose out sc (r := r) (g := g) (b := b)
  exact ⟨image_of_shows (hfirst.repaints adequate_rects frames),
    image_of_shows (hfirst.repaints adequate_bounds frames)⟩

end Surface
end NexoOS.Wm
