import Mathlib.Logic.Function.Basic

/-!
# The text grid

`Grid<C, R>` of `libraries/textgrid/src/lib.rs`, and the layout it is a window on:
lines of `C` columns without an end, on which nothing scrolls.
-/

namespace NexoOS.Tools

open Function

/-- Cells by row and column; only the first `R` rows and `C` columns are there. -/
structure Grid where
  cells : Nat → Nat → UInt8
  cx : Nat
  cy : Nat
  scrolled : Nat

def blank : Nat → UInt8 := fun _ => 0x20

/-- The lines, and where the next character goes. -/
structure Layout where
  lines : Nat → Nat → UInt8
  line : Nat
  col : Nat

variable (C R : Nat)

namespace Grid

def new : Grid := ⟨fun _ => blank, 0, 0, 0⟩

variable (g : Grid)

def newline : Grid :=
  if g.cy + 1 = R then
    { g with
      cells := fun r => if r + 1 = R then blank else g.cells (r + 1)
      cy := R - 1
      scrolled := g.scrolled + 1 }
  else { g with cy := g.cy + 1 }

/-- The character goes into the cell of the cursor. -/
def put (b : UInt8) : Grid :=
  { g with cells := update g.cells g.cy (update (g.cells g.cy) g.cx b) }

def feed (b : UInt8) : Grid :=
  if b = 0x0d then { g with cx := 0 }
  else if b = 0x0a then { g with cx := 0 }.newline R
  else if b = 0x08 then { g with cx := g.cx - 1 }
  else if 0x20 ≤ b ∧ b ≤ 0x7e then
    if g.cx + 1 = C then { g.put b with cx := 0 }.newline R
    else { g.put b with cx := g.cx + 1 }
  else g

def feedAll (bytes : List UInt8) : Grid := bytes.foldl (feed C R) g

end Grid

namespace Layout

def new : Layout := ⟨fun _ => blank, 0, 0⟩

variable (l : Layout)

def put (b : UInt8) : Layout :=
  { l with lines := update l.lines l.line (update (l.lines l.line) l.col b) }

/-- The same bytes, with a new line below the last where the grid would scroll. -/
def feed (b : UInt8) : Layout :=
  if b = 0x0d then { l with col := 0 }
  else if b = 0x0a then { l with line := l.line + 1, col := 0 }
  else if b = 0x08 then { l with col := l.col - 1 }
  else if 0x20 ≤ b ∧ b ≤ 0x7e then
    if l.col + 1 = C then { l.put b with line := l.line + 1, col := 0 }
    else { l.put b with col := l.col + 1 }
  else l

def feedAll (bytes : List UInt8) : Layout := bytes.foldl (feed C) l

end Layout

/-- The grid is a window on the layout, with the cursor in it. -/
structure Shows (g : Grid) (l : Layout) : Prop where
  cx_lt : g.cx < C
  cy_lt : g.cy < R
  col : g.cx = l.col
  line : g.scrolled + g.cy = l.line
  rows : ∀ r, r < R → g.cells r = l.lines (g.scrolled + r)
  below : ∀ k, l.line < k → l.lines k = blank

variable {C R} {g : Grid} {l : Layout}

namespace Shows

theorem toCol (h : Shows C R g l) {x : Nat} (hx : x < C) :
    Shows C R { g with cx := x } { l with col := x } :=
  ⟨hx, h.cy_lt, rfl, h.line, h.rows, h.below⟩

theorem put (h : Shows C R g l) (b : UInt8) : Shows C R (g.put b) (l.put b) := by
  refine ⟨h.cx_lt, h.cy_lt, h.col, h.line, fun r hr => ?_, fun k hk => ?_⟩
  · unfold Grid.put Layout.put
    dsimp only
    rw [h.col, h.rows g.cy h.cy_lt, h.line]
    by_cases hcy : r = g.cy
    · rw [hcy, update_self, h.line, update_self]
    · have := h.line
      rw [update_of_ne hcy, update_of_ne (by omega), h.rows r hr]
  · exact (update_of_ne (Nat.ne_of_gt hk) ..).trans (h.below k hk)

theorem newline (h : Shows C R g l) :
    Shows C R (g.newline R) { l with line := l.line + 1 } := by
  have hline := h.line
  have hcy := h.cy_lt
  have hbelow : ∀ k, l.line + 1 < k → l.lines k = blank := fun k hk => h.below k (by omega)
  unfold Grid.newline
  split
  · refine ⟨h.cx_lt, by dsimp only; omega, h.col, by dsimp only; omega, fun r hr => ?_, hbelow⟩
    dsimp only
    split
    · exact (h.below _ (by omega)).symm
    · rw [h.rows (r + 1) (by omega), Nat.add_right_comm, Nat.add_assoc]
  · exact ⟨h.cx_lt, by dsimp only; omega, h.col, by dsimp only; omega, h.rows, hbelow⟩

theorem feed (h : Shows C R g l) (b : UInt8) : Shows C R (g.feed C R b) (l.feed C b) := by
  have hpos : 0 < C := Nat.zero_lt_of_lt h.cx_lt
  unfold Grid.feed Layout.feed
  rw [h.col]
  split
  · exact h.toCol hpos
  split
  · exact (h.toCol hpos).newline
  have hcx := h.cx_lt
  rw [h.col] at hcx
  split
  · exact h.toCol (by omega)
  split
  · split
    · exact ((h.put b).toCol hpos).newline
    · exact (h.put b).toCol (by omega)
  · exact h

theorem feedAll (h : Shows C R g l) (bytes : List UInt8) :
    Shows C R (g.feedAll C R bytes) (l.feedAll C bytes) := by
  induction bytes generalizing g l with
  | nil => exact h
  | cons b bytes ih => exact ih (h.feed b)

end Shows

/-- Whatever is fed to a new grid, it is a window on the layout of the same bytes. -/
theorem grid_shows_layout (hC : 0 < C) (hR : 0 < R) (bytes : List UInt8) :
    Shows C R (Grid.new.feedAll C R bytes) (Layout.new.feedAll C bytes) :=
  Shows.feedAll ⟨hC, hR, rfl, rfl, fun _ _ => rfl, fun _ _ => rfl⟩ bytes

/-- Six characters and a new line in a grid of four columns and two rows. -/
theorem grid_shows_layout_scrolled : let bytes : List UInt8 := [97, 98, 99, 100, 101, 102, 10]
    (Grid.new.feedAll 4 2 bytes).scrolled = 1 ∧
      Shows 4 2 (Grid.new.feedAll 4 2 bytes) (Layout.new.feedAll 4 bytes) :=
  ⟨by decide, grid_shows_layout (by decide) (by decide) _⟩

end NexoOS.Tools
