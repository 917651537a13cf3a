import TileViewer.Painter
import TileViewer.Proofs.Picture.Bar
import TileViewer.Proofs.Picture.Rings
import TileViewer.Proofs.Reach.Envelope

/-!
Painting what lies in reach fails nowhere: neither the tiles, nor what lies on top of them, nor a
camera step over the picture.
-/
namespace TileViewer

/-- A window whose tiles have exact places, in the world and in the picture. -/
structure Window.Paintable (w : Window) (sprite : UInt32) : Prop where
  sprite_pos : 0 < sprite.toNat
  right : w.startX.toInt + w.width.toNat ≤ 2 ^ 31
  bottom : w.startY.toInt + w.height.toNat ≤ 2 ^ 31
  columns : w.width.toNat * sprite.toNat < 2 ^ 31
  rows : w.height.toNat * sprite.toNat < 2 ^ 31

namespace TilePass

variable {scene : Scene} {scope : Scope} {row : UInt32} {x y : Int32}

theorem gives_drawCell {column : UInt32} {p : TilePass} (h : scene.window.Paintable scene.sprite)
    (hc : column.toNat < scene.window.width.toNat) (hr : row.toNat < scene.window.height.toNat) :
    Gives (drawCell scene column row x y p) fun _ => True := by
  have hwidth := Nat.le_mul_of_pos_right scene.window.width.toNat h.sprite_pos
  have hheight := Nat.le_mul_of_pos_right scene.window.height.toNat h.sprite_pos
  obtain ⟨-, hright, hbottom, hcolumns, hrows⟩ := h
  have hcolumn := toInt_toInt32 (n := column) (by omega)
  have hrow := toInt_toInt32 (n := row) (by omega)
  have hlox := scene.window.startX.le_toInt
  have hloy := scene.window.startY.le_toInt
  refine .bind (gives_plus (by omega) (by omega)) fun wx _ => ?_
  refine .bind (gives_plus (by omega) (by omega)) fun wy _ => ?_
  exact .ok trivial

theorem gives_drawRow {count : Nat} {column : UInt32} {p : TilePass}
    (h : scene.window.Paintable scene.sprite) (hscope : scope.Decides)
    (hr : row.toNat < scene.window.height.toNat)
    (hcount : column.toNat + count = scene.window.width.toNat) :
    Gives (drawRow scene scope row y count column p) fun _ => True := by
  induction count generalizing column p with
  | zero => exact .ok trivial
  | succ count ih =>
    have hc : column.toNat < scene.window.width.toNat := by omega
    have hnext := toNat_succ hc
    have hx := Nat.mul_lt_mul_of_pos_right hc h.sprite_pos
    have hcolumns := h.columns
    refine .bind (gives_times_nat (by omega)) fun x _ => ?_
    dsimp only
    split
    · exact .ok trivial
    · obtain ⟨included, hincluded⟩ := hscope x.toInt32 y
      refine .bind (P := fun _ => True) ⟨included, hincluded, trivial⟩ fun included _ => ?_
      cases included with
      | false => exact ih (by omega)
      | true => exact .bind (gives_drawCell h hc hr) fun q _ => ih (by omega)

theorem gives_drawRows {count : Nat} {p : TilePass} (h : scene.window.Paintable scene.sprite)
    (hscope : scope.Decides) (hcount : row.toNat + count = scene.window.height.toNat) :
    Gives (drawRows scene scope count row p) fun _ => True := by
  induction count generalizing row p with
  | zero => exact .ok trivial
  | succ count ih =>
    have hr : row.toNat < scene.window.height.toNat := by omega
    have hnext := toNat_succ hr
    have hy := Nat.mul_lt_mul_of_pos_right hr h.sprite_pos
    have hrows := h.rows
    refine .bind (gives_times_nat (by omega)) fun y _ => ?_
    dsimp only
    split
    · exact .ok trivial
    · exact .bind (gives_drawRow h hscope hr (Nat.zero_add _)) fun q _ => ih (by omega)

end TilePass

/-- A pass over such a window always gives a picture, whatever the last one was. -/
theorem Scene.gives_paint {scene : Scene} {scope : Scope} (h : scene.window.Paintable scene.sprite)
    (hscope : scope.Decides) (last : Option Surface) (width height : UInt32)
    (sprites : SpriteSheet) :
    Gives (scene.paint last width height scope sprites) fun pass =>
      (∀ s, last = some s → s.labels = #[]) → pass.surface.labels = #[] := by
  have hrows {scope : Scope} (hscope : scope.Decides) (p : TilePass) :
      Gives (TilePass.drawRows scene scope scene.window.height.toNat 0 p) fun _ => True :=
    TilePass.gives_drawRows h hscope (Nat.zero_add _)
  obtain ⟨pass, hpass, -⟩ : Gives (scene.paint last width height scope sprites) fun _ => True := by
    unfold paint
    dsimp only
    split
    · next s =>
      by_cases hsize : s.width = width ∧ s.height = height
      · simp only [if_pos hsize]
        exact hrows hscope _
      · simp only [if_neg hsize]
        exact hrows Scene.decides_all _
    · exact hrows Scene.decides_all _
  exact ⟨pass, hpass, (paint_keeps hpass).2.2⟩

namespace Window.InReach

variable {E : Envelope} {w : Window}

theorem side_le {n : Nat} (hn : n ≤ 2 ^ 15) : n * E.sprite.toNat ≤ 2 ^ 23 :=
  Nat.le_trans (Nat.mul_le_mul hn E.sprite_le) (by decide)

theorem paintable (h : w.InReach E) : w.Paintable E.sprite := by
  have hx := h.x
  have hy := h.y
  have hw := h.width
  have hh := h.height
  have hreach := E.reach_le
  have hextent := E.extent_le
  have hcolumns := side_le (E := E) hw
  have hrows := side_le (E := E) hh
  exact ⟨E.sprite_pos, by omega, by omega, by omega, by omega⟩

theorem sizePx_le (h : w.InReach E) :
    (w.sizePx E.sprite).1.toNat ≤ 2 ^ 23 ∧ (w.sizePx E.sprite).2.toNat ≤ 2 ^ 23 := by
  have hcolumns := side_le (E := E) h.width
  have hrows := side_le (E := E) h.height
  have hwidth := toNat_timesSat (m := w.width) (n := E.sprite) (by omega)
  have hheight := toNat_timesSat (m := w.height) (n := E.sprite) (by omega)
  exact ⟨by rw [sizePx, hwidth]; exact hcolumns, by rw [sizePx, hheight]; exact hrows⟩

end Window.InReach

/-- Text that can be moved up and to the left by as much as a picture is wide or high. -/
def Label.Roomy (l : Label) : Prop :=
  -2 ^ 31 + 2 ^ 25 ≤ l.x.toInt ∧ -2 ^ 31 + 2 ^ 25 ≤ l.y.toInt

def Surface.Roomy (s : Surface) : Prop := ∀ l ∈ s.labels, l.Roomy

theorem Surface.Roomy.pushLabel {s : Surface} {l : Label} (hs : s.Roomy) (hl : l.Roomy) :
    (s.pushLabel l).Roomy := by
  intro k hk
  rcases Array.mem_push.1 hk with hk | rfl
  · exact hs k hk
  · exact hl

theorem Surface.gives_strokeRect {s : Surface} {x y : Int32} {width height : UInt32} (line : UInt32)
    (c : Color) (hs : s.Roomy) (hw : width.toNat < 2 ^ 31) (hh : height.toNat < 2 ^ 31)
    (hx : x.toInt + width.toNat < 2 ^ 31) (hy : y.toInt + height.toNat < 2 ^ 31) :
    Gives (s.strokeRect x y width height line c) Surface.Roomy := by
  refine (gives_strokeRect_coloured s line c hw hh hx hy).mono ?_
  intro t ht l hl
  rw [ht.labels] at hl
  exact hs l hl

namespace Overlay

variable {E : Envelope} {window : Window} {s : Surface} {column row : Int32}

/-- What lies on top of a picture comes from things in reach. -/
structure InReach (reach : Nat) (o : Overlay) : Prop where
  creatures : ∀ c ∈ o.creatures, c.InReach reach
  numbers : ∀ n ∈ o.numbers, n.InReach reach
  tracked : ∀ r, o.tracked = some r → r.InReach reach

/-- Two tiles in reach of each other. -/
theorem gives_distance {z start : Int32} (hz : Within E.reach z.toInt)
    (hstart : Within (E.reach + 2 ^ 14) start.toInt) :
    Gives (Word.minus z start) fun d =>
      d.toInt = z.toInt - start.toInt ∧ Within (2 * E.reach + 2 ^ 14) d.toInt := by
  have hreach := E.reach_le
  have hextent := E.extent_le
  exact (gives_minus (by omega) (by omega)).mono fun d hd => ⟨hd, by omega⟩

theorem gives_drawBar {creature : Creature} (hs : s.Roomy)
    (hc : Within (2 * E.reach + 2 ^ 14) column.toInt)
    (hr : Within (2 * E.reach + 2 ^ 14) row.toInt) :
    Gives (drawBar s creature column row E.sprite) Surface.Roomy := by
  have hreach := E.reach_le
  have hextent := E.extent_le
  have hsprite := E.sprite_le
  have hfilled := barWidth_le creature E.sprite_pos hsprite
  have hwidth := toInt_toInt32 (n := barWidth creature.health E.sprite) (by omega)
  have hone : (1 : Int32).toInt = 1 := rfl
  have hgap : barGap.toInt = 5 := rfl
  refine .bind (gives_plus (by omega) (by omega)) fun next hnext => ?_
  refine .bind (E.gives_pixels (by omega)) fun y hy => ?_
  refine .bind (gives_plus (by omega) (by omega)) fun y' _ => ?_
  refine .bind (E.gives_pixels (by omega)) fun x hx => ?_
  refine .bind (gives_plus (by omega) (by omega)) fun x' _ => ?_
  exact .bind (gives_minus_nat hfilled) fun rest _ => .ok hs

theorem gives_textWidth {text : String} {fontPx : UInt32} (htext : text.length < 2 ^ 24)
    (hfont : fontPx.toNat ≤ 12) : Gives (textWidth text fontPx) fun w => w.toNat ≤ 2 ^ 27 := by
  have hlength : (UInt32.ofNat text.length).toNat = text.length :=
    UInt32.toNat_ofNat_of_lt' (Nat.lt_trans htext (by decide))
  have hproduct : text.length * fontPx.toNat ≤ 2 ^ 24 * 12 :=
    Nat.mul_le_mul (Nat.le_of_lt htext) hfont
  have hthree : (3 : UInt32).toNat = 3 := rfl
  refine .bind (gives_times_nat (by rw [hlength]; omega)) fun once honce => ?_
  rw [hlength] at honce
  refine .bind (gives_times_nat (by rw [hthree]; omega)) fun wide hwide => ?_
  rw [hthree] at hwide
  refine .ok ?_
  rw [UInt32.toNat_div, show (5 : UInt32).toNat = 5 from rfl]
  omega

theorem toInt_div_two {z : Int32} (h : 0 ≤ z.toInt) : (z / 2).toInt = z.toInt / 2 := by
  rw [Int32.toInt_div_of_ne_right _ _ (by decide), Int.tdiv_eq_ediv_of_nonneg h]
  rfl

theorem gives_nameLabel {view : View} {name : String} (hname : name.length < 2 ^ 24)
    (hc : Within (2 * E.reach + 2 ^ 14) column.toInt)
    (hr : Within (2 * E.reach + 2 ^ 14) row.toInt) :
    Gives (nameLabel view name column row E.sprite) Label.Roomy := by
  have hreach := E.reach_le
  have hextent := E.extent_le
  have hside := E.toInt_sprite
  have hsprite := E.sprite_le
  obtain ⟨hfont, hlower⟩ : (nameFont view).1.toNat ≤ 12 ∧ Within 10 (nameFont view).2.toInt := by
    cases view <;> decide
  unfold nameLabel
  generalize nameFont view = font at hfont hlower
  obtain ⟨fontPx, lower⟩ := font
  dsimp only at hfont hlower ⊢
  have hfontPx := toInt_toInt32 (n := fontPx) (by omega)
  have htwo : (2 : Int32).toInt = 2 := rfl
  have hthree : (3 : Int32).toInt = 3 := rfl
  have hfour : (4 : Int32).toInt = 4 := rfl
  refine .bind (gives_textWidth hname hfont) fun width hwidth => ?_
  have hwidth' := toInt_toInt32 (n := width) (by omega)
  have hhalf := toInt_div_two (z := width.toInt32) (by omega)
  have hmiddle := toInt_div_two (z := E.sprite.toInt32) (by omega)
  refine .bind (E.gives_pixels (by omega)) fun left hleft => ?_
  refine .bind (gives_plus (by omega) (by omega)) fun middle hm => ?_
  refine .bind (gives_minus (by omega) (by omega)) fun start hstart => ?_
  refine .bind (gives_plus (by omega) (by omega)) fun x hx => ?_
  refine .bind (gives_plus (by omega) (by omega)) fun below hbelow => ?_
  refine .bind (E.gives_pixels (by omega)) fun top htop => ?_
  refine .bind (gives_plus (by omega) (by omega)) fun y hy => ?_
  refine .bind (gives_plus (by omega) (by omega)) fun y' hy' => ?_
  refine .bind (gives_minus (by omega) (by omega)) fun y'' hy'' => ?_
  refine .ok ⟨?_, ?_⟩ <;> dsimp only <;> omega

theorem gives_drawCreature {creature : Creature} (view : View) (hw : window.InReach E)
    (hc : creature.InReach E.reach) (hs : s.Roomy) :
    Gives (drawCreature view window E.sprite s creature) Surface.Roomy := by
  have hheight := hw.height
  have hrows := toInt_toInt32 (n := window.height) (by omega)
  have htwo : (2 : Int32).toInt = 2 := rfl
  refine .bind (gives_distance hc.x hw.x) fun column hcolumn => ?_
  refine .bind (gives_distance hc.y hw.y) fun row hrow => ?_
  refine .bind (gives_minus (by omega) (by omega)) fun bottom _ => ?_
  split
  · exact .ok hs
  · refine .bind (gives_drawBar hs hcolumn.2 hrow.2) fun t ht => ?_
    cases hname : creature.name with
    | none => exact .ok ht
    | some name =>
      exact .bind (gives_nameLabel (hc.name name hname) hcolumn.2 hrow.2) fun l hl =>
        .ok (ht.pushLabel hl)

/-- The tile of a column and a row that a window has. -/
theorem gives_local {n : DamageNumber} (hw : window.InReach E) (hn : n.InReach E.reach) :
    Gives (window.local? n.worldX n.worldY) fun out =>
      ∀ column row, out = some (column, row) → column.toNat ≤ 2 ^ 15 ∧ row.toNat ≤ 2 ^ 15 := by
  have hwidth := hw.width
  have hheight := hw.height
  refine .bind (gives_distance hn.x hw.x) fun column _ => ?_
  refine .bind (gives_distance hn.y hw.y) fun row _ => ?_
  split
  · exact .ok nofun
  · next hinside =>
    refine .ok ?_
    intro c r hplace
    cases hplace
    simp only [not_or, UInt32.not_le, UInt32.lt_iff_toNat_lt] at hinside
    omega

theorem gives_positionIn {n : DamageNumber} (hw : window.InReach E) (hn : n.InReach E.reach) :
    Gives (n.positionIn window E.sprite) fun out =>
      ∀ p, out = some p → Within (2 ^ 24) p.x.toInt ∧ Within (2 ^ 24) p.y.toInt := by
  have hsprite := E.sprite_le
  have hage := hn.age
  have hoffsetX := hn.offsetX
  have hoffsetY := hn.offsetY
  refine .bind (gives_local hw hn) fun out hout => ?_
  cases out with
  | none => exact .ok nofun
  | some place =>
    obtain ⟨column, row⟩ := place
    obtain ⟨hcolumn, hrow⟩ := hout column row rfl
    have hc := toInt_toInt32 (n := column) (by omega)
    have hr := toInt_toInt32 (n := row) (by omega)
    have hpixels : 2 ^ 15 * E.sprite.toNat ≤ 2 ^ 15 * 2 ^ 8 := Nat.mul_le_mul_left _ hsprite
    refine .bind (E.gives_scaled (n := 2 ^ 15) (by omega) (by omega)) fun left hleft => ?_
    refine .bind (gives_plus (by omega) (by omega)) fun x hx => ?_
    refine .bind (E.gives_scaled (n := 2 ^ 15) (by omega) (by omega)) fun top htop => ?_
    refine .bind (gives_plus (by omega) (by omega)) fun y hy => ?_
    refine .ok ?_
    intro p hp
    split at hp
    · cases hp
    · cases hp
      dsimp only
      omega

theorem gives_drawNumber {n : DamageNumber} (hw : window.InReach E) (hn : n.InReach E.reach)
    (hs : s.Roomy) : Gives (drawNumber window E.sprite s n) Surface.Roomy := by
  refine .bind (gives_positionIn hw hn) fun out hout => ?_
  cases out with
  | none => exact .ok hs
  | some p =>
    obtain ⟨hx, hy⟩ := hout p rfl
    have hfont : (DamageNumber.fontPx E.sprite).toInt32.toInt ≤ 20 ∧
        0 ≤ (DamageNumber.fontPx E.sprite).toInt32.toInt := by
      unfold DamageNumber.fontPx
      split <;> decide
    refine .bind (gives_minus (by omega) (by omega)) fun y _ => ?_
    refine .ok (hs.pushLabel ⟨?_, ?_⟩) <;> dsimp only <;> omega

/-- One side of an outline, which begins three pixels before its first tile. -/
theorem toNat_side {first : Int} (x : Int) (tiles : UInt32)
    (hfirst : Within (2 * E.reach + 2 ^ 14) first)
    (htiles : tiles.toNat ≤ 2 * E.reach)
    (hlast : first + tiles.toNat ≤ (2 * E.reach + 2 ^ 14 : Nat))
    (hx : x = first * E.sprite.toNat - 3) :
    (Word.timesSat tiles E.sprite).toNat < 2 ^ 31 ∧
      x + (Word.timesSat tiles E.sprite).toNat < 2 ^ 31 := by
  have hextent := E.extent_le
  have hlength : tiles.toNat * E.sprite.toNat ≤ E.extent := Nat.mul_le_mul_right _ (by omega)
  have hend : Within E.extent ((first + tiles.toNat) * E.sprite.toNat) :=
    Envelope.within_mul (by omega) _
  rw [Int.add_mul, ← Int.natCast_mul] at hend
  rw [toNat_timesSat (by omega)]
  omega

theorem gives_drawOutline {r : TileRect} (hw : window.InReach E) (hr : r.InReach E.reach)
    (hs : s.Roomy) : Gives (drawOutline window E.sprite s r) Surface.Roomy := by
  have hextent := E.extent_le
  have hline : outlineWidth.toInt32.toInt = 3 := rfl
  have hreach := E.reach_le
  have hx := hr.x
  have hy := hr.y
  have hright := hr.right
  have hbottom := hr.bottom
  have hstartX := hw.x
  have hstartY := hw.y
  refine .bind (gives_distance hr.x hw.x) fun column hcolumn => ?_
  refine .bind (E.gives_pixels (by omega)) fun left hleft => ?_
  refine .bind (gives_minus (by omega) (by omega)) fun x hx => ?_
  refine .bind (gives_distance hr.y hw.y) fun row hrow => ?_
  refine .bind (E.gives_pixels (by omega)) fun top htop => ?_
  refine .bind (gives_minus (by omega) (by omega)) fun y hy => ?_
  obtain ⟨hwidth, hright⟩ := toNat_side x.toInt r.width hcolumn.2 (by omega)
    (by omega) (by omega)
  obtain ⟨hheight, hbottom⟩ := toNat_side y.toInt r.height hrow.2 (by omega)
    (by omega) (by omega)
  exact Surface.gives_strokeRect _ _ hs hwidth hheight hright hbottom

theorem gives_draw {o : Overlay} (view : View) (hw : window.InReach E) (ho : o.InReach E.reach)
    (hs : s.Roomy) : Gives (o.draw view window E.sprite s) Surface.Roomy := by
  have hlabel : (seqLabel o.seq).Roomy := by
    have hplace : -2 ^ 31 + 2 ^ 25 ≤ (20 : Int) ∧ -2 ^ 31 + 2 ^ 25 ≤ (5 : Int) := by decide
    exact hplace
  refine .bind (.foldlM hs fun t ht c hc => gives_drawCreature view hw (ho.creatures c hc) ht) ?_
  intro t ht
  refine .bind (.foldlM (ht.pushLabel hlabel) fun u hu n hn =>
    gives_drawNumber hw (ho.numbers n hn) hu) ?_
  intro u hu
  cases view with
  | follow => exact .ok hu
  | world =>
    unfold drawBorders
    cases htracked : o.tracked with
    | none => exact .ok hu
    | some r => exact .bind (gives_drawOutline hw (ho.tracked r htracked) hu) fun t ht => .ok ht

end Overlay

/-- The pictures kept show windows of what lies in reach. The clean ones have no text. -/
def Canvas.InReach (E : Envelope) : Canvas → Prop
  | .world tiles => ∀ s, tiles = some s → s.labels = #[]
  | .follow picture painted =>
    picture.Roomy ∧ ∀ window s, painted = some (window, s) → window.InReach E ∧ s.labels = #[]

theorem Canvas.inReach_ofView (E : Envelope) (view : View) : (Canvas.ofView view).InReach E := by
  cases view with
  | world => exact nofun
  | follow => exact ⟨nofun, nofun⟩

namespace Painter

variable {E : Envelope} {p : Painter} {window : Window} {scope : Scope} {overlay : Overlay}

structure InReach (E : Envelope) (p : Painter) : Prop where
  sprite : p.sprite = E.sprite
  canvas : p.canvas.InReach E

theorem InReach.reset (h : p.InReach E) : p.reset.InReach E :=
  ⟨h.sprite, Canvas.inReach_ofView E p.view⟩

theorem roomy_of_no_labels {s : Surface} (h : s.labels = #[]) : s.Roomy := by
  intro l hl
  rw [h] at hl
  exact absurd hl (Array.not_mem_empty l)

theorem InReach.gives_draw (h : p.InReach E) (hw : window.InReach E) (tiles : TileStore)
    (hscope : scope.Decides) (ho : overlay.InReach E.reach) :
    Gives (p.draw window tiles scope overlay) fun out => out.2.InReach E := by
  have hpaint (last : Option Surface) (width height : UInt32)
      (hlast : ∀ s, last = some s → s.labels = #[]) :
      Gives ((p.scene window tiles).paint last width height scope p.sprites) fun pass =>
        pass.surface.labels = #[] := by
    have hscene : (p.scene window tiles).window.Paintable (p.scene window tiles).sprite := by
      rw [scene, h.sprite]
      exact hw.paintable
    exact (Scene.gives_paint hscene hscope last width height p.sprites).mono fun _ hl => hl hlast
  have hover {s : Surface} (hs : s.labels = #[]) :
      Gives (overlay.draw p.view window p.sprite s) Surface.Roomy := by
    rw [h.sprite]
    exact Overlay.gives_draw p.view hw ho (roomy_of_no_labels hs)
  have hcanvas := h.canvas
  unfold draw
  cases hc : p.canvas with
  | world last =>
    rw [hc] at hcanvas
    refine .bind (hpaint last _ _ hcanvas) fun pass hpass => ?_
    exact .bind (hover hpass) fun s _ => .ok ⟨h.sprite, by rintro _ ⟨⟩; exact hpass⟩
  | follow picture painted =>
    rw [hc] at hcanvas
    refine .bind (hpaint _ _ _ ?_) fun pass hpass => ?_
    · intro s hs
      obtain ⟨⟨w, clean⟩, hpainted, hs⟩ := Option.bind_eq_some_iff.1 hs
      obtain ⟨-, hclean⟩ := Option.ite_none_right_eq_some.1 hs
      rw [← Option.some.inj hclean]
      exact (hcanvas.2 w clean hpainted).2
    · refine .bind (hover hpass) fun s hs => .ok ⟨h.sprite, hs, ?_⟩
      rintro _ _ ⟨⟩
      exact ⟨hw, hpass⟩

/-- Whether a frame can be painted depends only on what lies on top. -/
theorem draw_eq_map (hw : window.Paintable p.sprite) (tiles : TileStore) (hscope : scope.Decides)
    (overlay : Overlay) :
    ∃ s k, p.draw window tiles scope overlay = (overlay.draw p.view window p.sprite s).map k := by
  have hscene : (p.scene window tiles).window.Paintable (p.scene window tiles).sprite := hw
  choose pass hpass hlabels using Scene.gives_paint hscene hscope
  unfold draw
  split
  · simp only [hpass]
    exact ⟨_, _, Eq.trans (pure_bind _ _) (bind_pure_comp _ _)⟩
  · simp only [hpass]
    exact ⟨_, _, Eq.trans (pure_bind _ _) (bind_pure_comp _ _)⟩

/-- The camera is kept inside the picture. -/
theorem offsetIn_le_size (step : Point) (window : Window) (sprite width height : UInt32) :
    (Camera.offsetIn step window sprite width height).1.toNat ≤ (window.sizePx sprite).1.toNat ∧
      (Camera.offsetIn step window sprite width height).2.toNat ≤
        (window.sizePx sprite).2.toNat := by
  have hinside (d : Int) (room surface : UInt32) :
      (UInt32.ofInt (max 0 (min d (room.toNat - surface.toNat : Nat)))).toNat ≤ room.toNat := by
    have hroom := room.toNat_lt
    have hval := toNat_ofInt (z := max 0 (min d (room.toNat - surface.toNat : Nat))) (by omega)
      (by omega)
    omega
  exact ⟨hinside _ _ _, hinside _ _ _⟩

theorem InReach.gives_present (h : p.InReach E) (step : Point) :
    Gives (p.present step) fun out => out.2.InReach E := by
  have hcanvas := h.canvas
  unfold present
  split
  · next picture window clean hc =>
    rw [hc] at hcanvas
    obtain ⟨hroomy, hpainted⟩ := hcanvas
    obtain ⟨hwidth, hheight⟩ := (hpainted window clean rfl).1.sizePx_le
    obtain ⟨hx, hy⟩ := offsetIn_le_size step window p.sprite p.surface.width p.surface.height
    rw [← h.sprite] at hwidth hheight
    have htext : picture.TextFits
        (Camera.offsetIn step window p.sprite p.surface.width p.surface.height).1.toNat
        (Camera.offsetIn step window p.sprite p.surface.width p.surface.height).2.toNat := by
      refine ⟨by omega, by omega, fun l hl => ?_, fun l hl => ?_⟩
      · have := (hroomy l hl).1
        omega
      · have := (hroomy l hl).2
        omega
    exact .bind (Surface.gives_blitWindow p.surface htext) fun s _ =>
      .ok ⟨h.sprite, by rw [hc]; exact ⟨hroomy, hpainted⟩⟩
  · exact .ok h

end Painter

end TileViewer
