import Mathlib.Logic.Relation
import TileViewer.Proofs.Camera.Way
import TileViewer.Proofs.Exact
import TileViewer.Proofs.Picture.Keeps

/-!
Camera steps near the target of the frame that was painted last. The picture has room for them in
every direction, so the surface shows it where the camera stands, and nothing else.
-/
namespace TileViewer

/-- At most the glide's reach away, in each direction. -/
structure Point.Near (target p : Point) : Prop where
  left : target.x.toInt - 320 ≤ p.x.toInt
  right : p.x.toInt ≤ target.x.toInt + 320
  top : target.y.toInt - 320 ≤ p.y.toInt
  bottom : p.y.toInt ≤ target.y.toInt + 320

/-- A window whose corner and size are exact in pixels. -/
structure Window.Measured (w : Window) (sprite : UInt32) : Prop where
  left : -2 ^ 31 ≤ w.startX.toInt * sprite.toNat
  right : w.startX.toInt * sprite.toNat < 2 ^ 31
  top : -2 ^ 31 ≤ w.startY.toInt * sprite.toNat
  bottom : w.startY.toInt * sprite.toNat < 2 ^ 31
  width : w.width.toNat * sprite.toNat < 2 ^ 32
  height : w.height.toNat * sprite.toNat < 2 ^ 32

/-- The surface shows the picture from a place in it, and nothing else. -/
def Surface.ShowsFrom (s picture : Surface) (x y : Int) : Prop :=
  ∀ i < s.width.toNat, ∀ j < s.height.toNat, ∃ c,
    picture.image.pixel? (x + i).toNat (y + j).toNat = some c ∧ s.image.pixel? i j = some c

/-- The text of a picture can be moved along when a window of it is shown. -/
structure Surface.TextFits (s : Surface) (x y : Int) : Prop where
  x_lt : x < 2 ^ 31
  y_lt : y < 2 ^ 31
  left : ∀ l ∈ s.labels, -2 ^ 31 ≤ l.x.toInt - x
  top : ∀ l ∈ s.labels, -2 ^ 31 ≤ l.y.toInt - y

namespace Window

variable {frame : Frame} {window : Window} {width height sprite : UInt32} {target p : Point}

theorem toNat_glideTiles (sprite : UInt32) : (glideTiles sprite).toNat =
    320 / sprite.toNat + if 320 % sprite.toNat = 0 then 0 else 1 := by
  have hreach : glideReach.toNat = 320 := rfl
  have hle : 320 / sprite.toNat ≤ 320 := Nat.div_le_self _ _
  have hmod : glideReach % sprite = 0 ↔ 320 % sprite.toNat = 0 := by
    rw [← UInt32.toNat_inj, UInt32.toNat_mod, hreach, UInt32.toNat_zero]
  rw [glideTiles, UInt32.toNat_add, UInt32.toNat_div, hreach]
  by_cases h : 320 % sprite.toNat = 0
  · rw [if_pos (hmod.2 h), if_pos h, UInt32.toNat_zero]
    exact Nat.mod_eq_of_lt (Nat.lt_of_le_of_lt hle (by decide))
  · rw [if_neg (mt hmod.1 h), if_neg h, UInt32.toNat_one]
    exact Nat.mod_eq_of_lt (Nat.lt_of_le_of_lt (Nat.add_le_add_right hle 1) (by decide))

theorem glideTiles_le (sprite : UInt32) : (glideTiles sprite).toNat ≤ 321 := by
  have hle : 320 / sprite.toNat ≤ 320 := Nat.div_le_self _ _
  rw [toNat_glideTiles]
  split <;> omega

theorem toNat_two_mul_glideTiles (sprite : UInt32) :
    (2 * glideTiles sprite).toNat = 2 * (glideTiles sprite).toNat := by
  have hle := glideTiles_le sprite
  rw [UInt32.toNat_mul, show (2 : UInt32).toNat = 2 from rfl, Nat.mod_eq_of_lt (by omega)]

theorem glideTiles_spec (hpos : 0 < sprite.toNat) :
    (2 * glideTiles sprite).toNat = 2 * (glideTiles sprite).toNat ∧
      320 ≤ (glideTiles sprite).toNat * sprite.toNat := by
  have hdiv := Nat.div_add_mod 320 sprite.toNat
  refine ⟨toNat_two_mul_glideTiles sprite, ?_⟩
  rw [toNat_glideTiles, Nat.add_mul, Nat.mul_comm]
  split
  · omega
  · have := Nat.mod_lt 320 hpos
    omega

/-- Half of the tiles, on either side of the middle one, have room for half of the surface and for
a glide. -/
theorem half_room {surface side reach tiles : Nat} (hpos : 0 < side) (hreach : 320 ≤ reach * side)
    (htiles : tiles = surface / side + 2 + 2 * reach) :
    surface / 2 + 320 ≤ tiles / 2 * side ∧
      surface - surface / 2 + 320 ≤ (tiles - tiles / 2) * side := by
  have hsurface : surface < (surface / side + 1) * side :=
    (Nat.div_lt_iff_lt_mul hpos).1 (Nat.lt_succ_self _)
  have hhalf : (surface / side + 1) * side ≤ 2 * ((surface / side / 2 + 1) * side) := by
    rw [← Nat.mul_assoc]
    exact Nat.mul_le_mul_right _ (by omega)
  have htwo : tiles / 2 = surface / side / 2 + 1 + reach := by omega
  have hleft : tiles / 2 * side = (surface / side / 2 + 1) * side + reach * side := by
    rw [htwo, Nat.add_mul]
  have hright : tiles / 2 * side ≤ (tiles - tiles / 2) * side :=
    Nat.mul_le_mul_right _ (by omega)
  omega

/-- Near the target, the surface lies inside the picture, along one axis. `start` and `center` are
tiles, the other places are pixels. -/
theorem axis_room {surface side reach tiles : Nat} {start center target pos : Int}
    (hpos : 0 < side) (hreach : 320 ≤ reach * side)
    (htiles : tiles = surface / side + 2 + 2 * reach) (hstart : start = center - (tiles / 2 : Nat))
    (htarget : target = center * side - (surface / 2 : Nat)) (hleft : target - 320 ≤ pos)
    (hright : pos ≤ target + 320) :
    0 ≤ pos - start * side ∧ pos - start * side + surface ≤ (tiles * side : Nat) := by
  obtain ⟨hbefore, hafter⟩ := half_room hpos hreach htiles
  have horigin : start * side = center * side - (tiles / 2 * side : Nat) := by
    rw [hstart, Int.sub_mul, Int.natCast_mul]
  have hsplit : tiles * side = tiles / 2 * side + (tiles - tiles / 2) * side := by
    rw [← Nat.add_mul, Nat.add_sub_cancel' (Nat.div_le_self _ _)]
  omega

theorem toInt_half (n : UInt32) : (n / 2).toInt32.toInt = (n.toNat / 2 : Nat) := by
  have hn := n.toNat_lt
  have hhalf : (n / 2).toNat = n.toNat / 2 := UInt32.toNat_div n 2
  rw [toInt_toInt32 (by omega), hhalf]

/-- The tiles and the corner of a window in the follow view, along both axes. -/
theorem ofFrame_follow (hpos : 0 < sprite.toNat)
    (h : ofFrame .follow frame width height sprite = .ok window) :
    (window.width.toNat = width.toNat / sprite.toNat + 2 + 2 * (glideTiles sprite).toNat ∧
      window.startX.toInt = (Word.plusSat frame.viewX (frame.viewWidth / 2).toInt32).toInt -
        (window.width.toNat / 2 : Nat)) ∧
    window.height.toNat = height.toNat / sprite.toNat + 2 + 2 * (glideTiles sprite).toNat ∧
      window.startY.toInt = (Word.plusSat frame.viewY (frame.viewHeight / 2).toInt32).toInt -
        (window.height.toNat / 2 : Nat) := by
  obtain ⟨hreach, -⟩ := glideTiles_spec hpos
  rw [ofFrame, max_one hpos] at h
  obtain ⟨columns, hcolumns, h⟩ := bind_eq_ok h
  obtain ⟨w, hw, h⟩ := bind_eq_ok h
  obtain ⟨rows, hrows, h⟩ := bind_eq_ok h
  obtain ⟨t, ht, h⟩ := bind_eq_ok h
  obtain ⟨x, hx, h⟩ := bind_eq_ok h
  obtain ⟨y, hy, h⟩ := bind_eq_ok h
  cases h
  have htwo : (2 : UInt32).toNat = 2 := rfl
  refine ⟨⟨?_, ?_⟩, ?_, ?_⟩
  · rw [toNat_of_plus hw, toNat_of_plus hcolumns, UInt32.toNat_div, htwo, hreach]
  · rw [← toInt_half]
    exact Word.fit_eq_ok_iff.1 hx
  · rw [toNat_of_plus ht, toNat_of_plus hrows, UInt32.toNat_div, htwo, hreach]
  · rw [← toInt_half]
    exact Word.fit_eq_ok_iff.1 hy

/-- The target is the middle of the view, and the window's middle tile is there too. -/
theorem targetOf_follow (hsprite : sprite.toNat < 2 ^ 31)
    (h : Camera.targetOf frame width height sprite = .ok target) :
    target.x.toInt = (Word.plusSat frame.viewX (frame.viewWidth / 2).toInt32).toInt *
        sprite.toNat - (width.toNat / 2 : Nat) ∧
      target.y.toInt = (Word.plusSat frame.viewY (frame.viewHeight / 2).toInt32).toInt *
        sprite.toNat - (height.toNat / 2 : Nat) := by
  obtain ⟨middleX, hmiddleX, h⟩ := bind_eq_ok h
  obtain ⟨cx, hcx, h⟩ := bind_eq_ok h
  obtain ⟨middleY, hmiddleY, h⟩ := bind_eq_ok h
  obtain ⟨cy, hcy, h⟩ := bind_eq_ok h
  obtain ⟨x, hx, h⟩ := bind_eq_ok h
  obtain ⟨y, hy, h⟩ := bind_eq_ok h
  cases h
  rw [Word.plusSat_of_plus hmiddleX, Word.plusSat_of_plus hmiddleY, ← toInt_toInt32 hsprite,
    ← toInt_half, ← toInt_half]
  refine ⟨?_, ?_⟩
  · rw [← show cx.toInt = middleX.toInt * sprite.toInt32.toInt from Word.fit_eq_ok_iff.1 hcx]
    exact Word.fit_eq_ok_iff.1 hx
  · rw [← show cy.toInt = middleY.toInt * sprite.toInt32.toInt from Word.fit_eq_ok_iff.1 hcy]
    exact Word.fit_eq_ok_iff.1 hy

/-- More than one sprite fits into a window, so that its size is far from the end of the range. -/
theorem sprite_lt (hpos : 0 < sprite.toNat)
    (hwindow : ofFrame .follow frame width height sprite = .ok window)
    (hmeasured : window.Measured sprite) : sprite.toNat < 2 ^ 31 := by
  obtain ⟨⟨hwidth, -⟩, -⟩ := ofFrame_follow hpos hwindow
  have hsize := hmeasured.width
  have htwo : 2 * sprite.toNat ≤ window.width.toNat * sprite.toNat := by
    refine Nat.mul_le_mul_right _ ?_
    rw [hwidth, Nat.add_assoc, Nat.add_left_comm]
    exact Nat.le_add_right _ _
  omega

/-- Near the target, the surface lies inside the picture of the window. -/
theorem inside_picture (hpos : 0 < sprite.toNat)
    (hwindow : ofFrame .follow frame width height sprite = .ok window)
    (htarget : Camera.targetOf frame width height sprite = .ok target)
    (hmeasured : window.Measured sprite) (hnear : target.Near p) :
    (0 ≤ p.x.toInt - window.startX.toInt * sprite.toNat ∧
      p.x.toInt - window.startX.toInt * sprite.toNat + width.toNat ≤
        (window.width.toNat * sprite.toNat : Nat)) ∧
    0 ≤ p.y.toInt - window.startY.toInt * sprite.toNat ∧
      p.y.toInt - window.startY.toInt * sprite.toNat + height.toNat ≤
        (window.height.toNat * sprite.toNat : Nat) := by
  obtain ⟨-, hreach⟩ := glideTiles_spec hpos
  obtain ⟨⟨hwidth, hstartX⟩, hheight, hstartY⟩ := ofFrame_follow hpos hwindow
  obtain ⟨htx, hty⟩ := targetOf_follow (sprite_lt hpos hwindow hmeasured) htarget
  exact ⟨axis_room hpos hreach hwidth hstartX htx hnear.left hnear.right,
    axis_room hpos hreach hheight hstartY hty hnear.top hnear.bottom⟩

/-- The corner of a window, in pixels. -/
theorem Measured.origin (h : window.Measured sprite) (hsprite : sprite.toNat < 2 ^ 31) :
    (window.origin sprite).x.toInt = window.startX.toInt * sprite.toNat ∧
      (window.origin sprite).y.toInt = window.startY.toInt * sprite.toNat := by
  obtain ⟨hleft, hright, htop, hbottom, -, -⟩ := h
  rw [← toInt_toInt32 hsprite] at hleft hright htop hbottom ⊢
  have hexact {z : Int32} (hl : -2 ^ 31 ≤ z.toInt * sprite.toInt32.toInt)
      (hh : z.toInt * sprite.toInt32.toInt < 2 ^ 31) :
      (Word.timesSat z sprite.toInt32).toInt = z.toInt * sprite.toInt32.toInt :=
    Word.toInt_timesSat (α := Int32) hl (Int.le_sub_one_of_lt hh)
  exact ⟨hexact hleft hright, hexact htop hbottom⟩

theorem Measured.size (h : window.Measured sprite) :
    (window.sizePx sprite).1.toNat = window.width.toNat * sprite.toNat ∧
      (window.sizePx sprite).2.toNat = window.height.toNat * sprite.toNat :=
  ⟨toNat_timesSat h.width, toNat_timesSat h.height⟩

end Window

namespace Camera

variable {frame : Frame} {window : Window} {width height sprite : UInt32} {target p : Point}

/-- Where the surface lies inside the picture, it is not moved. -/
theorem toNat_inside {room surface : UInt32} {d : Int} (hd : 0 ≤ d)
    (hroom : d + surface.toNat ≤ room.toNat) :
    (UInt32.ofInt (max 0 (min d (room.toNat - surface.toNat : Nat)))).toNat = d := by
  have hlt := room.toNat_lt
  have hmin : max 0 (min d (room.toNat - surface.toNat : Nat)) = d := by omega
  rw [hmin]
  exact toNat_ofInt hd (by omega)

/-- Near the target the camera is not held back: the picture is shown from where it stands, and
covers the surface. -/
theorem offsetIn_near (hpos : 0 < sprite.toNat)
    (hwindow : Window.ofFrame .follow frame width height sprite = .ok window)
    (htarget : targetOf frame width height sprite = .ok target)
    (hmeasured : window.Measured sprite) (hnear : target.Near p) :
    ((offsetIn p window sprite width height).1.toNat = p.x.toInt - (window.origin sprite).x.toInt ∧
      (offsetIn p window sprite width height).1.toNat + width.toNat ≤
        (window.sizePx sprite).1.toNat) ∧
    (offsetIn p window sprite width height).2.toNat = p.y.toInt - (window.origin sprite).y.toInt ∧
      (offsetIn p window sprite width height).2.toNat + height.toNat ≤
        (window.sizePx sprite).2.toNat := by
  obtain ⟨⟨hx, hxr⟩, hy, hyr⟩ := Window.inside_picture hpos hwindow htarget hmeasured hnear
  obtain ⟨hox, hoy⟩ := hmeasured.origin (Window.sprite_lt hpos hwindow hmeasured)
  obtain ⟨hw, hh⟩ := hmeasured.size
  rw [← hox, ← hw] at hxr
  rw [← hoy, ← hh] at hyr
  rw [← hox] at hx
  rw [← hoy] at hy
  have hleft := toNat_inside hx hxr
  have htop := toNat_inside hy hyr
  simp only [offsetIn]
  omega

/-- Every step on the way from a point near the target is near the target. -/
theorem near_of_mem_path {a : Point} {n : Nat} (hnear : target.Near a)
    (hp : p ∈ path a target n) : target.Near p := by
  obtain ⟨i, hi, rfl⟩ := List.mem_map.1 hp
  have hle : i + 1 ≤ n := List.mem_range.1 hi
  have hn : 0 < n := Nat.lt_of_lt_of_le (Nat.succ_pos i) hle
  have hx := toInt_between a.x target.x hn hle
  have hy := toInt_between a.y target.y hn hle
  obtain ⟨hl, hr, ht, hb⟩ := hnear
  constructor <;> dsimp only <;> omega

theorem Near.self (target : Point) : target.Near target := by
  constructor <;> omega

/-- The way to a target from one near it stays near it. -/
theorem gives_retarget_near (c : Camera) (hnear : ∀ a, c.target = some a → target.Near a) :
    Gives (c.retarget target) fun out => out.1 = out.2.steps.length ∧
      ∀ pos ∈ out.2.steps, target.Near pos := by
  have hself : ∀ pos ∈ [target], target.Near pos := by
    intro pos hpos
    rw [List.mem_singleton.1 hpos]
    exact Near.self target
  unfold retarget
  cases hc : c.target with
  | none => exact .ok ⟨rfl, hself⟩
  | some a =>
    have ha := hnear a hc
    by_cases heq : a = target
    · simp only [if_pos heq]
      exact .ok ⟨rfl, hself⟩
    · simp only [if_neg heq]
      have htop := ha.top
      have hbottom := ha.bottom
      refine .bind (gives_minus (by omega) (by omega)) fun dy _ => .ok ⟨?_, ?_⟩
      · rw [path, List.length_map, List.length_range]
      · exact fun pos hpos => near_of_mem_path ha hpos

end Camera

namespace Surface

variable {s t source : Surface} {x y : UInt32}

theorem gives_labelsFrom (h : source.TextFits x.toNat y.toNat) (width height : UInt32) :
    Gives (source.labelsFrom x y width height) fun _ => True := by
  have hx : x.toInt32.toInt = x.toNat := toInt_toInt32 (Int.ofNat_lt.1 h.x_lt)
  have hy : y.toInt32.toInt = y.toNat := toInt_toInt32 (Int.ofNat_lt.1 h.y_lt)
  rw [labelsFrom, ← Array.foldlM_toList]
  refine .foldlM trivial ?_
  intro kept _ l hl
  have hmem := Array.mem_toList_iff.1 hl
  have hleft := h.left l hmem
  have htop := h.top l hmem
  have hxr := l.x.toInt_lt
  have hyr := l.y.toInt_lt
  refine .bind (gives_minus (by omega) (by omega)) fun lx _ => ?_
  refine .bind (gives_minus (by omega) (by omega)) fun ly _ => ?_
  exact .ok trivial

theorem gives_blitWindow (s : Surface) (h : source.TextFits x.toNat y.toNat) :
    Gives (s.blitWindow source x y) fun _ => True :=
  .bind (gives_labelsFrom h _ _) fun _ _ => .ok trivial

/-- A window inside the source is all that is seen afterwards. -/
theorem showsFrom_blitWindow (h : s.blitWindow source x y = .ok t)
    (hx : x.toNat + s.width.toNat ≤ source.width.toNat)
    (hy : y.toNat + s.height.toNat ≤ source.height.toNat) : t.ShowsFrom source x.toNat y.toNat := by
  obtain ⟨labels, -, h⟩ := bind_eq_ok h
  cases h
  intro i hi j hj
  have hi' : i < s.width.toNat := hi
  have hj' : j < s.height.toNat := hj
  have hplace : ((x.toNat : Int) + i).toNat = i + x.toNat ∧
      ((y.toNat : Int) + j).toNat = j + y.toNat := by omega
  have hsource : source.image.pixel? (i + x.toNat) (j + y.toNat) =
      some (source.image.pixelD (i + x.toNat) (j + y.toNat)) := by
    refine Image.pixel?_eq_some ?_ ?_
    · change _ < source.width.toNat
      omega
    · change _ < source.height.toNat
      omega
  refine ⟨_, by rw [hplace.1, hplace.2, hsource], ?_⟩
  rw [Image.pixel?_paint, if_pos (by omega), Image.pixel?_eq_some hi' hj', Option.map_some]

/-- What two surfaces show of one picture is the same where they show the same place. -/
theorem ShowsFrom.pixel?_eq {picture : Surface} {x y x' y' : Int} {i j i' j' : Nat}
    (h : s.ShowsFrom picture x y) (h' : t.ShowsFrom picture x' y') (hi : i < s.width.toNat)
    (hj : j < s.height.toNat) (hi' : i' < t.width.toNat) (hj' : j' < t.height.toNat)
    (hx : x + i = x' + i') (hy : y + j = y' + j') :
    s.image.pixel? i j = t.image.pixel? i' j' := by
  obtain ⟨c, hc, hs⟩ := h i hi j hj
  obtain ⟨c', hc', ht⟩ := h' i' hi' j' hj'
  rw [hs, ht, ← hc, ← hc', hx, hy]

end Surface

namespace Painter

variable {p q t : Painter} {frame : Frame} {window : Window} {picture : Surface}
  {target pos : Point} {tiles : TileStore} {scope : Scope} {overlay : Overlay} {stats : PaintStats}

/-- What a painter of the follow view drew last. -/
structure Drew (p : Painter) (window : Window) (picture : Surface) : Prop where
  canvas : ∃ clean, p.canvas = .follow picture (some (window, clean))
  size : window.sizePx p.sprite = (picture.width, picture.height)

/-- `q` is `p` after some camera steps. -/
abbrev Stepped (p q : Painter) : Prop :=
  Relation.ReflTransGen (fun a b => ∃ pos shown, a.present pos = .ok (shown, b)) p q

/-- `t` is `q` after camera steps, the last of which went to `pos`, near the target. -/
structure GlidedTo (q : Painter) (target pos : Point) (t : Painter) : Prop where
  near : target.Near pos
  step : ∃ r shown, q.Stepped r ∧ r.present pos = .ok (shown, t)

theorem drew_of_draw {old : Surface} {painted : Option (Window × Surface)}
    (hc : p.canvas = .follow old painted)
    (h : p.draw window tiles scope overlay = .ok (stats, q)) :
    ∃ picture, q.Drew window picture ∧ q.sprite = p.sprite ∧ q.surface = p.surface := by
  simp only [draw, hc] at h
  obtain ⟨pass, hpass, h⟩ := bind_eq_ok h
  obtain ⟨picture, hpicture, h⟩ := bind_eq_ok h
  cases h
  obtain ⟨hw, hh, -⟩ := Scene.paint_keeps hpass
  obtain ⟨hw', hh'⟩ := (Overlay.stamps_draw overlay _ _ _).size hpicture
  refine ⟨picture, ⟨⟨_, rfl⟩, ?_⟩, rfl, rfl⟩
  rw [hw', hh', hw, hh]

/-- A camera step changes nothing but what the surface shows. -/
theorem present_keeps {shown : Bool} (h : p.present pos = .ok (shown, q)) :
    q.canvas = p.canvas ∧ q.sprite = p.sprite ∧ q.surface.width = p.surface.width ∧
      q.surface.height = p.surface.height := by
  unfold present at h
  split at h
  · obtain ⟨surface, hblit, h⟩ := bind_eq_ok h
    cases h
    obtain ⟨hw, hh⟩ := Surface.size_blitWindow hblit
    exact ⟨rfl, rfl, hw, hh⟩
  · cases h
    exact ⟨rfl, rfl, rfl, rfl⟩

theorem Stepped.keeps (h : p.Stepped q) :
    q.canvas = p.canvas ∧ q.sprite = p.sprite ∧ q.surface.width = p.surface.width ∧
      q.surface.height = p.surface.height := by
  induction h with
  | refl => exact ⟨rfl, rfl, rfl, rfl⟩
  | tail _ hstep ih =>
    obtain ⟨pos, shown, hpresent⟩ := hstep
    obtain ⟨hc, hs, hw, hh⟩ := present_keeps hpresent
    obtain ⟨ic, is, iw, ih⟩ := ih
    exact ⟨hc.trans ic, hs.trans is, hw.trans iw, hh.trans ih⟩

theorem Drew.stepped (h : p.Drew window picture) (hs : p.Stepped q) : q.Drew window picture := by
  obtain ⟨⟨clean, hc⟩, hsize⟩ := h
  obtain ⟨hc', hsprite, -, -⟩ := hs.keeps
  exact ⟨⟨clean, hc'.trans hc⟩, by rw [hsprite, hsize]⟩

/-- Near the target a camera step shows the picture from where the camera stands. -/
theorem Drew.showsFrom {shown : Bool} (h : p.Drew window picture) (hpos : 0 < p.sprite.toNat)
    (hwindow : Window.ofFrame .follow frame p.surface.width p.surface.height p.sprite = .ok window)
    (htarget : Camera.targetOf frame p.surface.width p.surface.height p.sprite = .ok target)
    (hmeasured : window.Measured p.sprite) (hnear : target.Near pos)
    (hp : p.present pos = .ok (shown, t)) :
    shown = true ∧ t.surface.ShowsFrom picture
      (pos.x.toInt - (window.origin p.sprite).x.toInt)
      (pos.y.toInt - (window.origin p.sprite).y.toInt) := by
  obtain ⟨⟨hx, hxr⟩, hy, hyr⟩ := Camera.offsetIn_near hpos hwindow htarget hmeasured hnear
  obtain ⟨⟨clean, hc⟩, hsize⟩ := h
  rw [hsize] at hxr hyr
  simp only [present, hc] at hp
  obtain ⟨surface, hblit, hp⟩ := bind_eq_ok hp
  cases hp
  rw [← hx, ← hy]
  exact ⟨rfl, Surface.showsFrom_blitWindow hblit hxr hyr⟩

theorem Drew.gives_present (h : p.Drew window picture)
    (htext : picture.TextFits
      (Camera.offsetIn pos window p.sprite p.surface.width p.surface.height).1.toNat
      (Camera.offsetIn pos window p.sprite p.surface.width p.surface.height).2.toNat) :
    Gives (p.present pos) fun out => out.1 = true := by
  obtain ⟨⟨clean, hc⟩, -⟩ := h
  simp only [present, hc]
  exact .bind (Surface.gives_blitWindow p.surface htext) fun _ _ => .ok rfl

/-- Near the target of the frame that was painted last the camera is not held back, and can go if
the text can be moved along. Each step shows the picture from where the camera stands: nothing of an
older picture is left, and each place of the world keeps its look from step to step. The way to the
target from any other one near it has only such steps. -/
theorem glide_shows_picture {old : Surface} {painted : Option (Window × Surface)}
    (hc : p.canvas = .follow old painted) (hpos : 0 < p.sprite.toNat)
    (hwindow : Window.ofFrame .follow frame p.surface.width p.surface.height p.sprite = .ok window)
    (htarget : Camera.targetOf frame p.surface.width p.surface.height p.sprite = .ok target)
    (hmeasured : window.Measured p.sprite)
    (hdraw : p.draw window tiles scope overlay = .ok (stats, q)) :
    ∃ picture, q.canvas.picture? = some picture ∧
      (∀ r pos, q.Stepped r → target.Near pos →
        let x := pos.x.toInt - (window.origin p.sprite).x.toInt
        let y := pos.y.toInt - (window.origin p.sprite).y.toInt
        let offset := Camera.offsetIn pos window r.sprite r.surface.width r.surface.height
        offset.1.toNat = x ∧ offset.2.toNat = y ∧
          (picture.TextFits x y → Gives (r.present pos) fun out => out.1 = true)) ∧
      (∀ pos t, q.GlidedTo target pos t →
        (t.surface.width, t.surface.height) = (p.surface.width, p.surface.height) ∧
        t.surface.ShowsFrom picture (pos.x.toInt - (window.origin p.sprite).x.toInt)
          (pos.y.toInt - (window.origin p.sprite).y.toInt)) ∧
      (∀ pos pos' t t', q.GlidedTo target pos t → q.GlidedTo target pos' t' →
        ∀ i < p.surface.width.toNat, ∀ j < p.surface.height.toNat,
        ∀ i' < p.surface.width.toNat, ∀ j' < p.surface.height.toNat,
          pos.x.toInt + i = pos'.x.toInt + i' → pos.y.toInt + j = pos'.y.toInt + j' →
          t.surface.image.pixel? i j = t'.surface.image.pixel? i' j') ∧
      ∀ camera : Camera, (∀ a, camera.target = some a → target.Near a) →
        Gives (camera.retarget target) fun out => out.1 = out.2.steps.length ∧
          ∀ pos ∈ out.2.steps, target.Near pos := by
  obtain ⟨picture, hdrew, hsprite, hsurface⟩ := drew_of_draw hc hdraw
  obtain ⟨clean, hcanvas⟩ := hdrew.canvas
  rw [← hsprite] at hpos hwindow htarget hmeasured ⊢
  rw [← hsurface] at hwindow htarget ⊢
  have hshown {pos : Point} {t : Painter} (h : q.GlidedTo target pos t) :
      (t.surface.width, t.surface.height) = (q.surface.width, q.surface.height) ∧
      t.surface.ShowsFrom picture (pos.x.toInt - (window.origin q.sprite).x.toInt)
        (pos.y.toInt - (window.origin q.sprite).y.toInt) := by
    obtain ⟨hnear, r, shown, hstepped, hpresent⟩ := h
    obtain ⟨-, hrs, hrw, hrh⟩ := hstepped.keeps
    obtain ⟨-, -, hw, hh⟩ := present_keeps hpresent
    rw [← hrs] at hpos hwindow htarget hmeasured ⊢
    rw [← hrw, ← hrh] at hwindow htarget
    refine ⟨by rw [hw, hh, hrw, hrh], ?_⟩
    exact ((hdrew.stepped hstepped).showsFrom hpos hwindow htarget hmeasured hnear hpresent).2
  refine ⟨picture, by rw [hcanvas]; rfl, ?_, fun pos t => hshown, ?_,
    fun camera => Camera.gives_retarget_near camera⟩
  · intro r pos hstepped hnear
    obtain ⟨-, hrs, hrw, hrh⟩ := hstepped.keeps
    obtain ⟨⟨hx, -⟩, hy, -⟩ := Camera.offsetIn_near hpos hwindow htarget hmeasured hnear
    rw [← hx, ← hy, ← hrs, ← hrw, ← hrh]
    exact ⟨rfl, rfl, (hdrew.stepped hstepped).gives_present⟩
  · intro pos pos' t t' ht ht' i hi j hj i' hi' j' hj' hx hy
    obtain ⟨hsize, hfrom⟩ := hshown ht
    obtain ⟨hsize', hfrom'⟩ := hshown ht'
    obtain ⟨hw, hh⟩ := Prod.mk.inj hsize
    obtain ⟨hw', hh'⟩ := Prod.mk.inj hsize'
    exact hfrom.pixel?_eq hfrom' (hw ▸ hi) (hh ▸ hj) (hw' ▸ hi') (hh' ▸ hj') (by omega) (by omega)

/-- Sprites of seven pixels on a surface of 33 by 20, and a step to the far corner of the reach. -/
theorem glide_shows_picture_far_corner :
    ∃ (p q t : Painter) (frame : Frame) (window : Window) (target pos : Point) (stats : PaintStats)
      (picture : Surface),
      p.canvas = .follow (.blank 0 0) none ∧ 0 < p.sprite.toNat ∧
      Window.ofFrame .follow frame p.surface.width p.surface.height p.sprite = .ok window ∧
      Camera.targetOf frame p.surface.width p.surface.height p.sprite = .ok target ∧
      window.Measured p.sprite ∧ p.draw window {} .all {} = .ok (stats, q) ∧ target.Near pos ∧
      pos.x.toInt = target.x.toInt + 320 ∧ pos.y.toInt = target.y.toInt - 320 ∧
      q.canvas.picture? = some picture ∧ q.present pos = .ok (true, t) ∧
      t.surface.ShowsFrom picture 647 6 := by
  obtain ⟨p, hview, hsprite, hw, hh, hc, hbuilt⟩ : ∃ p : Painter, p.view = .follow ∧
      p.sprite = 7 ∧ p.surface.width = 33 ∧ p.surface.height = 20 ∧
      p.canvas = .follow (.blank 0 0) none ∧ p.sprites.BuiltFor 7 :=
    ⟨Painter.ofView .follow 33 20 7 (.ofSprite 7), rfl, rfl, rfl, rfl, rfl,
      SpriteSheet.builtFor_ofSprite 7⟩
  obtain ⟨frame, hwindow, htarget⟩ : ∃ frame,
      Window.ofFrame .follow frame 33 20 7 = .ok ⟨-42, -50, 98, 96⟩ ∧
      Camera.targetOf frame 33 20 7 = .ok ⟨33, -24⟩ :=
    ⟨{ seq := 1, viewX := 5, viewY := -3, viewWidth := 4, viewHeight := 3 }, rfl, rfl⟩
  have hmeasured : Window.Measured ⟨-42, -50, 98, 96⟩ 7 := by constructor <;> decide
  have hnear : Point.Near ⟨33, -24⟩ ⟨353, -344⟩ := by constructor <;> decide
  have hfits : Window.Fits ⟨-42, -50, 98, 96⟩ 7 686 672 := by
    refine ⟨by decide, by decide, by decide, ?_, ?_⟩
    · intro c r h
      have hc : c < 98 := h.1.1
      change -42 + (c : Int) < 2 ^ 31
      omega
    · intro c r h
      have hr : r < 96 := h.2.1
      change -50 + (r : Int) < 2 ^ 31
      omega
  obtain ⟨q, picture, stats, hdraw, hcanvas, hlabels⟩ : ∃ q picture stats,
      p.draw ⟨-42, -50, 98, 96⟩ {} .all {} = .ok (stats, q) ∧ q.canvas.picture? = some picture ∧
      picture.labels = #[Overlay.seqLabel 0] := by
    obtain ⟨stats, clean, sheet, hclean, -, -, hdraw⟩ := draw_follow {} {} hc hsprite rfl hfits
      Scene.decides_all hbuilt .none
    have hoverlay : Overlay.draw {} p.view ⟨-42, -50, 98, 96⟩ 7 clean =
        .ok (clean.pushLabel (Overlay.seqLabel 0)) := by
      rw [hview]
      rfl
    rw [hoverlay] at hdraw
    refine ⟨_, _, _, hdraw, rfl, ?_⟩
    rw [Surface.pushLabel, hclean.labels]
    rfl
  rw [← hsprite] at hwindow htarget hmeasured
  rw [← hw, ← hh] at hwindow htarget
  have hpos : 0 < p.sprite.toNat := by
    rw [hsprite]
    decide
  obtain ⟨picture', hpicture, hsteps, hshown, -⟩ :=
    glide_shows_picture hc hpos hwindow htarget hmeasured hdraw
  cases hcanvas.symm.trans hpicture
  rw [hsprite] at hsteps hshown
  obtain ⟨-, -, hgives⟩ := hsteps q ⟨353, -344⟩ .refl hnear
  have htext : picture.TextFits 647 6 := by
    refine ⟨by decide, by decide, ?_, ?_⟩ <;> rw [hlabels] <;> decide
  obtain ⟨⟨shown, t⟩, hpresent, rfl⟩ := hgives htext
  exact ⟨p, q, t, frame, _, _, ⟨353, -344⟩, stats, picture, hc, hpos, hwindow, htarget, hmeasured,
    hdraw, hnear, rfl, rfl, hpicture, hpresent, (hshown _ t ⟨hnear, q, true, .refl, hpresent⟩).2⟩

end Painter

end TileViewer
