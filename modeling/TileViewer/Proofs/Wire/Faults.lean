import Mathlib.Data.List.Forall2
import TileViewer.Wire.FrameMessage

/-!
Which frames are refused, and for what. The faults of a frame are listed in full, from the outside
in; a frame is taken over as it was sent if it has none, and else refused for the first of them.
-/
namespace TileViewer

/-! Checks that stop at the first fault. -/

section

variable {α β ε : Type} {f : α → Except ε β} {faults : α → List ε} {R : α → β → Prop}

/-- What a check gives: a value that stands for what it has checked, or the first fault. -/
def Verdict (f : α → Except ε β) (faults : α → List ε) (R : α → β → Prop) (a : α) : Prop :=
  (∃ b, f a = .ok b ∧ faults a = [] ∧ R a b) ∨ ∃ e, f a = .error e ∧ (faults a).head? = some e

theorem Verdict.mapM (h : ∀ a, Verdict f faults R a) (as : List α) :
    Verdict (List.mapM f) (List.flatMap faults) (List.Forall₂ R) as := by
  induction as with
  | nil => exact .inl ⟨[], rfl, rfl, .nil⟩
  | cons a as ih =>
    rcases h a with ⟨b, hb, hnone, hab⟩ | ⟨e, he, hfirst⟩
    · rcases ih with ⟨bs, hbs, hnone', hrest⟩ | ⟨e, he, hfirst⟩
      · refine .inl ⟨b :: bs, ?_, ?_, .cons hab hrest⟩
        · rw [List.mapM_cons, hb, hbs]
          rfl
        · rw [List.flatMap_cons, hnone, hnone', List.append_nil]
      · refine .inr ⟨e, ?_, ?_⟩
        · rw [List.mapM_cons, hb, he]
          rfl
        · rw [List.flatMap_cons, hnone, List.nil_append, hfirst]
    · refine .inr ⟨e, ?_, ?_⟩
      · rw [List.mapM_cons, he]
        rfl
      · rw [List.flatMap_cons, List.head?_append, hfirst]
        rfl

end

/-! Layers. -/

namespace LayerMessage

/-- The turns by right angles, in degrees. -/
def rightAngles : List Int := [0, 90, 180, 270]

/-- An image number and, if a second number is there, a right angle. -/
structure WellFormed (layer : LayerMessage) : Prop where
  image : ∃ id ∈ layer[0]?, 0 ≤ id.toInt ∧ id.toInt ≤ 0xFFFFFFFF
  angle : ∀ degrees ∈ layer[1]?, degrees.toInt ∈ rightAngles

/-- All that is wrong with a layer, the image before the angle. -/
def faults : LayerMessage → List FrameFault
  | [] => [.emptyLayer]
  | id :: rest =>
    (if 0 ≤ id.toInt ∧ id.toInt ≤ 0xFFFFFFFF then [] else [.badImage id]) ++
      match rest[0]? with
      | none => []
      | some degrees => if degrees.toInt ∈ rightAngles then [] else [.badRotation degrees]

/-- The layer shows the image, turned by the angle; without one it is upright. -/
structure Carries (layer : LayerMessage) (l : Layer) : Prop where
  image : layer[0]?.map Int64.toInt = some (l.image.toNat : Int)
  rotation : (layer[1]?.map Int64.toInt).getD 0 = l.rotation.degrees

theorem mem_rightAngles_iff {d : Int} : d ∈ rightAngles ↔ ∃ r, Rotation.ofDegrees? d = some r := by
  simp only [Rotation.ofDegrees?_eq_some_iff]
  constructor
  · intro h
    simp only [rightAngles, List.mem_cons, List.not_mem_nil, or_false] at h
    rcases h with rfl | rfl | rfl | rfl
    · exact ⟨.none, rfl⟩
    · exact ⟨.quarter, rfl⟩
    · exact ⟨.half, rfl⟩
    · exact ⟨.threeQuarters, rfl⟩
  · rintro ⟨r, rfl⟩
    cases r <;> decide

theorem faults_eq_nil_iff {layer : LayerMessage} : layer.faults = [] ↔ layer.WellFormed := by
  cases layer with
  | nil =>
    constructor
    · intro h
      cases h
    · rintro ⟨⟨id, hid, -⟩, -⟩
      cases hid
  | cons id rest =>
    rw [faults, List.append_eq_nil_iff]
    constructor
    · rintro ⟨himage, hangle⟩
      refine ⟨⟨id, rfl, by simpa using himage⟩, ?_⟩
      intro degrees hdegrees
      have hrest : rest[0]? = some degrees := hdegrees
      simpa [hrest] using hangle
    · rintro ⟨⟨id', hid, himage⟩, hangle⟩
      cases hid
      refine ⟨if_pos himage, ?_⟩
      cases hrest : rest[0]? with
      | none => rfl
      | some degrees => exact if_pos (hangle degrees hrest)

theorem verdict_decode (layer : LayerMessage) : Verdict decode faults Carries layer := by
  cases layer with
  | nil => exact .inr ⟨.emptyLayer, rfl, rfl⟩
  | cons id rest =>
    rcases himage : (Word.fit .add id.toInt : Except Overflow UInt32) with e | image
    · have hout : ¬ (0 ≤ id.toInt ∧ id.toInt ≤ 0xFFFFFFFF) := (Word.fit_eq_error_iff.1 himage).1
      refine .inr ⟨.badImage id, by simp only [decode, himage], ?_⟩
      rw [faults, if_neg hout]
      rfl
    · have hid : (image.toNat : Int) = id.toInt := Word.fit_eq_ok_iff.1 himage
      have hin : 0 ≤ id.toInt ∧ id.toInt ≤ 0xFFFFFFFF := by
        have hlt := image.toNat_lt
        omega
      cases rest with
      | nil =>
        refine .inl ⟨{ image }, by simp only [decode, himage], ?_, ?_, rfl⟩
        · rw [faults, if_pos hin]
          rfl
        · exact congrArg some hid.symm
      | cons degrees rest =>
        rw [Verdict, faults, if_pos hin]
        cases hangle : Rotation.ofDegrees? degrees.toInt with
        | none =>
          have hnot : degrees.toInt ∉ rightAngles := by
            rw [mem_rightAngles_iff, hangle]
            rintro ⟨r, ⟨⟩⟩
          exact .inr ⟨.badRotation degrees, by simp only [decode, himage, hangle],
            by simp [hnot]⟩
        | some rotation =>
          have hmem : degrees.toInt ∈ rightAngles := mem_rightAngles_iff.2 ⟨rotation, hangle⟩
          refine .inl ⟨{ image, rotation }, by simp only [decode, himage, hangle],
            by simp [hmem], congrArg some hid.symm, ?_⟩
          exact Rotation.ofDegrees?_eq_some_iff.1 hangle

theorem carries_rightUnique : Relator.RightUnique Carries := by
  rintro layer ⟨image, rotation⟩ ⟨image', rotation'⟩ ⟨himage, hrotation⟩ ⟨himage', hrotation'⟩
  have hnat : image.toNat = image'.toNat :=
    Int.ofNat_inj.1 (Option.some.inj (himage.symm.trans himage'))
  obtain rfl : image = image' := UInt32.toNat_inj.1 hnat
  have hdegrees : Rotation.ofDegrees? rotation.degrees = some rotation' :=
    Rotation.ofDegrees?_eq_some_iff.2 (hrotation.symm.trans hrotation')
  rw [Rotation.ofDegrees?_eq_some_iff.2 rfl, Option.some.injEq] at hdegrees
  rw [hdegrees]

end LayerMessage

/-! Patches. -/

namespace PatchMessage

variable {viewWidth viewHeight : UInt32} {p : PatchMessage}

/-- No larger than the view, and all layers of all its cells are well formed. -/
structure WellFormed (viewWidth viewHeight : UInt32) (p : PatchMessage) : Prop where
  size : p.width ≤ viewWidth ∧ p.height ≤ viewHeight
  layers : ∀ stack ∈ p.cells, ∀ layer ∈ stack, LayerMessage.WellFormed layer

/-- All that is wrong with a patch, its size before its layers. -/
def faults (viewWidth viewHeight : UInt32) (p : PatchMessage) : List FrameFault :=
  (if p.width ≤ viewWidth ∧ p.height ≤ viewHeight then []
    else [.patchTooLarge p.width p.height viewWidth viewHeight]) ++
    p.cells.flatMap fun stack => stack.flatMap LayerMessage.faults

/-- The same rectangle with the same cells in the same order, each with all its layers. -/
structure Carries (p : PatchMessage) (q : Patch) : Prop where
  x : q.x = p.x
  y : q.y = p.y
  width : q.width = p.width
  height : q.height = p.height
  cells : List.Forall₂ (List.Forall₂ LayerMessage.Carries) p.cells q.cells

theorem faults_eq_nil_iff :
    p.faults viewWidth viewHeight = [] ↔ p.WellFormed viewWidth viewHeight := by
  simp only [faults, List.append_eq_nil_iff, ite_eq_left_iff, List.cons_ne_nil, imp_false,
    not_not, List.flatMap_eq_nil_iff, LayerMessage.faults_eq_nil_iff]
  exact ⟨fun h => ⟨h.1, h.2⟩, fun h => ⟨h.size, h.layers⟩⟩

theorem verdict_decode (viewWidth viewHeight : UInt32) (p : PatchMessage) :
    Verdict (decode viewWidth viewHeight) (faults viewWidth viewHeight) Carries p := by
  by_cases hsize : p.width ≤ viewWidth ∧ p.height ≤ viewHeight
  · have hfits : ¬ (viewWidth < p.width ∨ viewHeight < p.height) := by
      rw [not_or, UInt32.not_lt, UInt32.not_lt]
      exact hsize
    have hfaults : p.faults viewWidth viewHeight =
        p.cells.flatMap fun stack => stack.flatMap LayerMessage.faults := by
      rw [faults, if_pos hsize, List.nil_append]
    rcases Verdict.mapM (Verdict.mapM LayerMessage.verdict_decode) p.cells with
      ⟨cells, hcells, hnone, hcarries⟩ | ⟨e, he, hfirst⟩
    · refine .inl ⟨⟨p.x, p.y, p.width, p.height, cells⟩, ?_, hfaults.trans hnone,
        ⟨rfl, rfl, rfl, rfl, hcarries⟩⟩
      simp only [decode, if_neg hfits, hcells]
      rfl
    · refine .inr ⟨e, ?_, hfaults ▸ hfirst⟩
      simp only [decode, if_neg hfits, he]
      rfl
  · have hlarge : viewWidth < p.width ∨ viewHeight < p.height := by
      rwa [not_and_or, UInt32.not_le, UInt32.not_le] at hsize
    refine .inr ⟨.patchTooLarge p.width p.height viewWidth viewHeight, ?_, ?_⟩
    · simp only [decode, if_pos hlarge]
      rfl
    · rw [faults, if_neg hsize]
      rfl

theorem carries_rightUnique : Relator.RightUnique Carries := by
  rintro p ⟨x, y, width, height, cells⟩ ⟨x', y', width', height', cells'⟩
    ⟨rfl, rfl, rfl, rfl, hcells⟩ ⟨rfl, rfl, rfl, rfl, hcells'⟩
  have hsame : cells = cells' := LayerMessage.carries_rightUnique.forall₂.forall₂ hcells hcells'
  rw [hsame]

end PatchMessage

/-! Frames. -/

namespace FrameMessage

variable {m : FrameMessage}

/-- A view of at most 1024 tiles each way, and well formed patches in it. -/
structure WellFormed (m : FrameMessage) : Prop where
  view : m.viewWidth.toNat ≤ 1024 ∧ m.viewHeight.toNat ≤ 1024
  patches : ∀ p ∈ m.patches, p.WellFormed m.viewWidth m.viewHeight

/-- All that is wrong with a frame: the view, then one patch after the other. -/
def faults (m : FrameMessage) : List FrameFault :=
  (if m.viewWidth.toNat ≤ 1024 ∧ m.viewHeight.toNat ≤ 1024 then []
    else [.viewTooLarge m.viewWidth m.viewHeight]) ++
    m.patches.flatMap (PatchMessage.faults m.viewWidth m.viewHeight)

/-- Everything in the message, as it was and in its order. -/
structure Carries (m : FrameMessage) (f : Frame) : Prop where
  seq : f.seq = m.frame
  viewX : f.viewX = m.viewX
  viewY : f.viewY = m.viewY
  viewWidth : f.viewWidth = m.viewWidth
  viewHeight : f.viewHeight = m.viewHeight
  full : f.full = m.full
  patches : List.Forall₂ PatchMessage.Carries m.patches f.patches
  creatures : f.creatures = m.creatures
  ticks : f.ticks = m.ticks

theorem faults_eq_nil_iff : m.faults = [] ↔ m.WellFormed := by
  simp only [faults, List.append_eq_nil_iff, ite_eq_left_iff, List.cons_ne_nil, imp_false,
    not_not, List.flatMap_eq_nil_iff, PatchMessage.faults_eq_nil_iff]
  exact ⟨fun h => ⟨h.1, h.2⟩, fun h => ⟨h.view, h.patches⟩⟩

theorem verdict_contents (m : FrameMessage) : Verdict contents faults Carries m := by
  by_cases hview : m.viewWidth.toNat ≤ 1024 ∧ m.viewHeight.toNat ≤ 1024
  · have hfits : ¬ (maxViewSide < m.viewWidth ∨ maxViewSide < m.viewHeight) := by
      rw [not_or, UInt32.not_lt, UInt32.not_lt]
      exact hview
    have hfaults : m.faults =
        m.patches.flatMap (PatchMessage.faults m.viewWidth m.viewHeight) := by
      rw [faults, if_pos hview, List.nil_append]
    rcases Verdict.mapM (PatchMessage.verdict_decode m.viewWidth m.viewHeight) m.patches with
      ⟨patches, hpatches, hnone, hcarries⟩ | ⟨e, he, hfirst⟩
    · have hcontents : m.contents = .ok
          { seq := m.frame, viewX := m.viewX, viewY := m.viewY, viewWidth := m.viewWidth
            viewHeight := m.viewHeight, patches, creatures := m.creatures, full := m.full
            ticks := m.ticks } := by
        simp only [contents, if_neg hfits, hpatches]
        rfl
      exact .inl ⟨_, hcontents, hfaults.trans hnone,
        ⟨rfl, rfl, rfl, rfl, rfl, rfl, hcarries, rfl, rfl⟩⟩
    · refine .inr ⟨e, ?_, hfaults ▸ hfirst⟩
      simp only [contents, if_neg hfits, he]
      rfl
  · have hlarge : maxViewSide < m.viewWidth ∨ maxViewSide < m.viewHeight := by
      rw [not_and_or, Nat.not_le, Nat.not_le] at hview
      exact hview
    refine .inr ⟨.viewTooLarge m.viewWidth m.viewHeight, ?_, ?_⟩
    · simp only [contents, if_pos hlarge]
      rfl
    · rw [faults, if_neg hview]
      rfl

theorem carries_rightUnique : Relator.RightUnique Carries := by
  rintro m ⟨seq, x, y, width, height, patches, creatures, full, ticks⟩
    ⟨seq', x', y', width', height', patches', creatures', full', ticks'⟩
    ⟨rfl, rfl, rfl, rfl, rfl, rfl, hpatches, rfl, rfl⟩
    ⟨rfl, rfl, rfl, rfl, rfl, rfl, hpatches', rfl, rfl⟩
  have hsame : patches = patches' := PatchMessage.carries_rightUnique.forall₂ hpatches hpatches'
  rw [hsame]

/-- A frame is accepted exactly if it is well formed, and then everything is carried over unchanged.
Every other frame is refused under its number for the first of its faults. -/
theorem decode_iff_wellFormed (m : FrameMessage) :
    ((∃ f, m.decode = .ok f) ↔ m.WellFormed) ∧
    (∀ f, m.decode = .ok f ↔ m.WellFormed ∧ m.Carries f) ∧
    ∀ e, m.decode = .error e ↔ ∃ fault, m.faults.head? = some fault ∧ e = ⟨m.frame, fault⟩ := by
  rcases verdict_contents m with ⟨f, hf, hnone, hcarries⟩ | ⟨fault, hfault, hfirst⟩
  · have hdecode : m.decode = .ok f := by rw [decode, hf]; rfl
    have hwell : m.WellFormed := faults_eq_nil_iff.1 hnone
    simp only [hdecode, hnone, Except.ok.injEq, exists_eq', hwell, true_and, reduceCtorEq,
      List.head?_nil, false_and, exists_false, implies_true, and_true]
    intro g
    constructor
    · rintro rfl
      exact hcarries
    · exact fun hg => carries_rightUnique hcarries hg
  · have hdecode : m.decode = .error ⟨m.frame, fault⟩ := by rw [decode, hfault]; rfl
    have hnot : ¬ m.WellFormed := by
      rw [← faults_eq_nil_iff]
      intro hnone
      rw [hnone] at hfirst
      cases hfirst
    simp only [hdecode, hnot, hfirst, reduceCtorEq, exists_false, false_and, implies_true,
      Except.error.injEq, Option.some.injEq, exists_eq_left', true_and]
    exact fun e => eq_comm

end FrameMessage

end TileViewer
