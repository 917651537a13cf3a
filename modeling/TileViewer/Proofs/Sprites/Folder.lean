import Mathlib.Data.List.Nodup
import TileViewer.SpriteSheet.Folder
import TileViewer.Proofs.Sprites.Uses

/-!
Sheets loaded from folders. A folder lists its files in any order, and the one that comes last gives
an id its image. So the order shows exactly where files with one id hold images that differ, and it
never does where each id is spelled in one way only.
-/
namespace TileViewer

namespace SpriteFile

variable {f g : SpriteFile} {id : UInt32} {img : Image}

/-- The file stands for an id, but there is no image in it. -/
def Broken (f : SpriteFile) : Prop := id? f.name ≠ none ∧ f.image? = none

/-- The name without a sign and without zeros in front. -/
def nameOf (id : UInt32) : String := toString id.toNat ++ String.ofList suffix

/-- What loading a file does to a sheet. -/
def use? (f : SpriteFile) : Option SpriteSheet.Use :=
  (id? f.name).bind fun id => f.image?.map (.insert id)

theorem use?_eq_insert_iff :
    f.use? = some (.insert id img) ↔ id? f.name = some id ∧ f.image? = some img := by
  simp only [use?, Option.bind_eq_some_iff, Option.map_eq_some_iff, SpriteSheet.Use.insert.injEq]
  constructor
  · rintro ⟨id', hid, img', himg, rfl, rfl⟩
    exact ⟨hid, himg⟩
  · rintro ⟨hid, himg⟩
    exact ⟨id, hid, img, himg, rfl, rfl⟩

theorem exists_image_of_not_broken (hid : id? f.name = some id) (h : ¬f.Broken) :
    ∃ img, f.image? = some img := by
  refine Option.ne_none_iff_exists'.1 fun hnone => h ⟨?_, hnone⟩
  rw [hid]
  exact Option.some_ne_none id

end SpriteFile

namespace SpriteSheet

variable {s : SpriteSheet} {sprite id : UInt32} {files listing other : List SpriteFile}
  {f g : SpriteFile}

/-- Two loads cannot be told apart: both fail, or their sheets give out the same images. -/
inductive Agree : Except FolderFault SpriteSheet → Except FolderFault SpriteSheet → Prop
  | failed (e e' : FolderFault) : Agree (.error e) (.error e')
  | loaded {s t : SpriteSheet} (h : ∀ id turn, (s.tile id turn).1 = (t.tile id turn).1) :
    Agree (.ok s) (.ok t)

theorem foldlM_addFile (h : ∀ f ∈ files, ¬f.Broken) (s : SpriteSheet) :
    files.foldlM addFile s = .ok ((files.filterMap SpriteFile.use?).foldl use s) := by
  induction files generalizing s with
  | nil => rfl
  | cons f files ih =>
    rw [List.forall_mem_cons] at h
    rw [List.foldlM_cons, List.filterMap_cons]
    cases hid : SpriteFile.id? f.name with
    | none =>
      have huse : f.use? = none := by rw [SpriteFile.use?, hid, Option.bind_none]
      simp only [addFile, hid, huse]
      exact ih h.2 s
    | some id =>
      obtain ⟨img, himg⟩ := SpriteFile.exists_image_of_not_broken hid h.1
      have huse : f.use? = some (.insert id img) := SpriteFile.use?_eq_insert_iff.2 ⟨hid, himg⟩
      simp only [addFile, hid, himg, huse]
      exact ih h.2 (s.insert id img)

theorem foldlM_addFile_of_broken (h : ∃ f ∈ files, f.Broken) (s : SpriteSheet) :
    ∃ e, files.foldlM addFile s = .error e := by
  induction files generalizing s with
  | nil => exact absurd h (by simp)
  | cons f files ih =>
    rw [List.foldlM_cons]
    cases hadd : s.addFile f with
    | error e => exact ⟨e, rfl⟩
    | ok t =>
      obtain ⟨g, hg, hbroken⟩ := h
      rcases List.mem_cons.1 hg with rfl | hg
      · obtain ⟨id, hid⟩ := Option.ne_none_iff_exists'.1 hbroken.1
        simp only [addFile, hid, hbroken.2] at hadd
        cases hadd
      · exact ih ⟨g, hg, hbroken⟩ t

/-- Loading sound files comes to giving their images to their ids, one after the other. -/
theorem ofFolder_eq_used (h : ∀ f ∈ files, ¬f.Broken) (sprite : UInt32) :
    ofFolder (some files) sprite =
      .ok (used (max sprite 1) (files.filterMap SpriteFile.use?)) :=
  foldlM_addFile h (ofSprite sprite)

theorem exists_file_of_latest {img : Image}
    (h : latest (files.filterMap SpriteFile.use?) id = some img) :
    ∃ f ∈ files, SpriteFile.id? f.name = some id ∧ f.image? = some img := by
  obtain ⟨u, hu, himg⟩ := List.mem_filterMap.1 (List.mem_of_getLast? h)
  obtain ⟨f, hf, huse⟩ := List.mem_filterMap.1 hu
  cases u with
  | insert id' img' =>
    simp only [Use.image?] at himg
    split at himg
    · next heq =>
      cases himg
      exact ⟨f, hf, SpriteFile.use?_eq_insert_iff.1 (heq ▸ huse)⟩
    · cases himg
  | ask id' turn => cases himg
  | forget => cases himg

theorem exists_latest (hsound : ∀ f ∈ files, ¬f.Broken) (hf : f ∈ files)
    (hid : SpriteFile.id? f.name = some id) :
    ∃ img, latest (files.filterMap SpriteFile.use?) id = some img := by
  refine Option.ne_none_iff_exists'.1 fun hnone => ?_
  obtain ⟨img, himg⟩ := SpriteFile.exists_image_of_not_broken hid (hsound f hf)
  refine latest_eq_none_iff.1 hnone img (List.mem_filterMap.2 ⟨f, hf, ?_⟩)
  exact SpriteFile.use?_eq_insert_iff.2 ⟨hid, himg⟩

/-- Any file of an id can come last, and then the id has the image of that file. -/
theorem exists_listing (hsound : ∀ f ∈ files, ¬f.Broken) (hf : f ∈ files)
    (hid : SpriteFile.id? f.name = some id) (sprite : UInt32) (turn : Rotation) :
    ∃ listing s, listing.Perm files ∧ ofFolder (some listing) sprite = .ok s ∧
      (s.tile id turn).1 =
        f.image?.map fun img => (img.scale (max sprite 1)).rotate turn := by
  obtain ⟨before, after, rfl⟩ := List.append_of_mem hf
  have hperm : (before ++ after ++ [f]).Perm (before ++ f :: after) :=
    (List.perm_append_singleton f _).trans List.perm_middle.symm
  have hsound' : ∀ g ∈ before ++ after ++ [f], ¬g.Broken := fun g hg =>
    hsound g (hperm.mem_iff.1 hg)
  obtain ⟨img, himg⟩ := SpriteFile.exists_image_of_not_broken hid (hsound f hf)
  have huse : f.use? = some (.insert id img) := SpriteFile.use?_eq_insert_iff.2 ⟨hid, himg⟩
  refine ⟨_, _, hperm, ofFolder_eq_used hsound' sprite, ?_⟩
  rw [tile_used_eq_latest, List.filterMap_append, List.filterMap_cons_some huse,
    List.filterMap_nil, latest_concat, Use.image?, if_pos rfl, himg]
  rfl

/-- All orders of the files agree if files of one id look alike once they are scaled. -/
theorem agree_of_alike (hsound : ∀ f ∈ files, ¬f.Broken)
    (halike : ∀ f ∈ files, ∀ g ∈ files, ∀ id, SpriteFile.id? f.name = some id →
      SpriteFile.id? g.name = some id →
        f.image?.map (·.scale (max sprite 1)) = g.image?.map (·.scale (max sprite 1)))
    (hlisting : listing.Perm files) (hother : other.Perm files) :
    Agree (ofFolder (some listing) sprite) (ofFolder (some other) sprite) := by
  have hsound₁ : ∀ f ∈ listing, ¬f.Broken := fun f hf => hsound f (hlisting.mem_iff.1 hf)
  have hsound₂ : ∀ f ∈ other, ¬f.Broken := fun f hf => hsound f (hother.mem_iff.1 hf)
  rw [ofFolder_eq_used hsound₁, ofFolder_eq_used hsound₂]
  refine .loaded fun id turn => ?_
  rw [tile_used_eq_latest, tile_used_eq_latest]
  cases h₁ : latest (listing.filterMap SpriteFile.use?) id with
  | none =>
    cases h₂ : latest (other.filterMap SpriteFile.use?) id with
    | none => rfl
    | some img =>
      obtain ⟨g, hg, hid, -⟩ := exists_file_of_latest h₂
      obtain ⟨img', himg'⟩ :=
        exists_latest hsound₁ (hlisting.mem_iff.2 (hother.mem_iff.1 hg)) hid
      exact absurd (h₁.symm.trans himg') (Option.some_ne_none img').symm
  | some img =>
    obtain ⟨f, hf, hid, himg⟩ := exists_file_of_latest h₁
    obtain ⟨img', h₂⟩ := exists_latest hsound₂ (hother.mem_iff.2 (hlisting.mem_iff.1 hf)) hid
    obtain ⟨g, hg, hid', himg'⟩ := exists_file_of_latest h₂
    have hsame := halike f (hlisting.mem_iff.1 hf) g (hother.mem_iff.1 hg) id hid hid'
    rw [himg, himg'] at hsame
    have hscaled : img.scale (max sprite 1) = img'.scale (max sprite 1) := Option.some.inj hsame
    rw [h₂, Option.map_some, Option.map_some, hscaled]

theorem agree_of_broken (h : ∃ f ∈ files, f.Broken) (hlisting : listing.Perm files)
    (hother : other.Perm files) :
    Agree (ofFolder (some listing) sprite) (ofFolder (some other) sprite) := by
  obtain ⟨f, hf, hbroken⟩ := h
  obtain ⟨e, he⟩ :=
    foldlM_addFile_of_broken ⟨f, hlisting.mem_iff.2 hf, hbroken⟩ (ofSprite sprite)
  obtain ⟨e', he'⟩ := foldlM_addFile_of_broken ⟨f, hother.mem_iff.2 hf, hbroken⟩ (ofSprite sprite)
  rw [ofFolder, ofFolder, he, he']
  exact .failed e e'

/-- In whatever order a folder lists its files the same images come of it, exactly if one of them
is broken, so that nothing comes of it, or all files of one id look alike once they are scaled. With
different names that spell each id in one way there is only one file for it. -/
theorem orders_agree_iff (files : List SpriteFile) (sprite : UInt32) :
    ((∀ listing other : List SpriteFile, listing.Perm files → other.Perm files →
        Agree (ofFolder (some listing) sprite) (ofFolder (some other) sprite)) ↔
      (∃ f ∈ files, f.Broken) ∨
        ∀ f ∈ files, ∀ g ∈ files, ∀ id, SpriteFile.id? f.name = some id →
          SpriteFile.id? g.name = some id →
            f.image?.map (·.scale (max sprite 1)) = g.image?.map (·.scale (max sprite 1))) ∧
    ((files.map SpriteFile.name).Nodup →
      (∀ f ∈ files, ∀ id, SpriteFile.id? f.name = some id → f.name = SpriteFile.nameOf id) →
        ∀ listing other : List SpriteFile, listing.Perm files → other.Perm files →
          Agree (ofFolder (some listing) sprite) (ofFolder (some other) sprite)) := by
  refine ⟨⟨fun h => ?_, ?_⟩, ?_⟩
  · by_cases hbroken : ∃ f ∈ files, f.Broken
    · exact .inl hbroken
    · have hsound : ∀ f ∈ files, ¬f.Broken := fun f hf hb => hbroken ⟨f, hf, hb⟩
      refine .inr fun f hf g hg id hid hid' => ?_
      obtain ⟨listing, s, hlisting, hs, hf'⟩ := exists_listing hsound hf hid sprite .none
      obtain ⟨other, t, hother, ht, hg'⟩ := exists_listing hsound hg hid' sprite .none
      have hagree := h listing other hlisting hother
      rw [hs, ht] at hagree
      cases hagree with
      | loaded hsame => exact hf'.symm.trans ((hsame id .none).trans hg')
  · rintro (hbroken | halike) listing other hlisting hother
    · exact agree_of_broken hbroken hlisting hother
    · by_cases hbroken : ∃ f ∈ files, f.Broken
      · exact agree_of_broken hbroken hlisting hother
      · exact agree_of_alike (fun f hf hb => hbroken ⟨f, hf, hb⟩) halike hlisting hother
  · intro hnames hspelled listing other hlisting hother
    by_cases hbroken : ∃ f ∈ files, f.Broken
    · exact agree_of_broken hbroken hlisting hother
    · refine agree_of_alike (fun f hf hb => hbroken ⟨f, hf, hb⟩) ?_ hlisting hother
      intro f hf g hg id hid hid'
      have hname : f.name = g.name := (hspelled f hf id hid).trans (hspelled g hg id hid').symm
      rw [List.inj_on_of_nodup_map hnames hf hg hname]

theorem filled_ne {c d : Color} (h : c ≠ d) : Image.filled 1 1 c ≠ Image.filled 1 1 d := by
  intro heq
  have hpixel := congrArg (Image.pixel? · 0 0) heq
  simp only [Image.pixel?_filled] at hpixel
  exact h (Option.some.inj hpixel)

theorem spelled_plainly (red blue : Option Image) :
    ∀ f ∈ [(⟨"5.png", red⟩ : SpriteFile), ⟨"notes.txt", none⟩, ⟨"12.png", blue⟩], ∀ id,
      SpriteFile.id? f.name = some id → f.name = SpriteFile.nameOf id := by
  have h₁ : SpriteFile.id? "5.png" = some 5 := by decide
  have h₂ : SpriteFile.id? "notes.txt" = none := by decide
  have h₃ : SpriteFile.id? "12.png" = some 12 := by decide
  have h₄ : "5.png" = SpriteFile.nameOf 5 := by decide
  have h₅ : "12.png" = SpriteFile.nameOf 12 := by decide
  intro f hf id hid
  simp only [List.mem_cons, List.not_mem_nil, or_false] at hf
  rcases hf with rfl | rfl | rfl
  · cases h₁.symm.trans hid
    exact h₄
  · cases h₂.symm.trans hid
  · cases h₃.symm.trans hid
    exact h₅

/-- Two files with different ids, which their names spell in one way, and a file without one. -/
theorem orders_agree_plain_names :
    ∃ (red blue : Image) (files : List SpriteFile),
      files = [⟨"5.png", some red⟩, ⟨"notes.txt", none⟩, ⟨"12.png", some blue⟩] ∧ red ≠ blue ∧
      (files.map SpriteFile.name).Nodup ∧
      (∀ f ∈ files, ∀ id, SpriteFile.id? f.name = some id → f.name = SpriteFile.nameOf id) ∧
      Agree (ofFolder (some files) 1) (ofFolder (some files.reverse) 1) := by
  refine ⟨.filled 1 1 (.rgb 255 0 0), .filled 1 1 (.rgb 0 0 255), _, rfl, filled_ne (by decide),
    by decide, ?_, ?_⟩
  · exact spelled_plainly _ _
  · exact (orders_agree_iff _ 1).2 (by decide) (spelled_plainly _ _) _ _ (.refl _)
      (List.reverse_perm _)

/-- Two spellings of one id: the one that is listed last wins. -/
theorem listing_order_shows :
    ∃ (red blue : Image) (files : List SpriteFile),
      files = [⟨"05.png", some red⟩, ⟨"5.png", some blue⟩] ∧
      (files.map SpriteFile.name).Nodup ∧
      ¬Agree (ofFolder (some files) 1) (ofFolder (some files.reverse) 1) := by
  let red : Image := .filled 1 1 (.rgb 255 0 0)
  let blue : Image := .filled 1 1 (.rgb 0 0 255)
  have hsound : ∀ f ∈ [(⟨"05.png", some red⟩ : SpriteFile), ⟨"5.png", some blue⟩], ¬f.Broken := by
    intro f hf hbroken
    simp only [List.mem_cons, List.not_mem_nil, or_false] at hf
    rcases hf with rfl | rfl <;> cases hbroken.2
  have huse : SpriteFile.use? ⟨"05.png", some red⟩ = some (.insert 5 red) :=
    SpriteFile.use?_eq_insert_iff.2 ⟨by decide, rfl⟩
  have huse' : SpriteFile.use? ⟨"5.png", some blue⟩ = some (.insert 5 blue) :=
    SpriteFile.use?_eq_insert_iff.2 ⟨by decide, rfl⟩
  have hload := ofFolder_eq_used hsound 1
  have hload' := ofFolder_eq_used (fun f hf => hsound f (List.mem_reverse.1 hf)) 1
  refine ⟨red, blue, _, rfl, by decide, fun hagree => ?_⟩
  rw [hload, hload'] at hagree
  cases hagree with
  | loaded hsame =>
    have h5 := hsame 5 .none
    rw [tile_used_eq_latest, tile_used_eq_latest] at h5
    simp only [List.reverse_cons, List.reverse_nil, List.nil_append, List.cons_append,
      List.filterMap_cons_some huse, List.filterMap_cons_some huse', List.filterMap_nil] at h5
    have hscaled : blue.scale 1 = red.scale 1 := Option.some.inj h5
    rw [Image.scale, if_pos ⟨rfl, rfl⟩, Image.scale, if_pos ⟨rfl, rfl⟩] at hscaled
    exact filled_ne (by decide) hscaled

end SpriteSheet

end TileViewer
