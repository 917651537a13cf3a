/-! Text with markup, as plain text: tags are left out and a few named characters are written out. -/
namespace TileViewer

namespace Text

/-- The characters outside tags. A tag runs from `<` to the next `>`, or to the end. -/
def dropTags (inTag : Bool) : List Char → List Char
  | [] => []
  | c :: cs =>
    if c = '<' then dropTags true cs
    else if inTag then dropTags (c ≠ '>') cs
    else c :: dropTags false cs

/-- What follows `pattern`, if the text begins with it. -/
def after? : (pattern text : List Char) → Option (List Char)
  | [], cs => some cs
  | _ :: _, [] => none
  | p :: ps, c :: cs => if p = c then after? ps cs else none

theorem after?_length {ps cs rest : List Char} (h : after? ps cs = some rest) :
    rest.length ≤ cs.length := by
  fun_induction after? ps cs with
  | case1 => cases h; exact Nat.le_refl _
  | case2 => cases h
  | case3 _ _ _ ih =>
    have := ih h
    simp only [List.length_cons]
    omega
  | case4 => cases h

/-- Writes `c` for each `&name;`, from left to right. -/
def replaceEntity (name : List Char) (c : Char) (cs : List Char) : List Char :=
  match cs with
  | [] => []
  | d :: ds =>
    if d = '&' then
      match h : after? (name ++ [';']) ds with
      | none => d :: replaceEntity name c ds
      | some rest =>
        have := after?_length h
        c :: replaceEntity name c rest
    else d :: replaceEntity name c ds
termination_by cs.length

/-- The named characters, in the order in which they are written out. -/
def entities : List (List Char × Char) :=
  [(['l', 't'], '<'), (['g', 't'], '>'), (['q', 'u', 'o', 't'], '"'), (['n', 'b', 's', 'p'], ' '),
    (['a', 'm', 'p'], '&')]

/-- The plain text of a text with markup. -/
def ofMarkup (s : String) : String :=
  String.ofList (entities.foldl (fun cs (name, c) => replaceEntity name c cs)
    (dropTags false s.toList))

end Text

end TileViewer
