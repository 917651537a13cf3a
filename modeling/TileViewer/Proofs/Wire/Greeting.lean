import TileViewer.Proofs.Json.Meaning
import TileViewer.Wire.Hello

/-!
The viewer's own message is one line whatever the names in it are, and the line tells all that the
message says.
-/
namespace TileViewer

open Json

namespace Hello

theorem written_toJson (h : Hello) : h.toJson.Written := by
  refine written_ofFields ?_
  simp only [List.forall_mem_cons]
  exact ⟨written_ofText _, written_ofText _, written_ofOption written_ofText,
    written_ofOption written_ofText, written_ofText _, nofun⟩

theorem ofJson?_toJson (h : Hello) : ofJson? h.toJson = some h := by
  have htype : type? (ofText typeName) = some () := by
    change (if (Literal.ofString typeName).text? = some typeName then some () else none) = some ()
    rw [Literal.text?_ofString, if_pos rfl]
  rw [toJson, ofJson?, Record.ofJson?_ofFields (by rfl) (by decide)]
  simp [Record.required?, Record.optional?, Record.withDefault?, htype]

/-- The text before the end of the line. -/
theorem read_line (h : Hello) : ∃ text, h.line = text ++ "\n" ∧ '\n' ∉ text.toList ∧
    (Json.read? text).bind ofJson? = some h := by
  refine ⟨h.toJson.render, rfl, ?_, ?_⟩
  · intro hmem
    rw [Json.render, String.toList_ofList] at hmem
    exact absurd (by decide) (printable_renderChars h.written_toJson '\n' hmem)
  · rw [read?_render h.written_toJson, Option.bind_some, ofJson?_toJson]

/-- A message is exactly one line, the text of the line is read as this message, and no other
message has the same line. -/
theorem line_framed_and_read_back :
    (∀ h : Hello, ∃ text, h.line = text ++ "\n" ∧ '\n' ∉ text.toList ∧
      (Json.read? text).bind ofJson? = some h) ∧ Function.Injective line := by
  refine ⟨read_line, ?_⟩
  intro h h' hline
  obtain ⟨text, htext, -, hread⟩ := h.read_line
  obtain ⟨text', htext', -, hread'⟩ := h'.read_line
  have hsame : text ++ "\n" = text' ++ "\n" := htext.symm.trans (hline.trans htext')
  obtain rfl : text = text' := by
    rw [String.ext_iff, String.toList_append, String.toList_append] at hsame
    exact String.ext (List.append_cancel_right hsame)
  exact Option.some.inj (hread.symm.trans hread')

end Hello

end TileViewer
