import TileViewer.Proofs.Json.Meaning
import TileViewer.Wire.Message

/-!
Frames over the wire. The text of a frame message is read as this message again, so a viewer gets
the frame it stands for, or the fault for which it is refused.
-/
namespace TileViewer

open Json

namespace PatchMessage

theorem written_toJson (p : PatchMessage) : p.toJson.Written := by
  refine written_ofFields ?_
  simp only [List.forall_mem_cons]
  refine ⟨written_ofInt _, written_ofInt _, written_ofInt _, written_ofInt _, ?_, nofun⟩
  exact written_array_map fun stack _ => written_array_map fun layer _ =>
    written_array_map fun n _ => written_ofInt _

theorem ofJson?_toJson (p : PatchMessage) : ofJson? p.toJson = some p := by
  have hcells : list? (list? (list? word?)) (.array (p.cells.map fun stack => .array (stack.map
      fun layer => .array (layer.map fun n : Int64 => .ofInt n.toInt)))) = some p.cells :=
    list?_map fun stack _ => list?_map fun layer _ => list?_map fun n _ => word?_int64 n
  rw [toJson, ofJson?, Record.ofJson?_ofFields (by rfl) (by decide)]
  simp [Record.required?, Record.withDefault?, hcells]

end PatchMessage

namespace Creature

theorem written_toJson (c : Creature) : c.toJson.Written := by
  refine written_ofFields ?_
  simp only [List.forall_mem_cons]
  refine ⟨.array ?_, written_ofInt _, written_ofInt _, written_ofOption written_ofText, nofun⟩
  simp only [List.forall_mem_cons]
  exact ⟨written_ofInt _, written_ofInt _, nofun⟩

theorem ofJson?_toJson (c : Creature) : ofJson? c.toJson = some c := by
  have hposition : position? (.array [.ofInt c.x.toInt, .ofInt c.y.toInt]) = some (c.x, c.y) := by
    simp [position?]
  rw [toJson, ofJson?, Record.ofJson?_ofFields (by rfl) (by decide)]
  simp [Record.required?, Record.withDefault?, hposition]

end Creature

namespace FrameMessage

theorem written_toJson (m : FrameMessage) : m.toJson.Written := by
  refine written_ofFields ?_
  simp only [List.forall_mem_cons]
  exact ⟨written_ofInt _, written_ofInt _, written_ofInt _, written_ofInt _, written_ofInt _,
    written_bool _, written_array_map fun p _ => p.written_toJson,
    written_array_map fun c _ => c.written_toJson, written_ofOption fun _ => written_ofInt _, nofun⟩

theorem ofJson?_toJson (m : FrameMessage) : ofJson? m.toJson = some m := by
  have hpatches : list? PatchMessage.ofJson? (.array (m.patches.map PatchMessage.toJson)) =
      some m.patches := list?_map fun p _ => p.ofJson?_toJson
  have hcreatures : list? Creature.ofJson? (.array (m.creatures.map Creature.toJson)) =
      some m.creatures := list?_map fun c _ => c.ofJson?_toJson
  have hticks : nullable? word? (ofOption (fun t : UInt64 => .ofInt t.toNat) m.ticks) =
      some m.ticks :=
    nullable?_ofOption (g := fun t : UInt64 => .ofInt t.toNat) (fun _ => nofun) word?_uint64 _
  rw [toJson, ofJson?, Record.ofJson?_ofFields (by rfl) (by decide)]
  simp [Record.required?, Record.withDefault?, bool?, hpatches, hcreatures, hticks]

end FrameMessage

namespace Message

/-- A frame message says nothing of a type. -/
theorem type?_toJson (m : FrameMessage) : type? m.toJson = some none := by
  rw [FrameMessage.toJson, type?, Record.ofJson?_of_disjoint (by simp)]
  rfl

/-- The text of a frame message is always read. What comes of it is the frame that the message
stands for, or its fault. -/
theorem parse_render_frame (m : FrameMessage) :
    parse m.toJson.render = (m.decode.mapError MessageFault.malformed).map Message.frame ∧
      parse m.toJson.render ≠ .error .json := by
  have hparse : parse m.toJson.render =
      (m.decode.mapError MessageFault.malformed).map Message.frame := by
    rw [parse, read?_render m.written_toJson]
    simp only [ofJson, type?_toJson, ofFrameJson, FrameMessage.ofJson?_toJson]
    cases m.decode with
    | ok f => rfl
    | error e => rfl
  refine ⟨hparse, ?_⟩
  rw [hparse]
  cases m.decode with
  | ok f => exact nofun
  | error e => exact nofun

end Message

end TileViewer
