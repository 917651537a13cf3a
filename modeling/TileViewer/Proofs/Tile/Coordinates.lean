import Mathlib.Data.Finset.Card
import Mathlib.Data.List.Find
import Mathlib.Data.List.Infix
import Mathlib.Data.Set.Basic
import TileViewer.Tile.Store

/-!
The store as a map from coordinates. It is one on every set of coordinates that has no two of one
key; two accepted coordinates have one key when they lie a column and `rowStride` rows apart.
-/
namespace TileViewer

/-- A column and a row of the world. -/
abbrev Coord := Int32 × Int32

namespace Coord

variable {c d : Coord}

def key (c : Coord) : Int := packedKey c.1 c.2

/-- Whether a store takes stacks for this coordinate. -/
abbrev Accepted (c : Coord) : Prop := rowFits c.2 = true

/-- `d` is one column further and `rowStride` rows back. -/
def Before (c d : Coord) : Prop :=
  d.1.toInt = c.1.toInt + 1 ∧ d.2.toInt = c.2.toInt - rowStride

def Twins (c d : Coord) : Prop := Before c d ∨ Before d c

theorem accepted_iff : Accepted c ↔ -32768 < c.2.toInt ∧ c.2.toInt < 32768 := by
  rw [Accepted, rowFits, decide_eq_true_iff, rowStride]
  omega

theorem ext_toInt (hx : c.1.toInt = d.1.toInt) (hy : c.2.toInt = d.2.toInt) : c = d :=
  Prod.ext (Int32.toInt_inj.1 hx) (Int32.toInt_inj.1 hy)

theorem key_eq_iff (hc : Accepted c) (hd : Accepted d) : key c = key d ↔ c = d ∨ Twins c d := by
  rw [accepted_iff] at hc hd
  simp only [key, packedKey, Twins, Before, rowStride]
  constructor
  · intro h
    by_cases hx : c.1.toInt = d.1.toInt
    · exact .inl (ext_toInt hx (by omega))
    · exact .inr (by omega)
  · rintro (rfl | h)
    · rfl
    · omega

theorem not_twins_self (c : Coord) : ¬ Twins c c := by
  simp only [Twins, Before]
  omega

/-- The rows in the middle, half as many as the ones a store takes. -/
abbrev InBand (c : Coord) : Prop := -16384 ≤ c.2.toInt ∧ c.2.toInt ≤ 16383

theorem InBand.accepted (h : InBand c) : Accepted c := by
  rw [accepted_iff]
  omega

theorem InBand.not_twins (hc : InBand c) (hd : InBand d) : ¬ Twins c d := by
  simp only [InBand, Twins, Before, rowStride] at *
  omega

end Coord

namespace TileStore

variable {s : TileStore} {c d : Coord} {stack : LayerStack}

/-- One use of a store. -/
inductive Op
  | insert (c : Coord) (stack : LayerStack)
  | clear

def use (s : TileStore) : Op → TileStore
  | .insert c stack => s.insert c.1 c.2 stack
  | .clear => {}

def run (ops : List Op) : TileStore := ops.foldl use {}

/-- What a store was told, newest first. -/
abbrev Log := List (Coord × LayerStack)

/-- Adds a use to a log. Only what is accepted counts, and nothing from before a clearing. -/
def Log.use (log : Log) : Op → Log
  | .insert c stack => if c.Accepted then (c, stack) :: log else log
  | .clear => []

def log (ops : List Op) : Log := ops.foldl Log.use []

/-- The coordinates written since the last clearing. -/
def written (ops : List Op) : Finset Coord := ((log ops).map Prod.fst).toFinset

/-- The stack written last at a coordinate. -/
def latest (ops : List Op) (c : Coord) : Option LayerStack :=
  ((log ops).find? (·.1 = c)).map Prod.snd

/-- A store holds the newest entry of its log under each key. -/
structure Holds (s : TileStore) (log : Log) : Prop where
  known : ∀ k, s.known[k]? = (log.find? (·.1.key = k)).map Prod.snd
  size : s.size = (log.map (·.1.key)).toFinset.card

theorem holds_empty : Holds {} [] := by
  constructor <;> simp [TileStore.size]

theorem Holds.mem_iff {log : Log} (h : Holds s log) (k : Int) :
    k ∈ s.known ↔ k ∈ log.map (·.1.key) := by
  rw [Std.HashMap.mem_iff_isSome_getElem?, h.known, Option.isSome_map, List.find?_isSome]
  simp

theorem Holds.use {log : Log} (h : Holds s log) (op : Op) : Holds (s.use op) (log.use op) := by
  cases op with
  | clear => exact holds_empty
  | insert c stack =>
    simp only [TileStore.use, Log.use, TileStore.insert]
    split
    · constructor
      · intro k
        simp only [Std.HashMap.getElem?_insert, List.find?_cons, Coord.key]
        split <;> simp_all [h.known, Coord.key]
      · have hmem := h.mem_iff c.key
        have hsize := h.size
        simp only [TileStore.size, Std.HashMap.size_insert] at hsize ⊢
        rw [List.map_cons, List.toFinset_cons]
        change (if c.key ∈ s.known then _ else _) = _
        split
        · rw [Finset.insert_eq_of_mem (List.mem_toFinset.2 (hmem.1 ‹_›)), hsize]
        · rw [Finset.card_insert_of_notMem fun hk => ‹c.key ∉ _› (hmem.2 (List.mem_toFinset.1 hk)),
            hsize]
    · exact h

theorem holds_foldl {log : Log} (h : Holds s log) (ops : List Op) :
    Holds (ops.foldl TileStore.use s) (ops.foldl Log.use log) := by
  induction ops generalizing s log with
  | nil => exact h
  | cons op ops ih => exact ih (h.use op)

theorem holds_run (ops : List Op) : Holds (run ops) (log ops) := holds_foldl holds_empty ops

theorem mem_foldl_log {log : Log} {w : Coord × LayerStack} {ops : List Op}
    (h : w ∈ ops.foldl Log.use log) : w ∈ log ∨ (.insert w.1 w.2 ∈ ops ∧ w.1.Accepted) := by
  induction ops generalizing log with
  | nil => exact .inl h
  | cons op ops ih =>
    rcases ih h with h | ⟨h, ha⟩
    · cases op with
      | clear => simp [Log.use] at h
      | insert c stack =>
        simp only [Log.use] at h
        split at h
        · next hc =>
          rcases List.mem_cons.1 h with rfl | h
          · exact .inr ⟨List.mem_cons_self, hc⟩
          · exact .inl h
        · exact .inl h
    · exact .inr ⟨List.mem_cons_of_mem _ h, ha⟩

theorem mem_log {w : Coord × LayerStack} {ops : List Op} (h : w ∈ log ops) :
    .insert w.1 w.2 ∈ ops ∧ w.1.Accepted :=
  (mem_foldl_log h).resolve_left List.not_mem_nil

theorem mem_written {ops : List Op} (h : c ∈ written ops) :
    ∃ stack, .insert c stack ∈ ops ∧ c.Accepted := by
  obtain ⟨w, hw, rfl⟩ := List.mem_map.1 (List.mem_toFinset.1 h)
  exact ⟨w.2, mem_log hw⟩

theorem get?_run (ops : List Op) (hc : c.Accepted) :
    (run ops).get? c.1 c.2 = ((log ops).find? (·.1.key = c.key)).map Prod.snd := by
  rw [TileStore.get?, if_pos hc]
  exact (holds_run ops).known c.key

theorem size_run (ops : List Op) : (run ops).size = ((written ops).image Coord.key).card := by
  rw [(holds_run ops).size]
  congr 1
  ext k
  simp [written]

theorem run_concat (ops : List Op) (op : Op) : run (ops ++ [op]) = (run ops).use op := by
  simp [run]

theorem log_concat (ops : List Op) (op : Op) : log (ops ++ [op]) = (log ops).use op := by
  simp [log]

/-- On the coordinates of `D` the store answers as a map from coordinates would. -/
structure AgreesOn (D : Set Coord) (ops : List Op) : Prop where
  get? : ∀ c ∈ D, (run ops).get? c.1 c.2 = latest ops c
  size : (run ops).size = (written ops).card

theorem agreesOn_of_no_twins {D : Set Coord} {ops : List Op} (hD : ∀ c ∈ D, c.Accepted)
    (hops : ∀ c stack, .insert c stack ∈ ops → c.Accepted → c ∈ D)
    (htwins : ∀ c stack, .insert c stack ∈ ops → c.Accepted → ∀ d ∈ D, ¬ c.Twins d) :
    AgreesOn D ops where
  get? d hd := by
    rw [get?_run ops (hD d hd), latest]
    congr 1
    refine List.find?_congr fun w hw => ?_
    obtain ⟨hw, ha⟩ := mem_log hw
    rw [decide_eq_decide, Coord.key_eq_iff ha (hD d hd), or_iff_left (htwins _ _ hw ha d hd)]
  size := by
    rw [size_run]
    refine Finset.card_image_of_injOn ?_
    intro c hc d hd hkey
    obtain ⟨stack, hc, hca⟩ := mem_written hc
    obtain ⟨stack', hd, hda⟩ := mem_written hd
    exact ((Coord.key_eq_iff hca hda).1 hkey).resolve_right
      (htwins c stack hc hca d (hops d stack' hd hda))

theorem not_twins_of_agreesOn {D : Set Coord} {ops : List Op} (hD : ∀ c ∈ D, c.Accepted)
    (hc : c.Accepted) (hd : d ∈ D) (h : AgreesOn D (ops ++ [.insert c stack])) : ¬ c.Twins d := by
  intro htwins
  have hkey : c.key = d.key := (Coord.key_eq_iff hc (hD d hd)).2 (.inr htwins)
  have hlog : log (ops ++ [.insert c stack]) = (c, stack) :: log ops := by
    rw [log_concat, Log.use, if_pos hc]
  have hget := h.get? d hd
  rw [get?_run _ (hD d hd), hlog, List.find?_cons_of_pos (by simpa using hkey), latest] at hget
  have hmem : c ∈ written (ops ++ [.insert c stack]) := by simp [written, hlog]
  have hmem' : d ∈ written (ops ++ [.insert c stack]) := by
    obtain ⟨w, hw, -⟩ := Option.map_eq_some_iff.1 hget.symm
    have hwd : w.1 = d := by simpa using List.find?_some hw
    exact List.mem_toFinset.2 (List.mem_map.2 ⟨w, List.mem_of_find?_eq_some hw, hwd⟩)
  have hinj := Finset.card_image_iff.1 ((size_run _).symm.trans h.size)
  exact Coord.not_twins_self c (hinj hmem hmem' hkey ▸ htwins)

theorem get?_run_insert_of_ne {ops : List Op} (hd : d.Accepted) (hc : c.Accepted) (hne : d ≠ c)
    (htwins : ¬ c.Twins d) :
    (run (ops ++ [.insert c stack])).get? d.1 d.2 = (run ops).get? d.1 d.2 := by
  rw [run_concat, TileStore.use, get?_insert, if_neg]
  rintro ⟨-, -, hkey⟩
  rcases (Coord.key_eq_iff hc hd).1 hkey with rfl | h
  · exact hne rfl
  · exact htwins h

/-- Exactly when a store behaves, all along a history and at the coordinates of `D`, as a map from
coordinates: it gives the stack written last at a coordinate, counts the coordinates written, and
changes no coordinate by writing to another. It does when nothing is written next to a twin. -/
theorem agreesOn_history_iff (D : Set Coord) (ops : List Op) (hD : ∀ c ∈ D, c.Accepted)
    (hops : ∀ c stack, .insert c stack ∈ ops → c.Accepted → c ∈ D) :
    ((∀ before, before <+: ops → AgreesOn D before) ∧
      (∀ before c stack, before ++ [.insert c stack] <+: ops → c.Accepted → ∀ d ∈ D, d ≠ c →
        (run (before ++ [.insert c stack])).get? d.1 d.2 = (run before).get? d.1 d.2)) ↔
    ∀ c stack, .insert c stack ∈ ops → c.Accepted → ∀ d ∈ D, ¬ c.Twins d := by
  constructor
  · rintro ⟨h, -⟩ c stack hmem hc d hd
    obtain ⟨before, after, rfl⟩ := List.append_of_mem hmem
    exact not_twins_of_agreesOn hD hc hd (h (before ++ [.insert c stack]) ⟨after, by simp⟩)
  · intro h
    refine ⟨?_, ?_⟩
    · intro before hb
      exact agreesOn_of_no_twins hD (fun c stack hc => hops c stack (hb.subset hc))
        (fun c stack hc => h c stack (hb.subset hc))
    · intro before c stack hb hc d hd hne
      exact get?_run_insert_of_ne (hD d hd) hc hne (h c stack (hb.subset (by simp)) hc d hd)

/-- Neighbouring columns as many rows apart as the band allows are told apart. -/
theorem agreesOn_band :
    AgreesOn {c | c.InBand} [.insert (0, 16383) [⟨1, .none⟩], .insert (1, -16384) [⟨2, .none⟩],
      .clear, .insert (0, 0) [], .insert (1, -16384) [⟨3, .half⟩]] := by
  have hband : ∀ (c : Coord) (stack : LayerStack), Op.insert c stack ∈
      [.insert (0, 16383) [⟨1, .none⟩], .insert (1, -16384) [⟨2, .none⟩], .clear,
        .insert (0, 0) [], .insert (1, -16384) [⟨3, .half⟩]] → c.InBand := by
    intro c stack h
    simp only [List.mem_cons, Op.insert.injEq, List.not_mem_nil, or_false, reduceCtorEq,
      false_or] at h
    rcases h with ⟨rfl, -⟩ | ⟨rfl, -⟩ | ⟨rfl, -⟩ | ⟨rfl, -⟩ <;> decide
  refine ((agreesOn_history_iff {c | c.InBand} _ (fun c hc => hc.accepted) ?_).2 ?_).1 _
    List.prefix_rfl
  · exact fun c stack hc _ => hband c stack hc
  · exact fun c stack hc _ d hd => (hband c stack hc).not_twins hd

/-- A stack written to one coordinate is found at its twin, whose own is gone. -/
theorem twin_overwritten :
    ∃ ops : List Op, ops = [.insert (0, 1) [⟨1, .none⟩], .insert (1, -32767) [⟨2, .none⟩]] ∧
      (run ops).get? 0 1 = some [⟨2, .none⟩] ∧ latest ops (0, 1) = some [⟨1, .none⟩] ∧
      (run ops).size = 1 ∧ (written ops).card = 2 := by
  refine ⟨_, rfl, ?_, by decide, ?_, by decide⟩
  · rw [get?_run _ (c := (0, 1)) (by decide)]
    decide
  · rw [size_run]
    decide

end TileStore

end TileViewer
