import TileViewer.SideData

/-!
What is known after some updates: of every field the value that was told last, and of the events the
newest ones.
-/
namespace TileViewer

variable {α : Type} {field : SideUpdate → Option α}

/-- What the last update says that says anything about a field. -/
def SideUpdate.latest (field : SideUpdate → Option α) (us : List SideUpdate) : Option α :=
  us.reverse.findSome? field

/-- The markup of all the events, in the order in which they were told. -/
def SideUpdate.told (us : List SideUpdate) : List String := us.flatMap fun u => u.events.getD []

/-- The ticks of an update, unless it has none or tells by a negative number that there are none. -/
def SideUpdate.ticks? (u : SideUpdate) : Option Nat :=
  u.ticks.bind fun t => if 0 ≤ t.toInt then some t.toInt.toNat else none

theorem SideUpdate.latest_cons (u : SideUpdate) (us : List SideUpdate) :
    latest field (u :: us) = (latest field us).or (field u) := by
  simp [latest, List.findSome?_append]

namespace SideData

open SideUpdate

/-- Takes in updates one after the other. -/
def applyAll (d : SideData) (us : List SideUpdate) : SideData := us.foldl apply d

/-- What a view of the data shows after some updates, if an update changes it to what the update
says about a field. -/
theorem view_applyAll (view : SideData → Option α)
    (h : ∀ d u, view (d.apply u) = (field u).or (view d)) (d : SideData) (us : List SideUpdate) :
    view (d.applyAll us) = (latest field us).or (view d) := by
  induction us generalizing d with
  | nil => rfl
  | cons u us ih =>
    have hrest : view (d.applyAll (u :: us)) = (latest field us).or (view (d.apply u)) :=
      ih (d.apply u)
    rw [hrest, h, latest_cons, Option.or_assoc]

/-- A view that is always there, and that an update may leave alone. -/
theorem kept_view_applyAll (view : SideData → α)
    (h : ∀ d u, view (d.apply u) = (field u).getD (view d)) (d : SideData) (us : List SideUpdate) :
    view (d.applyAll us) = (latest field us).getD (view d) := by
  have happly (d : SideData) (u : SideUpdate) :
      some (view (d.apply u)) = (field u).or (some (view d)) := by
    rw [h, Option.or_some]
  have hsome := view_applyAll (fun d => some (view d)) happly d us
  rw [Option.or_some] at hsome
  exact Option.some.inj hsome

theorem ticks_apply (d : SideData) (u : SideUpdate) :
    (d.apply u).ticks.map UInt64.toNat = u.ticks?.or (d.ticks.map UInt64.toNat) := by
  unfold ticks? apply
  dsimp only
  cases u.ticks with
  | none => rfl
  | some t =>
    have hiff : 0 ≤ t ↔ 0 ≤ t.toInt := Int64.le_iff_toInt_le
    by_cases ht : 0 ≤ t
    · simp [Option.filter, ht, hiff.1 ht, Int64.toNat_toUInt64_of_le]
    · simp [Option.filter, ht, mt hiff.2 ht]

/-- Keeping the newest events at each turn keeps the newest of all. -/
theorem foldl_pushEvent (events markup : List String) :
    markup.foldl pushEvent (events.take maxEvents) =
      ((markup.map Text.ofMarkup).reverse ++ events).take maxEvents := by
  induction markup generalizing events with
  | nil => rfl
  | cons m markup ih =>
    have hpush : pushEvent (events.take maxEvents) m =
        (Text.ofMarkup m :: events).take maxEvents := by
      simp [pushEvent, maxEvents, List.take_take]
    rw [List.foldl_cons, hpush, ih]
    simp

theorem events_applyAll (d : SideData) (us : List SideUpdate) :
    (d.applyAll us).events = (told us).foldl pushEvent d.events := by
  induction us generalizing d with
  | nil => rfl
  | cons u us ih =>
    have hrest : (d.applyAll (u :: us)).events = (told us).foldl pushEvent (d.apply u).events :=
      ih (d.apply u)
    rw [hrest, told, told, List.flatMap_cons, List.foldl_append]
    rfl

/-- What there is to know after some updates. -/
structure Knows (d : SideData) (us : List SideUpdate) : Prop where
  score : d.score = latest SideUpdate.score us
  rank : d.rank = latest SideUpdate.rank us
  bestScore : d.bestScore = latest SideUpdate.bestScore us
  bestRank : d.bestRank = latest SideUpdate.bestRank us
  scores : d.scores = (latest SideUpdate.scores us).getD []
  stats : d.stats = (latest SideUpdate.stats us).getD []
  round : d.round = latest SideUpdate.round us
  ticks : d.ticks.map UInt64.toNat = latest ticks? us
  events : d.events = ((told us).reverse.map Text.ofMarkup).take 8

theorem knows_applyAll (us : List SideUpdate) : (applyAll {} us).Knows us where
  score := (view_applyAll SideData.score (fun _ _ => rfl) {} us).trans Option.or_none
  rank := (view_applyAll SideData.rank (fun _ _ => rfl) {} us).trans Option.or_none
  bestScore := (view_applyAll SideData.bestScore (fun _ _ => rfl) {} us).trans Option.or_none
  bestRank := (view_applyAll SideData.bestRank (fun _ _ => rfl) {} us).trans Option.or_none
  scores := kept_view_applyAll SideData.scores (fun _ _ => rfl) {} us
  stats := kept_view_applyAll SideData.stats (fun _ _ => rfl) {} us
  round := (view_applyAll SideData.round (fun _ _ => rfl) {} us).trans Option.or_none
  ticks :=
    (view_applyAll (fun d => d.ticks.map UInt64.toNat) ticks_apply {} us).trans Option.or_none
  events := by
    have hnewest := foldl_pushEvent [] (told us)
    rw [List.append_nil, ← List.map_reverse] at hnewest
    rw [events_applyAll]
    exact hnewest

/-- After any updates the data hold what was told last of each field, and the eight newest events as
plain text. So two batches are one, and an update that tells of none of this changes nothing. -/
theorem told_latest (us : List SideUpdate) :
    (applyAll {} us).Knows us ∧
    (∀ (d : SideData) (vs : List SideUpdate),
      (d.applyAll us).applyAll vs = d.applyAll (us ++ vs)) ∧
    ∀ (d : SideData) (hits : Option (List Hit)), d.apply { hits } = d := by
  refine ⟨knows_applyAll us, ?_, ?_⟩
  · intro d vs
    exact List.foldl_append.symm
  · intro d hits
    rfl

end SideData

end TileViewer
