import Mathlib.Data.Nat.Count
import Mathlib.Tactic.Choose
import TileViewer.Proofs.Damage.Numbers

/-!
What becomes of hits. Each waits until a release reaches its frame, becomes one number then, and is
drawn at the next ten drawings and never again, however these come to follow one another.
-/
namespace TileViewer.DamageNumbers

open scoped List

/-- One use of the numbers. -/
inductive Use
  | queue (hits : List Hit)
  | release (seq : UInt64)
  | advance
  deriving DecidableEq

/-- What a use gives back. -/
inductive Answer
  | queued
  | released (count : Nat)
  | drawn (numbers : List DamageNumber)

def use (d : DamageNumbers) : Use → Except Overflow (Answer × DamageNumbers)
  | .queue hits => .ok (.queued, d.queue hits)
  | .release seq => .ok (.released (d.release seq).1, (d.release seq).2)
  | .advance => do
    let (numbers, d) ← d.advance
    return (.drawn numbers, d)

/-- The hits that the first uses have queued. -/
def queuedBefore (uses : Nat → Use) : Nat → List Hit
  | 0 => []
  | i + 1 => match uses i with
    | .queue hits => queuedBefore uses i ++ hits
    | _ => queuedBefore uses i

/-- How many drawings there are from turn `t` on and before turn `i`. -/
def drawings (uses : Nat → Use) (t i : Nat) : Nat :=
  Nat.count (fun k => t ≤ k ∧ uses k = .advance) i

/-- A hit that has become a number, its direction, and the turn in which it did. -/
structure Birth where
  hit : Hit
  direction : Direction
  turn : Nat

/-- `n` is the number of a birth after so many drawings. -/
def Birth.DrawnAs (b : Birth) (speed : Int32) (age : Nat) (n : DamageNumber) : Prop :=
  DamageNumber.Rises speed b.hit b.direction age n

variable {speed : Int32} {uses : Nat → Use} {i t : Nat} {d d' : DamageNumbers}
  {births : List Birth}

/-- What turn `i` does: the births before it, what it leaves, the use and its answer, and the
births after it. -/
inductive Turn (speed : Int32) (uses : Nat → Use) (i : Nat) (births : List Birth)
    (d' : DamageNumbers) : Use → Answer → List Birth → Prop
  | queue (hits : List Hit) : Turn speed uses i births d' (.queue hits) .queued births
  | release (seq : UInt64) (new : List Birth)
      (hnew : ∀ b ∈ new, b.turn = i ∧ b.hit.frame ≤ seq)
      (hleft : ∀ hit ∈ d'.waiting, seq < hit.frame) :
      Turn speed uses i births d' (.release seq) (.released new.length) (births ++ new)
  | advance (numbers : List DamageNumber)
      (hdrawn : List.Forall₂ (fun b => b.DrawnAs speed (drawings uses b.turn (i + 1)))
        (births.filter fun b => drawings uses b.turn (i + 1) ≤ 10) numbers) :
      Turn speed uses i births d' .advance (.drawn numbers) births

/-- The lives of all numbers of a run: every hit that was queued waits or was born, one birth for
each, and it was born when a release had reached its frame. -/
structure Lives (speed : Int32) (uses : Nat → Use) (states : Nat → DamageNumbers)
    (answers : Nat → Answer) (births : Nat → List Birth) : Prop where
  start : births 0 = []
  conserved : ∀ i, (states i).waiting ++ (births i).map Birth.hit ~ queuedBefore uses i
  due : ∀ i, ∀ b ∈ births i, b.turn < i ∧ ∃ seq, uses b.turn = .release seq ∧ b.hit.frame ≤ seq
  turn : ∀ i, Turn speed uses i (births i) (states (i + 1)) (uses i) (answers i) (births (i + 1))

theorem drawings_self (uses : Nat → Use) (t : Nat) : drawings uses t t = 0 :=
  Nat.count_iff_forall_not.2 fun _ hk h => Nat.not_le_of_lt hk h.1

theorem drawings_succ_of_ne (h : uses i ≠ .advance) : drawings uses t (i + 1) = drawings uses t i :=
  Nat.count_succ_eq_count_iff.2 fun hi => h hi.2

theorem drawings_succ_of_advance (h : uses i = .advance) (ht : t ≤ i) :
    drawings uses t (i + 1) = drawings uses t i + 1 :=
  Nat.count_succ_eq_succ_count_iff.2 ⟨ht, h⟩

/-- The numbers before turn `i`. Those alive have not been drawn ten times. -/
structure Alive (speed : Int32) (uses : Nat → Use) (i : Nat) (d : DamageNumbers)
    (births : List Birth) : Prop where
  speed_eq : d.speed = speed
  conserved : d.waiting ++ births.map Birth.hit ~ queuedBefore uses i
  due : ∀ b ∈ births, b.turn < i ∧ ∃ seq, uses b.turn = .release seq ∧ b.hit.frame ≤ seq
  live : List.Forall₂ (fun b => b.DrawnAs speed (drawings uses b.turn i))
    (births.filter fun b => drawings uses b.turn i < 10) d.live

/-- The births that a release in turn `i` brings. -/
def bornAt (i : Nat) (due : List (Hit × Direction)) : List Birth :=
  due.map fun g => ⟨g.1, g.2, i⟩

theorem hits_bornAt (i : Nat) (due : List (Hit × Direction)) :
    (bornAt i due).map Birth.hit = due.map Prod.fst := by
  rw [bornAt, List.map_map]
  rfl

/-- What is born in a turn has not been drawn before it. -/
theorem drawings_of_mem_bornAt {due : List (Hit × Direction)} {b : Birth} (hb : b ∈ bornAt i due) :
    drawings uses b.turn i = 0 := by
  obtain ⟨g, -, rfl⟩ := List.mem_map.1 hb
  exact drawings_self uses i

theorem drawnAs_bornAt (hpos : 0 < speed.toInt) (due : List (Hit × Direction)) :
    List.Forall₂ (fun b => b.DrawnAs speed (drawings uses b.turn i)) (bornAt i due)
      (due.map fun g => .ofHit g.1 speed g.2) := by
  rw [bornAt, List.forall₂_map_left_iff, List.forall₂_map_right_iff, List.forall₂_same]
  intro g _
  rw [Birth.DrawnAs, drawings_self]
  exact DamageNumber.rises_ofHit hpos g.1 g.2

/-- Those alive after a drawing are some of those that it draws. -/
theorem filter_kept (uses : Nat → Use) (i : Nat) (births : List Birth) :
    (births.filter fun b => drawings uses b.turn (i + 1) < 10) =
      (births.filter fun b => drawings uses b.turn (i + 1) ≤ 10).filter
        fun b => drawings uses b.turn (i + 1) < 10 := by
  rw [List.filter_filter]
  refine List.filter_congr ?_
  intro b _
  rw [← Bool.decide_and, decide_eq_decide]
  omega

namespace Alive

theorem due_succ (h : Alive speed uses i d births) :
    ∀ b ∈ births, b.turn < i + 1 ∧ ∃ seq, uses b.turn = .release seq ∧ b.hit.frame ≤ seq := by
  intro b hb
  obtain ⟨hturn, hdue⟩ := h.due b hb
  exact ⟨Nat.lt_succ_of_lt hturn, hdue⟩

theorem queue {hits : List Hit} (h : Alive speed uses i d births) (hu : uses i = .queue hits) :
    Alive speed uses (i + 1) (d.queue hits) births := by
  have hne : uses i ≠ .advance := by simp [hu]
  refine ⟨h.speed_eq, ?_, h.due_succ, ?_⟩
  · rw [queuedBefore, hu]
    calc (d.waiting ++ hits) ++ births.map Birth.hit
      _ = d.waiting ++ (hits ++ births.map Birth.hit) := List.append_assoc _ _ _
      _ ~ d.waiting ++ (births.map Birth.hit ++ hits) := List.perm_append_comm.append_left _
      _ = (d.waiting ++ births.map Birth.hit) ++ hits := (List.append_assoc _ _ _).symm
      _ ~ queuedBefore uses i ++ hits := h.conserved.append_right hits
  · simp only [drawings_succ_of_ne hne]
    exact h.live

theorem release {seq : UInt64} (h : Alive speed uses i d births) (hpos : 0 < speed.toInt)
    (hu : uses i = .release seq) :
    ∃ new : List Birth, (d.release seq).1 = new.length ∧
      (∀ b ∈ new, b.turn = i ∧ b.hit.frame ≤ seq) ∧
      (∀ hit ∈ (d.release seq).2.waiting, seq < hit.frame) ∧
      Alive speed uses (i + 1) (d.release seq).2 (births ++ new) := by
  obtain ⟨due, hreleased, hperm, hle, hlt⟩ := split_splits d.speed seq d.waiting d.random
  have hne : uses i ≠ .advance := by simp [hu]
  have hnew : ∀ b ∈ bornAt i due, b.turn = i ∧ b.hit.frame ≤ seq := by
    intro b hb
    obtain ⟨g, hg, rfl⟩ := List.mem_map.1 hb
    exact ⟨rfl, hle g hg⟩
  refine ⟨bornAt i due, ?_, hnew, hlt, h.speed_eq, ?_, ?_, ?_⟩
  · change (split d.speed seq d.waiting d.random).2.1.length = (bornAt i due).length
    rw [hreleased, bornAt, List.length_map, List.length_map]
  · rw [queuedBefore, hu, List.map_append, hits_bornAt]
    calc (d.release seq).2.waiting ++ (births.map Birth.hit ++ due.map Prod.fst)
      _ ~ births.map Birth.hit ++ ((d.release seq).2.waiting ++ due.map Prod.fst) :=
        List.perm_append_comm_assoc _ _ _
      _ ~ births.map Birth.hit ++ d.waiting := hperm.append_left _
      _ ~ d.waiting ++ births.map Birth.hit := List.perm_append_comm
      _ ~ queuedBefore uses i := h.conserved
  · intro b hb
    rcases List.mem_append.1 hb with hb | hb
    · exact h.due_succ b hb
    · obtain ⟨hturn, hframe⟩ := hnew b hb
      exact ⟨hturn ▸ Nat.lt_succ_self i, seq, hturn ▸ hu, hframe⟩
  · simp only [drawings_succ_of_ne hne, List.filter_append]
    refine List.rel_append h.live ?_
    have hall : ((bornAt i due).filter fun b => drawings uses b.turn i < 10) = bornAt i due := by
      refine List.filter_eq_self.2 ?_
      intro b hb
      rw [drawings_of_mem_bornAt hb]
      rfl
    rw [hall, hreleased, h.speed_eq]
    exact drawnAs_bornAt hpos due

theorem drawings_succ (h : Alive speed uses i d births) (hu : uses i = .advance) {b : Birth}
    (hb : b ∈ births) : drawings uses b.turn (i + 1) = drawings uses b.turn i + 1 :=
  drawings_succ_of_advance hu (Nat.le_of_lt (h.due b hb).1)

/-- A drawing draws the numbers that were alive before it. -/
theorem filter_drawn (h : Alive speed uses i d births) (hu : uses i = .advance) :
    (births.filter fun b => drawings uses b.turn (i + 1) ≤ 10) =
      births.filter fun b => drawings uses b.turn i < 10 := by
  refine List.filter_congr ?_
  intro b hb
  rw [h.drawings_succ hu hb]
  exact decide_eq_decide.2 Nat.succ_le_iff

theorem gives_drawn (h : Alive speed uses i d births) (hpos : 0 < speed.toInt)
    (hspeed : speed.toInt ≤ 2 ^ 22) (hu : uses i = .advance) :
    Gives (d.live.mapM DamageNumber.advance)
      (List.Forall₂ (fun b => b.DrawnAs speed (drawings uses b.turn (i + 1)))
        (births.filter fun b => drawings uses b.turn (i + 1) ≤ 10)) := by
  rw [h.filter_drawn hu]
  refine Gives.mapM_forall₂ h.live ?_
  intro b hb n hn
  obtain ⟨hmem, hlt⟩ := List.mem_filter.1 hb
  rw [h.drawings_succ hu hmem]
  exact hn.gives_advance hpos hspeed (of_decide_eq_true hlt)

theorem advance (h : Alive speed uses i d births) (hpos : 0 < speed.toInt)
    (hspeed : speed.toInt ≤ 2 ^ 22) (hu : uses i = .advance) :
    ∃ numbers d', d.advance = .ok (numbers, d') ∧
      List.Forall₂ (fun b => b.DrawnAs speed (drawings uses b.turn (i + 1)))
        (births.filter fun b => drawings uses b.turn (i + 1) ≤ 10) numbers ∧
      Alive speed uses (i + 1) d' births := by
  obtain ⟨numbers, hnumbers, hdrawn⟩ := h.gives_drawn hpos hspeed hu
  refine ⟨numbers, { d with live := numbers.filter (·.age < DamageNumber.lifetime) }, ?_, hdrawn,
    h.speed_eq, ?_, h.due_succ, ?_⟩
  · rw [DamageNumbers.advance, hnumbers]
    rfl
  · rw [queuedBefore, hu]
    exact h.conserved
  · rw [filter_kept]
    refine List.rel_filter ?_ hdrawn
    intro b n hn
    dsimp only
    rw [decide_eq_true_iff, decide_eq_true_iff, UInt32.lt_iff_toNat_lt, hn.age_eq]
    rfl

/-- One use more. -/
theorem step (h : Alive speed uses i d births) (hpos : 0 < speed.toInt)
    (hspeed : speed.toInt ≤ 2 ^ 22) :
    ∃ answer d' births', d.use (uses i) = .ok (answer, d') ∧
      Turn speed uses i births d' (uses i) answer births' ∧
      Alive speed uses (i + 1) d' births' := by
  cases hu : uses i with
  | queue hits => exact ⟨_, _, births, rfl, .queue hits, h.queue hu⟩
  | release seq =>
    obtain ⟨new, hcount, hnew, hleft, halive⟩ := h.release hpos hu
    refine ⟨_, _, births ++ new, rfl, ?_, halive⟩
    rw [hcount]
    exact .release seq new hnew hleft
  | advance =>
    obtain ⟨numbers, d', hok, hdrawn, halive⟩ := h.advance hpos hspeed hu
    refine ⟨.drawn numbers, d', births, ?_, .advance numbers hdrawn, halive⟩
    rw [use, hok]
    rfl

end Alive

/-- Where a step is always possible, there is a run. -/
theorem exists_run {σ : Type} {P : Nat → σ → Prop} {R : Nat → σ → σ → Prop} {s : σ} (hs : P 0 s)
    (hstep : ∀ i s, P i s → ∃ s', R i s s' ∧ P (i + 1) s') :
    ∃ run : Nat → σ, run 0 = s ∧ ∀ i, P i (run i) ∧ R i (run i) (run (i + 1)) := by
  have : Nonempty σ := ⟨s⟩
  choose! next hnext using hstep
  let run : Nat → σ := fun i => Nat.rec s next i
  have hrun (i : Nat) : P i (run i) := by
    induction i with
    | zero => exact hs
    | succ i ih => exact (hnext i (run i) ih).2
  exact ⟨run, rfl, fun i => ⟨hrun i, (hnext i (run i) (hrun i)).1⟩⟩

/-- Every run gives its answers without an overflow, and they tell the lives of its numbers. -/
theorem exists_lives {sprite : UInt32} (hsprite : sprite.toNat ≤ 1000000) (seed : UInt32)
    (uses : Nat → Use) :
    ∃ (speed : Int32) (states : Nat → DamageNumbers) (answers : Nat → Answer)
      (births : Nat → List Birth),
      DamageNumber.speedFor sprite = .ok speed ∧ ofSeed sprite seed = .ok (states 0) ∧
      (∀ i, (states i).use (uses i) = .ok (answers i, states (i + 1))) ∧
      Lives speed uses states answers births := by
  obtain ⟨speed, hok, hpos, hle⟩ := DamageNumber.gives_speedFor_of_le hsprite
  have hstart : Alive speed uses 0 { random := Random.ofSeed seed, speed } [] :=
    ⟨rfl, .refl _, nofun, .nil⟩
  obtain ⟨run, hzero, hrun⟩ := exists_run (P := fun i s => Alive speed uses i s.1 s.2)
    (R := fun i s s' => ∃ answer, s.1.use (uses i) = .ok (answer, s'.1) ∧
      Turn speed uses i s.2 s'.1 (uses i) answer s'.2) (s := (_, [])) hstart (by
      intro i s hs
      obtain ⟨answer, d', births', huse, hturn, halive⟩ := hs.step hpos hle
      exact ⟨(d', births'), ⟨answer, huse, hturn⟩, halive⟩)
  choose answers huse hturn using fun i => (hrun i).2
  refine ⟨speed, fun i => (run i).1, answers, fun i => (run i).2, hok, ?_, huse, ?_⟩
  · rw [ofSeed, hok]
    exact congrArg (fun s => Except.ok s.1) hzero.symm
  · exact ⟨congrArg Prod.snd hzero, fun i => (hrun i).1.conserved, fun i => (hrun i).1.due, hturn⟩

namespace Lives

variable {states : Nat → DamageNumbers} {answers : Nat → Answer} {births : Nat → List Birth}

theorem of_queue (h : Lives speed uses states answers births) {hits : List Hit}
    (hu : uses i = .queue hits) : births (i + 1) = births i := by
  have hturn := h.turn i
  rw [hu] at hturn
  generalize births (i + 1) = later, answers i = answer at hturn
  cases hturn
  rfl

theorem of_release (h : Lives speed uses states answers births) {seq : UInt64}
    (hu : uses i = .release seq) :
    ∃ new, births (i + 1) = births i ++ new ∧ answers i = .released new.length ∧
      (∀ b ∈ new, b.turn = i ∧ b.hit.frame ≤ seq) ∧
      ∀ hit ∈ (states (i + 1)).waiting, seq < hit.frame := by
  have hturn := h.turn i
  rw [hu] at hturn
  generalize births (i + 1) = later, answers i = answer at hturn
  cases hturn with
  | release _ new hnew hleft => exact ⟨new, rfl, rfl, hnew, hleft⟩

theorem of_advance (h : Lives speed uses states answers births) (hu : uses i = .advance) :
    births (i + 1) = births i ∧ ∃ numbers, answers i = .drawn numbers ∧
      List.Forall₂ (fun b => b.DrawnAs speed (drawings uses b.turn (i + 1)))
        ((births i).filter fun b => drawings uses b.turn (i + 1) ≤ 10) numbers := by
  have hturn := h.turn i
  rw [hu] at hturn
  generalize births (i + 1) = later, answers i = answer at hturn
  cases hturn with
  | advance numbers hdrawn => exact ⟨rfl, numbers, rfl, hdrawn⟩

end Lives

/-- A hit of frame 3 that is released in time: the tenth drawing shows it, and the eleventh does
not. -/
theorem exists_lives_drawn_ten_times :
    ∃ (states : Nat → DamageNumbers) (answers : Nat → Answer),
      ofSeed 1000000 7 = .ok (states 0) ∧
      (∀ i, (states i).use (match i with
        | 0 => .queue [⟨4, -5, 3, 70⟩]
        | 1 => .release 3
        | _ => .advance) = .ok (answers i, states (i + 1))) ∧
      (∃ n, answers 11 = .drawn [n] ∧ n.worldX = 4 ∧ n.value = 70 ∧ n.age.toNat = 10) ∧
      answers 12 = .drawn [] := by
  let uses : Nat → Use
    | 0 => .queue [⟨4, -5, 3, 70⟩]
    | 1 => .release 3
    | _ => .advance
  have hsprite : (1000000 : UInt32).toNat ≤ 1000000 := by decide
  obtain ⟨speed, states, answers, births, -, hstart, huse, hlives⟩ := exists_lives hsprite 7 uses
  have hadvance (k : Nat) : uses (k + 2) = .advance := rfl
  have hrelease : uses 1 = .release 3 := rfl
  have hqueue : uses 0 = .queue [⟨4, -5, 3, 70⟩] := rfl
  have hqueued : births 1 = [] := (hlives.of_queue (i := 0) hqueue).trans hlives.start
  obtain ⟨new, hnew, -, hdue, hleft⟩ := hlives.of_release (i := 1) hrelease
  rw [hqueued, List.nil_append] at hnew
  -- The only hit does not wait any more, so it is the hit of the only birth.
  have hone : new.map Birth.hit = [⟨4, -5, 3, 70⟩] := by
    have hall : (states 2).waiting ++ new.map Birth.hit = [⟨4, -5, 3, 70⟩] :=
      List.perm_singleton.1 (hnew ▸ hlives.conserved 2)
    rcases List.append_eq_singleton_iff.1 hall with ⟨-, hborn⟩ | ⟨hwaits, -⟩
    · exact hborn
    · exact absurd (hleft _ (hwaits ▸ List.mem_singleton_self _)) (by decide)
  obtain ⟨b, rfl, hhit⟩ := List.map_eq_singleton_iff.1 hone
  have hturn := (hdue b (List.mem_singleton_self b)).1
  have hbirths (k : Nat) : births (k + 2) = [b] := by
    induction k with
    | zero => exact hnew
    | succ k ih => exact (hlives.of_advance (i := k + 2) (hadvance k)).1.trans ih
  refine ⟨states, answers, hstart, huse, ?_, ?_⟩
  · obtain ⟨-, numbers, hanswer, hdrawn⟩ := hlives.of_advance (i := 11) (hadvance 9)
    have hten : drawings uses b.turn (11 + 1) = 10 := by
      rw [hturn]
      decide
    rw [hbirths, List.filter_singleton, hten] at hdrawn
    obtain ⟨n, _, hn, hnil, rfl⟩ := List.forall₂_cons_left_iff.1 hdrawn
    cases hnil
    rw [hten] at hn
    exact ⟨n, hanswer, by rw [hn.worldX, hhit], by rw [hn.value, hhit], hn.age_eq⟩
  · obtain ⟨-, numbers, hanswer, hdrawn⟩ := hlives.of_advance (i := 12) (hadvance 10)
    have hten : drawings uses b.turn (12 + 1) = 11 := by
      rw [hturn]
      decide
    rw [hbirths, List.filter_singleton, hten] at hdrawn
    cases hdrawn
    exact hanswer

end TileViewer.DamageNumbers
