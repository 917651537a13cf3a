import Mathlib.Data.List.Induction
import TileViewer.Proofs.Frame.History

/-!
The end of the numbers. The cursor moves past every frame that leaves, and past the last number
there is no place for it: a frame with that number waits and counts as ready, but asking for it
overflows. Every other run goes through.
-/
namespace TileViewer

/-- The greatest sequence number. -/
def lastNumber : UInt64 := 0xFFFFFFFFFFFFFFFF

variable {f g : Frame}

theorem le_lastNumber (n : UInt64) : n ≤ lastNumber := by
  have hn := n.toNat_lt
  have hlast : lastNumber.toNat = 2 ^ 64 - 1 := rfl
  rw [UInt64.le_iff_toNat_le]
  omega

theorem passable_iff : Passable f ↔ f.seq ≠ lastNumber := by
  constructor
  · intro h
    exact UInt64.ne_of_lt h
  · intro h
    exact UInt64.lt_of_le_of_ne (le_lastNumber f.seq) h

namespace FrameQueue

variable {q q' : FrameQueue} {fs out rest : List Frame} {limit : Nat} {ops : List Op}
  {e : Overflow}

/-- Nothing can wait behind the last number. -/
theorem ready_eq_singleton (h : q.ready = f :: rest) (hf : f.seq = lastNumber) :
    q.ready = [f] := by
  have hasc := q.ascending_ready
  rw [h, Ascending, List.pairwise_cons] at hasc
  have hrest : rest = [] := by
    apply List.eq_nil_iff_forall_not_mem.2
    intro g hg
    have hlt := hasc.1 g hg
    rw [hf] at hlt
    exact UInt64.not_lt.2 (le_lastNumber g.seq) hlt
  rw [h, hrest]

theorem plus_eq_error (h : Word.plus f.seq 1 = .error e) : e = .add ∧ f.seq = lastNumber := by
  obtain ⟨hout, he⟩ := Word.fit_eq_error_iff.1 h
  refine ⟨he, ?_⟩
  by_cases hlast : f.seq = lastNumber
  · exact hlast
  · have hlt : f.seq.toNat < 0xFFFFFFFFFFFFFFFF := UInt64.lt_iff_toNat_lt.1 (passable_iff.2 hlast)
    simp only [Word.toInt, Word.lo, Word.hi, UInt64.toNat_one] at hout
    omega

theorem pop_eq_error (h : q.pop = .error e) :
    e = .add ∧ ∃ f, q.ready = [f] ∧ f.seq = lastNumber := by
  cases hc : q.cursor with
  | none =>
    rw [pop, hc] at h
    cases h
  | some least =>
    have hready : q.ready = (q.dropBelow least).pending :=
      (ready_of_cursor hc).trans (q.ascending.dropWhile_eq_filter least).symm
    cases hk : (q.dropBelow least).pending with
    | nil =>
      simp only [pop, hc, takeFrom, popFirst_of_nil hk] at h
      cases h
    | cons f rest =>
      obtain ⟨k, hfirst, -, -⟩ := popFirst_of_cons hk
      simp only [pop, hc, takeFrom, hfirst] at h
      cases hplus : Word.plus f.seq 1 with
      | ok n =>
        rw [hplus] at h
        cases h
      | error e' =>
        rw [hplus] at h
        cases h
        obtain ⟨he, hf⟩ := plus_eq_error hplus
        exact ⟨he, f, ready_eq_singleton (hready.trans hk) hf, hf⟩

/-- Asking for a frame overflows if the last number is the only one left to give. -/
theorem pop_of_ready_last (hr : q.ready = [f]) (hf : f.seq = lastNumber) :
    q.pop = .error .add := by
  cases hpop : q.pop with
  | error e => rw [(pop_eq_error hpop).1]
  | ok r =>
    obtain ⟨next, q'⟩ := r
    rcases pop_eq_ok hpop with ⟨-, hnil, -⟩ | ⟨g, -, hg, hr', -⟩
    · rw [hr] at hnil
      cases hnil
    · obtain rfl : f = g := (List.cons.inj (hr.symm.trans hr')).1
      exact absurd hf (passable_iff.1 hg)

/-- Some frame is asked for when only the one with the last number is left to give. -/
def AsksForLast (limit : Nat) (ops : List Op) : Prop :=
  ∃ before after out q f, ops = before ++ .pop :: after ∧ run limit before = .ok (out, q) ∧
    q.ready = [f] ∧ f.seq = lastNumber

theorem AsksForLast.append (h : AsksForLast limit ops) (more : List Op) :
    AsksForLast limit (ops ++ more) := by
  obtain ⟨before, after, out, q, f, rfl, hrun, hr, hf⟩ := h
  exact ⟨before, after ++ more, out, q, f, by simp, hrun, hr, hf⟩

theorem run_of_asksForLast (h : AsksForLast limit ops) : run limit ops = .error .add := by
  obtain ⟨before, after, out, q, f, rfl, hrun, hr, hf⟩ := h
  rw [run_append, hrun]
  change (use (out, q) .pop >>= (after.foldlM use ·)) = .error .add
  rw [use, pop_of_ready_last hr hf]
  rfl

/-- A run goes through, or stops where it asks for the last number. -/
theorem run_cases (limit : Nat) (ops : List Op) :
    (∃ out q, run limit ops = .ok (out, q) ∧ History (pushed ops) out q) ∨
      AsksForLast limit ops := by
  induction ops using List.reverseRecOn with
  | nil => exact .inl ⟨[], _, rfl, .new limit⟩
  | append_singleton ops op ih =>
    rcases ih with ⟨out, q, hrun, h⟩ | hlast
    · cases op with
      | push f =>
        refine .inl ⟨out, q.push f, ?_, ?_⟩
        · rw [run_append, hrun]
          rfl
        · rw [pushed_append]
          exact h.push f
      | pop =>
        cases hpop : q.pop with
        | error e =>
          obtain ⟨-, f, hr, hf⟩ := pop_eq_error hpop
          exact .inr ⟨ops, [], out, q, f, rfl, hrun, hr, hf⟩
        | ok r =>
          obtain ⟨next, q'⟩ := r
          refine .inl ⟨out ++ next.toList, q', ?_, ?_⟩
          · rw [run_append, hrun]
            change (use (out, q) .pop >>= pure) = _
            rw [use, hpop]
            rfl
          · rw [pushed_append, pushed, pushed, List.append_nil]
            exact h.of_pop hpop
    · exact .inr (hlast.append [op])

theorem History.lt_last (h : History fs out q) (hg : g ∈ out) : g.seq < lastNumber := by
  cases hc : q.cursor with
  | none =>
    rw [h.out_eq_nil hc] at hg
    exact absurd hg List.not_mem_nil
  | some least => exact UInt64.lt_of_lt_of_le (h.below g hg least hc) (le_lastNumber least)

/-- Runs with all sequence numbers. What leaves is in strictly ascending order and below the last
number; a run goes through unless it asks for a frame when only one with the last number is left to
give, and there it overflows. -/
theorem run_unless_last (limit : Nat) (ops : List Op) :
    (∀ out q, run limit ops = .ok (out, q) → Ascending out ∧ ∀ g ∈ out, g.seq < lastNumber) ∧
      ((∃ out q, run limit ops = .ok (out, q)) ↔ ¬ AsksForLast limit ops) ∧
      (run limit ops = .error .add ↔ AsksForLast limit ops) := by
  rcases run_cases limit ops with ⟨out, q, hrun, h⟩ | hlast
  · have hno : ¬ AsksForLast limit ops := by
      intro hlast
      cases hrun.symm.trans (run_of_asksForLast hlast)
    refine ⟨?_, iff_of_true ⟨out, q, hrun⟩ hno, iff_of_false ?_ hno⟩
    · intro out' q' hrun'
      cases hrun.symm.trans hrun'
      exact ⟨h.ascending, fun g hg => h.lt_last hg⟩
    · intro herror
      cases hrun.symm.trans herror
  · have herror := run_of_asksForLast hlast
    refine ⟨?_, iff_of_false ?_ (not_not_intro hlast), iff_of_true herror hlast⟩
    · intro out q hrun
      cases hrun.symm.trans herror
    · rintro ⟨out, q, hrun⟩
      cases hrun.symm.trans herror

/-- The number before the last leaves while the last one waits, and then the last one is asked
for. -/
theorem run_unless_last_two :
    ∃ ops out q, ops = [.push ⟨0xFFFFFFFFFFFFFFFE, 0, 0, 1, 1, [], [], false, none⟩,
        .push ⟨0xFFFFFFFFFFFFFFFF, 0, 0, 1, 1, [], [], false, none⟩, .pop] ∧
      run 100 ops = .ok (out, q) ∧ out.map (·.seq) = [0xFFFFFFFFFFFFFFFE] ∧ Ascending out ∧
      ¬ AsksForLast 100 ops ∧ AsksForLast 100 (ops ++ [.pop]) := by
  obtain ⟨out, q, hrun, hout⟩ : ∃ out q, run 100 [
      .push ⟨0xFFFFFFFFFFFFFFFE, 0, 0, 1, 1, [], [], false, none⟩,
      .push ⟨0xFFFFFFFFFFFFFFFF, 0, 0, 1, 1, [], [], false, none⟩, .pop] = .ok (out, q) ∧
      out.map (·.seq) = [0xFFFFFFFFFFFFFFFE] := ⟨_, _, rfl, rfl⟩
  obtain ⟨hleft, hthrough, -⟩ := run_unless_last 100 [
      .push ⟨0xFFFFFFFFFFFFFFFE, 0, 0, 1, 1, [], [], false, none⟩,
      .push ⟨0xFFFFFFFFFFFFFFFF, 0, 0, 1, 1, [], [], false, none⟩, .pop]
  have hstops := (run_unless_last 100 [
      .push ⟨0xFFFFFFFFFFFFFFFE, 0, 0, 1, 1, [], [], false, none⟩,
      .push ⟨0xFFFFFFFFFFFFFFFF, 0, 0, 1, 1, [], [], false, none⟩, .pop, .pop]).2.2
  exact ⟨_, out, q, rfl, hrun, hout, (hleft out q hrun).1, hthrough.1 ⟨out, q, hrun⟩,
    hstops.1 rfl⟩

/-- A frame with the last number counts as ready, and asking for it overflows. -/
theorem last_number_overflows :
    ∃ (f : Frame) (q : FrameQueue), f.seq = 0xFFFFFFFFFFFFFFFF ∧
      run 100 [.push f] = .ok ([], q) ∧ q.backlog? = none ∧ q.isReady = true ∧
      run 100 [.push f, .pop] = .error .add :=
  ⟨⟨0xFFFFFFFFFFFFFFFF, 0, 0, 1, 1, [], [], false, none⟩, _, rfl, rfl, rfl, rfl, rfl⟩

end FrameQueue

end TileViewer
