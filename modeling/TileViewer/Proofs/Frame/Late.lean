import Mathlib.Data.Finset.Card
import Mathlib.Data.List.Sort
import TileViewer.Proofs.Frame.History

/-!
Late frames. A frame below the cursor never leaves and makes none ready or unready; but until the
next frame is asked for it takes a place like any other, and it counts against the limit.
-/
namespace TileViewer.FrameQueue

variable {f g : Frame} {q q' : FrameQueue} {fs : List Frame} {least : UInt64}

/-- What is seen of one use: the frame that left, the report of too many, whether a frame can be
had then, and how many wait. -/
structure Sight where
  left : Option Frame
  report : Option Backlog
  isReady : Bool
  size : Nat

/-- What is seen use by use. -/
def sights (q : FrameQueue) : List Op → Except Overflow (List Sight)
  | [] => .ok []
  | .push f :: ops =>
    let taken := q.push f
    (taken.sights ops).map (⟨none, taken.backlog?, taken.isReady, taken.size⟩ :: ·)
  | .pop :: ops => do
    let (f, rest) ← q.pop
    (rest.sights ops).map (⟨f, none, rest.isReady, rest.size⟩ :: ·)

/-- The frame that left, and whether one more can be had. -/
def Sight.offer (s : Sight) : Option Frame × Bool := (s.left, s.isReady)

/-- Two queues that differ only in frames below the cursor. -/
structure SameReady (q q' : FrameQueue) : Prop where
  cursor : q.cursor = q'.cursor
  limit : q.limit = q'.limit
  ready : q.ready = q'.ready

theorem SameReady.isReady_eq (h : SameReady q q') : q.isReady = q'.isReady := by
  apply Bool.eq_iff_iff.2
  rw [isReady_iff, isReady_iff, h.ready]

/-- What lies below the cursor is thrown away before the next frame leaves. -/
theorem SameReady.pop_eq (h : SameReady q q') (hc : q.cursor = some least) : q.pop = q'.pop := by
  have hc' : q'.cursor = some least := h.cursor.symm.trans hc
  have hpending : (q.dropBelow least).pending = (q'.dropBelow least).pending := by
    calc (q.dropBelow least).pending
      _ = q.pending.filter (least ≤ ·.seq) := q.ascending.dropWhile_eq_filter least
      _ = q.ready := (ready_of_cursor hc).symm
      _ = q'.ready := h.ready
      _ = q'.pending.filter (least ≤ ·.seq) := ready_of_cursor hc'
      _ = (q'.dropBelow least).pending := (q'.ascending.dropWhile_eq_filter least).symm
  have hkept : q.dropBelow least = q'.dropBelow least := eq_of_fields hpending h.cursor h.limit
  simp only [pop, hc, hc', takeFrom, hkept]

theorem mem_ready_push (hc : q.cursor = some least) :
    g ∈ (q.push f).ready ↔
      g ∈ q.ready ∨ (g = f ∧ least ≤ f.seq ∧ ∀ k ∈ q.ready, k.seq ≠ f.seq) := by
  rw [mem_ready_iff (cursor_push hc f), mem_pending_push, mem_ready_iff hc]
  constructor
  · rintro ⟨hg | ⟨rfl, hnew⟩, hle⟩
    · exact .inl ⟨hg, hle⟩
    · exact .inr ⟨rfl, hle, fun k hk => hnew k (ready_subset_pending hk)⟩
  · rintro (⟨hg, hle⟩ | ⟨rfl, hle, hnew⟩)
    · exact ⟨.inl hg, hle⟩
    · refine ⟨.inr ⟨rfl, ?_⟩, hle⟩
      intro k hk heq
      exact hnew k ((mem_ready_iff hc).2 ⟨hk, heq ▸ hle⟩) heq

theorem SameReady.push (h : SameReady q q') (hc : q.cursor = some least) (f : Frame) :
    SameReady (q.push f) (q'.push f) := by
  have hc' : q'.cursor = some least := h.cursor.symm.trans hc
  refine ⟨(cursor_push hc f).trans (cursor_push hc' f).symm, h.limit, ?_⟩
  apply List.Pairwise.eq_of_mem_iff (q.push f).ascending_ready (q'.push f).ascending_ready
  intro g
  rw [mem_ready_push hc, mem_ready_push hc', h.ready]

theorem sameReady_push_late (hc : q.cursor = some least) (hlate : f.seq < least) :
    SameReady (q.push f) q := by
  refine ⟨(cursor_push hc f).trans hc.symm, rfl, ?_⟩
  apply List.Pairwise.eq_of_mem_iff (q.push f).ascending_ready q.ascending_ready
  intro g
  rw [mem_ready_push hc, or_iff_left]
  rintro ⟨-, hle, -⟩
  exact UInt64.not_lt.2 hle hlate

theorem ready_pushAll_late (hc : q.cursor = some least) (hlate : ∀ g ∈ fs, g.seq < least) :
    (fs.foldl push q).ready = q.ready := by
  induction fs generalizing q with
  | nil => rfl
  | cons f fs ih =>
    obtain ⟨hf, hfs⟩ := List.forall_mem_cons.1 hlate
    rw [List.foldl_cons, ih (cursor_push hc f) hfs]
    exact (sameReady_push_late hc hf).ready

theorem map_offer_cons (seen : Except Overflow (List Sight)) (s : Sight) :
    (seen.map (s :: ·)).map (·.map Sight.offer) =
      (seen.map (·.map Sight.offer)).map (s.offer :: ·) := by
  cases seen with
  | error e => rfl
  | ok later => rfl

/-- Two such queues give the same frames at the same uses, and are ready at the same times. -/
theorem SameReady.offers_eq (h : SameReady q q') (hc : q.cursor = some least) (ops : List Op) :
    (q.sights ops).map (·.map Sight.offer) = (q'.sights ops).map (·.map Sight.offer) := by
  induction ops generalizing q q' with
  | nil => rfl
  | cons op ops ih =>
    cases op with
    | push f =>
      have hlater := ih (h.push hc f) (cursor_push hc f)
      rw [sights, sights, map_offer_cons, map_offer_cons, hlater]
      simp only [Sight.offer, (h.push hc f).isReady_eq]
    | pop => rw [sights, sights, h.pop_eq hc]

/-- The numbers of the waiting frames. -/
def numbers (q : FrameQueue) : Finset UInt64 := (q.pending.map (·.seq)).toFinset

theorem mem_numbers {n : UInt64} : n ∈ q.numbers ↔ ∃ g ∈ q.pending, g.seq = n := by
  rw [numbers, List.mem_toFinset, List.mem_map]

theorem card_numbers (q : FrameQueue) : q.numbers.card = q.size := by
  have hnodup : (q.pending.map (·.seq)).Nodup := by
    apply List.pairwise_map.2
    exact q.ascending.imp fun hlt => UInt64.ne_of_lt hlt
  rw [numbers, List.toFinset_card_of_nodup hnodup, List.length_map, size]

theorem numbers_push (q : FrameQueue) (f : Frame) :
    (q.push f).numbers = insert f.seq q.numbers := by
  ext n
  rw [Finset.mem_insert, mem_numbers, mem_numbers]
  constructor
  · rintro ⟨g, hg, rfl⟩
    rcases mem_pending_push.1 hg with hg | ⟨rfl, -⟩
    · exact .inr ⟨g, hg, rfl⟩
    · exact .inl rfl
  · rintro (rfl | ⟨g, hg, rfl⟩)
    · exact exists_mem_insertFrame q.ascending f
    · exact ⟨g, mem_pending_push.2 (.inl hg), rfl⟩

theorem numbers_pushAll (q : FrameQueue) (fs : List Frame) :
    (fs.foldl push q).numbers = q.numbers ∪ (fs.map (·.seq)).toFinset := by
  induction fs generalizing q with
  | nil => simp
  | cons f fs ih =>
    rw [List.foldl_cons, ih, numbers_push, List.map_cons, List.toFinset_cons,
      Finset.insert_union, Finset.union_insert]

theorem backlog?_eq_none_iff : q.backlog? = none ↔ q.numbers.card ≤ q.limit := by
  rw [card_numbers, backlog?]
  split
  · next hover => exact iff_of_false (by simp) (Nat.not_le.2 hover)
  · next hfits => exact iff_of_true rfl (Nat.not_lt.1 hfits)

/-- A copy of a frame that waits changes nothing. -/
theorem push_eq_self (hc : q.cursor = some least) (hknown : f.seq ∈ q.numbers) :
    q.push f = q := by
  refine eq_of_fields ?_ ((cursor_push hc f).trans hc.symm) rfl
  apply List.Pairwise.eq_of_mem_iff (q.push f).ascending q.ascending
  intro g
  rw [mem_pending_push, or_iff_left]
  rintro ⟨-, hnew⟩
  obtain ⟨k, hk, hks⟩ := mem_numbers.1 hknown
  exact hnew k hk hks

theorem size_push_eq_iff : (q.push f).size = q.size ↔ f.seq ∈ q.numbers := by
  rw [← card_numbers, ← card_numbers, numbers_push]
  constructor
  · intro h
    by_contra hnew
    rw [Finset.card_insert_of_notMem hnew] at h
    omega
  · intro hknown
    rw [Finset.insert_eq_of_mem hknown]

/-- What a frame below the cursor does to a queue. The frames that leave, and when, are the same
with it and without it. It goes unseen exactly if its number waits already and no more frames wait
than may. Otherwise it takes a place: late frames alone, which leave nothing more to give, are
reported as too many as soon as there are more numbers, late or not, than may wait. -/
theorem late_unseen_iff (hc : q.cursor = some least) (hlate : f.seq < least) :
    (q.push f).pop = q.pop ∧
      (∀ ops, ((q.push f).sights ops).map (·.map Sight.offer) =
        (q.sights ops).map (·.map Sight.offer)) ∧
      (((q.push f).backlog? = none ∧ (q.push f).size = q.size ∧
          ∀ ops, (q.push f).sights ops = q.sights ops) ↔
        f.seq ∈ q.numbers ∧ q.size ≤ q.limit) ∧
      ∀ fs : List Frame, (∀ g ∈ fs, g.seq < least) → (fs.foldl push q).ready = q.ready ∧
        ((fs.foldl push q).backlog? = none ↔
          (q.numbers ∪ (fs.map (·.seq)).toFinset).card ≤ q.limit) := by
  have hsame := sameReady_push_late hc hlate
  refine ⟨hsame.pop_eq (cursor_push hc f), hsame.offers_eq (cursor_push hc f), ?_, ?_⟩
  · constructor
    · rintro ⟨hfits, hsize, -⟩
      rw [backlog?_eq_none_iff, card_numbers, hsize] at hfits
      exact ⟨size_push_eq_iff.1 hsize, hfits⟩
    · rintro ⟨hknown, hfits⟩
      rw [push_eq_self hc hknown, backlog?_eq_none_iff, card_numbers]
      exact ⟨hfits, rfl, fun _ => rfl⟩
  · intro fs hfs
    refine ⟨ready_pushAll_late hc hfs, ?_⟩
    rw [backlog?_eq_none_iff, numbers_pushAll, limit_pushAll]

/-- The copy of a late frame that waits goes unseen, another late frame does not. -/
theorem late_unseen_iff_copy :
    ∃ (five three copy four : Frame) (q : FrameQueue),
      run 3 [.push five, .push three] = .ok ([], q) ∧ q.cursor = some 5 ∧
      copy.seq < 5 ∧ copy ≠ three ∧ four.seq < 5 ∧
      ((q.push copy).backlog? = none ∧ (q.push copy).size = q.size ∧
        ∀ ops, (q.push copy).sights ops = q.sights ops) ∧
      (q.push four).pop = q.pop ∧
      ¬ ((q.push four).backlog? = none ∧ (q.push four).size = q.size ∧
        ∀ ops, (q.push four).sights ops = q.sights ops) := by
  let frame (n : UInt64) (full : Bool) : Frame := ⟨n, 0, 0, 1, 1, [], [], full, none⟩
  obtain ⟨q, hrun, hc, hnumbers, hsize, hlimit⟩ : ∃ q,
      run 3 [.push (frame 5 false), .push (frame 3 false)] = .ok ([], q) ∧ q.cursor = some 5 ∧
      q.numbers = {3, 5} ∧ q.size = 2 ∧ q.limit = 3 := ⟨_, rfl, rfl, by decide, rfl, rfl⟩
  have hthree : (3 : UInt64) < 5 := by decide
  have hfour : (4 : UInt64) < 5 := by decide
  obtain ⟨-, -, hcopy, -⟩ := late_unseen_iff (f := frame 3 true) hc hthree
  obtain ⟨hpop, -, hother, -⟩ := late_unseen_iff (f := frame 4 false) hc hfour
  refine ⟨frame 5 false, frame 3 false, frame 3 true, frame 4 false, q, hrun, hc, hthree,
    by decide, hfour, hcopy.2 ⟨?_, ?_⟩, hpop, fun h => ?_⟩
  · rw [hnumbers]
    decide
  · rw [hsize, hlimit]
    decide
  · have hmem := (hother.1 h).1
    rw [hnumbers] at hmem
    exact absurd hmem (by decide)

/-- One frame to give and a hundred late ones are reported as too many. -/
theorem late_frames_overflow :
    ∃ (first : Frame) (late : List Frame) (q : FrameQueue),
      run 100 [.push first] = .ok ([], q) ∧ q.cursor = some first.seq ∧ q.backlog? = none ∧
      (∀ g ∈ late, g.seq < first.seq) ∧ (late.foldl push q).ready = [first] ∧
      (late.foldl push q).backlog? = some ⟨101, 100⟩ := by
  let frame (n : Nat) : Frame := ⟨n.toUInt64, 0, 0, 1, 1, [], [], false, none⟩
  exact ⟨frame 100, (List.range 100).map frame, _, rfl, rfl, rfl, by decide +kernel,
    by decide +kernel, by decide +kernel⟩

end TileViewer.FrameQueue
