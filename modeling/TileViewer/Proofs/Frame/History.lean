import TileViewer.Proofs.Frame.Ready

/-!
Runs of a queue. Frames leave in strictly ascending order, each of them the first of its number
ever taken in; and no frame at or above the cursor is lost, however many wait.
-/
namespace TileViewer.FrameQueue

variable {f g : Frame} {q q' : FrameQueue} {fs out out' rest : List Frame} {n : UInt64}

/-- One use of a queue. -/
inductive Op
  | push (f : Frame)
  | pop

/-- The frames taken in, oldest first. -/
def pushed : List Op → List Frame
  | [] => []
  | .push f :: ops => f :: pushed ops
  | .pop :: ops => pushed ops

/-- Uses a queue once. The frames given out so far stand before it, oldest first. -/
def use : List Frame × FrameQueue → Op → Except Overflow (List Frame × FrameQueue)
  | (out, q), .push f => .ok (out, q.push f)
  | (out, q), .pop => do
    let (f, q) ← q.pop
    return (out ++ f.toList, q)

theorem ascending_nil : Ascending [] := .nil

/-- Uses a new queue many times. A report of too many waiting frames stops nothing. -/
def run (limit : Nat) (ops : List Op) : Except Overflow (List Frame × FrameQueue) :=
  ops.foldlM use ([], { limit, ascending := ascending_nil })

theorem run_append (limit : Nat) (ops ops' : List Op) :
    run limit (ops ++ ops') = run limit ops >>= (ops'.foldlM use ·) := by
  rw [run, List.foldlM_append]
  rfl

theorem pushed_append (ops ops' : List Op) : pushed (ops ++ ops') = pushed ops ++ pushed ops' := by
  induction ops with
  | nil => rfl
  | cons op ops ih => cases op <;> simp [pushed, ih]

/-- What holds of a queue and the frames given out, once the frames `fs` were taken in. -/
structure History (fs out : List Frame) (q : FrameQueue) : Prop where
  untouched : q.cursor = none → fs = []
  started : ∀ least, q.cursor = some least → ∃ first, fs.head? = some first ∧ first.seq ≤ least
  taken : ∀ g ∈ q.pending, g ∈ fs
  given : ∀ g ∈ out, fs.find? (·.seq = g.seq) = some g
  ascending : Ascending out
  below : ∀ g ∈ out, ∀ least, q.cursor = some least → g.seq < least
  least : ∀ g ∈ out, ∀ first, fs.head? = some first → first.seq ≤ g.seq
  first : ∀ g ∈ q.ready, fs.find? (·.seq = g.seq) = some g
  kept : ∀ g ∈ fs, (∀ least, q.cursor = some least → least ≤ g.seq) →
    ∃ k ∈ q.pending, k.seq = g.seq

theorem History.new (limit : Nat) : History [] [] { limit } where
  untouched _ := rfl
  started _ h := nomatch h
  taken _ h := nomatch h
  given _ h := nomatch h
  ascending := .nil
  below _ h := nomatch h
  least _ h := nomatch h
  first _ h := nomatch h
  kept _ h := nomatch h

theorem History.pending_eq_nil (h : History fs out q) (hc : q.cursor = none) : q.pending = [] := by
  refine List.eq_nil_iff_forall_not_mem.2 ?_
  intro g hg
  have := h.taken g hg
  simp [h.untouched hc] at this

theorem History.out_eq_nil (h : History fs out q) (hc : q.cursor = none) : out = [] := by
  refine List.eq_nil_iff_forall_not_mem.2 ?_
  intro g hg
  have := h.given g hg
  simp [h.untouched hc] at this

theorem History.mem_ready (h : History fs out q) (hg : g ∈ q.pending)
    (hle : ∀ least, q.cursor = some least → least ≤ g.seq) : g ∈ q.ready := by
  cases hc : q.cursor with
  | none => simp [h.pending_eq_nil hc] at hg
  | some least => exact (mem_ready_iff hc).2 ⟨hg, hle least hc⟩

theorem History.passable_of_ready (h : History fs out q) (hfs : ∀ g ∈ fs, Passable g) :
    ∀ g ∈ q.ready, Passable g := by
  intro g hg
  exact hfs g (List.mem_of_find?_eq_some (h.first g hg))

/-- The first frame of all sets the cursor. -/
theorem History.push_first (h : History fs out q) (hc : q.cursor = none) (f : Frame) :
    History (fs ++ [f]) out (q.push f) := by
  have hfs := h.untouched hc
  have hout := h.out_eq_nil hc
  have hpend : (q.push f).pending = [f] := by simp [push, h.pending_eq_nil hc, insertFrame]
  have hcur : (q.push f).cursor = some f.seq := by simp [push, hc]
  subst hfs hout
  constructor <;> simp_all [mem_ready_iff hcur, Ascending]

theorem mem_pending_push : g ∈ (q.push f).pending ↔
    g ∈ q.pending ∨ (g = f ∧ ∀ k ∈ q.pending, k.seq ≠ f.seq) :=
  mem_insertFrame_iff q.ascending

theorem cursor_push {least : UInt64} (hc : q.cursor = some least) (f : Frame) :
    (q.push f).cursor = some least := by
  simp [push, hc]

theorem cursor_pushAll {least : UInt64} (hc : q.cursor = some least) (fs : List Frame) :
    (fs.foldl push q).cursor = some least := by
  induction fs generalizing q with
  | nil => exact hc
  | cons f fs ih => exact ih (cursor_push hc f)

theorem limit_pushAll (q : FrameQueue) (fs : List Frame) :
    (fs.foldl push q).limit = q.limit := by
  induction fs generalizing q with
  | nil => rfl
  | cons f fs ih => exact ih (q.push f)

theorem History.push_later {least : UInt64} (h : History fs out q) (hc : q.cursor = some least)
    (f : Frame) : History (fs ++ [f]) out (q.push f) := by
  have hcur := cursor_push hc f
  obtain ⟨first, hfirst, hle⟩ := h.started least hc
  have hhead : (fs ++ [f]).head? = some first := by simp [hfirst]
  constructor
  case untouched => simp [hcur]
  case started =>
    intro l hl
    cases hcur.symm.trans hl
    exact ⟨first, hhead, hle⟩
  case taken =>
    intro g hg
    rcases mem_pending_push.1 hg with hg | ⟨rfl, -⟩
    · exact List.mem_append_left _ (h.taken g hg)
    · simp
  case given =>
    intro g hg
    rw [List.find?_append, h.given g hg, Option.some_or]
  case ascending => exact h.ascending
  case below => exact fun g hg l hl => h.below g hg l (hc.trans (hcur.symm.trans hl))
  case least => exact fun g hg l hl => h.least g hg l (hfirst.trans (hhead.symm.trans hl))
  case first =>
    intro g hg
    obtain ⟨hg, hge⟩ := (mem_ready_iff hcur).1 hg
    rcases mem_pending_push.1 hg with hg | ⟨rfl, hnew⟩
    · rw [List.find?_append, h.first g ((mem_ready_iff hc).2 ⟨hg, hge⟩), Option.some_or]
    · -- An earlier frame of this number would still wait, and `g` would not have been added.
      have hnone : fs.find? (·.seq = g.seq) = none := by
        refine List.find?_eq_none.2 fun k hk he => ?_
        have he : k.seq = g.seq := of_decide_eq_true he
        obtain ⟨l, hl, hls⟩ := h.kept k hk fun l hl => by
          cases hc.symm.trans hl
          exact he ▸ hge
        exact hnew l hl (hls.trans he)
      simp [List.find?_append, hnone]
  case kept =>
    intro g hg hge
    rcases List.mem_append.1 hg with hg | hg
    · obtain ⟨k, hk, hks⟩ := h.kept g hg fun l hl => hge l (hcur.trans (hc.symm.trans hl))
      exact ⟨k, mem_pending_push.2 (.inl hk), hks⟩
    · cases List.mem_singleton.1 hg
      exact exists_mem_insertFrame q.ascending f

theorem History.push (h : History fs out q) (f : Frame) : History (fs ++ [f]) out (q.push f) := by
  cases hc : q.cursor with
  | none => exact h.push_first hc f
  | some least => exact h.push_later hc f

/-- Frames below the cursor may go at any time. -/
theorem History.discard (h : History fs out q) (hr : q.ready = []) (hpend : q'.pending = [])
    (hcur : q'.cursor = q.cursor) : History fs out q' := by
  have hr' : q'.ready = [] := by
    cases hc : q'.cursor with
    | none => simp [ready, hc]
    | some least => simp [ready_of_cursor hc, hpend]
  refine ⟨hcur ▸ h.untouched, hcur ▸ h.started, by simp [hpend], h.given, h.ascending,
    hcur ▸ h.below, h.least, by simp [hr'], ?_⟩
  intro g hg hge
  rw [hcur] at hge
  obtain ⟨k, hk, hks⟩ := h.kept g hg hge
  have := h.mem_ready hk (hks ▸ hge)
  simp [hr] at this

theorem History.give {least : UInt64} (h : History fs out q) (hc : q.cursor = some least)
    (hr : q.ready = f :: rest) (hf : Passable f) (hpend : q'.pending = rest)
    (hready : q'.ready = rest) (hcur : q'.cursor = some (f.seq + 1)) :
    History fs (out ++ [f]) q' := by
  have hfr : f ∈ q.ready := by simp [hr]
  have hrest (k : Frame) (hk : k ∈ rest) : k ∈ q.ready := by simp [hr, hk]
  have hle : least ≤ f.seq := ((mem_ready_iff hc).1 hfr).2
  have hbefore : ∀ g ∈ out, g.seq < f.seq := fun g hg =>
    UInt64.lt_of_lt_of_le (h.below g hg least hc) hle
  obtain ⟨first, hfirst, hstart⟩ := h.started least hc
  constructor
  case untouched => simp [hcur]
  case started =>
    intro l hl
    cases hcur.symm.trans hl
    refine ⟨first, hfirst, UInt64.le_of_lt ((lt_add_one_iff hf).2 ?_)⟩
    exact UInt64.le_trans hstart hle
  case taken =>
    intro g hg
    exact h.taken g ((mem_ready_iff hc).1 (hrest g (hpend ▸ hg))).1
  case given =>
    intro g hg
    rcases List.mem_append.1 hg with hg | hg
    · exact h.given g hg
    · cases List.mem_singleton.1 hg
      exact h.first f hfr
  case ascending =>
    refine List.pairwise_append.2 ⟨h.ascending, by simp, ?_⟩
    intro g hg k hk
    cases List.mem_singleton.1 hk
    exact hbefore g hg
  case below =>
    intro g hg l hl
    cases hcur.symm.trans hl
    rw [lt_add_one_iff hf]
    rcases List.mem_append.1 hg with hg | hg
    · exact UInt64.le_of_lt (hbefore g hg)
    · cases List.mem_singleton.1 hg
      exact UInt64.le_refl _
  case least =>
    intro g hg l hl
    rcases List.mem_append.1 hg with hg | hg
    · exact h.least g hg l hl
    · cases List.mem_singleton.1 hg
      cases hfirst.symm.trans hl
      exact UInt64.le_trans hstart hle
  case first => exact fun g hg => h.first g (hrest g (hready ▸ hg))
  case kept =>
    intro g hg hge
    have hfg : f.seq < g.seq :=
      UInt64.lt_of_lt_of_le ((lt_add_one_iff hf).2 (UInt64.le_refl _)) (hge _ hcur)
    have hge : ∀ l, q.cursor = some l → l ≤ g.seq := by
      intro l hl
      cases hc.symm.trans hl
      exact UInt64.le_of_lt (UInt64.lt_of_le_of_lt hle hfg)
    obtain ⟨k, hk, hks⟩ := h.kept g hg hge
    have hk := h.mem_ready hk (hks ▸ hge)
    rw [hr] at hk
    rcases List.mem_cons.1 hk with rfl | hk
    · exact (UInt64.ne_of_lt hfg hks).elim
    · exact ⟨k, hpend ▸ hk, hks⟩

theorem History.of_pop {next : Option Frame} (h : History fs out q)
    (hpop : q.pop = .ok (next, q')) : History fs (out ++ next.toList) q' := by
  cases hr : q.ready with
  | nil =>
    obtain ⟨q'', hpop', hpend, hcur⟩ := pop_of_ready_nil hr h.pending_eq_nil
    cases hpop.symm.trans hpop'
    rw [Option.toList_none, List.append_nil]
    exact h.discard hr hpend hcur
  | cons f rest =>
    have hf : Passable f := by
      rcases pop_eq_ok hpop with ⟨-, hnil, -⟩ | ⟨g, -, hg, hready, -⟩
      · cases hr.symm.trans hnil
      · obtain rfl : f = g := (List.cons.inj (hr.symm.trans hready)).1
        exact hg
    obtain ⟨q'', hpop', hpend, hready, hcur⟩ := pop_of_ready_cons hr hf
    cases hpop.symm.trans hpop'
    cases hc : q.cursor with
    | none => simp [ready, hc] at hr
    | some least => exact h.give hc hr hf hpend hready hcur

theorem History.pop (h : History fs out q) (hfs : ∀ g ∈ fs, Passable g) :
    ∃ f q', q.pop = .ok (f, q') ∧ History fs (out ++ f.toList) q' := by
  cases hr : q.ready with
  | nil =>
    obtain ⟨q', hpop, -⟩ := pop_of_ready_nil hr h.pending_eq_nil
    exact ⟨none, q', hpop, h.of_pop hpop⟩
  | cons f rest =>
    have hf := h.passable_of_ready hfs f (by simp [hr])
    obtain ⟨q', hpop, -⟩ := pop_of_ready_cons hr hf
    exact ⟨some f, q', hpop, h.of_pop hpop⟩

theorem History.foldlM (h : History fs out q) (ops : List Op)
    (hfs : ∀ g ∈ fs ++ pushed ops, Passable g) :
    ∃ out' q', ops.foldlM use (out, q) = .ok (out', q') ∧
      History (fs ++ pushed ops) out' q' := by
  induction ops generalizing fs out q with
  | nil => exact ⟨out, q, rfl, by simpa [pushed] using h⟩
  | cons op ops ih =>
    cases op with
    | push f =>
      rw [pushed, List.append_cons] at hfs ⊢
      exact ih (h.push f) hfs
    | pop =>
      obtain ⟨f, q', hpop, h'⟩ := h.pop fun g hg => hfs g (List.mem_append_left _ hg)
      obtain ⟨out'', q'', hops, h''⟩ := ih h' hfs
      refine ⟨out'', q'', ?_, h''⟩
      rw [List.foldlM_cons, use, hpop]
      exact hops

/-- A frame with this number can still leave, or has left. -/
def Held (n : UInt64) (out : List Frame) (q : FrameQueue) : Prop :=
  ∃ g, g.seq = n ∧ (g ∈ q.ready ∨ g ∈ out)

theorem Held.push (h : Held n out q) (f : Frame) : Held n out (q.push f) := by
  obtain ⟨g, hg, hready | hout⟩ := h
  · cases hc : q.cursor with
    | none => simp [ready, hc] at hready
    | some least =>
      obtain ⟨hpend, hle⟩ := (mem_ready_iff hc).1 hready
      have hpend : g ∈ (q.push f).pending := mem_pending_push.2 (.inl hpend)
      exact ⟨g, hg, .inl ((mem_ready_iff (cursor_push hc f)).2 ⟨hpend, hle⟩)⟩
  · exact ⟨g, hg, .inr hout⟩

theorem Held.pop {f : Option Frame} (h : Held n out q) (hpop : q.pop = .ok (f, q'))
    (hq : ∀ g ∈ q.ready, Passable g) : Held n (out ++ f.toList) q' := by
  obtain ⟨g, hg, hready | hout⟩ := h
  · cases hr : q.ready with
    | nil => simp [hr] at hready
    | cons k rest =>
      obtain ⟨q'', hpop', -, hrest, -⟩ := pop_of_ready_cons hr (hq k (by simp [hr]))
      cases hpop.symm.trans hpop'
      rw [hr] at hready
      rcases List.mem_cons.1 hready with rfl | hready
      · exact ⟨g, hg, .inr (by simp)⟩
      · exact ⟨g, hg, .inl (hrest ▸ hready)⟩
  · exact ⟨g, hg, .inr (List.mem_append_left _ hout)⟩

theorem Held.foldlM (hn : Held n out q) (h : History fs out q) (ops : List Op)
    (hfs : ∀ g ∈ fs ++ pushed ops, Passable g)
    (hops : ops.foldlM use (out, q) = .ok (out', q')) : Held n out' q' := by
  induction ops generalizing fs out q with
  | nil => cases hops; exact hn
  | cons op ops ih =>
    cases op with
    | push f =>
      rw [pushed, List.append_cons] at hfs
      exact ih (hn.push f) (h.push f) hfs hops
    | pop =>
      have hfs' : ∀ g ∈ fs, Passable g := fun g hg => hfs g (List.mem_append_left _ hg)
      obtain ⟨f, q'', hpop, h'⟩ := h.pop hfs'
      rw [List.foldlM_cons, use, hpop] at hops
      exact ih (hn.pop hpop (h.passable_of_ready hfs')) h' hfs hops

theorem run_history (limit : Nat) (ops : List Op) (hops : ∀ g ∈ pushed ops, Passable g) :
    ∃ out q, run limit ops = .ok (out, q) ∧ History (pushed ops) out q :=
  (History.new limit).foldlM ops hops

/-- A frame that arrives at or above the cursor is held from then on. -/
theorem held_of_run (limit : Nat) (before after : List Op) (f : Frame)
    (hops : ∀ g ∈ pushed (before ++ .push f :: after), Passable g)
    (hbefore : run limit before = .ok (out, q))
    (hf : ∀ least, q.cursor = some least → least ≤ f.seq)
    (hrun : run limit (before ++ .push f :: after) = .ok (out', q')) : Held f.seq out' q' := by
  rw [pushed_append] at hops
  obtain ⟨_, _, hbefore', h⟩ := run_history limit before fun g hg => hops g (by simp [hg])
  cases hbefore.symm.trans hbefore'
  rw [run_append, hbefore] at hrun
  obtain ⟨g, hg, hgs⟩ := exists_mem_insertFrame q.ascending f
  have hready : g ∈ (q.push f).ready := by
    refine (h.push f).mem_ready hg ?_
    intro least hl
    cases hc : q.cursor with
    | none => simp_all [FrameQueue.push]
    | some l =>
      cases (cursor_push hc f).symm.trans hl
      exact hgs ▸ hf _ hc
  refine Held.foldlM ⟨g, hgs, .inl hready⟩ (h.push f) after ?_ hrun
  simpa [pushed] using hops

/-- The promise of a queue over a whole run. Its parts are the order of the frames that leave, that
each is the first of its number, that none is lost, when one can be had, and that all of them
can. -/
theorem run_in_order (limit : Nat) (ops : List Op) (hops : ∀ g ∈ pushed ops, Passable g) :
    ∃ out q, run limit ops = .ok (out, q) ∧
      (Ascending out ∧ ∀ first, (pushed ops).head? = some first → ∀ g ∈ out, first.seq ≤ g.seq) ∧
      (∀ g ∈ out, (pushed ops).find? (·.seq = g.seq) = some g) ∧
      (∀ before f after out' q', ops = before ++ .push f :: after →
        run limit before = .ok (out', q') → (∀ least, q'.cursor = some least → least ≤ f.seq) →
        ∃ g, g.seq = f.seq ∧ (g ∈ q.pending ∨ g ∈ out)) ∧
      (q.isReady = true ↔ ∃ g q', q.pop = .ok (some g, q')) ∧
      (∃ q', q.drain = .ok (q.ready, q') ∧ Ascending q.ready ∧ q'.pending = []) := by
  obtain ⟨out, q, hrun, h⟩ := run_history limit ops hops
  refine ⟨out, q, hrun, ⟨h.ascending, fun first hf g hg => h.least g hg first hf⟩, h.given,
    ?_, ?_, ?_⟩
  · intro before f after out' q' heq hbefore hf
    subst heq
    obtain ⟨g, hg, hready | hout⟩ := held_of_run limit before after f hops hbefore hf hrun
    · exact ⟨g, hg, .inl (ready_subset_pending hready)⟩
    · exact ⟨g, hg, .inr hout⟩
  · rw [isReady_iff]
    constructor
    · intro hne
      obtain ⟨g, rest, hr⟩ := List.exists_cons_of_ne_nil hne
      obtain ⟨q', hpop, -⟩ := pop_of_ready_cons hr (h.passable_of_ready hops g (by simp [hr]))
      exact ⟨g, q', hpop⟩
    · rintro ⟨g, q', hpop⟩
      simp [ready_of_pop_some hpop]
  · obtain ⟨q', hdrain, hempty⟩ := drain_eq_ready h.pending_eq_nil (h.passable_of_ready hops)
    exact ⟨q', hdrain, q.ascending_ready, hempty⟩

/-- One place, a late frame, and a copy of a number that has left. -/
theorem run_in_order_one_place :
    ∃ out q, run 1 [.push ⟨5, 0, 0, 1, 1, [], [], false, none⟩,
        .push ⟨3, 0, 0, 1, 1, [], [], false, none⟩, .push ⟨7, 0, 0, 1, 1, [], [], false, none⟩,
        .pop, .push ⟨5, 9, 9, 1, 1, [], [], true, none⟩, .pop] = .ok (out, q) ∧
      out.map (·.seq) = [5, 7] ∧ Ascending out ∧
      (q.isReady = true ↔ ∃ g q', q.pop = .ok (some g, q')) ∧
      ∃ q', q.drain = .ok (q.ready, q') ∧ q'.pending = [] := by
  obtain ⟨out, q, hrun, ⟨hasc, -⟩, -, -, hready, q', hdrain, -, hempty⟩ := run_in_order 1
    [.push ⟨5, 0, 0, 1, 1, [], [], false, none⟩, .push ⟨3, 0, 0, 1, 1, [], [], false, none⟩,
      .push ⟨7, 0, 0, 1, 1, [], [], false, none⟩, .pop,
      .push ⟨5, 9, 9, 1, 1, [], [], true, none⟩, .pop] (by decide)
  refine ⟨out, q, hrun, ?_, hasc, hready, q', hdrain, hempty⟩
  cases hrun
  rfl

end TileViewer.FrameQueue
