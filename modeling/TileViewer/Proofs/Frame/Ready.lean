import TileViewer.Frame.Queue
import TileViewer.Proofs.Exact

/-! Which frames a queue can still give out, and that asking for them gives them all in order. -/
namespace TileViewer

variable {f g : Frame} {gs : List Frame}

theorem mem_insertFrame_iff (h : Ascending gs) :
    g ∈ insertFrame f gs ↔ g ∈ gs ∨ (g = f ∧ ∀ k ∈ gs, k.seq ≠ f.seq) := by
  induction gs with
  | nil => simp [insertFrame]
  | cons k gs ih =>
    rw [Ascending, List.pairwise_cons] at h
    unfold insertFrame
    split
    · next hlt =>
      have hne : ∀ l ∈ k :: gs, l.seq ≠ f.seq := by
        intro l hl he
        rcases List.mem_cons.1 hl with rfl | hl
        · exact UInt64.ne_of_lt hlt he.symm
        · exact UInt64.ne_of_lt (UInt64.lt_trans hlt (h.1 l hl)) he.symm
      rw [List.mem_cons, and_iff_left hne, or_comm]
    · split
      · next heq => simp [heq]
      · next hne => simp only [List.mem_cons, ih h.2, forall_eq_or_imp, or_assoc,
          and_iff_right (Ne.symm hne), ne_eq]

theorem exists_mem_insertFrame (h : Ascending gs) (f : Frame) :
    ∃ g ∈ insertFrame f gs, g.seq = f.seq := by
  by_cases hk : ∃ k ∈ gs, k.seq = f.seq
  · obtain ⟨k, hk, he⟩ := hk
    exact ⟨k, (mem_insertFrame_iff h).2 (.inl hk), he⟩
  · exact ⟨f, (mem_insertFrame_iff h).2 (.inr ⟨rfl, fun k hm he => hk ⟨k, hm, he⟩⟩), rfl⟩

theorem size_insertFrame (h : ∀ k ∈ gs, k.seq ≠ f.seq) :
    (insertFrame f gs).length = gs.length + 1 := by
  induction gs with
  | nil => rfl
  | cons k gs ih =>
    rw [List.forall_mem_cons] at h
    unfold insertFrame
    split
    · rfl
    · rw [if_neg (Ne.symm h.1), List.length_cons, List.length_cons, ih h.2]

theorem Ascending.dropWhile_eq_filter (h : Ascending gs) (least : UInt64) :
    gs.dropWhile (·.seq < least) = gs.filter (least ≤ ·.seq) := by
  induction gs with
  | nil => rfl
  | cons k gs ih =>
    rw [Ascending, List.pairwise_cons] at h
    by_cases hk : k.seq < least
    · have : ¬ least ≤ k.seq := UInt64.not_le.2 hk
      simpa [List.dropWhile_cons, List.filter_cons, hk, this] using ih h.2
    · have hle : least ≤ k.seq := UInt64.not_lt.1 hk
      have hall : ∀ l ∈ gs, decide (least ≤ l.seq) = true := by
        intro l hl
        exact decide_eq_true (UInt64.le_trans hle (UInt64.le_of_lt (h.1 l hl)))
      simp [hk, hle, List.filter_eq_self.2 hall]

/-- The cursor can move past a frame with any number but the last. -/
abbrev Passable (f : Frame) : Prop := f.seq < 0xFFFFFFFFFFFFFFFF

namespace FrameQueue

variable {q q' : FrameQueue} {rest : List Frame}

theorem eq_of_fields (hp : q.pending = q'.pending) (hc : q.cursor = q'.cursor)
    (hl : q.limit = q'.limit) : q = q' := by
  cases q
  cases q'
  cases hp
  cases hc
  cases hl
  rfl

/-- The waiting frames at or above the cursor, which are the ones that can still leave. -/
def ready (q : FrameQueue) : List Frame :=
  match q.cursor with
  | none => []
  | some least => q.pending.filter (least ≤ ·.seq)

theorem ready_of_cursor {least : UInt64} (h : q.cursor = some least) :
    q.ready = q.pending.filter (least ≤ ·.seq) := by
  rw [ready, h]

theorem ready_subset_pending (h : g ∈ q.ready) : g ∈ q.pending := by
  cases hc : q.cursor with
  | none => simp [ready, hc] at h
  | some least =>
    rw [ready_of_cursor hc] at h
    exact (List.mem_filter.1 h).1

theorem ascending_ready (q : FrameQueue) : Ascending q.ready := by
  cases hc : q.cursor with
  | none => simp [ready, hc]
  | some least =>
    rw [ready_of_cursor hc]
    exact q.ascending.filter _

theorem isReady_iff (q : FrameQueue) : q.isReady = true ↔ q.ready ≠ [] := by
  cases hc : q.cursor with
  | none => simp [isReady, ready, hc]
  | some least => simp [isReady, ready_of_cursor hc, hc]

theorem popFirst_of_nil (h : q.pending = []) : q.popFirst = none := by
  cases q
  cases h
  rfl

theorem popFirst_of_cons (h : q.pending = f :: rest) :
    ∃ q', q.popFirst = some (f, q') ∧ q'.pending = rest ∧ q'.cursor = q.cursor := by
  cases q
  cases h
  exact ⟨_, rfl, rfl, rfl⟩

theorem pop_of_ready_nil (h : q.ready = []) (hq : q.cursor = none → q.pending = []) :
    ∃ q', q.pop = .ok (none, q') ∧ q'.pending = [] ∧ q'.cursor = q.cursor := by
  cases hc : q.cursor with
  | none => exact ⟨q, by rw [pop, hc], hq hc, hc⟩
  | some least =>
    have hkept : (q.dropBelow least).pending = [] := by
      rw [← h, ready_of_cursor hc]
      exact q.ascending.dropWhile_eq_filter least
    refine ⟨q.dropBelow least, ?_, hkept, hc⟩
    simp only [pop, hc, takeFrom, popFirst_of_nil hkept]

theorem toNat_add_one {n : UInt64} (h : n < 0xFFFFFFFFFFFFFFFF) :
    (n + 1).toNat = n.toNat + 1 := by
  have hn : n.toNat < 0xFFFFFFFFFFFFFFFF := UInt64.lt_iff_toNat_lt.1 h
  rw [UInt64.toNat_add, UInt64.toNat_one, Nat.mod_eq_of_lt (by omega)]

theorem lt_add_one_iff {m n : UInt64} (h : n < 0xFFFFFFFFFFFFFFFF) : m < n + 1 ↔ m ≤ n := by
  rw [UInt64.lt_iff_toNat_lt, UInt64.le_iff_toNat_le, toNat_add_one h, Nat.lt_succ_iff]

theorem mem_ready_iff {least : UInt64} (hc : q.cursor = some least) :
    g ∈ q.ready ↔ g ∈ q.pending ∧ least ≤ g.seq := by
  rw [ready_of_cursor hc, List.mem_filter, decide_eq_true_iff]

theorem ready_of_advanced (h : q.ready = f :: rest) (hf : Passable f)
    (hpend : q'.pending = rest) (hcur : q'.cursor = some (f.seq + 1)) : q'.ready = rest := by
  have hasc := q.ascending_ready
  rw [h, Ascending, List.pairwise_cons] at hasc
  rw [ready_of_cursor hcur, hpend, List.filter_eq_self]
  intro g hg
  have := hasc.1 g hg
  refine decide_eq_true (UInt64.not_lt.1 ?_)
  intro hlt
  exact UInt64.not_lt.2 ((lt_add_one_iff hf).1 hlt) this

theorem plus_one (hf : Passable f) : Word.plus f.seq 1 = .ok (f.seq + 1) := by
  refine Word.fit_eq_ok_iff.2 ?_
  change ((f.seq + 1).toNat : Int) = (f.seq.toNat : Int) + 1
  rw [toNat_add_one hf, Int.natCast_add_one]

theorem pop_of_ready_cons (h : q.ready = f :: rest) (hf : Passable f) :
    ∃ q', q.pop = .ok (some f, q') ∧ q'.pending = rest ∧ q'.ready = rest ∧
      q'.cursor = some (f.seq + 1) := by
  cases hc : q.cursor with
  | none => simp [ready, hc] at h
  | some least =>
    have hkept : (q.dropBelow least).pending = f :: rest := by
      rw [← h, ready_of_cursor hc]
      exact q.ascending.dropWhile_eq_filter least
    obtain ⟨k, hk, hrest, -⟩ := popFirst_of_cons hkept
    refine ⟨{ k with cursor := some (f.seq + 1) }, ?_, hrest, ready_of_advanced h hf hrest rfl, rfl⟩
    simp only [pop, hc, takeFrom, hk, plus_one hf]
    rfl

/-- The first frame of all leaves an empty queue behind it. -/
theorem pop_push_new (hf : Passable f) :
    (({} : FrameQueue).push f).pop = .ok (some f, { cursor := some (f.seq + 1) }) := by
  have hkept : (({} : FrameQueue).push f).dropBelow f.seq =
      { pending := [f], cursor := some f.seq, ascending := by simp } :=
    eq_of_fields (by simp [dropBelow, push, insertFrame]) rfl rfl
  have hfirst : ((({} : FrameQueue).push f).dropBelow f.seq).popFirst =
      some (f, { cursor := some f.seq }) := by
    rw [hkept]
    rfl
  have hcursor : (({} : FrameQueue).push f).cursor = some f.seq := rfl
  simp only [pop, hcursor, takeFrom, hfirst, plus_one hf]
  rfl

theorem passable_of_plus {n : UInt64} (h : Word.plus f.seq 1 = .ok n) : Passable f := by
  have hsum := Word.fit_eq_ok_iff.1 h
  have hle := Word.toInt_le_hi n
  simp only [Word.toInt, Word.hi, UInt64.toNat_one] at hsum hle
  exact UInt64.lt_iff_toNat_lt.2 (show f.seq.toNat < 0xFFFFFFFFFFFFFFFF by omega)

/-- What comes of asking for a frame. Behind one that leaves, every waiting frame can leave. -/
theorem pop_eq_ok {next : Option Frame} (h : q.pop = .ok (next, q')) :
    next = none ∧ q.ready = [] ∧ q'.cursor = q.cursor ∧ (q.cursor ≠ none → q'.pending = []) ∧
        (∀ g ∈ q'.pending, g ∈ q.pending) ∨
      ∃ f, next = some f ∧ Passable f ∧ q.ready = f :: q'.pending ∧ q'.ready = q'.pending := by
  cases hc : q.cursor with
  | none =>
    rw [pop, hc] at h
    cases h
    exact .inl ⟨rfl, by simp [ready, hc], hc, fun hne => absurd rfl hne, fun _ hg => hg⟩
  | some least =>
    have hready : q.ready = (q.dropBelow least).pending :=
      (ready_of_cursor hc).trans (q.ascending.dropWhile_eq_filter least).symm
    cases hk : (q.dropBelow least).pending with
    | nil =>
      simp only [pop, hc, takeFrom, popFirst_of_nil hk] at h
      cases h
      exact .inl ⟨rfl, hready.trans hk, hc, fun _ => hk,
        fun g hg => absurd (hk ▸ hg) List.not_mem_nil⟩
    | cons f rest =>
      obtain ⟨k, hfirst, hrest, -⟩ := popFirst_of_cons hk
      simp only [pop, hc, takeFrom, hfirst] at h
      obtain ⟨n, hn, h⟩ := bind_eq_ok h
      cases h
      obtain ⟨k', hpop, hpending, hready', -⟩ :=
        pop_of_ready_cons (hready.trans hk) (passable_of_plus hn)
      simp only [pop, hc, takeFrom, hfirst, hn] at hpop
      cases hpop
      exact .inr ⟨f, rfl, passable_of_plus hn, hready.trans (hk.trans (by rw [hrest])),
        hready'.trans hpending.symm⟩

theorem ready_of_pop_some (h : q.pop = .ok (some f, q')) : q.ready = f :: q'.pending := by
  rcases pop_eq_ok h with ⟨hnone, -⟩ | ⟨g, hsome, -, hready, -⟩
  · cases hnone
  · cases hsome
    exact hready

theorem mem_pending_of_pop (h : q.pop = .ok (some f, q')) : f ∈ q.pending :=
  ready_subset_pending (ready_of_pop_some h ▸ List.mem_cons_self)

theorem pending_of_pop {next : Option Frame} (h : q.pop = .ok (next, q')) :
    ∀ g ∈ q'.pending, g ∈ q.pending := by
  rcases pop_eq_ok h with ⟨-, -, -, -, hpending⟩ | ⟨f, -, -, hready, -⟩
  · exact hpending
  · exact fun g hg => ready_subset_pending (hready ▸ List.mem_cons_of_mem _ hg)

theorem length_ready_le (q : FrameQueue) : q.ready.length ≤ q.size := by
  unfold ready
  split
  · exact Nat.zero_le _
  · exact List.length_filter_le _ _

theorem size_lt_of_pop_some (h : q.pop = .ok (some f, q')) : q'.size < q.size := by
  have := q.length_ready_le
  rw [ready_of_pop_some h, List.length_cons] at this
  exact this

/-- Takes frames until there is none to take. -/
def drain (q : FrameQueue) : Except Overflow (List Frame × FrameQueue) :=
  match _ : q.pop with
  | .error e => .error e
  | .ok (none, q') => .ok ([], q')
  | .ok (some f, q') => do
    let (fs, q'') ← q'.drain
    return (f :: fs, q'')
termination_by q.size
decreasing_by exact size_lt_of_pop_some ‹_›

theorem drain_of_pop_none (h : q.pop = .ok (none, q')) : q.drain = .ok ([], q') := by
  rw [drain]
  split <;> simp_all

theorem drain_of_pop_some (h : q.pop = .ok (some f, q')) :
    q.drain = q'.drain.map fun (fs, q'') => (f :: fs, q'') := by
  rw [drain]
  split <;> simp_all
  rfl

theorem drain_eq_ready (hq : q.cursor = none → q.pending = [])
    (hmax : ∀ f ∈ q.ready, Passable f) :
    ∃ q', q.drain = .ok (q.ready, q') ∧ q'.pending = [] := by
  generalize hr : q.ready = fs at hmax ⊢
  induction fs generalizing q with
  | nil =>
    obtain ⟨q', hpop, hpend, -⟩ := pop_of_ready_nil hr hq
    exact ⟨q', drain_of_pop_none hpop, hpend⟩
  | cons f rest ih =>
    have hf := hmax f List.mem_cons_self
    obtain ⟨q', hpop, -, hready, hcur⟩ := pop_of_ready_cons hr hf
    obtain ⟨q'', hdrain, hempty⟩ := ih (q := q') (by simp [hcur]) hready
      fun g hg => hmax g (List.mem_cons_of_mem _ hg)
    refine ⟨q'', ?_, hempty⟩
    rw [drain_of_pop_some hpop, hdrain]
    rfl

end FrameQueue

end TileViewer
