import TileViewer.Proofs.Connection.Stages

/-!
Requests are taken up in the order of their making, and only while a transport is read or the next
attempt is waited for. So what becomes of a teardown depends on where the connection is when its
turn comes, not on where it was when it was asked for.
-/
namespace TileViewer

/-- Whether the move takes up a request. -/
def Move.takesUp : Move → Bool
  | .obey => true
  | _ => false

/-- Whether a transport is open. -/
def Stage.isOpen : Stage → Bool
  | .greeting _ => true
  | .reading _ => true
  | _ => false

namespace Supervisor

variable {s t u w : Supervisor} {move : Move} {moves between : List Move}
  {hello : List UInt8} {stage stage' : Stage} {effects e₀ e₁ e₂ : List Effect} {r : Request}
  {ahead behind : List Request}

/-- How many requests the moves take up. -/
def taken (moves : List Move) : Nat := moves.countP Move.takesUp

theorem line_step (h : s.step move = some (t, effects)) (hline : s.requests = ahead ++ r :: behind)
    (htaken : move.takesUp = true → ahead ≠ []) :
    ∃ behind', t.requests = (if move.takesUp then ahead.tail else ahead) ++ r :: behind' := by
  have hafter := (goes_step h).requests
  rw [hline] at hafter
  cases move with
  | request added => exact ⟨behind ++ [added], by simpa [lineAfter, Move.takesUp] using hafter⟩
  | obey =>
    obtain ⟨first, rest, rfl⟩ := List.exists_cons_of_ne_nil (htaken rfl)
    exact ⟨behind, hafter⟩
  | _ => exact ⟨behind, hafter⟩

/-- Once all requests ahead of it are taken up, it is the turn of a request. -/
theorem line_run (h : s.run moves = some (t, effects)) (hline : s.requests = ahead ++ r :: behind)
    (htaken : taken moves = ahead.length) : ∃ behind', t.requests = r :: behind' := by
  induction moves generalizing s ahead behind effects with
  | nil =>
    cases h
    obtain rfl : ahead = [] := List.eq_nil_of_length_eq_zero htaken.symm
    exact ⟨behind, hline⟩
  | cons move moves ih =>
    obtain ⟨v, first, rest, hstep, hrest, rfl⟩ := run_cons_eq_some h
    rw [taken, List.countP_cons] at htaken
    have hahead : move.takesUp = true → ahead ≠ [] := by
      rintro htake rfl
      rw [if_pos htake] at htaken
      exact absurd htaken (Nat.succ_ne_zero _)
    obtain ⟨behind', hline'⟩ := line_step hstep hline hahead
    refine ih hrest hline' ?_
    by_cases htake : move.takesUp = true
    · rw [if_pos htake] at htaken ⊢
      rw [List.length_tail, ← htaken, taken, Nat.add_sub_cancel]
    · rw [if_neg htake] at htaken ⊢
      exact htaken

/-- A transport opens with a word to the viewer. -/
theorem Passes.connected (h : Passes hello stage stage' effects) (hclosed : stage.isOpen = false)
    (hopen : stage'.isOpen = true) : .tell .connected ∈ effects := by
  cases h with
  | stays =>
    rw [hclosed] at hopen
    cases hopen
  | opens => exact List.mem_cons_of_mem _ List.mem_cons_self
  | refused => cases hopen
  | fills => cases hclosed
  | greets => cases hclosed
  | ungreeted => cases hclosed
  | reads => cases hclosed
  | loses => cases hclosed
  | shuts => cases hclosed
  | leaves => cases hopen
  | retries => cases hopen

theorem connected_of_run (h : s.run moves = some (t, effects)) (hclosed : s.stage.isOpen = false)
    (hopen : t.stage.isOpen = true) : .tell .connected ∈ effects := by
  induction moves generalizing s effects with
  | nil =>
    cases h
    rw [hclosed] at hopen
    cases hopen
  | cons move moves ih =>
    obtain ⟨v, first, rest, hstep, hrest, rfl⟩ := run_cons_eq_some h
    by_cases hv : v.stage.isOpen = true
    · exact List.mem_append_left _ ((goes_step hstep).passes.connected hclosed hv)
    · exact List.mem_append_right _ (ih hrest (Bool.eq_false_iff.2 hv))

/-- A teardown whose turn has come ends the transport that is read, or nothing. -/
theorem obey_teardown (hline : s.requests = .teardown :: behind)
    (h : s.step .obey = some (t, effects)) :
    (∃ inbox, s.stage = .reading inbox) ∧ effects = Loss.tornDown.effects ∨
      s.stage = .waiting ∧ effects = [] := by
  have hnext : s.nextRequest? = some (.teardown, behind) := by
    rw [nextRequest?, hline]
  cases hstage : s.stage with
  | reading inbox =>
    simp only [step, hstage, obey, hnext] at h
    cases h
    exact .inl ⟨⟨inbox, rfl⟩, rfl⟩
  | waiting =>
    simp only [step, hstage, obey, hnext] at h
    cases h
    exact .inr ⟨rfl, rfl⟩
  | _ => simp [step, hstage] at h

/-- A teardown that is asked for while no transport is open. It ends a transport exactly if one is
read when its turn comes, and that one was opened afterwards; it is dropped exactly if its turn
comes in a wait. -/
theorem late_teardown_iff (hclosed : s.stage.isOpen = false)
    (hrequest : s.step (.request .teardown) = some (t, e₀))
    (hbetween : t.run between = some (u, e₁)) (htaken : taken between = s.requests.length)
    (hobey : u.step .obey = some (w, e₂)) :
    e₀ = [] ∧ (.tell (.disconnected .tornDown) ∈ e₂ ↔ ∃ inbox, u.stage = .reading inbox) ∧
      (e₂ = [] ↔ u.stage = .waiting) ∧
      ((∃ inbox, u.stage = .reading inbox) → .tell .connected ∈ e₁) := by
  obtain ⟨he₀, hline, hstage⟩ : e₀ = [] ∧ t.requests = s.requests ++ [.teardown] ∧
      t.stage = s.stage := by
    simp only [step, Option.ite_none_left_eq_some, Option.some.injEq] at hrequest
    obtain ⟨-, hrequest⟩ := hrequest
    cases hrequest
    exact ⟨rfl, rfl, rfl⟩
  obtain ⟨behind, hturn⟩ := line_run hbetween hline htaken
  rw [← hstage] at hclosed
  have hopened : (∃ inbox, u.stage = .reading inbox) → .tell .connected ∈ e₁ := by
    rintro ⟨inbox, hreading⟩
    exact connected_of_run hbetween hclosed (by rw [hreading]; rfl)
  rcases obey_teardown hturn hobey with ⟨⟨inbox, hreading⟩, rfl⟩ | ⟨hwaiting, rfl⟩
  · have hended : .tell (.disconnected .tornDown) ∈ Loss.tornDown.effects :=
      List.mem_cons_of_mem _ List.mem_cons_self
    refine ⟨he₀, ⟨fun _ => ⟨inbox, hreading⟩, fun _ => hended⟩,
      ⟨fun hnone => absurd hnone (List.cons_ne_nil _ _), fun hwaiting => ?_⟩, hopened⟩
    cases hreading.symm.trans hwaiting
  · refine ⟨he₀, ⟨fun hmem => absurd hmem List.not_mem_nil, ?_⟩,
      ⟨fun _ => hwaiting, fun _ => rfl⟩, hopened⟩
    rintro ⟨inbox, hreading⟩
    cases hwaiting.symm.trans hreading

/-- Asked for while the first attempt is made, taken up by the transport that the attempt opens. -/
theorem late_teardown_iff_first :
    ∃ (t u w : Supervisor) (e₁ e₂ : List Effect),
      (ofSettings {} "").stage = .connecting ∧
      (ofSettings {} "").step (.request .teardown) = some (t, []) ∧
      t.run [.connect, .greet] = some (u, e₁) ∧ u.step .obey = some (w, e₂) ∧
      .tell .connected ∈ e₁ ∧ .tell (.disconnected .tornDown) ∈ e₂ := by
  obtain ⟨t, hrequest, u, e₁, hbetween, inbox, hreading, w, e₂, hobey⟩ : ∃ t,
      (ofSettings {} "").step (.request .teardown) = some (t, []) ∧ ∃ u e₁,
      t.run [.connect, .greet] = some (u, e₁) ∧ ∃ inbox, u.stage = .reading inbox ∧ ∃ w e₂,
      u.step .obey = some (w, e₂) := ⟨_, rfl, _, _, rfl, _, rfl, _, _, rfl⟩
  obtain ⟨-, hends, -, hopened⟩ := late_teardown_iff rfl hrequest hbetween rfl hobey
  exact ⟨t, u, w, e₁, e₂, rfl, hrequest, hbetween, hobey, hopened ⟨inbox, hreading⟩,
    hends.2 ⟨inbox, hreading⟩⟩

/-- A teardown asked for during an attempt ends the transport that the attempt opens, and one asked
for in a wait that is over before its turn comes ends the next transport. -/
theorem late_teardown_ends_next :
    (∃ t, (ofSettings {} "").run [.request .teardown, .connect, .greet, .obey] =
      some (t, [.enter .established, .tell .connected, .write (ofSettings {} "").hello,
        .enter .closing, .tell (.disconnected .tornDown), .enter .reconnecting])) ∧
    ∃ t, (ofSettings {} "").run [.failConnect "refused", .request .teardown, .retry, .connect,
      .greet, .obey] =
      some (t, [.enter .closing, .tell (.disconnected (.unconnected "refused")),
        .enter .reconnecting, .enter .connecting, .enter .established, .tell .connected,
        .write (ofSettings {} "").hello, .enter .closing, .tell (.disconnected .tornDown),
        .enter .reconnecting]) :=
  ⟨⟨_, rfl⟩, _, rfl⟩

end Supervisor

end TileViewer
