import Mathlib.Data.List.Sort
import TileViewer.Proofs.Frame.History
import TileViewer.Proofs.Session.Reset

/-!
Messages that come between two ticks. What a viewer makes of them depends on which frames there are
and on the order of the updates among themselves, and on nothing else about the order in which they
come, also where too many frames wait.
-/
namespace TileViewer

namespace Message

def frame? : Message → Option Frame
  | .frame f => some f
  | _ => none

def update? : Message → Option SideUpdate
  | .side u => some u
  | _ => none

/-- The frames among the messages, in their order. -/
def frames (ms : List Message) : List Frame := ms.filterMap frame?

/-- The updates among the messages, in their order. -/
def updates (ms : List Message) : List SideUpdate := ms.filterMap update?

end Message

/-- Frames with different numbers, none of which waits already. -/
structure FrameQueue.Fresh (q : FrameQueue) (fs : List Frame) : Prop where
  distinct : fs.Pairwise (·.seq ≠ ·.seq)
  unknown : ∀ f ∈ fs, ∀ g ∈ q.pending, g.seq ≠ f.seq

namespace FrameQueue

variable {q q' : FrameQueue} {f g : Frame} {fs gs : List Frame}

theorem Fresh.push (h : q.Fresh (f :: fs)) : (q.push f).Fresh fs := by
  obtain ⟨hdistinct, hunknown⟩ := h
  rw [List.pairwise_cons] at hdistinct
  refine ⟨hdistinct.2, ?_⟩
  intro k hk g hg
  rcases mem_pending_push.1 hg with hg | ⟨rfl, -⟩
  · exact hunknown k (List.mem_cons_of_mem _ hk) g hg
  · exact hdistinct.1 k hk

theorem mem_pushAll (h : q.Fresh fs) : g ∈ (fs.foldl push q).pending ↔ g ∈ q.pending ∨ g ∈ fs := by
  induction fs generalizing q with
  | nil => simp
  | cons f fs ih =>
    have hnew : ∀ k ∈ q.pending, k.seq ≠ f.seq := h.unknown f List.mem_cons_self
    rw [List.foldl_cons, ih h.push, mem_pending_push, and_iff_left hnew, List.mem_cons, or_assoc]

theorem Fresh.size_push (h : q.Fresh (f :: fs)) : (q.push f).size = q.size + 1 :=
  size_insertFrame (h.unknown f List.mem_cons_self)

/-- Which frames come decides the queue, since it keeps them in the order of their numbers. -/
theorem pushAll_eq_of_mem_iff {least : UInt64} (hc : q.cursor = some least) (hf : q.Fresh fs)
    (hg : q.Fresh gs) (hmem : ∀ k, k ∈ fs ↔ k ∈ gs) : fs.foldl push q = gs.foldl push q := by
  refine eq_of_fields ?_ ?_ ?_
  · refine List.Pairwise.eq_of_mem_iff (fs.foldl push q).ascending (gs.foldl push q).ascending ?_
    intro k
    rw [mem_pushAll hf, mem_pushAll hg, hmem]
  · rw [cursor_pushAll hc, cursor_pushAll hc]
  · rw [limit_pushAll, limit_pushAll]

theorem fresh_of_ascending (hq : q.pending = []) (hfs : Ascending fs) : q.Fresh fs where
  distinct := hfs.imp fun hlt => UInt64.ne_of_lt hlt
  unknown _ _ g hg := by
    rw [hq] at hg
    cases hg

/-- Frames that come in their order to an empty queue can leave in that order. -/
theorem pushAll_of_ascending {least : UInt64} (hq : q.pending = []) (hc : q.cursor = some least)
    (hfs : Ascending fs) (hle : ∀ f ∈ fs, least ≤ f.seq) :
    (fs.foldl push q).pending = fs ∧ (fs.foldl push q).ready = fs := by
  have hpending : (fs.foldl push q).pending = fs := by
    refine List.Pairwise.eq_of_mem_iff (fs.foldl push q).ascending hfs ?_
    intro k
    rw [mem_pushAll (fresh_of_ascending hq hfs), hq]
    simp
  refine ⟨hpending, ?_⟩
  rw [ready_of_cursor (cursor_pushAll hc fs), hpending, List.filter_eq_self]
  exact fun f hf => decide_eq_true (hle f hf)

end FrameQueue

namespace Viewer

variable {v w : Viewer} {ms ns : List Message}

/-- The viewer that has taken in some messages, whose frames are all new to it. Each frame that
makes more frames wait than the limit allows counts as an overflow. -/
def takeIn (v : Viewer) (ms : List Message) : Viewer :=
  { v with
    queue := (Message.frames ms).foldl FrameQueue.push v.queue
    side := (Message.updates ms).foldl SideData.apply v.side
    numbers := (Message.updates ms).foldl (fun d u => d.queue (u.hits.getD [])) v.numbers
    stats := { v.stats with
      overflows := v.stats.overflows +
        (max (v.queue.size + (Message.frames ms).length) v.queue.limit -
          max v.queue.size v.queue.limit) } }

theorem ingest_new_frame {f : Frame} {fs : List Frame} (h : v.queue.Fresh (f :: fs)) :
    (v.ingest (.frame f)).2 = { v with
      queue := v.queue.push f
      stats := { v.stats with
        overflows := v.stats.overflows +
          (max (v.queue.size + 1) v.queue.limit - max v.queue.size v.queue.limit) } } := by
  have hsize := h.size_push
  have hlimit : (v.queue.push f).limit = v.queue.limit := rfl
  by_cases hover : v.queue.limit < v.queue.size + 1
  · have hone : max (v.queue.size + 1) v.queue.limit - max v.queue.size v.queue.limit = 1 := by
      omega
    simp only [ingest, FrameQueue.backlog?, hsize, hlimit, if_pos hover, hone]
  · have hzero : max (v.queue.size + 1) v.queue.limit - max v.queue.size v.queue.limit = 0 := by
      omega
    simp only [ingest, FrameQueue.backlog?, hsize, hlimit, if_neg hover, hzero, Nat.add_zero]

theorem takeIn_frame {f : Frame} (h : v.queue.Fresh (Message.frames (.frame f :: ms))) :
    (v.ingest (.frame f)).2.takeIn ms = v.takeIn (.frame f :: ms) := by
  have hsize : (v.queue.push f).size = v.queue.size + 1 := h.size_push
  have hlimit : (v.queue.push f).limit = v.queue.limit := rfl
  have hsum : v.stats.overflows +
      (max (v.queue.size + 1) v.queue.limit - max v.queue.size v.queue.limit) +
      (max (v.queue.size + 1 + (Message.frames ms).length) v.queue.limit -
        max (v.queue.size + 1) v.queue.limit) =
      v.stats.overflows + (max (v.queue.size + (Message.frames (.frame f :: ms)).length)
        v.queue.limit - max v.queue.size v.queue.limit) := by
    change _ = _ + (max (_ + ((Message.frames ms).length + 1)) _ - _)
    omega
  rw [ingest_new_frame h]
  simp only [takeIn, hsize, hlimit, hsum]
  rfl

theorem run_messages (h : v.queue.Fresh (Message.frames ms)) :
    v.run (ms.map .message) = .ok (v.takeIn ms) := by
  induction ms generalizing v with
  | nil =>
    simp only [takeIn, Message.frames, Message.updates, List.filterMap_nil, List.foldl_nil,
      List.length_nil, Nat.add_zero, Nat.sub_self]
    rfl
  | cons m ms ih =>
    have hstep : v.step (.message m) = .ok (v.ingest m).2 := rfl
    rw [List.map_cons, run_cons_of_step hstep]
    cases m with
    | frame f =>
      rw [← takeIn_frame h]
      exact ih (by rw [(v.ingest_frame f).1]; exact h.push)
    | side u => exact ih (v := (v.ingest (.side u)).2) h
    | unknown type => exact ih h

/-- New frames only wait, and change nothing else that counts. -/
theorem run_frames {fs : List Frame} (h : v.queue.Fresh fs) :
    ∃ w, v.run (fs.map fun f => .message (.frame f)) = .ok w ∧
      w.queue = fs.foldl FrameQueue.push v.queue ∧ v.Rests w ∧ w.camera = v.camera ∧
      w.numbers = v.numbers ∧ w.tracked = v.tracked ∧ w.framePacer = v.framePacer := by
  have hframes : Message.frames (fs.map .frame) = fs := by
    rw [Message.frames, List.filterMap_map]
    exact List.filterMap_some
  have hupdates : Message.updates (fs.map .frame) = [] := by
    rw [Message.updates, List.filterMap_map]
    exact List.filterMap_eq_nil_iff.2 fun _ _ => rfl
  have hrun : v.run ((fs.map .frame).map .message) = .ok (v.takeIn (fs.map .frame)) :=
    run_messages (by rwa [hframes])
  rw [List.map_map] at hrun
  refine ⟨_, hrun, ?_, by constructor <;> rfl, rfl, ?_, rfl, rfl⟩
  · simp only [takeIn, hframes]
  · simp only [takeIn, hupdates, List.foldl_nil]

/-- Messages leave nothing in the trace but the answers to them. -/
theorem drop_trace_messages (h : v.run (ms.map .message) = .ok w) (shown : Bool)
    (events : List Event) :
    (v.trace shown (ms.map .message ++ events)).drop ms.length = w.trace shown events := by
  induction ms generalizing v with
  | nil =>
    cases h
    rfl
  | cons m ms ih =>
    obtain ⟨u, hstep, h⟩ := run_cons_eq_ok h
    cases hstep
    have hshown : (shown || (Reply.taken (v.ingest m).1).shows v.view) = shown := Bool.or_false _
    simp only [List.map_cons, List.cons_append, trace, respond, hshown, List.length_cons,
      List.drop_succ_cons]
    exact ih h

theorem run_append (v : Viewer) (events events' : List Event) :
    v.run (events ++ events') = v.run events >>= (·.run events') := by
  rw [run, List.foldlM_append]
  rfl

/-- Two orders of the same messages, the updates among them in one order, lead to the same viewer,
once the cursor of the queue is set and if each frame is new. Whatever comes then goes alike, and
each frame that finds the limit reached has been counted. -/
theorem interleavings_agree (hcursor : v.queue.cursor ≠ none) (hperm : ms.Perm ns)
    (hupdates : Message.updates ms = Message.updates ns)
    (hfresh : v.queue.Fresh (Message.frames ms)) :
    ∃ w, v.run (ms.map .message) = .ok w ∧ v.run (ns.map .message) = .ok w ∧
      w.stats.overflows = v.stats.overflows +
        (max (v.queue.size + (Message.frames ms).length) v.queue.limit -
          max v.queue.size v.queue.limit) ∧
      ∀ events, v.run (ms.map .message ++ events) = v.run (ns.map .message ++ events) ∧
        (v.trace true (ms.map .message ++ events)).drop ms.length =
          (v.trace true (ns.map .message ++ events)).drop ns.length := by
  obtain ⟨least, hleast⟩ := Option.ne_none_iff_exists'.1 hcursor
  have hframes : (Message.frames ms).Perm (Message.frames ns) := hperm.filterMap _
  have hfresh' : v.queue.Fresh (Message.frames ns) :=
    ⟨hfresh.distinct.perm hframes fun hne => hne.symm,
      fun f hf => hfresh.unknown f (hframes.mem_iff.2 hf)⟩
  have hqueue := FrameQueue.pushAll_eq_of_mem_iff hleast hfresh hfresh' fun _ => hframes.mem_iff
  have hsame : v.takeIn ms = v.takeIn ns := by
    simp only [takeIn, hqueue, hupdates, hframes.length_eq]
  have hms := run_messages hfresh
  have hns := run_messages hfresh'
  rw [← hsame] at hns
  refine ⟨v.takeIn ms, hms, hns, rfl, fun events => ⟨?_, ?_⟩⟩
  · rw [run_append, run_append, hms, hns]
  · rw [drop_trace_messages hms, drop_trace_messages hns]

/-- Behind one waiting frame come a hundred and one more and two updates, one of them with a hit.
The frames come backwards and before the updates, or forwards and after them; the last two of them
are too many either way. -/
theorem interleavings_agree_past_limit :
    ∃ (f : Frame) (fs us : List Message) (v₀ v w : Viewer),
      ofSettings {} (.ofSprite 32) = .ok v₀ ∧ v₀.run [.message (.frame f)] = .ok v ∧
      fs.length = 101 ∧ v.queue.cursor ≠ none ∧ (us ++ fs).Perm (fs.reverse ++ us) ∧
      Message.updates (us ++ fs) = Message.updates (fs.reverse ++ us) ∧
      v.queue.Fresh (Message.frames (us ++ fs)) ∧
      v.run ((us ++ fs).map .message) = .ok w ∧ v.run ((fs.reverse ++ us).map .message) = .ok w ∧
      w.stats.overflows = 2 := by
  let frame (n : Nat) : Frame :=
    { seq := .ofNat n, viewX := 0, viewY := 0, viewWidth := 1, viewHeight := 1 }
  let fs : List Message := (List.range 101).map fun i => .frame (frame (i + 6))
  let us : List Message :=
    [.side { hits := some [⟨0, 0, 7, 3⟩] }, .unknown "other", .side { score := some 1 }]
  obtain ⟨v₀, hstart⟩ := exists_ofSettings {} (by decide) (.ofSprite 32)
  obtain ⟨v, hrun, hqueue, hover⟩ : ∃ v, v₀.run [.message (.frame (frame 5))] = .ok v ∧
      v.queue = ({} : FrameQueue).push (frame 5) ∧ v.stats.overflows = 0 := by
    obtain ⟨dirty, numbers, -, -, rfl⟩ := ofSettings_eq_ok hstart
    exact ⟨_, rfl, rfl, rfl⟩
  have hcursor : v.queue.cursor ≠ none := by
    rw [hqueue]
    decide
  have hfresh : v.queue.Fresh (Message.frames (us ++ fs)) := by
    rw [hqueue]
    exact ⟨by decide +kernel, by decide +kernel⟩
  have hperm : (us ++ fs).Perm (fs.reverse ++ us) :=
    List.perm_append_comm.trans ((List.reverse_perm fs).symm.append_right us)
  obtain ⟨w, hms, hns, hcount, -⟩ := interleavings_agree hcursor hperm rfl hfresh
  refine ⟨frame 5, fs, us, v₀, v, w, hstart, hrun, rfl, hcursor, hperm, rfl, hfresh, hms, hns, ?_⟩
  rw [hcount, hover, hqueue]
  decide +kernel

end Viewer

end TileViewer
