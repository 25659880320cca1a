/-
What the three receivers make of a stream of frames, however the stream is cut
into reads.

The manager and the worker are in step with the stream after every read.  The
postman decodes a length before it looks at how much it holds, and is in step
exactly as long as every read leaves it with a whole length field.
-/
import LDPlayer.Client.Manager
import LDPlayer.Client.Schedule
import LDPlayer.Controller.Postman

set_option autoImplicit false

namespace LDPlayer

open LengthPrefix

def Bounded (payloads chunks : List Bytes) : Prop :=
  EachBuffered lengthWidth payloads
    (fun complete tail => (frames lengthWidth complete ++ tail).length < 2 ^ 32) chunks

theorem bounded_of_length {payloads chunks : List Bytes} (short : chunks.flatten.length < 2 ^ 32) :
    Bounded payloads chunks := by
  intro before chunk after same complete pending tail fresh later rest cut next
  rw [← next.front, List.length_append]
  rw [same, List.flatten_append, List.flatten_cons, cut.front] at short
  simp only [List.length_append] at short
  omega

theorem Bounded.whileLoop_inStep {payloads chunks : List Bytes} (buffered : Bounded payloads chunks)
    (carried : ∀ payload ∈ payloads, Carried lengthWidth payload)
    (stream : chunks.flatten = frames lengthWidth payloads) {State : Type}
    (handle : State → Bytes → Except Fault State) (state : State) :
    InStep lengthWidth handle (whileLoop handle) state payloads chunks := by
  have unwrapped : EachBuffered lengthWidth payloads Unwrapped chunks :=
    buffered.mono (fun _ _ below => unwrapped_of_lt below)
  rw [← List.append_nil chunks.flatten] at stream
  exact (whileLoop_drains handle).inStep (by decide) carried stream unwrapped state

/-- A reader that is in step has handed over all frames at the end of the stream. -/
theorem inStep_whole {payloads chunks : List Bytes}
    (stream : chunks.flatten = frames lengthWidth payloads) {State : Type}
    {handle : State → Bytes → Except Fault State}
    {drain : Bytes → State → Except Fault (Bytes × State)} {state : State}
    (inStep : InStep lengthWidth handle drain state payloads chunks) :
    chunks.foldlM (readChunk drain) ([], state) =
      (payloads.foldlM handle state).map (fun final => ([], final)) := by
  apply inStep chunks [] (List.append_nil chunks).symm payloads [] []
  exact
    { split := (List.append_nil payloads).symm
      front := by rw [stream, List.append_nil]
      short := by intro next later impossible; cases impossible }

/-- After every read the worker and the manager have handled the complete
frames received so far, each once and in order, and keep a proper prefix of the
next frame; at the end they have handled all. -/
theorem worker_and_manager_in_step {payloads chunks : List Bytes}
    (carried : ∀ payload ∈ payloads, Carried lengthWidth payload)
    (stream : chunks.flatten = frames lengthWidth payloads)
    (buffered : Bounded payloads chunks) :
    (∀ front back, chunks = front ++ back → ∃ complete pending tail,
      payloads = complete ++ pending ∧ front.flatten = frames lengthWidth complete ++ tail ∧
      (∀ next later, pending = next :: later → tail <+: frame next ∧ tail ≠ frame next) ∧
      (pending = [] → tail = []) ∧
      (∀ codec clock worker,
        front.foldlM (Schedule.manager_read_cb codec clock) ([], worker) =
          (complete.foldlM (Schedule.manager_handle codec clock) worker).map
            (fun final => (tail, final))) ∧
      (∀ codec draws manager,
        front.foldlM (Manager.com_read_cb codec draws) ([], manager) =
          (complete.foldlM (Manager.com_handle codec draws) manager).map
            (fun final => (tail, final)))) ∧
    (∀ codec clock worker,
      chunks.foldlM (Schedule.manager_read_cb codec clock) ([], worker) =
        (payloads.foldlM (Schedule.manager_handle codec clock) worker).map
          (fun final => ([], final))) ∧
    (∀ codec draws manager,
      chunks.foldlM (Manager.com_read_cb codec draws) ([], manager) =
        (payloads.foldlM (Manager.com_handle codec draws) manager).map
          (fun final => ([], final))) := by
  have inStep : ∀ (State : Type) (handle : State → Bytes → Except Fault State) (state : State),
      InStep lengthWidth handle (whileLoop handle) state payloads chunks :=
    fun State handle state => buffered.whileLoop_inStep carried stream handle state
  refine ⟨?_, ?_, ?_⟩
  · intro front back same
    have streamed : front.flatten ++ back.flatten = frames lengthWidth payloads := by
      rw [← stream, same, List.flatten_append]
    obtain ⟨complete, pending, tail, cut, remaining⟩ := cut_front payloads streamed
    refine ⟨complete, pending, tail, cut.split, cut.front, ?_, ?_, ?_, ?_⟩
    · intro next later split
      exact cut.begins_next remaining split
    · intro empty
      rw [empty, frames_nil] at remaining
      exact (List.append_eq_nil_iff.mp remaining).1
    · intro codec clock worker
      exact inStep _ (Schedule.manager_handle codec clock) worker front back same _ _ _ cut
    · intro codec draws manager
      exact inStep _ (Manager.com_handle codec draws) manager front back same _ _ _ cut
  · intro codec clock worker
    exact inStep_whole stream (inStep _ (Schedule.manager_handle codec clock) worker)
  · intro codec draws manager
    exact inStep_whole stream (inStep _ (Manager.com_handle codec draws) manager)

private theorem carried_seven : ∀ payload ∈ [[7]], Carried lengthWidth payload := by
  intro payload member
  rw [List.mem_singleton] at member
  subst member
  exact { nonempty := by decide, fits := by decide }

/-- A library that gives up on a text and leaves the message empty. -/
def gives_up : Codec where
  SerializeToString _ := none
  ParseFromArray _ := {}

/-- One message of one byte, which is no message, read after two and after five
bytes by a manager with one worker. -/
theorem worker_and_manager_in_step_cut :
    [[0, 0], [0, 1, 7]].foldlM (Manager.com_read_cb gives_up (fun _ => 0))
        ([], (Manager.new 1 [5] false, [])) =
      ([[7]].foldlM (Manager.com_handle gives_up (fun _ => 0)) (Manager.new 1 [5] false, [])).map
        (fun final => ([], final)) :=
  (worker_and_manager_in_step carried_seven (by decide)
    (bounded_of_length (by decide))).2.2 gives_up (fun _ => 0) _

/-! ### The postman -/

/-- The postman is in step exactly on the streams that leave it, at each read,
with a whole length field and with no complete frame that `left` misses.  It
then does what the loop of the worker does. -/
theorem skt_read_cb_in_step_iff {payloads chunks : List Bytes}
    (carried : ∀ payload ∈ payloads, Carried lengthWidth payload)
    (stream : chunks.flatten = frames lengthWidth payloads) :
    ((∀ (State : Type) (handle : State → Bytes → Except Fault State) (state : State),
      InStep lengthWidth handle (doWhileLoop handle) state payloads chunks) ↔
      EachBuffered lengthWidth payloads WithHeader chunks) ∧
    (∀ codec draws postman final,
      payloads.foldlM (Postman.skt_handle codec draws) postman = .ok final →
      ((∀ front back, chunks = front ++ back → ∀ complete pending tail,
        Cut lengthWidth payloads front.flatten complete pending tail →
        front.foldlM (Postman.skt_read_cb codec draws) ([], postman) =
          (complete.foldlM (Postman.skt_handle codec draws) postman).map
            (fun final => (tail, final))) ↔
        EachBuffered lengthWidth payloads WithHeader chunks)) ∧
    (EachBuffered lengthWidth payloads WithHeader chunks →
      ∀ (State : Type) (handle : State → Bytes → Except Fault State) (state : State) front back,
        chunks = front ++ back →
        front.foldlM (readChunk (doWhileLoop handle)) ([], state) =
          front.foldlM (readChunk (whileLoop handle)) ([], state)) := by
  have ended : chunks.flatten ++ [] = frames lengthWidth payloads := by
    rw [List.append_nil, stream]
  have decides : ∀ (State : Type) (handle : State → Bytes → Except Fault State)
      (state final : State), payloads.foldlM handle state = .ok final →
      (InStep lengthWidth handle (doWhileLoop handle) state payloads chunks ↔
        EachBuffered lengthWidth payloads WithHeader chunks) := by
    intro State handle state final handled
    exact (doWhileLoop_drains handle).inStep_iff (by decide) (doWhileLoop_exact handle) carried
      ended handled
  refine ⟨⟨?_, ?_⟩, ?_, ?_⟩
  · intro inStep
    -- One handler that never faults is enough.
    have handled : payloads.foldlM (fun _ _ => pure ()) () = (pure () : Except Fault Unit) :=
      List.foldlM_pure
    exact (decides Unit _ () () handled).mp (inStep Unit _ ())
  · intro each State handle state
    exact (doWhileLoop_drains handle).inStep (by decide) carried ended each state
  · intro codec draws postman final handled
    exact decides _ (Postman.skt_handle codec draws) postman final handled
  · intro each State handle state front back same
    have streamed : front.flatten ++ back.flatten = frames lengthWidth payloads := by
      rw [← stream, same, List.flatten_append]
    obtain ⟨complete, pending, tail, cut, _remaining⟩ := cut_front payloads streamed
    have unwrapped : EachBuffered lengthWidth payloads Unwrapped chunks :=
      each.mono (fun _ _ withHeader => withHeader.2)
    rw [(doWhileLoop_drains handle).inStep (by decide) carried ended each state
        front back same complete pending tail cut,
      (whileLoop_drains handle).inStep (by decide) carried ended unwrapped state
        front back same complete pending tail cut]

/-- Reads of four bytes and more leave the postman with a whole length field. -/
theorem withHeader_of_chunks {payloads chunks : List Bytes}
    (long : ∀ chunk ∈ chunks, lengthWidth ≤ chunk.length)
    (short : chunks.flatten.length < 2 ^ 32) :
    EachBuffered lengthWidth payloads WithHeader chunks := by
  intro before chunk after same complete pending tail fresh later rest cut next
  have enough : lengthWidth ≤ chunk.length := by
    apply long chunk
    rw [same]
    exact List.mem_append_right _ List.mem_cons_self
  refine ⟨?_, unwrapped_of_lt (bounded_of_length short before chunk after same complete pending
    tail fresh later rest cut next)⟩
  rw [← next.front, List.length_append]
  omega

/-- Two messages in two reads, cut inside the length of the second one. -/
theorem skt_read_cb_in_step_cut :
    EachBuffered lengthWidth [[7], [8, 9]] WithHeader [[0, 0, 0, 1, 7, 0], [0, 0, 2, 8, 9]] ∧
      InStep lengthWidth record (doWhileLoop record) [] [[7], [8, 9]]
        [[0, 0, 0, 1, 7, 0], [0, 0, 2, 8, 9]] := by
  have carried : ∀ payload ∈ [[7], [8, 9]], Carried lengthWidth payload := by
    intro payload member
    rcases List.mem_cons.mp member with rfl | member
    · exact { nonempty := by decide, fits := by decide }
    · rw [List.mem_singleton.mp member]
      exact { nonempty := by decide, fits := by decide }
  have headed : EachBuffered lengthWidth [[7], [8, 9]] WithHeader
      [[0, 0, 0, 1, 7, 0], [0, 0, 2, 8, 9]] :=
    withHeader_of_chunks (by decide) (by decide)
  exact ⟨headed, (skt_read_cb_in_step_iff carried (by decide)).1.mpr headed (List Bytes) record []⟩

/-- Read after two and after five bytes, the same message is lost: the postman
decodes a length from two bytes, where the worker waits for the rest. -/
theorem skt_read_cb_short_read :
    ([[0, 0], [0, 1, 7]] : List Bytes).flatten = frames lengthWidth [[7]] ∧
      (∀ codec draws postman,
        [[0, 0], [0, 1, 7]].foldlM (Postman.skt_read_cb codec draws) ([], postman) =
          .error .outOfBounds) ∧
      ∀ codec clock worker,
        [[0, 0]].foldlM (Schedule.manager_read_cb codec clock) ([], worker) =
          .ok ([0, 0], worker) := by
  have short : ([0, 0] : Bytes).length < lengthWidth := by decide
  refine ⟨by decide, ?_, ?_⟩
  · intro codec draws postman
    have first : Postman.skt_read_cb codec draws ([], postman) [0, 0] = .error .outOfBounds :=
      doWhileLoop_short _ short postman
    rw [List.foldlM_cons, first]
    rfl
  · intro codec clock worker
    have first : Schedule.manager_read_cb codec clock ([], worker) [0, 0] = .ok ([0, 0], worker) :=
      whileLoop_incomplete _ (Or.inl short) worker
    rw [List.foldlM_cons, first]
    rfl

end LDPlayer
