/-
The manager's connection to the controller: com_read_cb and com_bevent_cb.

A connection can be lost at any byte of its stream, and the manager then opens
another one.  The reassembly buffer is a member of the manager and outlives the
connection whose bytes it holds.  What is done with a frame is a parameter, as
in the deframing loops.
-/
import LDPlayer.Receivers

set_option autoImplicit false

namespace LDPlayer

open LengthPrefix

structure Which where
  connected : Bool := false
  eof : Bool := false
  error : Bool := false
  timeout : Bool := false
  deriving DecidableEq, Repr

/-- `err_msg` is not empty: `com_bevent_cb_helper` frees the bufferevent. -/
def Which.closes (which : Which) : Bool :=
  ¬ which.connected ∧ (which.error ∨ which.eof ∨ which.timeout)

/-- The members of the manager that a reconnect reads or keeps. -/
structure Commander (State : Type) where
  com_msg_buffer : Bytes := []
  com_fail_retry : Nat := 0
  manager : State

namespace Commander

inductive Event where
  | com_read_cb (data : Bytes)
  | com_bevent_cb_helper (which : Which) (connects : Bool)

def FAIL_RETRY_LIMIT : Nat := 5

section model

variable {State : Type}

/-- The reconnect; `connects` is the outcome of `bufferevent_socket_connect`. -/
def com_bevent_cb (connects : Bool) (c : Commander State) : Except Fault (Commander State) :=
  let com_fail_retry := c.com_fail_retry + 1
  if com_fail_retry ≥ FAIL_RETRY_LIMIT then
    .error (.exit "connection to commander fails too many times")
  else if ¬ connects then .error (.exit "bufferevent_socket_connect fails")
  else .ok { c with com_fail_retry := com_fail_retry }

def com_bevent_cb_helper (which : Which) (connects : Bool) (c : Commander State) :
    Except Fault (Commander State) :=
  if which.closes then c.com_bevent_cb connects else .ok c

def com_read_cb (handle : State → Bytes → Except Fault State) (data : Bytes)
    (c : Commander State) : Except Fault (Commander State) :=
  match readChunk (whileLoop handle) (c.com_msg_buffer, c.manager) data with
  | .error fault => .error fault
  | .ok (com_msg_buffer, manager) =>
      .ok { c with com_msg_buffer := com_msg_buffer, manager := manager }

def step (handle : State → Bytes → Except Fault State) (c : Commander State) :
    Event → Except Fault (Commander State)
  | .com_read_cb data => c.com_read_cb handle data
  | .com_bevent_cb_helper which connects => c.com_bevent_cb_helper which connects

def run (handle : State → Bytes → Except Fault State) (c : Commander State)
    (events : List Event) : Except Fault (Commander State) :=
  events.foldlM (step handle) c

end model

/-! ### Connections -/

/-- What the controller sends on one connection, the reads in which the manager
receives it, the bytes that are lost with it, and how it ends. -/
structure Connection where
  payloads : List Bytes
  chunks : List Bytes
  lost : Bytes
  which : Which
  carried : ∀ payload ∈ payloads, Carried lengthWidth payload
  stream : chunks.flatten ++ lost = frames lengthWidth payloads
  closes : which.closes = true

namespace Connection

def reads (chunks : List Bytes) : List Event := chunks.map .com_read_cb

def events (conn : Connection) : List Event :=
  reads conn.chunks ++ [.com_bevent_cb_helper conn.which true]

def complete (conn : Connection) : List Bytes :=
  delivered lengthWidth conn.payloads conn.chunks.flatten.length

/-- The connection is lost behind a frame and not within one. -/
def AtBoundary (conn : Connection) : Prop :=
  conn.chunks.flatten = frames lengthWidth conn.complete

instance (conn : Connection) : Decidable conn.AtBoundary :=
  inferInstanceAs (Decidable (_ = _))

/-- No read leaves a complete frame behind that the 32 bits of `left` hide. -/
def Visible (conn : Connection) : Prop :=
  EachBuffered lengthWidth conn.payloads Unwrapped conn.chunks

/-- After every read on every connection the frames handed over are the complete
ones received on it, behind those of the connections before. -/
def InOrder {State : Type} (handle : State → Bytes → Except Fault State) (state : State)
    (conns : List Connection) : Prop :=
  ∀ earlier current later, conns = earlier ++ current :: later →
    ∀ front back, current.chunks = front ++ back →
      (run handle { manager := state } (earlier.flatMap events ++ reads front)).map manager =
        (earlier.flatMap complete ++
          delivered lengthWidth current.payloads front.flatten.length).foldlM handle state

end Connection

/-! ### Runs that lose connections behind frames only -/

section run

variable {State : Type} (handle : State → Bytes → Except Fault State)

theorem run_append (c : Commander State) (first second : List Event) :
    run handle c (first ++ second) = run handle c first >>= fun middle => run handle middle second :=
  List.foldlM_append

theorem step_com_read_cb (data : Bytes) (c : Commander State) :
    step handle c (.com_read_cb data) =
      (readChunk (whileLoop handle) (c.com_msg_buffer, c.manager) data).map
        (fun reader => { c with com_msg_buffer := reader.1, manager := reader.2 }) := by
  change c.com_read_cb handle data = _
  unfold com_read_cb
  cases readChunk (whileLoop handle) (c.com_msg_buffer, c.manager) data <;> rfl

theorem run_reads (chunks : List Bytes) (c : Commander State) :
    run handle c (Connection.reads chunks) =
      (chunks.foldlM (readChunk (whileLoop handle)) (c.com_msg_buffer, c.manager)).map
        (fun reader => { c with com_msg_buffer := reader.1, manager := reader.2 }) := by
  induction chunks generalizing c with
  | nil => rfl
  | cons chunk later ih =>
      unfold run Connection.reads at ih ⊢
      rw [List.map_cons, List.foldlM_cons, List.foldlM_cons, step_com_read_cb]
      cases readChunk (whileLoop handle) (c.com_msg_buffer, c.manager) chunk with
      | error fault => rfl
      | ok reader => exact ih { c with com_msg_buffer := reader.1, manager := reader.2 }

theorem run_reconnect (c : Commander State) (conn : Connection)
    (permitted : c.com_fail_retry + 1 < FAIL_RETRY_LIMIT) :
    run handle c [.com_bevent_cb_helper conn.which true] =
      .ok { c with com_fail_retry := c.com_fail_retry + 1 } := by
  have counted : c.com_bevent_cb_helper conn.which true =
      .ok { c with com_fail_retry := c.com_fail_retry + 1 } := by
    unfold com_bevent_cb_helper com_bevent_cb
    rw [if_pos conn.closes]
    simp only [if_neg (Nat.not_le.mpr permitted), not_true_eq_false, if_false]
  unfold run
  rw [List.foldlM_cons]
  change c.com_bevent_cb_helper conn.which true >>= _ = _
  rw [counted]
  rfl

theorem Connection.cut (conn : Connection) {front back : List Bytes}
    (same : conn.chunks = front ++ back) :
    ∃ pending tail,
      Cut lengthWidth conn.payloads front.flatten
        (delivered lengthWidth conn.payloads front.flatten.length) pending tail ∧
      tail ++ (back.flatten ++ conn.lost) = frames lengthWidth pending := by
  apply cut_delivered
  rw [← conn.stream, same, List.flatten_append, List.append_assoc]

theorem Connection.Visible.inStep {conn : Connection} (visible : conn.Visible) (state : State) :
    InStep lengthWidth handle (whileLoop handle) state conn.payloads conn.chunks :=
  (whileLoop_drains handle).inStep (by decide) conn.carried conn.stream visible state

/-- From an empty buffer the reads hand over the complete frames of their connection. -/
theorem run_visible {conn : Connection} (visible : conn.Visible) {front back : List Bytes}
    (same : conn.chunks = front ++ back) (retry : Nat) (state : State) :
    ∃ tail,
      front.flatten =
        frames lengthWidth (delivered lengthWidth conn.payloads front.flatten.length) ++ tail ∧
      run handle { com_fail_retry := retry, manager := state } (Connection.reads front) =
        ((delivered lengthWidth conn.payloads front.flatten.length).foldlM handle state).map
          (fun final => { com_msg_buffer := tail, com_fail_retry := retry, manager := final }) := by
  obtain ⟨pending, tail, cut, _streamed⟩ := conn.cut same
  refine ⟨tail, cut.front, ?_⟩
  rw [run_reads, visible.inStep handle state front back same _ pending tail cut]
  cases (delivered lengthWidth conn.payloads front.flatten.length).foldlM handle state <;> rfl

theorem run_lost (conns : List Connection)
    (behind : ∀ conn ∈ conns, conn.AtBoundary ∧ conn.Visible) (retry : Nat)
    (permitted : retry + conns.length < FAIL_RETRY_LIMIT) (state : State) :
    run handle { com_fail_retry := retry, manager := state } (conns.flatMap Connection.events) =
      ((conns.flatMap Connection.complete).foldlM handle state).map
        (fun final => { com_fail_retry := retry + conns.length, manager := final }) := by
  induction conns generalizing retry state with
  | nil => rfl
  | cons conn later ih =>
      rw [List.length_cons] at permitted ⊢
      obtain ⟨boundary, visible⟩ := behind conn List.mem_cons_self
      obtain ⟨tail, front, handed⟩ :=
        run_visible handle visible (List.append_nil conn.chunks).symm retry state
      have empty : tail = [] := List.append_right_eq_self.mp (front.symm.trans boundary)
      subst empty
      change run handle _ (Connection.reads conn.chunks) = (conn.complete.foldlM handle state).map _
        at handed
      rw [List.flatMap_cons, List.flatMap_cons, List.foldlM_append, Connection.events,
        List.append_assoc, run_append, handed]
      cases conn.complete.foldlM handle state with
      | error fault => rfl
      | ok middle =>
          have allowed : retry + 1 < FAIL_RETRY_LIMIT := by omega
          change run handle { com_fail_retry := retry, manager := middle } _ = _
          rw [run_append, run_reconnect handle _ conn allowed]
          have rest := ih (fun other member => behind other (List.mem_cons_of_mem conn member))
            (retry + 1) (by omega) middle
          rw [Nat.add_assoc, Nat.add_comm 1] at rest
          exact rest

/-- The complete frames are handed over in order as long as no connection is
lost within a frame. -/
theorem inOrder_of_boundaries {conns : List Connection} {next : Connection}
    (behind : ∀ conn ∈ conns, conn.AtBoundary ∧ conn.Visible) (visible : next.Visible)
    (permitted : conns.length < FAIL_RETRY_LIMIT) (state : State) :
    Connection.InOrder handle state (conns ++ [next]) := by
  intro earlier current later same front back split
  have seen : current.Visible ∧ (∀ conn ∈ earlier, conn.AtBoundary ∧ conn.Visible) ∧
      earlier.length ≤ conns.length := by
    rcases List.append_eq_append_iff.mp same with ⟨more, reached, rest⟩ | ⟨more, reached, rest⟩
    · cases more with
      | nil =>
          obtain ⟨rfl, _⟩ := List.cons.inj rest
          rw [List.append_nil] at reached
          subst reached
          exact ⟨visible, behind, Nat.le_refl _⟩
      | cons conn others =>
          have impossible := (List.cons.inj rest).2
          simp at impossible
    · cases more with
      | nil =>
          obtain ⟨rfl, _⟩ := List.cons.inj rest
          rw [List.append_nil] at reached
          subst reached
          exact ⟨visible, behind, Nat.le_refl _⟩
      | cons conn others =>
          obtain ⟨rfl, _⟩ := List.cons.inj rest
          subst reached
          refine ⟨(behind current (by simp)).2, ?_, by simp⟩
          intro conn member
          exact behind conn (List.mem_append_left _ member)
  obtain ⟨seesCurrent, behindEarlier, shorter⟩ := seen
  have reached := run_lost handle earlier behindEarlier 0 (by omega) state
  rw [run_append, reached, List.foldlM_append]
  cases (earlier.flatMap Connection.complete).foldlM handle state with
  | error fault => rfl
  | ok middle =>
      obtain ⟨tail, _front, handed⟩ :=
        run_visible handle seesCurrent split (0 + earlier.length) middle
      change (run handle { com_fail_retry := 0 + earlier.length, manager := middle } _).map _ = _
      rw [handed]
      change _ = List.foldlM handle middle _
      cases (delivered lengthWidth current.payloads front.flatten.length).foldlM handle middle <;> rfl

end run

/-! ### Runs that lose a connection within a frame -/

def received : List Event → Bytes
  | [] => []
  | .com_read_cb data :: rest => data ++ received rest
  | .com_bevent_cb_helper _ _ :: rest => received rest

theorem received_append (first second : List Event) :
    received (first ++ second) = received first ++ received second := by
  induction first with
  | nil => rfl
  | cons event rest ih =>
      cases event with
      | com_read_cb data =>
          change data ++ received (rest ++ second) = data ++ received rest ++ received second
          rw [ih, List.append_assoc]
      | com_bevent_cb_helper which connects => exact ih

theorem received_reads (chunks : List Bytes) :
    received (Connection.reads chunks) = chunks.flatten := by
  induction chunks with
  | nil => rfl
  | cons chunk later ih =>
      change chunk ++ received (Connection.reads later) = _
      rw [ih, List.flatten_cons]

theorem received_events (conn : Connection) : received conn.events = conn.chunks.flatten := by
  unfold Connection.events
  rw [received_append, received_reads]
  exact List.append_nil _

/-- A step keeps account of all bytes: they are handed over or in the buffer. -/
theorem step_record {c next : Commander (List Bytes)} {event : Event}
    (stepped : step record c event = .ok next) :
    ∃ handed, next.manager = c.manager ++ handed ∧
      c.com_msg_buffer ++ received [event] =
        frames lengthWidth handed ++ next.com_msg_buffer := by
  cases event with
  | com_read_cb data =>
      rw [step_com_read_cb] at stepped
      cases drained : readChunk (whileLoop record) (c.com_msg_buffer, c.manager) data with
      | error fault =>
          rw [drained] at stepped
          cases stepped
      | ok reader =>
          rw [drained] at stepped
          obtain rfl := Except.ok.inj stepped
          obtain ⟨handed, kept, cut⟩ := whileLoop_record drained
          refine ⟨handed, kept, ?_⟩
          change c.com_msg_buffer ++ (data ++ []) = _
          rw [List.append_nil]
          exact cut
  | com_bevent_cb_helper which connects =>
      have same : next.manager = c.manager ∧ next.com_msg_buffer = c.com_msg_buffer := by
        change c.com_bevent_cb_helper which connects = _ at stepped
        unfold com_bevent_cb_helper com_bevent_cb at stepped
        split at stepped
        · simp only at stepped
          split at stepped
          · cases stepped
          · split at stepped
            · cases stepped
            · obtain rfl := Except.ok.inj stepped
              exact ⟨rfl, rfl⟩
        · obtain rfl := Except.ok.inj stepped
          exact ⟨rfl, rfl⟩
      refine ⟨[], ?_, ?_⟩
      · rw [same.1, List.append_nil]
      · rw [same.2]
        exact List.append_nil _

theorem run_record {events : List Event} {c final : Commander (List Bytes)}
    (reached : run record c events = .ok final) :
    ∃ handed, final.manager = c.manager ++ handed ∧
      c.com_msg_buffer ++ received events =
        frames lengthWidth handed ++ final.com_msg_buffer := by
  induction events generalizing c with
  | nil =>
      obtain rfl := Except.ok.inj reached
      exact ⟨[], (List.append_nil _).symm, List.append_nil _⟩
  | cons event rest ih =>
      unfold run at reached
      rw [List.foldlM_cons] at reached
      cases stepped : step record c event with
      | error fault =>
          rw [stepped] at reached
          cases reached
      | ok middle =>
          rw [stepped] at reached
          obtain ⟨first, kept, cut⟩ := step_record stepped
          obtain ⟨second, keptRest, cutRest⟩ := ih reached
          refine ⟨first ++ second, ?_, ?_⟩
          · rw [keptRest, kept, List.append_assoc]
          · rw [show event :: rest = [event] ++ rest from rfl, received_append, ← List.append_assoc,
              cut, List.append_assoc, cutRest, frames_append, List.append_assoc]

/-- What a run hands over decides what it leaves in the buffer. -/
theorem run_record_of_manager {events : List Event} {log : List Bytes}
    (reached : (run record { manager := [] } events).map manager = .ok log) :
    ∃ final, run record { manager := [] } events = .ok final ∧ final.manager = log ∧
      received events = frames lengthWidth log ++ final.com_msg_buffer := by
  cases ran : run record { manager := [] } events with
  | error fault =>
      rw [ran] at reached
      cases reached
  | ok final =>
      rw [ran] at reached
      obtain rfl := Except.ok.inj reached
      obtain ⟨handed, kept, cut⟩ := run_record ran
      rw [List.nil_append] at kept
      subst kept
      exact ⟨final, rfl, rfl, cut⟩

theorem exists_payload_head_ne (byte : UInt8) :
    ∃ payload rest head, Carried lengthWidth payload ∧ payload.length ≤ 2 ^ 24 ∧
      frame payload = head :: rest ∧ head ≠ byte := by
  by_cases zero : byte = 0
  · have encoded : encodeLength lengthWidth (2 ^ 24) = [1, 0, 0, 0] := by decide
    have size : (List.replicate (2 ^ 24) (0 : UInt8)).length = 2 ^ 24 := List.length_replicate
    refine ⟨List.replicate (2 ^ 24) 0, [0, 0, 0] ++ List.replicate (2 ^ 24) 0, 1,
      ⟨?_, ?_⟩, Nat.le_of_eq size, ?_, ?_⟩
    · apply List.ne_nil_of_length_pos
      rw [size]
      decide
    · rw [size]
      decide
    · unfold frame LengthPrefix.frame
      rw [size, encoded]
      rfl
    · rw [zero]
      decide
  · exact ⟨[0], [0, 0, 1, 0], 0, ⟨by decide, by decide⟩, by decide, by decide,
      fun same => zero same.symm⟩

def Connection.whole (payload : Bytes) (carried : Carried lengthWidth payload) : Connection where
  payloads := [payload]
  chunks := [frame payload]
  lost := []
  which := { eof := true }
  carried := by
    intro other member
    rw [List.mem_singleton.mp member]
    exact carried
  stream := by
    change (frame payload ++ []) ++ [] = frame payload ++ []
    rw [List.append_nil]
  closes := by decide

theorem Connection.whole_visible {payload : Bytes} (carried : Carried lengthWidth payload)
    (small : payload.length ≤ 2 ^ 24) : (whole payload carried).Visible := by
  have bounded : Bounded [payload] [frame payload] := by
    apply bounded_of_length
    rw [List.flatten_singleton]
    unfold frame lengthWidth
    rw [frame_length]
    omega
  exact bounded.mono (fun _ _ below => unwrapped_of_lt below)

/-- Where the frames are handed over in order whatever the next connection
carries, the buffer is empty before it: the bytes received are those of the
complete frames. -/
theorem received_lost_of_inOrder {lost : List Connection}
    (inOrder : ∀ next : Connection, next.Visible →
      Connection.InOrder record [] (lost ++ [next])) :
    received (lost.flatMap Connection.events) =
      frames lengthWidth (lost.flatMap Connection.complete) := by
  have handed : ∀ next : Connection, next.Visible → ∀ front back,
      next.chunks = front ++ back →
      ∃ buffer, received (lost.flatMap Connection.events) ++ front.flatten =
        frames lengthWidth (lost.flatMap Connection.complete ++
          delivered lengthWidth next.payloads front.flatten.length) ++ buffer := by
    intro next visible front back split
    have logged := inOrder next visible lost next [] rfl front back split
    rw [foldlM_record, List.nil_append] at logged
    obtain ⟨final, _ran, _kept, cut⟩ := run_record_of_manager logged
    rw [received_append, received_reads] at cut
    exact ⟨final.com_msg_buffer, cut⟩
  obtain ⟨payload, rest, head, carried, small, _framed, _differs⟩ := exists_payload_head_ne 0
  obtain ⟨buffer, before⟩ :=
    handed (Connection.whole payload carried) (Connection.whole_visible carried small) [] _ rfl
  rw [List.flatten_nil, List.append_nil, List.length_nil, delivered_zero (by decide),
    List.append_nil] at before
  cases buffer with
  | nil => rw [before, List.append_nil]
  | cons byte others =>
      -- The next frame would have to begin with the first byte that was left over.
      obtain ⟨payload, rest, head, carried, small, framed, differs⟩ := exists_payload_head_ne byte
      obtain ⟨buffer', after⟩ := handed (Connection.whole payload carried)
        (Connection.whole_visible carried small) [frame payload] [] rfl
      have whole : delivered lengthWidth (Connection.whole payload carried).payloads
          [frame payload].flatten.length = [payload] :=
        delivered_whole [payload]
      rw [whole, before, frames_append, List.append_assoc, List.append_assoc,
        List.flatten_singleton] at after
      have heads := List.append_cancel_left after
      change _ = (frame payload ++ []) ++ buffer' at heads
      rw [framed] at heads
      exact absurd (List.cons.inj heads).1.symm differs

private theorem boundaries_of_received {lost : List Connection}
    (exactly : received (lost.flatMap Connection.events) =
      frames lengthWidth (lost.flatMap Connection.complete)) :
    ∀ conn ∈ lost, conn.AtBoundary := by
  have front : ∀ conn : Connection, ∃ tail,
      conn.chunks.flatten = frames lengthWidth conn.complete ++ tail := by
    intro conn
    obtain ⟨_pending, tail, cut, _streamed⟩ := conn.cut (List.append_nil conn.chunks).symm
    exact ⟨tail, cut.front⟩
  have longer : ∀ conns : List Connection,
      (frames lengthWidth (conns.flatMap Connection.complete)).length ≤
        (received (conns.flatMap Connection.events)).length := by
    intro conns
    induction conns with
    | nil => exact Nat.le_refl _
    | cons conn later ih =>
        obtain ⟨tail, split⟩ := front conn
        rw [List.flatMap_cons, List.flatMap_cons, received_append, frames_append,
          received_events, split]
        simp only [List.length_append]
        omega
  induction lost with
  | nil => exact fun conn member => absurd member List.not_mem_nil
  | cons conn later ih =>
      obtain ⟨tail, split⟩ := front conn
      rw [List.flatMap_cons, List.flatMap_cons, received_append, frames_append, received_events,
        split, List.append_assoc] at exactly
      have rest := List.append_cancel_left exactly
      have lengths := congrArg List.length rest
      have shorter := longer later
      rw [List.length_append] at lengths
      have empty : tail = [] := List.eq_nil_of_length_eq_zero (by omega)
      subst empty
      intro other member
      rcases List.mem_cons.mp member with rfl | member
      · rw [List.append_nil] at split
        exact split
      · exact ih rest other member

private theorem received_of_boundaries {conns : List Connection}
    (boundaries : ∀ conn ∈ conns, conn.AtBoundary) :
    received (conns.flatMap Connection.events) =
      frames lengthWidth (conns.flatMap Connection.complete) := by
  induction conns with
  | nil => rfl
  | cons conn later ih =>
      have whole : conn.chunks.flatten = frames lengthWidth conn.complete :=
        boundaries conn List.mem_cons_self
      rw [List.flatMap_cons, List.flatMap_cons, received_append, frames_append, received_events,
        whole, ih (fun other member => boundaries other (List.mem_cons_of_mem conn member))]

/-- A connection that starts on an empty buffer and is in order hides no frame. -/
theorem visible_of_inOrder {earlier later : List Connection} {current : Connection}
    (behind : received (earlier.flatMap Connection.events) =
      frames lengthWidth (earlier.flatMap Connection.complete))
    (inOrder : Connection.InOrder record [] (earlier ++ current :: later)) : current.Visible := by
  have start := inOrder earlier current later rfl [] current.chunks rfl
  rw [List.flatten_nil, List.length_nil, delivered_zero (by decide), List.append_nil,
    foldlM_record, List.nil_append] at start
  change (run record _ (earlier.flatMap Connection.events ++ [])).map _ = _ at start
  rw [List.append_nil] at start
  obtain ⟨middle, ran, kept, cut⟩ := run_record_of_manager start
  rw [behind] at cut
  have empty : middle.com_msg_buffer = [] := List.append_right_eq_self.mp cut.symm
  have handled := foldlM_record current.payloads (earlier.flatMap Connection.complete)
  apply ((whileLoop_drains record).inStep_iff (by decide) (whileLoop_exact record) current.carried
    current.stream handled).mp
  intro front back split complete pending tail cutFront
  have logged := inOrder earlier current later rfl front back split
  rw [cutFront.delivered_eq, foldlM_record, List.nil_append] at logged
  obtain ⟨final, ranFinal, keptFinal, cutFinal⟩ := run_record_of_manager logged
  rw [received_append, received_reads, behind, frames_append, List.append_assoc] at cutFinal
  have left : final.com_msg_buffer = tail :=
    List.append_cancel_left ((List.append_cancel_left cutFinal).symm.trans cutFront.front)
  rw [run_append, ran] at ranFinal
  change run record middle (Connection.reads front) = _ at ranFinal
  rw [run_reads, empty, kept] at ranFinal
  rw [foldlM_record]
  cases folded : front.foldlM (readChunk (whileLoop record))
      ([], earlier.flatMap Connection.complete) with
  | error fault =>
      rw [folded] at ranFinal
      cases ranFinal
  | ok reader =>
      rw [folded] at ranFinal
      obtain rfl := Except.ok.inj ranFinal
      change Except.ok reader = .ok (tail, _)
      rw [← left, ← keptFinal]

/-- The deframing survives the reconnects exactly where every connection was
lost behind a frame.  Whatever the manager does with a frame, and whatever the
connection behind the lost ones carries, the frames handed over on each of them
are then the complete frames received on it, in order; and so it is for what
com_read_cb does with them. -/
theorem com_read_cb_reconnect_iff (lost : List Connection)
    (permitted : lost.length < FAIL_RETRY_LIMIT) :
    ((∀ next : Connection, next.Visible →
      ∀ (State : Type) (handle : State → Bytes → Except Fault State) (state : State),
        Connection.InOrder handle state (lost ++ [next])) ↔
      ∀ conn ∈ lost, conn.AtBoundary ∧ conn.Visible) ∧
    ((∀ conn ∈ lost, conn.AtBoundary ∧ conn.Visible) →
      ∀ next : Connection, next.Visible → ∀ codec draws manager sent,
        Connection.InOrder (Manager.com_handle codec draws) (manager, sent) (lost ++ [next])) := by
  refine ⟨⟨?_, ?_⟩, ?_⟩
  · intro inOrder
    have recorded : ∀ next : Connection, next.Visible →
        Connection.InOrder record [] (lost ++ [next]) :=
      fun next visible => inOrder next visible (List Bytes) record []
    have exactly := received_lost_of_inOrder recorded
    have boundaries := boundaries_of_received exactly
    intro conn member
    refine ⟨boundaries conn member, ?_⟩
    obtain ⟨payload, _rest, _head, carried, small, _framed, _differs⟩ := exists_payload_head_ne 0
    obtain ⟨earlier, later, rfl⟩ := List.append_of_mem member
    have known := recorded _ (Connection.whole_visible carried small)
    rw [List.append_assoc, List.cons_append] at known
    apply visible_of_inOrder _ known
    apply received_of_boundaries
    intro other within
    exact boundaries other (List.mem_append_left _ within)
  · intro behind next visible State handle state
    exact inOrder_of_boundaries handle behind visible permitted state
  · intro behind next visible codec draws manager sent
    exact inOrder_of_boundaries _ behind visible permitted (manager, sent)

def Connection.cut_within : Connection where
  payloads := [[7, 8]]
  chunks := [[0, 0, 0, 2]]
  lost := [7, 8]
  which := { error := true }
  carried := by
    intro payload member
    rw [List.mem_singleton.mp member]
    exact { nonempty := by decide, fits := by decide }
  stream := by decide
  closes := by decide

private theorem carried_nine : Carried lengthWidth [9] :=
  { nonempty := by decide, fits := by decide }

/-- One lost connection whose message had arrived whole. -/
theorem com_read_cb_reconnect_iff_whole :
    (∀ next : Connection, next.Visible →
      ∀ (State : Type) (handle : State → Bytes → Except Fault State) (state : State),
        Connection.InOrder handle state ([Connection.whole [9] carried_nine] ++ [next])) ↔
      ∀ conn ∈ [Connection.whole [9] carried_nine], conn.AtBoundary ∧ conn.Visible :=
  (com_read_cb_reconnect_iff [Connection.whole [9] carried_nine] (by decide)).1

private theorem carried_zeros : Carried lengthWidth [0, 0] :=
  { nonempty := by decide, fits := by decide }

theorem run_stale_length {State : Type} (handle : State → Bytes → Except Fault State)
    (state : State) :
    run handle { manager := state } (Connection.cut_within.events ++
      Connection.reads (Connection.whole [9] carried_nine).chunks) =
        (handle state [0, 0]).map (fun final =>
          { com_msg_buffer := [0, 1, 9], com_fail_retry := 1, manager := final }) := by
  have waits : [[0, 0, 0, 2]].foldlM (readChunk (whileLoop handle)) ([], state) =
      .ok ([0, 0, 0, 2], state) := by
    rw [List.foldlM_cons]
    unfold readChunk
    rw [List.nil_append, whileLoop_short handle (by decide)]
    rfl
  have lost : run handle { manager := state } Connection.cut_within.events =
      .ok { com_msg_buffer := [0, 0, 0, 2], com_fail_retry := 1, manager := state } := by
    unfold Connection.events
    rw [run_append, run_reads]
    change (Except.map _ ([[0, 0, 0, 2]].foldlM _ _) >>= _) = _
    rw [waits]
    change run handle { com_msg_buffer := [0, 0, 0, 2], manager := state }
      [.com_bevent_cb_helper Connection.cut_within.which true] = _
    rw [run_reconnect handle _ _ (show 0 + 1 < FAIL_RETRY_LIMIT by decide)]
  have misread : [[0, 0, 0, 1, 9]].foldlM (readChunk (whileLoop handle)) ([0, 0, 0, 2], state) =
      (handle state [0, 0]).map (fun final => ([0, 1, 9], final)) := by
    have joined : ([0, 0, 0, 2] : Bytes) ++ [0, 0, 0, 1, 9] = frame [0, 0] ++ [0, 1, 9] := by decide
    rw [List.foldlM_cons]
    unfold readChunk
    rw [joined, whileLoop_frame handle carried_zeros _ (by decide)]
    cases handle state [0, 0] with
    | error fault => rfl
    | ok next =>
        change (whileLoop handle [0, 1, 9] next >>= _) = _
        rw [whileLoop_short handle (by decide)]
        rfl
  rw [run_append, lost]
  change run handle _ (Connection.reads [[0, 0, 0, 1, 9]]) = _
  rw [run_reads, misread]
  cases handle state [0, 0] <;> rfl

/-- The length that outlived the first connection takes two bytes of the next
one's length for a message, and the message itself never reaches the worker. -/
theorem com_read_cb_stale_length :
    Connection.cut_within.complete = [] ∧
    (Connection.whole [9] carried_nine).complete = [[9]] ∧
    (run (Manager.com_handle gives_up (fun _ => 0)) { manager := (Manager.new 1 [5] false, []) }
      (Connection.cut_within.events ++
        Connection.reads (Connection.whole [9] carried_nine).chunks)).map
          (fun c => (c.com_msg_buffer, c.manager.2)) = .ok ([0, 1, 9], [(5, [0, 0])]) ∧
    ([[9]].foldlM (Manager.com_handle gives_up (fun _ => 0)) (Manager.new 1 [5] false, [])).map
      (fun state => state.2) = .ok [(5, [9])] ∧
    ¬ Connection.InOrder (Manager.com_handle gives_up (fun _ => 0)) (Manager.new 1 [5] false, [])
      ([Connection.cut_within] ++ [Connection.whole [9] carried_nine]) := by
  refine ⟨by decide, by decide, ?_, rfl, ?_⟩
  · rw [run_stale_length]
    rfl
  · intro inOrder
    have claimed := inOrder [Connection.cut_within] _ [] rfl _ [] (List.append_nil _).symm
    change (run _ _ (Connection.cut_within.events ++ [] ++ _)).map _ = _ at claimed
    rw [List.append_nil, run_stale_length] at claimed
    have outputs := congrArg (fun result => result.map (fun state => state.2)) claimed
    change Except.ok [((5 : Int), [0, 0])] = Except.ok [(5, [9])] at outputs
    exact absurd (Except.ok.inj outputs) (by decide)

end Commander

end LDPlayer
