/-
The worker as a whole: messages of the manager come in, queries go out.

The callback of the manager's socket and the timers call send_query, and each
call goes the way of its transport.  Seen through its books a run of the worker
is a run of the books, and seen through its tables it is a run of the tables, so
what holds of these runs holds of it.
-/
import LDPlayer.Client.Ledger
import LDPlayer.Client.SendQuery
import LDPlayer.Foundation.Simulation

set_option autoImplicit false

namespace LDPlayer

open LengthPrefix Text

/-- A call of `send_query`, what it has put out, and the source that the
connection or socket had then. -/
structure Sending where
  call : SendQuery
  output : Option Output
  owner : Option Bytes

/-- Nothing reads `sendings`, but for the number of the next call, and
`datagrams`, the datagrams that have left. -/
structure WorkerProcess where
  conn_type : Bytes
  ledger : Ledger
  client : DNSClient
  sendings : List Sending := []
  datagrams : List (Fd × DNSMsg) := []

namespace WorkerProcess

section model

variable (get_query_rr_str : Bytes → Bytes) (kernel : Kernel)

def send_query (w : WorkerProcess) (call : SendQuery) : Except Fault WorkerProcess :=
  match w.client.send_query get_query_rr_str kernel w.conn_type w.sendings.length call.arg with
  | .error fault => .error fault
  | .ok (output, client) =>
      .ok { w with
            client := client
            sendings := w.sendings ++
              [{ call := call, output := output, owner := output.bind client.owner }] }

def goes_on (ledger : Ledger) (w : WorkerProcess) : Except Fault WorkerProcess :=
  (ledger.sent.drop w.ledger.sent.length).foldlM (send_query get_query_rr_str kernel)
    { w with ledger := ledger }

variable (codec : Codec) (clock : Nat → Timeval) (evtimer : Evtimer)

def manager_message (w : WorkerProcess) (payload : Bytes) : Except Fault WorkerProcess :=
  match w.ledger.manager_message codec clock evtimer payload with
  | .error fault => .error fault
  | .ok ledger => w.goes_on get_query_rr_str kernel ledger

inductive Event where
  | manager_read_cb (data : Bytes)
  | send_query_helper (arg : CbArg)
  | server (event : DNSClient.Event)

/-- What leaves in the callback. -/
def departs : DNSClient.Event → List (Fd × DNSMsg)
  | .server_udp_write_cb fd msg _ => [(fd, msg)]
  | _ => []

def server (event : DNSClient.Event) (w : WorkerProcess) : Except Fault WorkerProcess :=
  match w.client.step get_query_rr_str event with
  | .error fault => .error fault
  | .ok client => .ok { w with client := client, datagrams := w.datagrams ++ departs event }

def step (reader : Bytes × WorkerProcess) : Event → Except Fault (Bytes × WorkerProcess)
  | .manager_read_cb data =>
      readChunk (whileLoop (manager_message get_query_rr_str kernel codec clock evtimer)) reader
        data
  | .send_query_helper arg =>
      (reader.2.goes_on get_query_rr_str kernel (reader.2.ledger.send_query_helper arg)).map
        (fun w => (reader.1, w))
  | .server event =>
      (reader.2.server get_query_rr_str event).map (fun w => (reader.1, w))

/-- The sends come from the worker itself. -/
def admits (reader : Bytes × WorkerProcess) : Event → Prop
  | .manager_read_cb _ => True
  | .send_query_helper arg => arg ∈ reader.2.ledger.armed
  | .server event => event.sends = false ∧ reader.2.client.admits event

end model

/-! ### The calls of a callback -/

structure Tables (options : Options) (c : DNSClient) : Prop where
  options : c.toOptions = options
  consistent : c.toSockets.Consistent
  remembers : c.Remembers

variable {get_query_rr_str : Bytes → Bytes} {kernel : Kernel} {options : Options}

theorem Tables.step {c d : DNSClient} {event : DNSClient.Event} (tables : Tables options c)
    (admitted : c.admits event) (stepped : c.step get_query_rr_str event = .ok d) :
    Tables options d where
  options := (DNSClient.step_toOptions stepped).trans tables.options
  consistent := DNSClient.step_consistent tables.consistent admitted stepped
  remembers := DNSClient.step_remembers tables.remembers stepped

theorem Tables.run {c d : DNSClient} {events : List DNSClient.Event}
    (tables : Tables options c) (run : DNSClient.Run get_query_rr_str c events d) :
    Tables options d :=
  Runs.Run.invariant (fun _ _ _ holds admitted stepped => holds.step admitted stepped) run tables

/-- The query of the call goes out, unless it has no bytes; with latency on the
call may still look for an id that is not in use. -/
structure GoesOut (options : Options) (conn_type : Bytes) (sending : Sending) : Prop where
  none : sending.output = none →
    DNSClient.raw_copy sending.call.arg = [] ∨ conn_type ∉ conn_set ∨ options.output_latency = true
  some : ∀ put, sending.output = some put →
    DNSClient.PutsOut options conn_type sending.call.arg sending.owner put

def scheduled (sending : Sending) : List (Fd × DNSMsg) :=
  sending.output.toList.flatMap Output.scheduled

/-- These calls were made, one after another, and nothing else was done. -/
structure Made (get_query_rr_str : Bytes → Bytes) (added : List Sending) (w next : WorkerProcess) :
    Prop where
  conn_type : next.conn_type = w.conn_type
  datagrams : next.datagrams = w.datagrams
  sendings : next.sendings = w.sendings ++ added
  goes_out : ∀ sending ∈ added, GoesOut w.client.toOptions w.conn_type sending
  write_events : next.client.write_events = w.client.write_events ++ added.flatMap scheduled
  steps : ∃ events, (∀ event ∈ events, event.sends = true) ∧
    DNSClient.Run get_query_rr_str w.client events next.client

variable {w next : WorkerProcess}

private theorem send_query_made {call : SendQuery} (tables : Tables options w.client)
    (made : w.send_query get_query_rr_str kernel call = .ok next) :
    ∃ sending, sending.call = call ∧ next.ledger = w.ledger ∧
      Made get_query_rr_str [sending] w next := by
  unfold send_query at made
  split at made
  · cases made
  · rename_i output client ran
    obtain rfl := Except.ok.inj made
    have called := DNSClient.send_query_called tables.consistent ran
    obtain ⟨events, sends, run⟩ := called.steps
    have same : client.toOptions = w.client.toOptions :=
      (tables.run run).options.trans tables.options.symm
    refine ⟨{ call := call, output := output, owner := output.bind client.owner }, rfl, rfl, ?_⟩
    exact
      { conn_type := rfl
        datagrams := rfl
        sendings := rfl
        goes_out := by
          intro sending member
          rw [List.mem_singleton.mp member]
          constructor
          · intro none
            obtain ⟨_same, reason⟩ := called.returned none
            refine reason.imp id (Or.imp id ?_)
            intro exhausted
            by_contra plain
            exact tables.remembers.not_taken (Bool.eq_false_iff.mpr plain)
              (kernel.set_random_id_some _) exhausted
          · intro put something
            obtain rfl : output = some put := something
            have puts := called.puts put rfl
            rw [same] at puts
            exact puts
        write_events := by
          rw [List.flatMap_singleton]
          exact called.scheduled
        steps := ⟨events, sends, run⟩ }

theorem Made.refl (w : WorkerProcess) : Made get_query_rr_str [] w w where
  conn_type := rfl
  datagrams := rfl
  sendings := (List.append_nil _).symm
  goes_out := List.forall_mem_nil _
  write_events := (List.append_nil _).symm
  steps := ⟨[], List.forall_mem_nil _, .done _⟩

theorem Made.keeps_tables {added : List Sending} (made : Made get_query_rr_str added w next)
    (tables : Tables options w.client) : Tables options next.client := by
  obtain ⟨_events, _sends, run⟩ := made.steps
  exact tables.run run

theorem Made.trans {middle : WorkerProcess} {added more : List Sending}
    (tables : Tables options w.client) (first : Made get_query_rr_str added w middle)
    (second : Made get_query_rr_str more middle next) :
    Made get_query_rr_str (added ++ more) w next := by
  obtain ⟨events, sends, run⟩ := first.steps
  obtain ⟨others, alsoSends, behind⟩ := second.steps
  have same : middle.client.toOptions = w.client.toOptions :=
    (first.keeps_tables tables).options.trans tables.options.symm
  exact
    { conn_type := second.conn_type.trans first.conn_type
      datagrams := second.datagrams.trans first.datagrams
      sendings := by rw [second.sendings, first.sendings, List.append_assoc]
      goes_out := by
        intro sending member
        rcases List.mem_append.mp member with old | new
        · exact first.goes_out sending old
        · have goes := second.goes_out sending new
          rw [same, first.conn_type] at goes
          exact goes
      write_events := by
        rw [second.write_events, first.write_events, List.flatMap_append, List.append_assoc]
      steps := ⟨events ++ others, List.forall_mem_append.mpr ⟨sends, alsoSends⟩,
        run.append behind⟩ }

private theorem send_queries_made {calls : List SendQuery} (tables : Tables options w.client)
    (made : calls.foldlM (send_query get_query_rr_str kernel) w = .ok next) :
    ∃ added, added.map Sending.call = calls ∧ next.ledger = w.ledger ∧
      Made get_query_rr_str added w next := by
  induction calls generalizing w with
  | nil =>
      obtain rfl := Except.ok.inj made
      exact ⟨[], rfl, rfl, .refl w⟩
  | cons call later ih =>
      rw [List.foldlM_cons] at made
      obtain ⟨middle, ran, rest⟩ := of_bind_eq_ok made
      obtain ⟨sending, same, kept, first⟩ := send_query_made tables ran
      obtain ⟨added, sames, keeps, second⟩ := ih (first.keeps_tables tables) rest
      exact ⟨sending :: added, by rw [List.map_cons, same, sames], keeps.trans kept,
        first.trans tables second⟩

theorem goes_on_made {ledger : Ledger} (tables : Tables options w.client)
    (grown : ∃ calls, ledger.sent = w.ledger.sent ++ calls)
    (made : w.goes_on get_query_rr_str kernel ledger = .ok next) :
    ∃ added, next.ledger = ledger ∧
      next.ledger.sent = w.ledger.sent ++ added.map Sending.call ∧
      Made get_query_rr_str added w next := by
  obtain ⟨calls, grown⟩ := grown
  unfold goes_on at made
  rw [grown, List.drop_left] at made
  have ready : Tables options ({ w with ledger := ledger } : WorkerProcess).client := tables
  obtain ⟨added, same, kept, made⟩ := send_queries_made ready made
  refine ⟨added, kept, ?_, ?_⟩
  · rw [kept, grown, same]
  · exact { made with }

/-! ### The books of the worker -/

/-- A loop whose handler is another one, seen through the state. -/
theorem whileLoop_view {State Seen : Type} {handle : State → Bytes → Except Fault State}
    {handle' : Seen → Bytes → Except Fault Seen} (view : State → Seen) (invariant : State → Prop)
    (follows : ∀ state payload next, invariant state → handle state payload = .ok next →
      handle' (view state) payload = .ok (view next) ∧ invariant next)
    {buffer rest : Bytes} {state final : State} (holds : invariant state)
    (drained : whileLoop handle buffer state = .ok (rest, final)) :
    whileLoop handle' buffer (view state) = .ok (rest, view final) := by
  induction size : buffer.length using Nat.strongRecOn generalizing buffer state with
  | ind count ih =>
      by_cases more : buffer.length > lengthWidth
      · cases cut : takeFrame buffer with
        | error fault =>
            rw [whileLoop_fault handle more cut] at drained
            cases drained
        | ok taken =>
            cases taken with
            | none =>
                rw [whileLoop_none handle cut] at drained
                obtain ⟨rfl, rfl⟩ := Prod.mk.inj (Except.ok.inj drained)
                exact whileLoop_none handle' cut _
            | some frame =>
                rw [whileLoop_taken handle more cut] at drained
                obtain ⟨next, handled, behind⟩ := of_bind_eq_ok drained
                obtain ⟨followed, kept⟩ := follows state frame.1 next holds handled
                rw [whileLoop_taken handle' more cut, followed]
                exact ih frame.2.length (size ▸ takeFrame_rest_length cut) kept behind rfl
      · rw [whileLoop_short handle more] at drained
        obtain ⟨rfl, rfl⟩ := Prod.mk.inj (Except.ok.inj drained)
        exact whileLoop_short handle' more _

variable {codec : Codec} {clock : Nat → Timeval} {evtimer : Evtimer}

private theorem sent_manager_message {a next : Ledger} {payload : Bytes}
    (taken : a.manager_message codec clock evtimer payload = .ok next) :
    ∃ calls, next.sent = a.sent ++ calls := by
  obtain ⟨effects, _same, sent, _armed⟩ := Ledger.manager_message_effects taken
  exact ⟨_, sent⟩

theorem manager_message_made {payload : Bytes} (tables : Tables options w.client)
    (taken : w.manager_message get_query_rr_str kernel codec clock evtimer payload = .ok next) :
    ∃ added, w.ledger.manager_message codec clock evtimer payload = .ok next.ledger ∧
      next.ledger.sent = w.ledger.sent ++ added.map Sending.call ∧
      Made get_query_rr_str added w next := by
  unfold manager_message at taken
  split at taken
  · cases taken
  · rename_i ledger counted
    obtain ⟨added, kept, sent, made⟩ :=
      goes_on_made tables (sent_manager_message counted) taken
    exact ⟨added, counted.trans (congrArg Except.ok kept.symm), sent, made⟩

private theorem manager_messages_made {payloads : List Bytes} (tables : Tables options w.client)
    (folded : payloads.foldlM (manager_message get_query_rr_str kernel codec clock evtimer) w =
      .ok next) :
    ∃ added, next.ledger.sent = w.ledger.sent ++ added.map Sending.call ∧
      Made get_query_rr_str added w next := by
  induction payloads generalizing w with
  | nil =>
      obtain rfl := Except.ok.inj folded
      exact ⟨[], (List.append_nil _).symm, .refl w⟩
  | cons payload later ih =>
      rw [List.foldlM_cons] at folded
      obtain ⟨middle, taken, rest⟩ := of_bind_eq_ok folded
      obtain ⟨added, _books, sent, first⟩ := manager_message_made tables taken
      obtain ⟨more, behind, second⟩ := ih (first.keeps_tables tables) rest
      refine ⟨added ++ more, ?_, first.trans tables second⟩
      rw [behind, sent, List.map_append, List.append_assoc]

/-- What an event is for the books. -/
def bookkeeping : Event → List Ledger.Event
  | .manager_read_cb data => [.manager_read_cb data]
  | .send_query_helper arg => [.send_query_helper arg]
  | .server _ => []

def Event.data : Event → Bytes
  | .manager_read_cb data => data
  | .send_query_helper _ => []
  | .server _ => []

/-- Every step makes calls, which the books tell, or leaves the books as they are. -/
theorem step_cases {reader after : Bytes × WorkerProcess} {event : Event}
    (tables : Tables options reader.2.client) (admitted : admits reader event)
    (stepped : step get_query_rr_str kernel codec clock evtimer reader event = .ok after) :
    ((∀ called, event ≠ .server called) ∧ ∃ added,
        after.2.ledger.sent = reader.2.ledger.sent ++ added.map Sending.call ∧
        Made get_query_rr_str added reader.2 after.2) ∨
      ∃ called client, event = .server called ∧ called.sends = false ∧
        reader.2.client.admits called ∧
        reader.2.client.step get_query_rr_str called = .ok client ∧
        after = (reader.1, { reader.2 with
          client := client
          datagrams := reader.2.datagrams ++ departs called }) := by
  cases event with
  | manager_read_cb data =>
      obtain ⟨payloads, handing⟩ := whileLoop_hands_over stepped
      exact Or.inl ⟨fun _called => Event.noConfusion,
        manager_messages_made tables handing.folded⟩
  | send_query_helper arg =>
      obtain ⟨w, ran, same⟩ := of_map_eq_ok stepped
      subst same
      obtain ⟨added, _books, sent, made⟩ := goes_on_made tables ⟨_, rfl⟩ ran
      exact Or.inl ⟨fun _called => Event.noConfusion, added, sent, made⟩
  | server called =>
      obtain ⟨w, ran, same⟩ := of_map_eq_ok stepped
      subst same
      unfold server at ran
      split at ran
      · cases ran
      · rename_i client moved
        rw [← Except.ok.inj ran]
        exact Or.inr ⟨called, client, rfl, admitted.1, admitted.2, moved, rfl⟩

theorem step_tables {reader after : Bytes × WorkerProcess} {event : Event}
    (tables : Tables options reader.2.client) (admitted : admits reader event)
    (stepped : step get_query_rr_str kernel codec clock evtimer reader event = .ok after) :
    Tables options after.2.client := by
  rcases step_cases tables admitted stepped with
    ⟨_other, added, _sent, made⟩ | ⟨called, client, _event, _sends, legal, moved, rfl⟩
  · exact made.keeps_tables tables
  · exact tables.step legal moved

/-- A run of the worker is a run of its books. -/
theorem simulates_ledger : Runs.Simulates
    (step get_query_rr_str kernel codec clock evtimer) admits
    (Ledger.step codec clock evtimer) Ledger.admits
    (fun event events => events = bookkeeping event)
    (fun reader books => Tables options reader.2.client ∧ books = (reader.1, reader.2.ledger)) := by
  intro reader event after books related admitted stepped
  obtain ⟨tables, rfl⟩ := related
  have kept := step_tables tables admitted stepped
  cases event with
  | manager_read_cb data =>
      refine ⟨_, _, rfl, .single trivial ?_, kept, rfl⟩
      refine whileLoop_view WorkerProcess.ledger (fun w => Tables options w.client) ?_ tables
        stepped
      intro w payload next ordered taken
      obtain ⟨added, counted, _sent, made⟩ := manager_message_made ordered taken
      exact ⟨counted, made.keeps_tables ordered⟩
  | send_query_helper arg =>
      obtain ⟨w, ran, rfl⟩ := of_map_eq_ok stepped
      obtain ⟨added, same, _sent, _made⟩ := goes_on_made tables ⟨_, rfl⟩ ran
      refine ⟨_, _, rfl, .single admitted rfl, kept, ?_⟩
      exact congrArg (Prod.mk reader.1) same.symm
  | server called =>
      obtain ⟨w, ran, rfl⟩ := of_map_eq_ok stepped
      refine ⟨_, _, rfl, .done _, kept, ?_⟩
      unfold server at ran
      split at ran
      · cases ran
      · rw [← Except.ok.inj ran]

/-! ### What goes out -/

/-- A callback of a socket lets its datagram leave, and schedules none. -/
theorem departs_perm {c d : DNSClient} {event : DNSClient.Event} (other : event.sends = false)
    (admitted : c.admits event) (stepped : c.step get_query_rr_str event = .ok d) :
    (departs event ++ d.write_events).Perm c.write_events := by
  cases event with
  | send_query_udp msg ids now new_fd read_ev => cases other
  | send_query_tcp msg ids now new_bev => cases other
  | server_udp_write_cb fd msg now =>
      obtain ⟨_isOpen, results, rfl⟩ := DNSClient.server_udp_write_cb_cases stepped
      exact (List.perm_cons_erase admitted).symm
  | server_udp_read_cb fd data now =>
      rcases DNSClient.server_udp_read_cb_cases stepped with
        ⟨_latency, rfl⟩ | ⟨_latency, results, rfl⟩
      · rw [DNSClient.sendto_manager_write_events]
        exact .refl _
      · exact .refl _
  | server_udp_read_timeout_cb fd =>
      rw [← Except.ok.inj stepped]
      unfold DNSClient.server_udp_read_timeout_cb
      simp only
      repeat' split
      all_goals exact .refl _
  | server_read_cb bev data now =>
      obtain ⟨ready, reached, outcome⟩ := DNSClient.server_read_cb_cases stepped
      have kept : ready.write_events = c.write_events := by
        rcases reached with rfl | ⟨_timing, results, rest, rfl⟩
        · rfl
        · rfl
      rcases outcome with ⟨_latency, _long, rfl⟩ | ⟨_latency, rfl⟩
      · rw [DNSClient.sendto_manager_write_events, kept]
        exact .refl _
      · rw [kept]
        exact .refl _
  | server_event_cb bev which =>
      rw [← Except.ok.inj stepped]
      unfold DNSClient.server_event_cb
      split
      · exact .refl _
      · exact .refl _

/-- The calls are those of the books, each goes out, and its datagram has left or
is still scheduled. -/
structure Faithful (options : Options) (conn_type : Bytes) (w : WorkerProcess) : Prop where
  kind : w.conn_type = conn_type
  tables : Tables options w.client
  calls : w.sendings.map Sending.call = w.ledger.sent
  goes_out : ∀ sending ∈ w.sendings, GoesOut options conn_type sending
  departed : (w.datagrams ++ w.client.write_events).Perm (w.sendings.flatMap scheduled)

structure Initial (w : WorkerProcess) : Prop where
  ledger : w.ledger.Initial
  client : w.client.Initial
  no_sending : w.sendings = []
  no_datagram : w.datagrams = []

theorem Initial.tables (initial : w.Initial) : Tables w.client.toOptions w.client where
  options := rfl
  consistent := initial.client.consistent
  remembers := initial.client.remembers

theorem Initial.faithful (initial : w.Initial) : w.Faithful w.client.toOptions w.conn_type where
  kind := rfl
  tables := initial.tables
  calls := by
    rw [initial.no_sending, initial.ledger.none_sent]
    rfl
  goes_out := by
    rw [initial.no_sending]
    exact List.forall_mem_nil _
  departed := by
    obtain ⟨_options, _open_fds, same⟩ := initial.client
    rw [initial.no_sending, initial.no_datagram, same]
    exact .nil

variable {conn_type : Bytes}

theorem Faithful.made (faithful : w.Faithful options conn_type) {added : List Sending}
    (sent : next.ledger.sent = w.ledger.sent ++ added.map Sending.call)
    (made : Made get_query_rr_str added w next) : next.Faithful options conn_type where
  kind := made.conn_type.trans faithful.kind
  tables := made.keeps_tables faithful.tables
  calls := by rw [made.sendings, List.map_append, faithful.calls, sent]
  goes_out := by
    rw [made.sendings]
    intro sending member
    rcases List.mem_append.mp member with old | new
    · exact faithful.goes_out sending old
    · have goes := made.goes_out sending new
      rw [faithful.tables.options, faithful.kind] at goes
      exact goes
  departed := by
    rw [made.datagrams, made.write_events, made.sendings, List.flatMap_append,
      ← List.append_assoc]
    exact faithful.departed.append_right _

theorem Faithful.step {reader after : Bytes × WorkerProcess} {event : Event}
    (faithful : reader.2.Faithful options conn_type) (admitted : admits reader event)
    (stepped : WorkerProcess.step get_query_rr_str kernel codec clock evtimer reader event =
      .ok after) :
    after.2.Faithful options conn_type := by
  rcases step_cases faithful.tables admitted stepped with
    ⟨_other, added, sent, made⟩ | ⟨called, client, rfl, other, legal, moved, rfl⟩
  · exact faithful.made sent made
  · exact
      { faithful with
        tables := faithful.tables.step legal moved
        departed := by
          have left := departs_perm other legal moved
          rw [List.append_assoc]
          exact (left.append_left _).trans faithful.departed }

/-! ### Streams of the connections -/

def on (bev : Ptr) (sending : Sending) : Option Bytes :=
  match sending.output with
  | some (.bufferevent_write other bytes) => if other = bev then some bytes else none
  | _ => none

def written (bev : Ptr) (w : WorkerProcess) : Bytes := (w.sendings.filterMap (on bev)).flatten

def IsQuery (sending : Sending) (query : Bytes) : Prop :=
  ∃ id, query = set_id id (DNSClient.raw_copy sending.call.arg)

theorem IsQuery.length_lt {sending : Sending} {query : Bytes} (isQuery : IsQuery sending query) :
    query.length < 256 ^ tcpWidth := by
  obtain ⟨id, rfl⟩ := isQuery
  have small := DNSClient.raw_copy_lt sending.call.arg
  unfold set_id
  rw [List.length_cons, List.length_cons, List.length_drop]
  unfold tcpWidth
  omega

private theorem on_query {sending : Sending} {bev : Ptr} {bytes : Bytes}
    (goes : GoesOut options conn_type sending) (wrote : on bev sending = some bytes) :
    ∃ query, IsQuery sending query ∧ bytes = LengthPrefix.frame tcpWidth query := by
  unfold on at wrote
  split at wrote
  · rename_i other written put
    split at wrote
    · obtain rfl := Option.some.inj wrote
      obtain ⟨_kind, _owned, id, rfl⟩ := goes.some _ put
      exact ⟨_, ⟨id, rfl⟩, rfl⟩
    · cases wrote
  · cases wrote

/-- The bytes on a connection are frames of the queries that went out on it. -/
theorem written_frames {sendings : List Sending} (bev : Ptr)
    (goes_out : ∀ sending ∈ sendings, GoesOut options conn_type sending) :
    ∃ queries, List.Forall₂ IsQuery
        (sendings.filter (fun sending => (on bev sending).isSome)) queries ∧
      (∀ query ∈ queries, query.length < 256 ^ tcpWidth) ∧
      (sendings.filterMap (on bev)).flatten = frames tcpWidth queries := by
  induction sendings with
  | nil => exact ⟨[], .nil, List.forall_mem_nil _, rfl⟩
  | cons sending later ih =>
      obtain ⟨goes, others⟩ := List.forall_mem_cons.mp goes_out
      obtain ⟨queries, each, small, behind⟩ := ih others
      cases wrote : on bev sending with
      | none =>
          refine ⟨queries, ?_, small, ?_⟩
          · rw [List.filter_cons_of_neg (by rw [wrote]; exact Bool.false_ne_true)]
            exact each
          · rw [List.filterMap_cons_none wrote]
            exact behind
      | some bytes =>
          obtain ⟨query, isQuery, rfl⟩ := on_query goes wrote
          refine ⟨query :: queries, ?_, List.forall_mem_cons.mpr ⟨isQuery.length_lt, small⟩, ?_⟩
          · rw [List.filter_cons_of_pos (by rw [wrote]; rfl)]
            exact .cons isQuery each
          · rw [List.filterMap_cons_some wrote, List.flatten_cons, behind, frames_cons]

private theorem written_decodes (bev : Ptr) (goes_out : ∀ sending ∈ w.sendings,
    GoesOut options conn_type sending) :
    ∃ queries, unframe tcpWidth (w.written bev) = (queries, []) ∧
      List.Forall₂ IsQuery (w.sendings.filter (fun sending => (on bev sending).isSome))
        queries := by
  obtain ⟨queries, each, small, same⟩ := written_frames bev goes_out
  refine ⟨queries, ?_, each⟩
  unfold written
  rw [same]
  exact unframe_frames (by decide) small

/-! ### Without waiting -/

structure AtOnce (a : Ledger) : Prop where
  non_wait : a.worker.non_wait = true
  no_timer : a.armed = []
  sent : a.sent.map SendQuery.arg = a.handled

theorem AtOnce.manager_message {a after : Ledger} {payload : Bytes} (atOnce : AtOnce a)
    (taken : a.manager_message codec clock evtimer payload = .ok after) : AtOnce after := by
  unfold Ledger.manager_message at taken
  simp only at taken
  split at taken
  · split at taken
    · cases taken
    · rename_i worker _effects synced
      obtain rfl := Except.ok.inj taken
      unfold Schedule.sync_message Schedule.recheck_now_ts at synced
      split at synced
      · cases synced
      · obtain ⟨rfl, _none⟩ := Prod.mk.inj (Except.ok.inj synced)
        exact { atOnce with }
  · unfold Ledger.normal_message Schedule.recheck_now_ts at taken
    simp only [atOnce.non_wait, true_or, if_true] at taken
    split at taken
    · cases taken
    · obtain rfl := Except.ok.inj taken
      refine { non_wait := rfl, no_timer := atOnce.no_timer, sent := ?_ }
      change (a.sent ++ [_]).map SendQuery.arg = a.handled ++ [_]
      rw [List.map_append, atOnce.sent]
      rfl

theorem AtOnce.manager_messages {a after : Ledger} {payloads : List Bytes} (atOnce : AtOnce a)
    (folded : payloads.foldlM (Ledger.manager_message codec clock evtimer) a = .ok after) :
    AtOnce after := by
  induction payloads generalizing a with
  | nil =>
      obtain rfl := Except.ok.inj folded
      exact atOnce
  | cons payload later ih =>
      rw [List.foldlM_cons] at folded
      obtain ⟨middle, taken, rest⟩ := of_bind_eq_ok folded
      exact ih (atOnce.manager_message taken) rest

theorem AtOnce.run {start final : Bytes × Ledger} {events : List Ledger.Event}
    (atOnce : AtOnce start.2)
    (run : Runs.Run (Ledger.step codec clock evtimer) Ledger.admits start events final) :
    AtOnce final.2 := by
  have keeps : ∀ (reader : Bytes × Ledger) event next, AtOnce reader.2 →
      Ledger.admits reader event → Ledger.step codec clock evtimer reader event = .ok next →
      AtOnce next.2 := by
    intro reader event next atOnce admitted stepped
    cases event with
    | manager_read_cb data =>
        obtain ⟨payloads, handing⟩ := whileLoop_hands_over stepped
        exact atOnce.manager_messages handing.folded
    | send_query_helper arg =>
        change arg ∈ reader.2.armed at admitted
        rw [atOnce.no_timer] at admitted
        cases admitted
  exact Runs.Run.invariant keeps run atOnce

/-! ### Runs -/

abbrev Run (get_query_rr_str : Bytes → Bytes) (kernel : Kernel) (codec : Codec)
    (clock : Nat → Timeval) (evtimer : Evtimer) :
    Bytes × WorkerProcess → List Event → Bytes × WorkerProcess → Prop :=
  Runs.Run (step get_query_rr_str kernel codec clock evtimer) admits

private theorem data_bookkeeping (events : List Event) :
    ((events.flatMap bookkeeping).map Ledger.Event.data).flatten =
      (events.map Event.data).flatten := by
  induction events with
  | nil => rfl
  | cons event later ih =>
      rw [List.flatMap_cons, List.map_append, List.flatten_append, ih, List.map_cons,
        List.flatten_cons]
      cases event with
      | manager_read_cb data => exact congrArg (· ++ _) (List.append_nil data)
      | send_query_helper arg => rfl
      | server called => rfl

theorem run_framed {start final : Bytes × Ledger} {events : List Ledger.Event}
    (run : Runs.Run (Ledger.step codec clock evtimer) Ledger.admits start events final)
    (balanced : start.2.Balanced) {received : Bytes} {payloads : List Bytes}
    (framed : Framed received start.1 payloads) :
    ∃ others, Framed (received ++ (events.map Ledger.Event.data).flatten) final.1
        (payloads ++ others) ∧
      final.2.handled = start.2.handled ++ Ledger.normals codec others := by
  induction run generalizing received payloads with
  | done reader =>
      refine ⟨[], ?_, (List.append_nil _).symm⟩
      rw [List.map_nil, List.flatten_nil, List.append_nil, List.append_nil]
      exact framed
  | @next reader middle final event later admitted stepped _rest ih =>
      have kept := (balanced.step admitted stepped).2.1
      cases event with
      | manager_read_cb data =>
          obtain ⟨fresh, handing⟩ := whileLoop_hands_over stepped
          obtain ⟨others, behind, more⟩ := ih kept (framed.read handing)
          refine ⟨fresh ++ others, ?_, ?_⟩
          · rw [List.map_cons, List.flatten_cons, ← List.append_assoc, ← List.append_assoc]
            exact behind
          · rw [more, (balanced.manager_messages handing.folded).handled, List.append_assoc]
            unfold Ledger.normals
            rw [List.map_append, List.filter_append]
      | send_query_helper arg =>
          obtain rfl := Except.ok.inj stepped
          exact ih kept framed

/-- What has become of the bytes that a worker received. -/
structure Replayed (codec : Codec) (options : Options) (conn_type received buffered : Bytes)
    (w : WorkerProcess) : Prop where
  handled : ∃ payloads, Framed received buffered payloads ∧
    w.ledger.handled = Ledger.normals codec payloads
  once : ∀ position < w.ledger.handled.length,
    (w.sendings.map (fun sending => sending.call.position)).count position +
      (w.ledger.armed.map CbArg.position).count position = 1
  asked : ∀ sending ∈ w.sendings,
    w.ledger.handled[sending.call.position]? = some sending.call.arg
  put_out : ∀ sending ∈ w.sendings, ∀ put, sending.output = some put →
    DNSClient.PutsOut options conn_type sending.call.arg sending.owner put
  silent : ∀ sending ∈ w.sendings, sending.output = none →
    DNSClient.raw_copy sending.call.arg = [] ∨ options.output_latency = true
  departed : (w.datagrams ++ w.client.write_events).Perm (w.sendings.flatMap scheduled)
  streams : ∀ bev, ∃ queries, unframe tcpWidth (w.written bev) = (queries, []) ∧
    List.Forall₂ IsQuery (w.sendings.filter (fun sending => (on bev sending).isSome)) queries

theorem Faithful.run {start final : Bytes × WorkerProcess} {events : List Event}
    (run : Run get_query_rr_str kernel codec clock evtimer start events final)
    (faithful : start.2.Faithful options conn_type) : final.2.Faithful options conn_type := by
  have keeps : ∀ (reader : Bytes × WorkerProcess) event next, reader.2.Faithful options conn_type →
      admits reader event →
      WorkerProcess.step get_query_rr_str kernel codec clock evtimer reader event = .ok next →
      next.2.Faithful options conn_type :=
    fun reader event next holds admitted stepped => holds.step admitted stepped
  exact Runs.Run.invariant keeps run faithful

theorem run_books {start final : Bytes × WorkerProcess} {events : List Event}
    (initial : start.2.Initial)
    (run : Run get_query_rr_str kernel codec clock evtimer start events final) :
    Runs.Run (Ledger.step codec clock evtimer) Ledger.admits (start.1, start.2.ledger)
      (events.flatMap bookkeeping) (final.1, final.2.ledger) := by
  obtain ⟨books, kept, _tables, same⟩ := simulates_ledger.run_of run ⟨initial.tables, rfl⟩
  rw [← same]
  exact kept

theorem run_replayed {start final : Bytes × WorkerProcess} {events : List Event}
    (initial : start.2.Initial) (fresh : start.1 = [])
    (accepted : start.2.conn_type ∈ conn_set)
    (run : Run get_query_rr_str kernel codec clock evtimer start events final) :
    Replayed codec start.2.client.toOptions start.2.conn_type (events.map Event.data).flatten
      final.1 final.2 := by
  have faithful := Faithful.run run initial.faithful
  have books := run_books initial run
  have nothing : Framed [] start.1 [] := by
    rw [fresh]
    exact Framed.nothing
  obtain ⟨payloads, framed, handled⟩ := run_framed books initial.ledger.balanced nothing
  rw [List.nil_append, List.nil_append, data_bookkeeping] at framed
  rw [initial.ledger.none_handled, List.nil_append] at handled
  have once := (Ledger.Run.balanced books initial.ledger.balanced).sentOnce
  have positions : final.2.sendings.map (fun sending => sending.call.position) =
      final.2.ledger.sent.map SendQuery.position := by
    rw [← faithful.calls, List.map_map]
    rfl
  exact
    { handled := ⟨payloads, framed, handled⟩
      once := by
        rw [positions]
        exact once.accounted
      asked := by
        intro sending member
        apply once.sent
        rw [← faithful.calls]
        exact List.mem_map_of_mem member
      put_out := fun sending member => (faithful.goes_out sending member).some
      silent := by
        intro sending member silent
        rcases (faithful.goes_out sending member).none silent with empty | unknown | latency
        · exact Or.inl empty
        · exact absurd accepted unknown
        · exact Or.inr latency
      departed := faithful.departed
      streams := fun bev => written_decodes bev faithful.goes_out }

theorem run_at_once {start final : Bytes × WorkerProcess} {events : List Event}
    (initial : start.2.Initial)
    (run : Run get_query_rr_str kernel codec clock evtimer start events final)
    (non_wait : start.2.ledger.worker.non_wait = true) :
    final.2.sendings.map (fun sending => sending.call.arg) = final.2.ledger.handled := by
  have atOnce : AtOnce start.2.ledger :=
    { non_wait := non_wait
      no_timer := initial.ledger.no_timer
      sent := by
        rw [initial.ledger.none_sent, initial.ledger.none_handled]
        rfl }
  rw [← (atOnce.run (run_books initial run)).sent, ← (Faithful.run run initial.faithful).calls,
    List.map_map]
  rfl

theorem step_frame {payload : Bytes} (carried : Carried lengthWidth payload) (w : WorkerProcess) :
    step get_query_rr_str kernel codec clock evtimer ([], w) (.manager_read_cb (frame payload)) =
      (w.manager_message get_query_rr_str kernel codec clock evtimer payload).map
        (fun next => ([], next)) := by
  have fits : payload.length ≤ (payload.length + ([] : Bytes).length) % 2 ^ 32 :=
    Nat.le_of_eq (Nat.mod_eq_of_lt carried.fits).symm
  change whileLoop _ ([] ++ frame payload) _ = _
  rw [List.nil_append, ← List.append_nil (frame payload), whileLoop_frame _ carried [] fits]
  cases w.manager_message get_query_rr_str kernel codec clock evtimer payload with
  | error fault => rfl
  | ok next => exact whileLoop_short _ (by decide) next

def wire_query (mark : Option Bool) : DNSMsg :=
  { seconds? := some 1
    microseconds? := some 0
    tcp? := some false
    ipv4? := some true
    src_ip? := some (ascii "10.0.0.1")
    raw? := some [7, 7, 1]
    sync_time? := mark }

def wire_text (mark : Option Bool) : Bytes :=
  let before : Bytes := [8, 1, 16, 0, 24, 0, 32, 1, 50, 8]
  let after : Bytes := [66, 3, 7, 7, 1]
  before ++ ascii "10.0.0.1" ++ after ++
    match mark with
    | none => []
    | some false => [72, 0]
    | some true => [72, 1]

def wire_codec : Codec where
  SerializeToString msg :=
    [none, some false, some true].findSome? (fun mark =>
      if msg = wire_query mark then some (wire_text mark) else none)
  ParseFromArray text :=
    ([none, some false, some true].findSome? (fun mark =>
      if text = wire_text mark then some (wire_query mark) else none)).getD {}

theorem wire_text_carried (mark : Option Bool) : Carried lengthWidth (wire_text mark) where
  nonempty := List.cons_ne_nil _ _
  fits := by cases mark with
    | none => decide
    | some value => cases value <;> decide

def fast_worker (conn_type : Bytes) : WorkerProcess :=
  { conn_type := conn_type, ledger := { worker := { non_wait := true } }, client := {} }

theorem fast_worker_initial (conn_type : Bytes) : (fast_worker conn_type).Initial where
  ledger := ⟨rfl, rfl, rfl, rfl, rfl, rfl, rfl, rfl⟩
  client := ⟨{}, [], rfl⟩
  no_sending := rfl
  no_datagram := rfl

end WorkerProcess

end LDPlayer
