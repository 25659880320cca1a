/-
The bufferevents of the three programs over whole runs.

Each program frees a bufferevent in its event callback and again behind its
loop.  A run releases every bufferevent once, and uses none that is freed, as
long as no connection of that kind is lost before the member is used.
-/
import LDPlayer.Client.ManagerHandles
import LDPlayer.Client.Tables
import LDPlayer.Client.WorkerHandles
import LDPlayer.Controller.PostmanHandles
import LDPlayer.Controller.Routing

set_option autoImplicit false

namespace LDPlayer

open Text Handles Runs

/-- For all runs of the manager, of a worker and of the postman: bufferevents are released
once and used while live in every state exactly when every clean-up, and every report
of the worker, comes before the connection in question is lost. -/
theorem bevs_released_once_iff {m managed : ManagerBevs} {manager_events : List ManagerBevs.Event}
    (constructed : m.Initial) (manages : ManagerBevs.Run m manager_events managed)
    {get_query_rr_str : Bytes → Bytes} {client : DNSClient} {manager_bev : Ptr}
    {worked : WorkerBevs} {worker_events : List WorkerBevs.Event} (nonnull : manager_bev ≠ NULL)
    (works : WorkerBevs.Run get_query_rr_str (WorkerBevs.start client manager_bev) worker_events
      worked)
    {codec : Codec} {draws : Nat → Nat} {c : Controller} {skt_bev : Ptr} {served : PostmanBevs}
    {postman_events : List PostmanBevs.Event} (initial : c.Initial)
    (serves : PostmanBevs.Run codec draws (PostmanBevs.start c skt_bev) postman_events served) :
    (AllStates ManagerBevs.step (fun m => ReleasedOnce m.history) m manager_events ↔
      AllSteps ManagerBevs.step ManagerBevs.CleansUpUnlost m manager_events) ∧
    (AllStates (WorkerBevs.step get_query_rr_str) (fun w => ReleasedOnce w.history)
        (WorkerBevs.start client manager_bev) worker_events ↔
      AllSteps (WorkerBevs.step get_query_rr_str) (WorkerBevs.TouchesUnlost get_query_rr_str)
        (WorkerBevs.start client manager_bev) worker_events) ∧
    (AllStates (PostmanBevs.step codec draws) (fun p => ReleasedOnce p.history)
        (PostmanBevs.start c skt_bev) postman_events ↔
      AllSteps (PostmanBevs.step codec draws) PostmanBevs.ReturnsUnlost
        (PostmanBevs.start c skt_bev) postman_events) := by
  refine ⟨?_, ?_, ?_⟩
  · exact constructed.sound.allStates_iff manages
  · exact (WorkerBevs.start_sound client nonnull).allStates_iff works
  · exact (PostmanBevs.start_sound initial skt_bev).allStates_iff serves

/-! ### Runs until the loop returns -/

def one_worker : ManagerBevs := { dist := true, client_vec := [NULL] }

def reporting : DNSClient :=
  { output_timing := true
    open_fds := [5]
    write_events := [(5, DNSClient.sample_query (ascii "10.0.0.1"))] }

def reports : WorkerBevs.Event :=
  .callback (.server_udp_write_cb 5 (DNSClient.sample_query (ascii "10.0.0.1")) Timeval.zero)

/-- The manager reconnects to its commander, the worker reports, and a client leaves
the postman. -/
theorem bevs_released_once_iff_returned :
    AllStates ManagerBevs.step (fun m => ReleasedOnce m.history) one_worker
        [.main_event_loop [1] 2 true, .com_bevent_cb_helper { eof := true } 3 true,
          .read_client_cb 1, .dispatch_returns, .destructor] ∧
      AllStates (WorkerBevs.step (fun _ => [])) (fun w => ReleasedOnce w.history)
        (WorkerBevs.start reporting 1) [.manager_read_cb, reports, .dispatch_returns] ∧
      AllStates (PostmanBevs.step gives_up (fun _ => 0)) (fun p => ReleasedOnce p.history)
        (PostmanBevs.start Controller.twoClients 1)
        [.accept_conn_cb 5 2, .client_read_cb 5 2, .client_bevent_cb_helper 5 2 { eof := true },
          .dispatch_returns] := by
  have initial : one_worker.Initial :=
    { bevs := by decide, phase := rfl, history := rfl, lost := rfl }
  have managed : ∃ final, ManagerBevs.Run one_worker
      [.main_event_loop [1] 2 true, .com_bevent_cb_helper { eof := true } 3 true,
        .read_client_cb 1, .dispatch_returns, .destructor] final :=
    ⟨_, .next (by decide) rfl (.next (by decide) rfl (.next (by decide) rfl
      (.next (by decide) rfl (.next (by decide) rfl (.done _)))))⟩
  have worked : ∃ final, WorkerBevs.Run (fun _ => []) (WorkerBevs.start reporting 1)
      [.manager_read_cb, reports, .dispatch_returns] final :=
    ⟨_, .next (by decide) rfl (.next (by decide) rfl (.next (by decide) rfl (.done _)))⟩
  have served : ∃ final, PostmanBevs.Run gives_up (fun _ => 0)
      (PostmanBevs.start Controller.twoClients 1)
      [.accept_conn_cb 5 2, .client_read_cb 5 2, .client_bevent_cb_helper 5 2 { eof := true },
        .dispatch_returns] final :=
    ⟨_, .next (by decide) rfl (.next (by decide) rfl (.next (by decide) rfl
      (.next (by decide) rfl (.done _))))⟩
  obtain ⟨_managed, manages⟩ := managed
  obtain ⟨_worked, works⟩ := worked
  obtain ⟨_served, serves⟩ := served
  obtain ⟨manager, worker, postman⟩ := bevs_released_once_iff initial manages
    (by decide) works Controller.twoClients_initial serves
  refine ⟨manager.mpr ?_, worker.mpr ?_, postman.mpr ?_⟩
  · iterate 5 refine (allSteps_cons rfl).mpr ⟨fun _cleans _bev _own _set => List.not_mem_nil, ?_⟩
    exact allSteps_nil _ _
  · iterate 3 refine (allSteps_cons rfl).mpr ⟨fun _touches => rfl, ?_⟩
    exact allSteps_nil _ _
  · iterate 4 refine (allSteps_cons rfl).mpr ⟨fun _returns => rfl, ?_⟩
    exact allSteps_nil _ _

/-! ### Members that refer to freed bufferevents -/

/-- A worker closes its connection, the manager closes that to a worker, and the
reader closes the input socket.  The bufferevents are freed again behind the loops,
and the worker's next report is written to a freed one. -/
theorem bevs_released_twice :
    (∃ final, ManagerBevs.Run one_worker
        [.main_event_loop [1] 2 true, .buf_ev_cb 1 { eof := true }, .dispatch_returns] final ∧
      final.history.count (.free 1) = 2 ∧ ¬ ReleasedOnce final.history) ∧
    (∃ final, WorkerBevs.Run (fun _ => []) (WorkerBevs.start reporting 1)
        [.manager_event_cb { eof := true }, reports, .dispatch_returns] final ∧
      final.history = [.create 1, .free 1, .use 1, .free 1] ∧ ¬ ReleasedOnce final.history) ∧
    (∃ final, PostmanBevs.Run gives_up (fun _ => 0) (PostmanBevs.start Controller.twoClients 1)
        [.skt_event_cb { eof := true }, .dispatch_returns] final ∧
      final.history.count (.free 1) = 2 ∧ ¬ ReleasedOnce final.history) := by
  refine ⟨⟨_, .next (by decide) rfl (.next (by decide) rfl (.next (by decide) rfl (.done _))), ?_⟩,
    ⟨_, .next (by decide) rfl (.next (by decide) rfl (.next (by decide) rfl (.done _))), ?_⟩,
    ⟨_, .next (by decide) rfl (.next (by decide) rfl (.done _)), ?_⟩⟩
  · exact ⟨by decide, fun released => absurd (released.once 1) (by decide)⟩
  · exact ⟨rfl, fun released => absurd (released.once 1) (by decide)⟩
  · exact ⟨by decide, fun released => absurd (released.once 1) (by decide)⟩

end LDPlayer
