/-
From the input to the wire.

The managers hand the messages of an input to the workers.  Each worker reads its
stream in pieces of any size, next to the callbacks of its timers and sockets, and
sends its queries.  What is known of the replay and of a worker is put together.
-/
import LDPlayer.Replay.Handshake
import LDPlayer.Client.WorkerProcess
import LDPlayer.Foundation.Pipeline

set_option autoImplicit false

namespace LDPlayer

open LengthPrefix Sharing

/-- Protobuf writes no more than 2 GB; the length fields hold that. -/
def Codec.Fits (codec : Codec) : Prop :=
  ∀ msg bytes, codec.SerializeToString msg = some bytes → bytes.length < 256 ^ lengthWidth

theorem Codec.Fits.serialize {codec : Codec} (fits : codec.Fits) {failure : String}
    {msg : DNSMsg} {msg_str : Bytes} (written : codec.serialize failure msg = .ok msg_str) :
    Carried lengthWidth msg_str := by
  unfold Codec.serialize at written
  split at written
  · cases written
  · rename_i bytes text
    split at written
    · cases written
    · rename_i nonempty
      rw [← Except.ok.inj written]
      exact ⟨nonempty, fits msg bytes text⟩

namespace Replay

/-! ### What a worker makes of its stream -/

section streams

variable {codec : Codec} {options : Options} {conn_type read buffered : Bytes}
variable {w : WorkerProcess} {arrived : List Bytes}

private theorem handled_front (carried : ∀ payload ∈ arrived, Carried lengthWidth payload)
    (replayed : w.Replayed codec options conn_type read buffered)
    (front : read <+: frames lengthWidth arrived) :
    w.ledger.handled <+: Ledger.normals codec arrived := by
  obtain ⟨payloads, framed, handled⟩ := replayed.handled
  obtain ⟨later, stream⟩ := front
  rw [framed.cut, List.append_assoc] at stream
  have first := prefix_of_frames (by decide) framed.small
    (fun payload member => (carried payload member).fits) stream
  rw [handled]
  exact (first.map _).filter _

private theorem handled_whole (carried : ∀ payload ∈ arrived, Carried lengthWidth payload)
    (replayed : w.Replayed codec options conn_type read buffered)
    (whole : read = frames lengthWidth arrived) (below : buffered.length < 2 ^ 32) :
    w.ledger.handled = Ledger.normals codec arrived := by
  obtain ⟨payloads, framed, handled⟩ := replayed.handled
  rw [whole] at framed
  rw [handled, framed.whole carried below]

private theorem sendings_perm (replayed : w.Replayed codec options conn_type read buffered)
    (none_armed : w.ledger.armed = []) :
    (w.sendings.map (fun sending => sending.call.arg)).Perm w.ledger.handled := by
  have positions : (w.sendings.map (fun sending => sending.call.position)).Perm
      (List.range w.ledger.handled.length) := by
    rw [List.perm_iff_count]
    intro position
    by_cases within : position < w.ledger.handled.length
    · have once := replayed.once position within
      rw [none_armed, List.map_nil, List.count_nil, Nat.add_zero] at once
      rw [once]
      exact (List.count_eq_one_of_mem List.nodup_range (List.mem_range.mpr within)).symm
    · rw [List.count_eq_zero.mpr, List.count_eq_zero.mpr]
      · exact fun member => within (List.mem_range.mp member)
      · intro member
        obtain ⟨sending, listed, rfl⟩ := List.mem_map.mp member
        exact within (List.getElem?_eq_some_iff.mp (replayed.asked sending listed)).1
  have messages := positions.map (fun position => (w.ledger.handled[position]?).getD {})
  rw [List.map_map] at messages
  have calls : w.sendings.map (fun sending => sending.call.arg) =
      w.sendings.map ((fun position => (w.ledger.handled[position]?).getD {}) ∘
        fun sending => sending.call.position) := by
    apply List.map_congr_left
    intro sending listed
    rw [Function.comp_apply, replayed.asked sending listed]
    rfl
  have range : (List.range w.ledger.handled.length).map
      (fun position => (w.ledger.handled[position]?).getD {}) = w.ledger.handled := by
    apply List.ext_getElem
    · rw [List.length_map, List.length_range]
    · intro position within bound
      rw [List.getElem_map, List.getElem_range, List.getElem?_eq_getElem bound]
      rfl
  rw [range] at messages
  rw [calls]
  exact messages

end streams

/-! ### What the stream holds -/

section shares

variable {Target : Type} [DecidableEq Target] {codec : Codec} {input : List DNSMsg}
variable {route : Bytes → Option Target} {target : Target} {arrived : List Bytes}

theorem ledger_normals {sync : DNSMsg} {rest : List DNSMsg}
    (announced : announcement input = some sync)
    (log : arrived.map codec.ParseFromArray = sync :: rest)
    (listed : ∀ msg ∈ rest, msg ∈ normals input) : Ledger.normals codec arrived = rest := by
  unfold Ledger.normals
  rw [log, List.filter_cons_of_neg, List.filter_eq_self]
  · intro msg member
    exact decide_eq_true (normals_not_sync (listed msg member))
  · rw [announcement_sync announced]
    decide

theorem Replays.normals_front {workers : Target → Prop} {drained : Prop}
    {log : Target → List DNSMsg} (replays : Replays input workers drained route log)
    (same : log target = arrived.map codec.ParseFromArray) :
    Ledger.normals codec arrived <+: share DNSMsg.src_ip route target (normals input) := by
  rcases replays.in_order target with nothing | ⟨sync, rest, announced, whole, front⟩
  · have empty : arrived = [] := List.map_eq_nil_iff.mp (same.symm.trans nothing)
    rw [empty]
    exact List.nil_prefix
  · rw [ledger_normals announced (same.symm.trans whole)]
    · exact front
    · intro msg member
      exact (mem_share.mp (front.subset member)).1

theorem Replays.normals_whole {workers : Target → Prop} {drained : Prop}
    {log : Target → List DNSMsg} (replays : Replays input workers drained route log)
    (same : log target = arrived.map codec.ParseFromArray) (done : drained) :
    Ledger.normals codec arrived = share DNSMsg.src_ip route target (normals input) := by
  rcases replays.whole done target with ⟨nothing, empty⟩ | ⟨sync, announced, whole⟩
  · have none : arrived = [] := List.map_eq_nil_iff.mp (same.symm.trans nothing)
    rw [none, empty]
    rfl
  · apply ledger_normals announced (same.symm.trans whole)
    intro msg member
    exact (mem_share.mp member).1

private theorem share_source {ip : Bytes} (routed : route ip = some target)
    (messages : List DNSMsg) :
    (share DNSMsg.src_ip route target messages).filter (fun msg => msg.src_ip = ip) =
      messages.filter (fun msg => msg.src_ip = ip) := by
  unfold share
  rw [List.filter_filter]
  apply List.filter_congr
  intro msg _member
  by_cases same : msg.src_ip = ip
  · rw [same, routed, decide_eq_true rfl, decide_eq_true rfl]
    rfl
  · rw [decide_eq_false same, Bool.false_and]

end shares

/-! ### The processes and their streams -/

section wired

variable {Producer Produce Target : Type} [DecidableEq Target]

structure Hosts (Target : Type) where
  get_query_rr_str : Bytes → Bytes
  kernel : Target → Kernel
  clock : Target → Nat → Timeval
  evtimer : Target → Evtimer

/-- The processes that distribute the input, and a worker at the end of each stream. -/
def wired (codec : Codec) (hosts : Hosts Target)
    (step : Producer → Produce → Except Fault Producer) (admits : Producer → Produce → Prop)
    (arrived : Producer → Target → List Bytes) :
    Pipeline.Sides Producer Produce (Bytes × WorkerProcess) WorkerProcess.Event Target UInt8
      Fault where
  produces := step
  may_produce := admits
  consumes target := WorkerProcess.step hosts.get_query_rr_str (hosts.kernel target) codec
    (hosts.clock target) (hosts.evtimer target)
  may_consume _ := WorkerProcess.admits
  arrived s target := frames lengthWidth (arrived s target)
  data := WorkerProcess.Event.data

structure Launched (s : Pipeline.State Producer (Bytes × WorkerProcess) Target UInt8) : Prop where
  unread : ∀ target, s.read target = []
  fresh : ∀ target, (s.consumers target).1 = []
  initial : ∀ target, (s.consumers target).2.Initial
  accepted : ∀ target, (s.consumers target).2.conn_type ∈ conn_set

/-- Every worker has read all that has arrived for it, and has fewer than 2^32 bytes
left in its buffer; these are then none. -/
def ReadOut (arrived : Producer → Target → List Bytes)
    (s : Pipeline.State Producer (Bytes × WorkerProcess) Target UInt8) : Prop :=
  ∀ target, s.read target = frames lengthWidth (arrived s.producer target) ∧
    (s.consumers target).1.length < 2 ^ 32

/-- What has become of the input at the workers. -/
structure OnTheWire (codec : Codec) (input : List DNSMsg) (route : Bytes → Option Target)
    (finished : Prop) (start final : Pipeline.State Producer (Bytes × WorkerProcess) Target UInt8) :
    Prop where
  replayed : ∀ target, (final.consumers target).2.Replayed codec
    (start.consumers target).2.client.toOptions (start.consumers target).2.conn_type
    (final.read target) (final.consumers target).1
  front : ∀ target, (final.consumers target).2.ledger.handled <+:
    share DNSMsg.src_ip route target (normals input)
  routed : finished → ∀ msg ∈ input, msg.Valid → ∃ target, route msg.src_ip = some target
  once : finished → ∀ target, (final.consumers target).2.ledger.armed = [] →
    ((final.consumers target).2.sendings.map (fun sending => sending.call.arg)).Perm
      (share DNSMsg.src_ip route target (normals input))
  in_order : finished → ∀ ip target,
    (start.consumers target).2.ledger.worker.non_wait = true → route ip = some target →
    ((final.consumers target).2.sendings.map (fun sending => sending.call.arg)).filter
        (fun msg => msg.src_ip = ip) =
      (normals input).filter (fun msg => msg.src_ip = ip)

variable {codec : Codec} {hosts : Hosts Target}
variable {step : Producer → Produce → Except Fault Producer} {admits : Producer → Produce → Prop}
variable {arrived : Producer → Target → List Bytes}
variable {start final : Pipeline.State Producer (Bytes × WorkerProcess) Target UInt8}
variable {events : List (Pipeline.Event Produce WorkerProcess.Event Target)}

private theorem worker_replayed (launched : Launched start)
    (run : Pipeline.Run (wired codec hosts step admits arrived) start events final)
    (target : Target) :
    (final.consumers target).2.Replayed codec (start.consumers target).2.client.toOptions
        (start.consumers target).2.conn_type (final.read target) (final.consumers target).1 ∧
      ((start.consumers target).2.ledger.worker.non_wait = true →
        (final.consumers target).2.sendings.map (fun sending => sending.call.arg) =
          (final.consumers target).2.ledger.handled) := by
  have initial := launched.initial target
  have alone := run.consumer target
  have read := run.read target
  rw [launched.unread target, List.nil_append] at read
  rw [read]
  exact ⟨WorkerProcess.run_replayed initial (launched.fresh target) (launched.accepted target)
    alone, WorkerProcess.run_at_once initial alone⟩

theorem Replays.on_the_wire {input : List DNSMsg} {workers : Target → Prop} {drained : Prop}
    {route : Bytes → Option Target} {log : Target → List DNSMsg}
    (replays : Replays input workers drained route log)
    (same : ∀ target, log target = (arrived final.producer target).map codec.ParseFromArray)
    (carried : ∀ target, ∀ payload ∈ arrived final.producer target,
      Carried lengthWidth payload)
    (launched : Launched start)
    (stays : ∀ producer event next, step producer event = .ok next →
      ∀ target, arrived producer target <+: arrived next target)
    (run : Pipeline.Run (wired codec hosts step admits arrived) start events final) :
    OnTheWire codec input route (drained ∧ ReadOut arrived final) start final := by
  have front : ∀ target,
      final.read target <+: frames lengthWidth (arrived final.producer target) := by
    refine run.read_front ?_ ?_
    · intro producer event next stepped target
      obtain ⟨later, more⟩ := stays producer event next stepped target
      refine ⟨frames lengthWidth later, ?_⟩
      change frames lengthWidth _ ++ _ = frames lengthWidth _
      rw [← frames_append, more]
    · intro target
      rw [launched.unread target]
      exact List.nil_prefix
  have whole : drained ∧ ReadOut arrived final → ∀ target,
      (final.consumers target).2.ledger.handled =
        share DNSMsg.src_ip route target (normals input) := by
    intro finished target
    obtain ⟨done, out⟩ := finished
    rw [handled_whole (carried target) (worker_replayed launched run target).1 (out target).1
      (out target).2]
    exact replays.normals_whole (same target) done
  refine ⟨fun target => (worker_replayed launched run target).1, ?_,
    fun finished => replays.routed finished.1, ?_, ?_⟩
  · intro target
    exact (handled_front (carried target) (worker_replayed launched run target).1
      (front target)).trans (replays.normals_front (same target))
  · intro finished target none_armed
    rw [← whole finished target]
    exact sendings_perm (worker_replayed launched run target).1 none_armed
  · intro finished ip target fast routed
    rw [(worker_replayed launched run target).2 fast, whole finished target]
    exact share_source routed _

end wired

/-! ### What arrives -/

section channels

variable {Target Frame : Type} [DecidableEq Target] {channels : Target → Channel Frame}

theorem received_sendAll (writes : List (Target × Frame)) (target : Target) :
    (channels target).received <+: (sendAll writes channels target).received :=
  List.prefix_refl _

theorem received_receiveAt_front (at_target target : Target) :
    (channels target).received <+: (receiveAt at_target channels target).received := by
  by_cases same : target = at_target
  · subst same
    rw [receiveAt, Function.update_self]
    unfold Channel.receive
    split
    · exact List.prefix_refl _
    · exact List.prefix_append _ _
  · rw [receiveAt_of_ne same]

def Carry (holds : Frame → Prop) (channels : Target → Channel Frame) : Prop :=
  ∀ target, ∀ frame ∈ (channels target).sent, holds frame

variable {holds : Frame → Prop}

theorem Carry.sendAll (carry : Carry holds channels) {writes : List (Target × Frame)}
    (all : ∀ write ∈ writes, holds write.2) : Carry holds (sendAll writes channels) := by
  intro target frame member
  rw [sent_sendAll] at member
  rcases List.mem_append.mp member with old | new
  · exact carry target frame old
  · obtain ⟨write, listed, addressed⟩ := List.mem_filterMap.mp new
    split at addressed
    · rw [← Option.some.inj addressed]
      exact all write listed
    · cases addressed

theorem Carry.receiveAt (carry : Carry holds channels) (target : Target) :
    Carry holds (receiveAt target channels) := by
  intro other frame member
  rw [sent_receiveAt] at member
  exact carry other frame member

omit [DecidableEq Target] in
theorem Carry.received (carry : Carry holds channels) (target : Target) :
    ∀ frame ∈ (channels target).received, holds frame :=
  fun frame member => carry target frame ((channels target).received_front.subset member)

end channels

end Replay

namespace Manager

open Replay

variable {codec : Codec} {m after : Manager} {sent : Sent}

private theorem sync_clients_carried (fits : codec.Fits) {msg : DNSMsg}
    (ran : m.sync_clients codec msg = .ok (after, sent)) : ∀ write ∈ sent, Carried lengthWidth write.2 := by
  unfold sync_clients at ran
  split at ran
  · obtain ⟨_same, rfl⟩ := Prod.mk.inj (Except.ok.inj ran)
    exact List.forall_mem_nil _
  · split at ran
    · cases ran
    · rename_i msg_str written
      obtain ⟨_same, rfl⟩ := Prod.mk.inj (Except.ok.inj ran)
      intro write member
      obtain ⟨cfd, _listed, rfl⟩ := List.mem_map.mp member
      exact fits.serialize written

theorem send_normal_sent {src_ip msg_str : Bytes} {draws : Nat → Nat}
    (ran : m.send_normal src_ip draws msg_str = .ok (after, sent)) :
    ∀ write ∈ sent, write.2 = msg_str := by
  unfold send_normal at ran
  split at ran
  · cases ran
  · split at ran
    · cases ran
    · obtain ⟨_same, rfl⟩ := Prod.mk.inj (Except.ok.inj ran)
      intro write member
      rw [List.mem_singleton.mp member]

private theorem read_input_message_carried (fits : codec.Fits) {draws : Nat → Nat} {msg : DNSMsg}
    (ran : m.read_input_message codec draws msg = .ok (after, sent)) :
    ∀ write ∈ sent, Carried lengthWidth write.2 := by
  unfold read_input_message at ran
  split at ran
  · obtain ⟨_same, rfl⟩ := Prod.mk.inj (Except.ok.inj ran)
    exact List.forall_mem_nil _
  · split at ran
    · cases ran
    · rename_i synced broadcast announced
      split at ran
      · cases ran
      · rename_i msg_str written
        split at ran
        · cases ran
        · rename_i routed last normal
          obtain ⟨_same, rfl⟩ := Prod.mk.inj (Except.ok.inj ran)
          intro write member
          rcases List.mem_append.mp member with first | second
          · exact sync_clients_carried fits announced write first
          · rw [send_normal_sent normal write second]
            exact fits.serialize written

private theorem com_message_sent {draws : Nat → Nat} {payload : Bytes}
    (ran : m.com_message codec draws payload = .ok (after, sent)) :
    ∀ write ∈ sent, write.2 = payload := by
  unfold com_message at ran
  simp only at ran
  split at ran
  · obtain ⟨_same, rfl⟩ := Prod.mk.inj (Except.ok.inj ran)
    intro write member
    obtain ⟨cfd, _listed, rfl⟩ := List.mem_map.mp member
    rfl
  · exact send_normal_sent ran

end Manager

namespace Local

open Replay

variable {codec : Codec} {draws : Nat → Nat} {s next : Local} {event : Event}

theorem step_received (stepped : s.step codec draws event = .ok next) (fd : Fd) :
    (s.wires fd).received <+: (next.wires fd).received := by
  cases event with
  | read_input =>
      unfold step at stepped
      simp only at stepped
      split at stepped
      · rw [← Except.ok.inj stepped]
      · split at stepped
        · cases stepped
        · rw [← Except.ok.inj stepped]
          exact received_sendAll _ fd
  | worker_read other =>
      rw [← Except.ok.inj stepped]
      exact received_receiveAt_front other fd

theorem run_carries (fits : codec.Fits) {input : List DNSMsg} {workers : List Fd}
    {events : List Event} (run : Run codec draws (start input workers) events s) :
    Carry (Carried lengthWidth) s.wires := by
  have keeps : ∀ (s : Local) event next, Carry (Carried lengthWidth) s.wires → s.admits event →
      s.step codec draws event = .ok next → Carry (Carried lengthWidth) next.wires := by
    intro s event next carry _admitted stepped
    cases event with
    | read_input =>
        unfold step at stepped
        simp only at stepped
        split at stepped
        · rw [← Except.ok.inj stepped]
          exact carry
        · split at stepped
          · cases stepped
          · rename_i m sent ran
            rw [← Except.ok.inj stepped]
            exact carry.sendAll (Manager.read_input_message_carried fits ran)
    | worker_read fd =>
        rw [← Except.ok.inj stepped]
        exact carry.receiveAt fd
  refine Runs.Run.invariant keeps run ?_
  intro fd frame member
  cases member

end Local

namespace Postman

open Replay

private theorem sync_clients_carried {codec : Codec} (fits : codec.Fits) {p after : Postman}
    {written : Written} {msg : DNSMsg} (ran : p.sync_clients codec msg = .ok (after, written)) :
    ∀ write ∈ written, Carried lengthWidth write.2 := by
  unfold sync_clients at ran
  split at ran
  · obtain ⟨_same, rfl⟩ := Prod.mk.inj (Except.ok.inj ran)
    exact List.forall_mem_nil _
  · split at ran
    · cases ran
    · rename_i msg_str text
      obtain ⟨_same, rfl⟩ := Prod.mk.inj (Except.ok.inj ran)
      intro write member
      obtain ⟨bev, _listed, rfl⟩ := List.mem_map.mp member
      exact fits.serialize text

private theorem skt_message_carried {codec : Codec} (fits : codec.Fits) {p after : Postman}
    {written : Written} {draws : Nat → Nat} {payload : Bytes}
    (ran : p.skt_message codec draws payload = .ok (after, written)) :
    ∀ write ∈ written, Carried lengthWidth write.2 := by
  unfold skt_message at ran
  simp only at ran
  split at ran
  · obtain ⟨_same, rfl⟩ := Prod.mk.inj (Except.ok.inj ran)
    exact List.forall_mem_nil _
  · split at ran
    · cases ran
    · rename_i synced broadcast announced
      split at ran
      · cases ran
      · rename_i msg_str text
        split at ran
        · cases ran
        · obtain ⟨_same, rfl⟩ := Prod.mk.inj (Except.ok.inj ran)
          intro write member
          rcases List.mem_append.mp member with first | second
          · exact sync_clients_carried fits announced write first
          · rw [List.mem_singleton.mp second]
            exact fits.serialize text

end Postman

namespace Distributed

open Replay HashTable

variable {codec : Codec} {draws : Nat → Nat} {rand : Ptr → Nat → Nat}
variable {s next : Distributed} {event : Event}

theorem step_received (stepped : s.step codec draws rand event = .ok next) (worker : Worker) :
    (s.wires worker).received <+: (next.wires worker).received := by
  cases event with
  | connect fd bev workers =>
      rw [← Except.ok.inj stepped]
      exact List.prefix_refl _
  | read_input =>
      change s.read_input codec = _ at stepped
      unfold read_input at stepped
      split at stepped
      · rw [← Except.ok.inj stepped]
      · split at stepped
        · cases stepped
        · rw [← Except.ok.inj stepped]
  | skt_read =>
      change s.skt_read codec draws = _ at stepped
      unfold skt_read at stepped
      split at stepped
      · rw [← Except.ok.inj stepped]
      · split at stepped
        · cases stepped
        · rw [← Except.ok.inj stepped]
  | com_read bev =>
      change s.com_read codec rand bev = _ at stepped
      unfold com_read at stepped
      split at stepped
      · split at stepped
        · cases stepped
        · rw [← Except.ok.inj stepped]
          exact received_sendAll _ worker
      · rw [← Except.ok.inj stepped]
  | worker_read other =>
      rw [← Except.ok.inj stepped]
      exact received_receiveAt_front other worker

structure Carries (s : Distributed) : Prop where
  pipe : ∀ payload ∈ s.pipe, Carried lengthWidth payload
  links : Carry (Carried lengthWidth) s.links
  wires : Carry (Carried lengthWidth) s.wires

theorem Carries.step (fits : codec.Fits) (carries : s.Carries)
    (stepped : s.step codec draws rand event = .ok next) : next.Carries := by
  cases event with
  | connect fd bev workers =>
      rw [← Except.ok.inj stepped]
      exact { carries with }
  | read_input =>
      change s.read_input codec = _ at stepped
      unfold read_input at stepped
      split at stepped
      · rw [← Except.ok.inj stepped]
        exact carries
      · split at stepped
        · cases stepped
        · rename_i written read
          rw [← Except.ok.inj stepped]
          refine { carries with pipe := List.forall_mem_append.mpr ⟨carries.pipe, ?_⟩ }
          unfold Reader.read_message at read
          split at read
          · rw [← Except.ok.inj read]
            exact List.forall_mem_nil _
          · split at read
            · cases read
            · rename_i msg_str text
              rw [← Except.ok.inj read]
              exact List.forall_mem_singleton.mpr (fits.serialize text)
  | skt_read =>
      change s.skt_read codec draws = _ at stepped
      unfold skt_read at stepped
      split at stepped
      · rw [← Except.ok.inj stepped]
        exact carries
      · rename_i payload rest piped
        split at stepped
        · cases stepped
        · rename_i p written ran
          rw [← Except.ok.inj stepped]
          have pipe := carries.pipe
          rw [piped] at pipe
          exact
            { pipe := (List.forall_mem_cons.mp pipe).2
              links := carries.links.sendAll (Postman.skt_message_carried fits ran)
              wires := carries.wires }
  | com_read bev =>
      change s.com_read codec rand bev = _ at stepped
      unfold com_read at stepped
      split at stepped
      · rename_i manager payload rest found waits
        split at stepped
        · cases stepped
        · rename_i m sent ran
          rw [← Except.ok.inj stepped]
          refine
            { pipe := carries.pipe
              links := carries.links.receiveAt bev
              wires := carries.wires.sendAll ?_ }
          intro write member
          obtain ⟨inner, listed, rfl⟩ := List.mem_map.mp member
          rw [Manager.com_message_sent ran inner listed]
          apply carries.links bev
          unfold Channel.sent
          rw [waits]
          exact List.mem_append_right _ List.mem_cons_self
      · rw [← Except.ok.inj stepped]
        exact carries
  | worker_read worker =>
      rw [← Except.ok.inj stepped]
      exact { carries with wires := carries.wires.receiveAt worker }

theorem run_carries (fits : codec.Fits) {input : List DNSMsg} {p : Postman}
    {events : List Event} (run : Run codec draws rand (start input p) events s) :
    s.Carries := by
  have keeps : ∀ (s : Distributed) event next, s.Carries → s.admits event →
      s.step codec draws rand event = .ok next → next.Carries :=
    fun s event next carries _admitted stepped => carries.step fits stepped
  refine Runs.Run.invariant keeps run ⟨List.forall_mem_nil _, ?_, ?_⟩
  · intro bev frame member
    cases member
  · intro worker frame member
    cases member

end Distributed

/-! ### Both modes -/

open Replay

def Local.processes (codec : Codec) (draws : Nat → Nat) (hosts : Hosts Fd) :=
  wired codec hosts (Local.step codec draws) Local.admits (fun s fd => (s.wires fd).received)

def Distributed.processes (codec : Codec) (draws : Nat → Nat) (rand : Ptr → Nat → Nat)
    (hosts : Hosts Worker) :=
  wired codec hosts (Distributed.step codec draws rand) Distributed.admits
    (fun s worker => (s.wires worker).received)

/-- Every message of the input goes out on the wire once, from its source's worker.

Managers and workers run in any order, and a worker reads its stream in pieces of any
size.  At any time a worker has handled the front of its share of the input.  When
the replay is drained, the streams are read and no timer is left, the calls that
send are those for its share, each once; a worker that does not wait sends the
queries of each source in the order of the input. -/
theorem input_on_the_wire {codec : Codec} {input : List DNSMsg}
    (serializes : Serializes codec input) (fits : codec.Fits) :
    (∀ workers draws hosts, Forked workers →
      ∀ (start final : Pipeline.State Local (Bytes × WorkerProcess) Fd UInt8) events,
        start.producer = Local.start input workers → Launched start →
        Pipeline.Run (Local.processes codec draws hosts) start events final →
        OnTheWire codec input final.producer.manager.worker_of
          (final.producer.Drained ∧ ReadOut (fun s fd => (s.wires fd).received) final)
          start final) ∧
    ∀ files listen_ip listen_port n f p draws rand hosts,
      Postman.new files listen_ip listen_port n f = .ok p → n < 2 ^ 31 →
      (f.GetNumClients ≠ 0 → f.GetFilterInput ≠ []) → p.DrawsInRange draws →
      ∀ (start final : Pipeline.State Distributed (Bytes × WorkerProcess) Worker UInt8) events,
        start.producer = Distributed.start input p → Launched start →
        Pipeline.Run (Distributed.processes codec draws rand hosts) start events final →
        OnTheWire codec input final.producer.worker_of
          (final.producer.Drained ∧ ReadOut (fun s worker => (s.wires worker).received) final)
          start final := by
  constructor
  · intro workers draws hosts forked start final events started launched run
    have producer := run.producer
    rw [started] at producer
    have invariant := Local.run_invariant serializes forked producer
    exact invariant.replays.on_the_wire (fun fd => rfl)
      (Local.run_carries fits producer).received launched
      (fun s event next stepped fd => Local.step_received stepped fd) run
  · intro files listen_ip listen_port n f p draws rand hosts made size set inRange start final
      events started launched run
    have producer := run.producer
    rw [started] at producer
    have invariant := Distributed.run_invariant serializes made size set inRange producer
    exact invariant.replays.on_the_wire (fun worker => rfl)
      (Distributed.run_carries fits producer).wires.received launched
      (fun s event next stepped worker => Distributed.step_received stepped worker) run

namespace WorkerProcess

private theorem wire_serializes : Serializes wire_codec [wire_query none] := by
  have inverts : ∀ mark, wire_codec.Inverts (wire_query mark) := by
    intro mark
    refine ⟨wire_text mark, List.cons_ne_nil _ _, ?_, ?_⟩
    · rcases mark with _ | _ | _ <;> simp [wire_codec, wire_query]
    · rcases mark with _ | _ | _ <;> simp [wire_codec, wire_text]
  intro msg member _valid
  rw [List.mem_singleton.mp member]
  exact ⟨inverts none, fun value => inverts (some value)⟩

private theorem wire_fits : wire_codec.Fits := by
  intro msg bytes text
  obtain ⟨mark, _listed, found⟩ := List.exists_of_findSome?_eq_some text
  split at found
  · rw [← Option.some.inj found]
    exact (wire_text_carried mark).fits
  · cases found

end WorkerProcess

def still_hosts (Target : Type) : Hosts Target where
  get_query_rr_str _ := []
  kernel _ := counting_kernel
  clock _ _ := { tv_sec := 51, tv_usec := 0 }
  evtimer _ := Ledger.always

def one_query : Pipeline.State Local (Bytes × WorkerProcess) Fd UInt8 :=
  { producer := Local.start [WorkerProcess.wire_query none] [7]
    consumers := fun _ => ([], WorkerProcess.fast_worker (Text.ascii "udp")) }

private theorem one_query_launched : Launched one_query := by
  have accepted : Text.ascii "udp" ∈ conn_set := by decide
  exact ⟨fun _ => rfl, fun _ => rfl, fun _ => WorkerProcess.fast_worker_initial _,
    fun _ => accepted⟩

/-- It is read, and its datagram is scheduled. -/
theorem input_on_the_wire_datagram :
    ∃ final events, Pipeline.Run
        (Local.processes WorkerProcess.wire_codec (fun _ => 0) (still_hosts Fd)) one_query events
        final ∧
      final.producer.Drained ∧
      (final.consumers 7).2.client.write_events =
        [(1, (WorkerProcess.wire_query (some false)).set_raw [0, 0, 1])] ∧
      OnTheWire WorkerProcess.wire_codec [WorkerProcess.wire_query none]
        final.producer.manager.worker_of
        (final.producer.Drained ∧ ReadOut (fun s fd => (s.wires fd).received) final) one_query
        final := by
  have carried := WorkerProcess.wire_text_carried
  have run : ∃ final, Pipeline.Run
      (Local.processes WorkerProcess.wire_codec (fun _ => 0) (still_hosts Fd)) one_query
      [.produce .read_input, .produce (.worker_read 7), .produce (.worker_read 7),
        .consume 7 (.manager_read_cb (frame (WorkerProcess.wire_text (some true)))),
        .consume 7 (.manager_read_cb (frame (WorkerProcess.wire_text (some false))))] final ∧
      final.producer.Drained ∧
      (final.consumers 7).2.client.write_events =
        [(1, (WorkerProcess.wire_query (some false)).set_raw [0, 0, 1])] :=
    ⟨_, .next (List.cons_ne_nil _ _) rfl
      (.next ⟨List.mem_cons_self, List.cons_ne_nil _ _⟩ rfl
      (.next ⟨List.mem_cons_self, List.cons_ne_nil _ _⟩ rfl
      (.next ⟨trivial, frame (WorkerProcess.wire_text (some false)), rfl⟩
        ((congrArg (Except.map _) (WorkerProcess.step_frame (carried (some true)) _)).trans rfl)
      (.next ⟨trivial, [], rfl⟩
        ((congrArg (Except.map _) (WorkerProcess.step_frame (carried (some false)) _)).trans rfl)
        (.done _))))), by decide, rfl⟩
  obtain ⟨final, ran, drained, scheduled⟩ := run
  exact ⟨final, _, ran, drained, scheduled,
    (input_on_the_wire WorkerProcess.wire_serializes WorkerProcess.wire_fits).1 [7] (fun _ => 0)
      (still_hosts Fd) (by decide) _ final _ rfl one_query_launched ran⟩

end LDPlayer
