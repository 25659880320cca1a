/-
The replay over the network: the reader, the postman, the managers that connect
to it, and the workers of each.

The reader starts when the postman has all of its clients; more may connect
later.  No connection fails.  Frames arrive whole and in order on each
connection, in any interleaving of the connections.
-/
import LDPlayer.Controller.Distribution
import LDPlayer.Foundation.Simulation
import LDPlayer.Replay.Local

set_option autoImplicit false

namespace LDPlayer

open Text HashTable Sharing

namespace Reader

def read_message (codec : Codec) (msg : DNSMsg) : Except Fault (List Bytes) :=
  if msg.raw = [] then .ok []
  else
    match codec.serialize "serialize message fails" msg with
    | .error fault => .error fault
    | .ok msg_str => .ok [msg_str]

end Reader

/-- A worker is known by the connection of its manager and by its descriptor there. -/
abbrev Worker : Type := Ptr × Fd

/-- The reader's input and its socket to the postman, the postman among its
connections, the manager at the end of each connection, and what is on the way. -/
structure Distributed where
  input : List DNSMsg
  pipe : List Bytes := []
  controller : Controller
  managers : HashTable Ptr Manager := ∅
  links : Ptr → Channel Bytes := fun _ => {}
  wires : Worker → Channel Bytes := fun _ => {}

namespace Distributed

open Replay

inductive Event where
  | connect (fd : Fd) (bev : Ptr) (workers : List Fd)
  | read_input
  | skt_read
  | com_read (bev : Ptr)
  | worker_read (worker : Worker)
  deriving DecidableEq, Repr

def Event.Delivers (event : Event) : Prop :=
  ∀ fd bev workers, event ≠ .connect fd bev workers

def start (input : List DNSMsg) (p : Postman) : Distributed :=
  { input := input, controller := { postman := p } }

def connect (fd : Fd) (bev : Ptr) (workers : List Fd) (s : Distributed) : Distributed :=
  { s with
    controller :=
      { postman := s.controller.postman.accept_conn_cb fd bev
        open_conns := s.controller.open_conns.insert fd bev }
    managers := s.managers.insert bev (Manager.new workers.length workers false) }

def read_input (codec : Codec) (s : Distributed) : Except Fault Distributed :=
  match s.input with
  | [] => .ok s
  | msg :: rest =>
      match Reader.read_message codec msg with
      | .error fault => .error fault
      | .ok written => .ok { s with input := rest, pipe := s.pipe ++ written }

def skt_read (codec : Codec) (draws : Nat → Nat) (s : Distributed) : Except Fault Distributed :=
  match s.pipe with
  | [] => .ok s
  | payload :: rest =>
      match s.controller.postman.skt_message codec draws payload with
      | .error fault => .error fault
      | .ok (p, written) =>
          .ok { s with
                pipe := rest
                controller := { s.controller with postman := p }
                links := sendAll written s.links }

def com_read (codec : Codec) (rand : Ptr → Nat → Nat) (bev : Ptr) (s : Distributed) :
    Except Fault Distributed :=
  match s.managers.lookup bev, (s.links bev).inFlight with
  | some manager, payload :: _ =>
      match manager.com_message codec (rand bev) payload with
      | .error fault => .error fault
      | .ok (m, sent) =>
          .ok { s with
                managers := s.managers.insert bev m
                links := receiveAt bev s.links
                wires := sendAll (sent.map (fun write => ((bev, write.1), write.2))) s.wires }
  | _, _ => .ok s

def step (codec : Codec) (draws : Nat → Nat) (rand : Ptr → Nat → Nat) (s : Distributed)
    (event : Event) : Except Fault Distributed :=
  match event with
  | .connect fd bev workers => .ok (s.connect fd bev workers)
  | .read_input => s.read_input codec
  | .skt_read => s.skt_read codec draws
  | .com_read bev => s.com_read codec rand bev
  | .worker_read worker => .ok { s with wires := receiveAt worker s.wires }

def workers (s : Distributed) : List Worker :=
  s.managers.entries.flatMap (fun entry => entry.2.client_fd.map (fun fd => (entry.1, fd)))

/-- The reader is unblocked by the postman; descriptors and bufferevents are fresh. -/
def admits (s : Distributed) (event : Event) : Prop :=
  match event with
  | .connect fd bev workers =>
      fd ∉ s.controller.open_conns ∧ bev ≠ NULL ∧ bev ∉ s.managers ∧ Forked workers
  | .read_input => s.controller.postman.start_read_input = true ∧ s.input ≠ []
  | .skt_read => s.pipe ≠ []
  | .com_read bev => bev ∈ s.managers ∧ (s.links bev).inFlight ≠ []
  | .worker_read worker => worker ∈ s.workers ∧ (s.wires worker).inFlight ≠ []

instance (s : Distributed) (event : Event) : Decidable (s.admits event) :=
  match event with
  | .connect fd bev workers =>
      inferInstanceAs (Decidable
        (fd ∉ s.controller.open_conns ∧ bev ≠ NULL ∧ bev ∉ s.managers ∧ Forked workers))
  | .read_input =>
      inferInstanceAs (Decidable (s.controller.postman.start_read_input = true ∧ s.input ≠ []))
  | .skt_read => inferInstanceAs (Decidable (s.pipe ≠ []))
  | .com_read bev =>
      inferInstanceAs (Decidable (bev ∈ s.managers ∧ (s.links bev).inFlight ≠ []))
  | .worker_read worker =>
      inferInstanceAs (Decidable (worker ∈ s.workers ∧ (s.wires worker).inFlight ≠ []))

abbrev Run (codec : Codec) (draws : Nat → Nat) (rand : Ptr → Nat → Nat) :
    Distributed → List Event → Distributed → Prop :=
  Runs.Run (step codec draws rand) admits

def Drained (s : Distributed) : Prop :=
  s.input = [] ∧ s.pipe = [] ∧ (∀ bev ∈ s.managers, (s.links bev).inFlight = []) ∧
    ∀ worker ∈ s.workers, (s.wires worker).inFlight = []

instance (s : Distributed) : Decidable s.Drained :=
  inferInstanceAs (Decidable
    (s.input = [] ∧ s.pipe = [] ∧ (∀ bev ∈ s.managers.keys, (s.links bev).inFlight = []) ∧
      ∀ worker ∈ s.workers, (s.wires worker).inFlight = []))

def log (codec : Codec) (s : Distributed) (worker : Worker) : List DNSMsg :=
  (s.wires worker).received.map codec.ParseFromArray

def worker_at (s : Distributed) (bev : Ptr) (src_ip : Bytes) : Option Fd :=
  (s.managers.lookup bev).bind (fun m => m.worker_of src_ip)

def worker_of (s : Distributed) : Bytes → Option Worker :=
  through s.controller.client_of s.worker_at

theorem mem_workers {s : Distributed} {bev : Ptr} {fd : Fd} :
    (bev, fd) ∈ s.workers ↔ ∃ m, s.managers.lookup bev = some m ∧ fd ∈ m.client_fd := by
  unfold workers
  rw [List.mem_flatMap]
  constructor
  · intro listed
    obtain ⟨⟨other, m⟩, entry, member⟩ := listed
    obtain ⟨image, inside, same⟩ := List.mem_map.mp member
    obtain ⟨rfl, rfl⟩ := Prod.mk.inj same
    exact ⟨m, AList.mem_lookup_iff.mpr entry, inside⟩
  · intro hosted
    obtain ⟨m, found, inside⟩ := hosted
    exact ⟨⟨bev, m⟩, AList.mem_lookup_iff.mp found, List.mem_map.mpr ⟨fd, inside, rfl⟩⟩

/-! ### The invariant -/

/-- What each distributor has taken, it has handed out; what it was sent and has
not taken is on its way. -/
structure Invariant (codec : Codec) (p : Postman) (input : List DNSMsg) (s : Distributed) :
    Prop where
  same_filter : s.controller.postman.client_filter = p.client_filter
  same_count : s.controller.postman.num_clients = p.num_clients
  begun : s.pipe ≠ [] → s.controller.postman.start_read_input = true
  managed : ∀ bev, bev ∈ s.managers ↔ ∃ fd, s.controller.open_conns.lookup fd = some bev
  posted : ∃ before taken, input = before ++ s.input ∧
    before.filter (fun msg => msg.Valid) = taken ++ s.pipe.map codec.ParseFromArray ∧
    s.controller.Distributes (announcement taken) (normals taken)
      (fun bev => (s.links bev).sent.map codec.ParseFromArray)
  hosted : ∀ bev m, s.managers.lookup bev = some m → ∃ announced taken,
    (s.links bev).received.map codec.ParseFromArray = announced.toList ++ taken ∧
    m.Distributes announced taken (fun fd => (s.wires (bev, fd)).sent.map codec.ParseFromArray)
  absent : ∀ bev, bev ∉ s.managers → ∀ fd, (s.wires (bev, fd)).sent = []

variable {codec : Codec} {p : Postman} {draws : Nat → Nat} {rand : Ptr → Nat → Nat}
variable {input : List DNSMsg} {s : Distributed}

theorem start_invariant (initial : Controller.Initial { postman := p }) :
    (start input p).Invariant codec p input where
  same_filter := rfl
  same_count := rfl
  begun := fun some_frame => absurd rfl some_frame
  managed := by
    intro bev
    apply iff_of_false (AList.notMem_empty bev)
    intro connected
    obtain ⟨fd, found⟩ := connected
    cases found
  posted := ⟨[], [], rfl, rfl, initial.distributes⟩
  hosted := by
    intro bev m found
    cases found
  absent := fun _ _ _ => rfl

theorem Invariant.connect (invariant : s.Invariant codec p input) {fd : Fd} {bev : Ptr}
    {workers : List Fd} (closed : fd ∉ s.controller.open_conns) (live : bev ≠ NULL)
    (fresh : bev ∉ s.managers) (forked : Forked workers) :
    (s.connect fd bev workers).Invariant codec p input := by
  obtain ⟨before, taken, split, passed, distributes⟩ := invariant.posted
  obtain ⟨_fds, count, filter, _flag, start⟩ :=
    Controller.accept_conn_cb_members fd bev s.controller.postman
  have unused : ∀ other, s.controller.open_conns.lookup other ≠ some bev :=
    fun other found => fresh ((invariant.managed bev).mpr ⟨other, found⟩)
  have unsent := List.map_eq_nil_iff.mp (distributes.quiet bev unused)
  exact
    { same_filter := filter.trans invariant.same_filter
      same_count := count.trans invariant.same_count
      begun := fun some_frame => start.mpr (Or.inl (invariant.begun some_frame))
      managed := by
        intro other
        simp only [Distributed.connect, AList.mem_insert, lookup_insert_eq]
        constructor
        · intro listed
          rcases listed with rfl | present
          · exact ⟨fd, if_pos rfl⟩
          · obtain ⟨client, found⟩ := (invariant.managed other).mp present
            refine ⟨client, ?_⟩
            rw [if_neg]
            · exact found
            · intro same
              rw [same] at found
              exact closed (mem_iff_lookup.mpr ⟨other, found⟩)
        · intro connected
          obtain ⟨client, found⟩ := connected
          by_cases same : client = fd
          · rw [if_pos same] at found
            exact Or.inl (Option.some.inj found).symm
          · rw [if_neg same] at found
            exact Or.inr ((invariant.managed other).mpr ⟨client, found⟩)
      posted := ⟨before, taken, split, passed, distributes.accept closed live unused⟩
      hosted := by
        intro other m found
        simp only [Distributed.connect, lookup_insert_eq] at found
        by_cases same : other = bev
        · subst same
          rw [if_pos rfl] at found
          obtain rfl := Option.some.inj found
          have unreceived := List.prefix_nil.mp (unsent ▸ (s.links other).received_front)
          refine ⟨none, [], ?_, ?_⟩
          · simp only [Distributed.connect, unreceived]
            rfl
          · simp only [Distributed.connect, invariant.absent other fresh, List.map_nil]
            exact Manager.new_distributes forked.some_worker forked.distinct forked.opened
        · rw [if_neg same] at found
          exact invariant.hosted other m found
      absent := by
        intro other missing
        simp only [Distributed.connect, AList.mem_insert, not_or] at missing
        exact invariant.absent other missing.2 }

theorem Invariant.read_input (invariant : s.Invariant codec p input)
    (serializes : Serializes codec input)
    (begun : s.controller.postman.start_read_input = true) (some_msg : s.input ≠ []) :
    ∃ next, s.read_input codec = .ok next ∧ next.Invariant codec p input := by
  obtain ⟨before, taken, split, passed, distributes⟩ := invariant.posted
  obtain ⟨msg, rest, waiting⟩ := List.exists_cons_of_ne_nil some_msg
  have longer : input = (before ++ [msg]) ++ rest := by
    rw [split, waiting, List.append_assoc, List.singleton_append]
  have kept : ∀ written, (written : List Bytes).map codec.ParseFromArray =
      [msg].filter (fun msg => msg.Valid) →
      Invariant codec p input { s with input := rest, pipe := s.pipe ++ written } := by
    intro written parsed
    refine { invariant with
      begun := fun _some_frame => begun
      posted := ⟨before ++ [msg], taken, longer, ?_, distributes⟩ }
    rw [List.filter_append, passed, List.map_append, parsed, List.append_assoc]
  unfold Distributed.read_input
  simp only [waiting]
  by_cases valid : msg.Valid
  · have member : msg ∈ input := by
      rw [longer]
      exact List.mem_append_left _ (List.mem_append_right _ List.mem_cons_self)
    obtain ⟨msg_str, serialized, parsed⟩ :=
      (serializes msg member valid).1.serialize "serialize message fails"
    have read : Reader.read_message codec msg = .ok [msg_str] := by
      unfold Reader.read_message
      rw [if_neg valid, serialized]
    refine ⟨_, by rw [read], kept [msg_str] ?_⟩
    rw [List.map_cons, parsed, List.map_nil, filter_valid valid]
  · have read : Reader.read_message codec msg = .ok [] := by
      unfold Reader.read_message
      rw [if_pos (not_not.mp valid)]
    refine ⟨_, by rw [read], kept [] ?_⟩
    rw [List.map_nil, filter_dropped valid]

private theorem Invariant.read_valid (invariant : s.Invariant codec p input) {payload : Bytes}
    {rest : List Bytes} (waiting : s.pipe = payload :: rest) :
    codec.ParseFromArray payload ∈ input ∧ (codec.ParseFromArray payload).Valid := by
  obtain ⟨before, taken, split, passed, _distributes⟩ := invariant.posted
  rw [waiting, List.map_cons] at passed
  have read : codec.ParseFromArray payload ∈ before.filter (fun msg => msg.Valid) := by
    rw [passed]
    exact List.mem_append_right _ List.mem_cons_self
  obtain ⟨inBefore, isValid⟩ := List.mem_filter.mp read
  refine ⟨?_, of_decide_eq_true isValid⟩
  rw [split]
  exact List.mem_append_left _ inBefore

theorem Invariant.skt_read (invariant : s.Invariant codec p input)
    (serializes : Serializes codec input) (below : p.DrawsBelow draws) {payload : Bytes}
    {rest : List Bytes} (waiting : s.pipe = payload :: rest)
    (named : s.controller.Names draws (codec.ParseFromArray payload).src_ip) :
    ∃ next, s.skt_read codec draws = .ok next ∧ next.Invariant codec p input := by
  obtain ⟨member, valid⟩ := invariant.read_valid waiting
  have begun := invariant.begun (by rw [waiting]; exact List.cons_ne_nil _ _)
  obtain ⟨before, taken, split, passed, distributes⟩ := invariant.posted
  rw [waiting, List.map_cons] at passed
  obtain ⟨after_read, written, ran, sameFilter, sameCount, after⟩ :=
    distributes.skt_message begun (below.of_same invariant.same_filter invariant.same_count) rfl
      valid (serializes _ member valid).2 named
  have reached : s.skt_read codec draws =
      .ok { s with
            pipe := rest
            controller := { s.controller with postman := after_read }
            links := sendAll written s.links } := by
    unfold Distributed.skt_read
    simp only [waiting, ran]
  refine ⟨_, reached, ?_⟩
  exact
    { same_filter := sameFilter.trans invariant.same_filter
      same_count := sameCount.trans invariant.same_count
      begun := fun _more => after.begun (Option.some_ne_none _)
      managed := invariant.managed
      posted := by
        refine ⟨before, taken ++ [codec.ParseFromArray payload], split, ?_, ?_⟩
        · rw [passed, List.append_assoc, List.singleton_append]
        · rw [announcement_append_valid taken valid, normals_append, normals_valid valid]
          simp only [sent_sendAll, List.map_append]
          exact after
      hosted := invariant.hosted
      absent := invariant.absent }

/-- The postman takes the front of the pipe, unless the draw names no client. -/
theorem Invariant.skt_read_cases (invariant : s.Invariant codec p input)
    (serializes : Serializes codec input) (below : p.DrawsBelow draws) (some_frame : s.pipe ≠ []) :
    (∃ next, s.skt_read codec draws = .ok next ∧ next.Invariant codec p input) ∨
      (∃ msg ∈ input, msg.Valid) ∧ ¬ p.DrawsClients draws ∧
        ∃ fault, s.skt_read codec draws = .error fault := by
  obtain ⟨payload, rest, waiting⟩ := List.exists_cons_of_ne_nil some_frame
  by_cases named : s.controller.Names draws (codec.ParseFromArray payload).src_ip
  · exact Or.inl (invariant.skt_read serializes below waiting named)
  · obtain ⟨member, valid⟩ := invariant.read_valid waiting
    refine Or.inr ⟨⟨_, member, valid⟩, ?_, ?_⟩
    · intro clients
      have drawn := clients.of_same invariant.same_filter invariant.same_count
      exact named (Or.inr (drawn s.controller.postman.mt_generator).1)
    · obtain ⟨fault, stops⟩ := Controller.skt_message_unnamed valid named
      refine ⟨fault, ?_⟩
      unfold Distributed.skt_read
      simp only [waiting, stops]

theorem Invariant.first_frame (invariant : s.Invariant codec p input) {bev : Ptr}
    {payload : Bytes} {rest : List Bytes} (unreceived : (s.links bev).received = [])
    (waiting : (s.links bev).inFlight = payload :: rest) :
    (codec.ParseFromArray payload).sync_time = true := by
  obtain ⟨_before, taken, _split, _passed, distributes⟩ := invariant.posted
  have sent : (s.links bev).sent.map codec.ParseFromArray =
      codec.ParseFromArray payload :: rest.map codec.ParseFromArray := by
    rw [Channel.sent, unreceived, waiting, List.nil_append, List.map_cons]
  rcases distributes.shared.each bev with ⟨empty, _nothing⟩ | ⟨first, announced, whole⟩
  · rw [sent] at empty
    cases empty
  · rw [sent] at whole
    rw [(List.cons.inj whole).1]
    obtain ⟨head, _found, marked⟩ := Option.map_eq_some_iff.mp announced
    rw [← marked]
    rfl

theorem Invariant.com_read (invariant : s.Invariant codec p input) {bev : Ptr}
    (connected : bev ∈ s.managers) (some_frame : (s.links bev).inFlight ≠ []) :
    ∃ next, s.com_read codec rand bev = .ok next ∧ next.Invariant codec p input := by
  obtain ⟨before, taken, split, passed, distributes⟩ := invariant.posted
  obtain ⟨manager, found⟩ := mem_iff_lookup.mp connected
  obtain ⟨payload, rest, waiting⟩ := List.exists_cons_of_ne_nil some_frame
  obtain ⟨announced, heard, received, hosts⟩ := invariant.hosted bev manager found
  have received' := received_receiveAt waiting
  have handled : ∃ m sent, manager.com_message codec (rand bev) payload = .ok (m, sent) ∧
      ∃ announced' heard',
        (receiveAt bev s.links bev).received.map codec.ParseFromArray =
          announced'.toList ++ heard' ∧
        m.Distributes announced' heard' (fun fd =>
          (s.wires (bev, fd)).sent.map codec.ParseFromArray ++
            (addressed fd sent).map codec.ParseFromArray) := by
    rw [received', List.map_append, received, List.map_cons, List.map_nil]
    cases announced with
    | none =>
        -- Nothing was received yet, so this frame is the announcement.
        obtain rfl := hosts.shared.silent rfl
        have sync := invariant.first_frame (List.map_eq_nil_iff.mp received) waiting
        obtain ⟨m, sent, ran, _same, after⟩ := hosts.com_message_first codec (rand bev) rfl sync
        exact ⟨m, sent, ran, some (codec.ParseFromArray payload), [], rfl, after⟩
    | some first =>
        obtain ⟨m, sent, ran, _same, after⟩ :=
          hosts.com_message_later codec (rand bev) payload
        exact ⟨m, sent, ran, some first, heard ++ [codec.ParseFromArray payload],
          List.append_assoc _ _ _, after⟩
  obtain ⟨m, sent, ran, announced', heard', nowReceived, after⟩ := handled
  have reached : s.com_read codec rand bev =
      .ok { s with
            managers := s.managers.insert bev m
            links := receiveAt bev s.links
            wires := sendAll (sent.map (fun write => ((bev, write.1), write.2))) s.wires } := by
    unfold Distributed.com_read
    simp only [found, waiting, ran]
  refine ⟨_, reached, ?_⟩
  exact
    { same_filter := invariant.same_filter
      same_count := invariant.same_count
      begun := invariant.begun
      managed := by
        intro other
        simp only [AList.mem_insert]
        rw [← invariant.managed other]
        apply or_iff_right_of_imp
        intro same
        rw [same]
        exact connected
      posted := by
        simp only [sent_receiveAt]
        exact ⟨before, taken, split, passed, distributes⟩
      hosted := by
        intro other client stored
        simp only [lookup_insert_eq] at stored
        simp only [sent_sendAll, addressed_at, List.map_append]
        -- The writes go to the workers of this manager only.
        by_cases same : other = bev
        · subst same
          rw [if_pos rfl] at stored
          obtain rfl := Option.some.inj stored
          simp only [if_pos]
          exact ⟨announced', heard', nowReceived, after⟩
        · rw [if_neg same] at stored
          simp only [if_neg same, List.map_nil, List.append_nil, receiveAt_of_ne same]
          exact invariant.hosted other client stored
      absent := by
        intro other missing fd
        simp only [AList.mem_insert, not_or] at missing
        simp only [sent_sendAll, addressed_at, if_neg missing.1, List.append_nil]
        exact invariant.absent other missing.2 fd }

theorem Invariant.worker_read (invariant : s.Invariant codec p input) (worker : Worker) :
    Invariant codec p input { s with wires := receiveAt worker s.wires } :=
  { invariant with
    hosted := by
      simp only [sent_receiveAt]
      exact invariant.hosted
    absent := by
      simp only [sent_receiveAt]
      exact invariant.absent }

theorem Invariant.step (invariant : s.Invariant codec p input)
    (serializes : Serializes codec input) (below : p.DrawsBelow draws) {event : Event}
    (admitted : s.admits event) :
    (∃ next, s.step codec draws rand event = .ok next ∧ next.Invariant codec p input) ∨
      (∃ msg ∈ input, msg.Valid) ∧ ¬ p.DrawsClients draws ∧
        ∃ fault, s.step codec draws rand event = .error fault := by
  cases event with
  | connect fd bev workers =>
      obtain ⟨closed, live, fresh, forked⟩ := admitted
      exact Or.inl ⟨_, rfl, invariant.connect closed live fresh forked⟩
  | read_input => exact Or.inl (invariant.read_input serializes admitted.1 admitted.2)
  | skt_read => exact invariant.skt_read_cases serializes below admitted
  | com_read bev => exact Or.inl (invariant.com_read admitted.1 admitted.2)
  | worker_read worker => exact Or.inl ⟨_, rfl, invariant.worker_read worker⟩

theorem run_invariant_of_below (serializes : Serializes codec input)
    (initial : Controller.Initial { postman := p }) (below : p.DrawsBelow draws)
    {events : List Event} (run : Run codec draws rand (start input p) events s) :
    s.Invariant codec p input := by
  apply run.invariant _ (start_invariant initial)
  intro state event next invariant admitted stepped
  rcases invariant.step serializes below admitted with ⟨other, ran, kept⟩ | ⟨_, _, fault, stops⟩
  · rw [← Except.ok.inj (ran.symm.trans stepped)]
    exact kept
  · rw [stops] at stepped
    cases stepped

theorem run_invariant (serializes : Serializes codec input) {files : Files}
    {listen_ip : Bytes} {listen_port n : Int} {f : Filter}
    (made : Postman.new files listen_ip listen_port n f = .ok p) (size : n < 2 ^ 31)
    (set : f.GetNumClients ≠ 0 → f.GetFilterInput ≠ []) (inRange : p.DrawsInRange draws)
    {events : List Event} (run : Run codec draws rand (start input p) events s) :
    s.Invariant codec p input :=
  run_invariant_of_below serializes ⟨rfl, files, listen_ip, listen_port, n, f, made⟩
    (Postman.new_drawsBelow made size set inRange) run

/-! ### The law of the replay -/

theorem worker_of_eq_some {src_ip : Bytes} {bev : Ptr} {fd : Fd} :
    s.worker_of src_ip = some (bev, fd) ↔
      s.controller.client_of src_ip = some bev ∧
        ∃ m, s.managers.lookup bev = some m ∧ m.worker_of src_ip = some fd := by
  rw [worker_of, through_eq_some, worker_at, Option.bind_eq_some_iff]

theorem Invariant.client_managed (invariant : s.Invariant codec p input) {src_ip : Bytes}
    {bev : Ptr} (chosen : s.controller.client_of src_ip = some bev) :
    ∃ m, s.managers.lookup bev = some m := by
  obtain ⟨fd, _mapped, isOpen⟩ := Option.bind_eq_some_iff.mp chosen
  exact mem_iff_lookup.mp ((invariant.managed bev).mpr ⟨fd, isOpen⟩)

theorem share_worker_of {bev : Ptr} {m : Manager} (found : s.managers.lookup bev = some m)
    (fd : Fd) (messages : List DNSMsg) :
    share DNSMsg.src_ip s.worker_of (bev, fd) messages =
      share DNSMsg.src_ip m.worker_of fd
        (share DNSMsg.src_ip s.controller.client_of bev messages) := by
  have here : s.worker_at bev = m.worker_of := by
    funext src_ip
    rw [worker_at, found, Option.bind_some]
  rw [worker_of, ← share_share, here]

theorem Invariant.log_absent (invariant : s.Invariant codec p input) {bev : Ptr}
    (absent : bev ∉ s.managers) (fd : Fd) : s.log codec (bev, fd) = [] := by
  have front := (s.wires (bev, fd)).received_front
  rw [invariant.absent bev absent fd, List.prefix_nil] at front
  rw [log, front, List.map_nil]

theorem Invariant.link_received (invariant : s.Invariant codec p input) {bev : Ptr}
    {first : DNSMsg} {heard : List DNSMsg}
    (received : (s.links bev).received.map codec.ParseFromArray = first :: heard) :
    announcement input = some first ∧
      heard <+: share DNSMsg.src_ip s.controller.client_of bev (normals input) := by
  obtain ⟨before, taken, split, passed, distributes⟩ := invariant.posted
  have front : first :: heard <+: (s.links bev).sent.map codec.ParseFromArray := by
    rw [← received]
    exact (s.links bev).received_front.map _
  rcases distributes.shared.received front with
    impossible | ⟨sync, rest, announced, same, isFront⟩
  · cases impossible
  · obtain ⟨rfl, rfl⟩ := List.cons.inj same
    constructor
    · rw [split]
      apply announcement_append
      rw [← announcement_filter, passed]
      exact announcement_append announced _
    · apply isFront.trans
      apply share_front
      rw [split, normals_append, ← normals_filter before, passed, normals_append,
        List.append_assoc]
      exact List.prefix_append _ _

theorem Invariant.link_drained (invariant : s.Invariant codec p input)
    (drained : s.Drained) {bev : Ptr} (connected : bev ∈ s.managers) :
    ((s.links bev).received = [] ∧
      share DNSMsg.src_ip s.controller.client_of bev (normals input) = []) ∨
    ∃ sync, announcement input = some sync ∧
      (s.links bev).received.map codec.ParseFromArray =
        sync :: share DNSMsg.src_ip s.controller.client_of bev (normals input) := by
  obtain ⟨before, taken, split, passed, distributes⟩ := invariant.posted
  obtain ⟨exhausted, delivered, arrived, _read⟩ := drained
  rw [exhausted, List.append_nil] at split
  rw [delivered, List.map_nil, List.append_nil] at passed
  have all : normals input = normals taken := by
    rw [split, ← normals_filter before, passed]
  have same : announcement input = announcement taken := by
    rw [split, ← announcement_filter before, passed]
  rw [Channel.received_of_empty (arrived bev connected), all, same]
  rcases distributes.shared.each bev with ⟨empty, nothing⟩ | whole
  · exact Or.inl ⟨List.map_eq_nil_iff.mp empty, nothing⟩
  · exact Or.inr whole

theorem Invariant.replays_in_order (invariant : s.Invariant codec p input)
    (worker : Worker) :
    s.log codec worker = [] ∨ ∃ sync rest, announcement input = some sync ∧
      s.log codec worker = sync :: rest ∧
      rest <+: share DNSMsg.src_ip s.worker_of worker (normals input) := by
  obtain ⟨bev, fd⟩ := worker
  by_cases connected : bev ∈ s.managers
  · obtain ⟨m, found⟩ := mem_iff_lookup.mp connected
    obtain ⟨announced, heard, received, hosts⟩ := invariant.hosted bev m found
    rcases hosts.shared.received ((s.wires (bev, fd)).received_front.map _) with
      nothing | ⟨sync, rest, told, same, isFront⟩
    · exact Or.inl nothing
    · subst told
      obtain ⟨fromInput, onLink⟩ := invariant.link_received received
      refine Or.inr ⟨sync, rest, fromInput, same, ?_⟩
      rw [share_worker_of found]
      exact isFront.trans (share_front onLink fd)
  · exact Or.inl (invariant.log_absent connected fd)

theorem Invariant.replays_routed (invariant : s.Invariant codec p input)
    (drained : s.Drained) {msg : DNSMsg} (member : msg ∈ input) (valid : msg.Valid) :
    ∃ worker, s.worker_of msg.src_ip = some worker := by
  have normal := mem_normals member valid
  have posted : ∃ bev, s.controller.client_of msg.src_ip = some bev := by
    obtain ⟨before, taken, split, passed, distributes⟩ := invariant.posted
    rw [drained.1, List.append_nil] at split
    rw [drained.2.1, List.map_nil, List.append_nil] at passed
    rw [split, ← normals_filter before, passed] at normal
    obtain ⟨bev, chosen⟩ := distributes.shared.routed _ normal
    exact ⟨bev, chosen⟩
  obtain ⟨bev, chosen⟩ := posted
  obtain ⟨m, found⟩ := invariant.client_managed chosen
  -- The message is in the share of that manager, which has received all of it.
  have shared : msg.set_sync_time false ∈
      share DNSMsg.src_ip s.controller.client_of bev (normals input) :=
    mem_share.mpr ⟨normal, chosen⟩
  obtain ⟨announced, heard, received, hosts⟩ := invariant.hosted bev m found
  have inHeard : msg.set_sync_time false ∈ heard := by
    rcases invariant.link_drained drained (mem_iff_lookup.mpr ⟨m, found⟩) with
      ⟨_unreceived, nothing⟩ | ⟨sync, _announced, whole⟩
    · rw [nothing] at shared
      cases shared
    · rw [whole] at received
      cases announced with
      | none =>
          rw [hosts.shared.silent rfl] at received
          cases received
      | some first =>
          rw [Option.toList_some, List.singleton_append] at received
          rw [← (List.cons.inj received).2]
          exact shared
  obtain ⟨fd, mapped⟩ := hosts.shared.routed _ inHeard
  rw [DNSMsg.src_ip_set_sync_time] at mapped
  exact ⟨(bev, fd), worker_of_eq_some.mpr ⟨chosen, m, found, mapped⟩⟩

theorem Invariant.replays_whole (invariant : s.Invariant codec p input)
    (drained : s.Drained) (worker : Worker) :
    (s.log codec worker = [] ∧
      share DNSMsg.src_ip s.worker_of worker (normals input) = []) ∨
    ∃ sync, announcement input = some sync ∧
      s.log codec worker = sync :: share DNSMsg.src_ip s.worker_of worker (normals input) := by
  obtain ⟨bev, fd⟩ := worker
  by_cases connected : bev ∈ s.managers
  · obtain ⟨m, found⟩ := mem_iff_lookup.mp connected
    obtain ⟨announced, heard, received, hosts⟩ := invariant.hosted bev m found
    have all : s.log codec (bev, fd) =
        (s.wires (bev, fd)).sent.map codec.ParseFromArray := by
      by_cases member : fd ∈ m.client_fd
      · rw [log, Channel.received_of_empty
          (drained.2.2.2 _ (mem_workers.mpr ⟨m, found, member⟩))]
      · have front := (s.wires (bev, fd)).received_front.map codec.ParseFromArray
        rw [hosts.quiet fd member, List.prefix_nil] at front
        rw [log, front, hosts.quiet fd member]
    rw [share_worker_of found, all]
    rcases invariant.link_drained drained connected with
      ⟨unreceived, nothing⟩ | ⟨sync, fromInput, whole⟩
    · rw [unreceived, List.map_nil] at received
      have unannounced := (List.append_eq_nil_iff.mp received.symm).1
      rw [Option.toList_eq_nil_iff] at unannounced
      subst unannounced
      rw [nothing]
      exact Or.inl ⟨hosts.shared.handed_nil fd, rfl⟩
    · rw [whole] at received
      cases announced with
      | none =>
          rw [hosts.shared.silent rfl] at received
          cases received
      | some first =>
          rw [Option.toList_some, List.singleton_append] at received
          obtain ⟨rfl, same⟩ := List.cons.inj received
          rw [same, fromInput]
          exact hosts.shared.each fd
  · refine Or.inl ⟨invariant.log_absent connected fd, ?_⟩
    apply List.eq_nil_iff_forall_not_mem.mpr
    intro msg member
    obtain ⟨_chosen, m, found, _mapped⟩ := worker_of_eq_some.mp (mem_share.mp member).2
    exact connected (mem_iff_lookup.mpr ⟨m, found⟩)

theorem Invariant.replays (invariant : s.Invariant codec p input) :
    Replays input (fun worker => worker ∈ s.workers) s.Drained s.worker_of (s.log codec) where
  to_workers := by
    intro src_ip worker routed
    obtain ⟨bev, fd⟩ := worker
    obtain ⟨_chosen, m, found, mapped⟩ := worker_of_eq_some.mp routed
    obtain ⟨_announced, _heard, _received, hosts⟩ := invariant.hosted bev m found
    exact mem_workers.mpr ⟨m, found, hosts.ready.mapped _ fd mapped⟩
  in_order := invariant.replays_in_order
  routed := fun drained _ member valid => invariant.replays_routed drained member valid
  whole := invariant.replays_whole

/-- With enough clients connected, a replay that is not drained can go on. -/
theorem Invariant.progress (invariant : s.Invariant codec p input)
    (enough : s.controller.postman.num_clients ≤ s.controller.open_conns.size)
    (more : ¬ s.Drained) : ∃ event, event.Delivers ∧ s.admits event := by
  obtain ⟨_before, _taken, _split, _passed, distributes⟩ := invariant.posted
  have begun : s.controller.postman.start_read_input = true := by
    apply distributes.complete.started.mpr
    rw [← distributes.complete.counted]
    exact enough
  by_contra stuck
  apply more
  refine ⟨?_, ?_, ?_, ?_⟩
  · by_contra some_msg
    exact stuck ⟨.read_input, fun _ _ _ => Event.noConfusion, begun, some_msg⟩
  · by_contra some_frame
    exact stuck ⟨.skt_read, fun _ _ _ => Event.noConfusion, some_frame⟩
  · intro bev connected
    by_contra some_frame
    exact stuck ⟨.com_read bev, fun _ _ _ => Event.noConfusion, connected, some_frame⟩
  · intro worker member
    by_contra some_frame
    exact stuck ⟨.worker_read worker, fun _ _ _ => Event.noConfusion, member, some_frame⟩

def rank (s : Distributed) : Nat ×ₗ Nat ×ₗ Nat ×ₗ Nat :=
  toLex (s.input.length, toLex (s.pipe.length,
    toLex (waiting s.managers.keys.toFinset s.links, waiting s.workers.toFinset s.wires)))

theorem terminates (codec : Codec) (draws : Nat → Nat) (rand : Ptr → Nat → Nat) :
    WellFounded (Runs.Leads (step codec draws rand) admits Event.Delivers) := by
  apply Runs.leads_wellFounded rank
  intro s event next delivers admitted stepped
  cases event with
  | connect fd bev workers => exact absurd rfl (delivers fd bev workers)
  | read_input =>
      obtain ⟨msg, rest, waiting⟩ := List.exists_cons_of_ne_nil admitted.2
      simp only [step, read_input, waiting] at stepped
      split at stepped
      · cases stepped
      · rw [← Except.ok.inj stepped]
        apply Prod.Lex.toLex_lt_toLex.mpr
        apply Or.inl
        rw [waiting, List.length_cons]
        exact Nat.lt_succ_self _
  | skt_read =>
      obtain ⟨payload, rest, waiting⟩ := List.exists_cons_of_ne_nil admitted
      simp only [step, skt_read, waiting] at stepped
      split at stepped
      · cases stepped
      · rw [← Except.ok.inj stepped]
        apply Prod.Lex.toLex_lt_toLex.mpr
        refine Or.inr ⟨rfl, Prod.Lex.toLex_lt_toLex.mpr (Or.inl ?_)⟩
        rw [waiting, List.length_cons]
        exact Nat.lt_succ_self _
  | com_read bev =>
      obtain ⟨connected, some_frame⟩ := admitted
      obtain ⟨manager, found⟩ := mem_iff_lookup.mp connected
      obtain ⟨payload, rest, waiting⟩ := List.exists_cons_of_ne_nil some_frame
      simp only [step, com_read, found, waiting] at stepped
      split at stepped
      · cases stepped
      next m sent ran =>
        rw [← Except.ok.inj stepped]
        apply Prod.Lex.toLex_lt_toLex.mpr
        refine Or.inr ⟨rfl, Prod.Lex.toLex_lt_toLex.mpr (Or.inr ⟨rfl, ?_⟩)⟩
        apply Prod.Lex.toLex_lt_toLex.mpr
        apply Or.inl
        -- The manager is replaced under its own key.
        have sameKeys : (s.managers.insert bev m).keys.toFinset = s.managers.keys.toFinset := by
          ext other
          rw [List.mem_toFinset, List.mem_toFinset, ← AList.mem_keys, ← AList.mem_keys,
            AList.mem_insert]
          apply or_iff_right_of_imp
          intro same
          rw [same]
          exact connected
        rw [sameKeys]
        exact waiting_receiveAt (List.mem_toFinset.mpr (AList.mem_keys.mp connected)) some_frame
  | worker_read worker =>
      rw [← Except.ok.inj stepped]
      apply Prod.Lex.toLex_lt_toLex.mpr
      refine Or.inr ⟨rfl, Prod.Lex.toLex_lt_toLex.mpr (Or.inr ⟨rfl, ?_⟩)⟩
      apply Prod.Lex.toLex_lt_toLex.mpr
      exact Or.inr ⟨rfl, waiting_receiveAt (List.mem_toFinset.mpr admitted.1) admitted.2⟩

/-! ### A draw that names no client -/

private theorem exists_connected (initial : Controller.Initial { postman := p }) (count : Nat) :
    ∃ events s, Run codec draws rand (start input p) events s ∧ s.input = input ∧ s.pipe = [] ∧
      s.controller.postman.client_fds.length = count ∧
      s.controller.postman.client_src2fd = ∅ := by
  induction count with
  | zero =>
      obtain ⟨_none_open, files, listen_ip, listen_port, n, f, made⟩ := initial
      obtain ⟨_bevs, owners, _lists, fds, _waiting, _unsynced, _some⟩ := Postman.new_members made
      exact ⟨[], _, .done _, rfl, rfl, congrArg List.length fds, owners⟩
  | succ count ih =>
      obtain ⟨events, s, run, unread, empty, length, unmapped⟩ := ih
      obtain ⟨fd, closed⟩ :=
        Infinite.exists_notMem_finset s.controller.open_conns.keys.toFinset
      obtain ⟨bev, fresh⟩ :=
        Infinite.exists_notMem_finset (insert NULL s.managers.keys.toFinset)
      rw [Finset.mem_insert, not_or] at fresh
      have admitted : s.admits (.connect fd bev [0]) := by
        refine ⟨?_, fresh.1, ?_, by decide⟩
        · exact fun open_conn => closed (List.mem_toFinset.mpr (AList.mem_keys.mp open_conn))
        · exact fun managed => fresh.2 (List.mem_toFinset.mpr (AList.mem_keys.mp managed))
      obtain ⟨fds, _count, _filter, _flag, _start⟩ :=
        Controller.accept_conn_cb_members fd bev s.controller.postman
      obtain ⟨_bevs, _lists, owners⟩ :=
        Controller.accept_conn_cb_tables fd bev s.controller.postman
      refine ⟨events ++ [.connect fd bev [0]], s.connect fd bev [0],
        run.append (.single admitted rfl), unread, empty, ?_, owners.trans unmapped⟩
      change (s.controller.postman.accept_conn_cb fd bev).client_fds.length = _
      rw [fds, List.length_append, length]
      rfl

private theorem exists_read (serializes : Serializes codec input) {before rest : List DNSMsg}
    {msg : DNSMsg}
    (dropped : ∀ other ∈ before, ¬ other.Valid) (valid : msg.Valid) (member : msg ∈ input)
    (s : Distributed) (begun : s.controller.postman.start_read_input = true)
    (unread : s.input = before ++ msg :: rest) (empty : s.pipe = []) :
    ∃ events next msg_str, Run codec draws rand s events next ∧ next.pipe = [msg_str] ∧
      codec.ParseFromArray msg_str = msg ∧ next.controller = s.controller := by
  induction before generalizing s with
  | nil =>
      obtain ⟨msg_str, serialized, parsed⟩ :=
        (serializes msg member valid).1.serialize "serialize message fails"
      have stepped : s.step codec draws rand .read_input =
          .ok { s with input := rest, pipe := [msg_str] } := by
        simp only [Distributed.step, Distributed.read_input, unread, List.nil_append,
          Reader.read_message, if_neg valid, serialized, empty]
      have admitted : s.admits .read_input := ⟨begun, by rw [unread]; exact List.cons_ne_nil _ _⟩
      exact ⟨_, _, msg_str, .single admitted stepped, rfl, parsed, rfl⟩
  | cons other later ih =>
      have skipped := not_not.mp (dropped other List.mem_cons_self)
      have stepped : s.step codec draws rand .read_input =
          .ok { s with input := later ++ msg :: rest } := by
        simp only [Distributed.step, Distributed.read_input, unread, List.cons_append,
          Reader.read_message, if_pos skipped, List.append_nil]
      have admitted : s.admits .read_input := ⟨begun, by rw [unread]; exact List.cons_ne_nil _ _⟩
      obtain ⟨events, next, msg_str, run, piped, parsed, same⟩ :=
        ih (fun one listed => dropped one (List.mem_cons_of_mem other listed))
          { s with input := later ++ msg :: rest } begun rfl empty
      exact ⟨_, next, msg_str, .next admitted stepped run, piped, parsed, same⟩

/-- Where the draws name no client, the first message that is not dropped ends the
postman. -/
theorem exists_fault (rand : Ptr → Nat → Nat) (serializes : Serializes codec input)
    (initial : Controller.Initial { postman := p }) (below : p.DrawsBelow draws)
    (unnamed : ∀ count, p.client_idx (draws count) < 0)
    (some_msg : ∃ msg ∈ input, msg.Valid) :
    ∃ events s fault, Run codec draws rand (start input p) events s ∧ s.admits .skt_read ∧
      s.step codec draws rand .skt_read = .error fault := by
  obtain ⟨connects, s, connected, unread, empty, length, unmapped⟩ :=
    exists_connected initial p.num_clients
  have begun : s.controller.postman.start_read_input = true := by
    have invariant := run_invariant_of_below serializes initial below connected
    obtain ⟨_before, _taken, _split, _passed, distributes⟩ := invariant.posted
    rw [distributes.complete.started, invariant.same_count, length]
  have first : ∃ before msg rest, input = before ++ msg :: rest ∧ msg.Valid ∧
      ∀ other ∈ before, ¬ other.Valid := by
    obtain ⟨msg, member, valid⟩ := some_msg
    cases found : input.find? (fun msg => msg.Valid) with
    | none =>
        have missing := List.find?_eq_none.mp found msg member
        exact absurd (decide_eq_true valid) missing
    | some msg =>
        obtain ⟨isValid, before, rest, split, dropped⟩ := List.find?_eq_some_iff_append.mp found
        refine ⟨before, msg, rest, split, of_decide_eq_true isValid, ?_⟩
        intro other listed holds
        have skipped := dropped other listed
        rw [decide_eq_true holds] at skipped
        cases skipped
  obtain ⟨before, msg, rest, split, valid, dropped⟩ := first
  have member : msg ∈ input := by
    rw [split]
    exact List.mem_append_right _ List.mem_cons_self
  obtain ⟨reads, next, msg_str, read, piped, parsed, same⟩ :=
    exists_read serializes dropped valid member s begun (unread.trans split) empty
  have run := connected.append read
  have invariant := run_invariant_of_below serializes initial below run
  have none_named : ¬ next.controller.Names draws (codec.ParseFromArray msg_str).src_ip := by
    intro named
    rcases named with mapped | nonneg
    · rw [same, unmapped] at mapped
      exact AList.notMem_empty _ mapped
    · have drawn := unnamed next.controller.postman.mt_generator
      unfold Postman.client_idx at nonneg drawn
      rw [invariant.same_filter] at nonneg
      omega
  obtain ⟨fault, stops⟩ :=
    Controller.skt_message_unnamed (by rw [parsed]; exact valid) none_named
  refine ⟨_, next, fault, run, by rw [Distributed.admits, piped]; exact List.cons_ne_nil _ _, ?_⟩
  simp only [Distributed.step, Distributed.skt_read, piped, stops]

end Distributed

/-! ### Both modes -/

open Replay

/-- An input that survives serialisation is replayed, from a file or over the network,
and over the network exactly if the shares of the clients leave no slot of the filter
over, which needs a text that was read over the numbers of a file: no step faults, a replay
that is not drained can go on, deliveries end, and every worker has received its share in
order behind one announcement. -/
theorem input_replayed_iff {codec : Codec} {input : List DNSMsg}
    (serializes : Serializes codec input) :
    (∀ workers draws, Forked workers →
      ∀ events s, Local.Run codec draws (Local.start input workers) events s →
        (∀ event, s.admits event → ∃ next, s.step codec draws event = .ok next) ∧
        (¬ s.Drained → ∃ event, s.admits event) ∧
        Replays input (fun fd => fd ∈ workers) s.Drained s.manager.worker_of (s.log codec)) ∧
    (∀ draws, WellFounded (Runs.Leads (Local.step codec draws) Local.admits (fun _ => True))) ∧
    (∀ files listen_ip listen_port n f p,
      Postman.new files listen_ip listen_port n f = .ok p → n < 2 ^ 31 →
      (f.GetNumClients ≠ 0 → f.GetFilterInput ≠ []) →
      ((∀ draws rand, p.DrawsInRange draws →
        ∀ events s, Distributed.Run codec draws rand (Distributed.start input p) events s →
          (∀ event, s.admits event → ∃ next, s.step codec draws rand event = .ok next) ∧
          (s.controller.postman.num_clients ≤ s.controller.open_conns.size → ¬ s.Drained →
            ∃ event, event.Delivers ∧ s.admits event) ∧
          Replays input (fun worker => worker ∈ s.workers) s.Drained s.worker_of (s.log codec)) ↔
        (∀ msg ∈ input, ¬ msg.Valid) ∨ f.GetNumClients = 0 ∨
          Filter.Covers p.client_filter.weight) ∧
      (f.GetNumClients ≠ 0 → Filter.left_behind files f.GetFilterInput n.toNat = [] →
        Filter.Covers p.client_filter.weight)) ∧
    (∀ draws rand, WellFounded
      (Runs.Leads (Distributed.step codec draws rand) Distributed.admits
        Distributed.Event.Delivers)) := by
  refine ⟨?_, Local.terminates codec, ?_, Distributed.terminates codec⟩
  · intro workers draws forked events s run
    have invariant := Local.run_invariant serializes forked run
    refine ⟨?_, Local.progress, invariant.replays⟩
    intro event admitted
    obtain ⟨next, stepped, _after⟩ := invariant.step serializes admitted
    exact ⟨next, stepped⟩
  · intro files listen_ip listen_port n f p made size set
    have clients := Postman.new_drawsClients_iff made size set
    refine ⟨?_, Postman.new_covers made set⟩
    constructor
    · intro replayed
      by_contra uncovered
      rw [not_or, not_or] at uncovered
      obtain ⟨some_msg, some_client, left_over⟩ := uncovered
      push Not at some_msg
      have unnamed : ∃ draws count, p.DrawsInRange draws ∧ p.client_idx (draws count) < 0 := by
        by_contra none
        push Not at none
        apply left_over
        apply clients.mp _ some_client
        intro draws inRange count
        exact ⟨none draws count inRange, Postman.new_drawsBelow made size set inRange count⟩
      -- the slot that is left over is drawn every time
      obtain ⟨draws, count, inRange, unnamed⟩ := unnamed
      have again : p.DrawsInRange (fun _ => draws count) := fun _ => inRange count
      obtain ⟨events, s, fault, run, admitted, stops⟩ := Distributed.exists_fault
        (fun _ _ => 0) serializes ⟨rfl, files, listen_ip, listen_port, n, f, made⟩
        (Postman.new_drawsBelow made size set again) (fun _ => unnamed) some_msg
      obtain ⟨next, stepped⟩ := (replayed _ _ again events s run).1 .skt_read admitted
      rw [stops] at stepped
      cases stepped
    · intro condition draws rand inRange events s run
      have invariant := Distributed.run_invariant serializes made size set inRange run
      refine ⟨?_, invariant.progress, invariant.replays⟩
      intro event admitted
      have below := Postman.new_drawsBelow made size set inRange
      rcases invariant.step serializes below admitted with
        ⟨next, stepped, _⟩ | ⟨⟨msg, member, valid⟩, unnamed, _⟩
      · exact ⟨next, stepped⟩
      · exfalso
        rcases condition with dropped | unset | covers
        · exact dropped msg member valid
        · exact unnamed (clients.mpr (fun some_client => absurd unset some_client) draws inRange)
        · exact unnamed (clients.mpr (fun _ => covers) draws inRange)

namespace Replay

def sample (seconds : UInt8) (mark : Option Bool) : DNSMsg :=
  { seconds? := some seconds.toNat
    microseconds? := some 0
    tcp? := some false
    ipv4? := some true
    src_ip? := some (ascii "10.0.0.1")
    raw? := some [7]
    sync_time? := mark }

/-- The text of a sample of less than 128 seconds. -/
def sample_text (seconds : UInt8) (mark : Option Bool) : Bytes :=
  let before : Bytes := [8, seconds, 16, 0, 24, 0, 32, 1, 50, 8]
  let after : Bytes := [66, 1, 7]
  before ++ ascii "10.0.0.1" ++ after ++
    match mark with
    | none => []
    | some false => [72, 0]
    | some true => [72, 1]

def sample_codec : Codec where
  SerializeToString msg :=
    let seconds := UInt8.ofNat msg.seconds.toNat
    [none, some false, some true].findSome? (fun mark =>
      if seconds < 128 ∧ msg = sample seconds mark then some (sample_text seconds mark) else none)
  ParseFromArray text :=
    let seconds := text.getD 1 0
    ([none, some false, some true].findSome? (fun mark =>
      if seconds < 128 ∧ text = sample_text seconds mark then some (sample seconds mark)
      else none)).getD {}

theorem sample_serializes {input : List DNSMsg}
    (samples : ∀ msg ∈ input, ∃ seconds : UInt8, seconds < 128 ∧ msg = sample seconds none) :
    Serializes sample_codec input := by
  have inverts : ∀ seconds : UInt8, seconds < 128 → ∀ mark,
      sample_codec.Inverts (sample seconds mark) := by
    intro seconds small mark
    have written : UInt8.ofNat (sample seconds mark).seconds.toNat = seconds := by
      change UInt8.ofNat seconds.toNat = seconds
      exact UInt8.ofNat_toNat
    have read : (sample_text seconds mark).getD 1 0 = seconds := rfl
    refine ⟨sample_text seconds mark, List.cons_ne_nil _ _, ?_, ?_⟩
    · simp only [sample_codec, written]
      rcases mark with _ | _ | _ <;> simp [small, sample]
    · simp only [sample_codec, read]
      rcases mark with _ | _ | _ <;> simp [small, sample_text]
  intro msg member _valid
  obtain ⟨seconds, small, rfl⟩ := samples msg member
  exact ⟨inverts seconds small none, fun value => inverts seconds small (some value)⟩

end Replay

/-- Two queries of one source, for two managers with two workers each: the second
manager is drawn, and there the second worker. -/
theorem input_replayed_iff_two_workers :
    ∃ p events s, Postman.new (fun _ => none) (ascii "127.0.0.1") 10053 2 {} = .ok p ∧
      Distributed.Run sample_codec (fun _ => 1) (fun _ _ => 1)
        (Distributed.start [sample 1 none, sample 2 none] p) events s ∧
      s.Drained ∧
      s.log sample_codec (200, 8) =
        [sample 1 (some true), sample 1 (some false), sample 2 (some false)] ∧
      s.log sample_codec (200, 7) = [sample 1 (some true)] ∧
      Replays [sample 1 none, sample 2 none] (fun worker => worker ∈ s.workers) s.Drained
        s.worker_of (s.log sample_codec) := by
  have run : ∃ s, Distributed.Run sample_codec (fun _ => 1) (fun _ _ => 1)
      (Distributed.start [sample 1 none, sample 2 none]
        { num_clients := 2, client_filter := {} })
      [.connect 5 100 [7, 8], .connect 6 200 [7, 8], .read_input, .skt_read, .read_input,
        .com_read 200, .com_read 100, .worker_read (200, 8), .skt_read, .com_read 200,
        .com_read 200, .worker_read (200, 8), .worker_read (200, 7), .worker_read (100, 7),
        .worker_read (100, 8), .worker_read (200, 8)] s ∧ s.Drained ∧
      s.log sample_codec (200, 8) =
        [sample 1 (some true), sample 1 (some false), sample 2 (some false)] ∧
      s.log sample_codec (200, 7) = [sample 1 (some true)] :=
    ⟨_, .next (by decide) rfl (.next (by decide) rfl (.next (by decide) rfl
      (.next (by decide) rfl (.next (by decide) rfl (.next (by decide) rfl
        (.next (by decide) rfl (.next (by decide) rfl (.next (by decide) rfl
          (.next (by decide) rfl (.next (by decide) rfl (.next (by decide) rfl
            (.next (by decide) rfl (.next (by decide) rfl (.next (by decide) rfl
              (.next (by decide) rfl (.done _)))))))))))))))), by decide, by decide, by decide⟩
  obtain ⟨s, ran, drained, second, first⟩ := run
  have samples : ∀ msg ∈ [sample 1 none, sample 2 none],
      ∃ seconds : UInt8, seconds < 128 ∧ msg = sample seconds none :=
    List.forall_mem_cons.mpr ⟨⟨1, by decide, rfl⟩,
      List.forall_mem_singleton.mpr ⟨2, by decide, rfl⟩⟩
  have made : Postman.new (fun _ => none) (ascii "127.0.0.1") 10053 2 {} =
      .ok { num_clients := 2, client_filter := {} } := rfl
  have inRange : Postman.DrawsInRange { num_clients := 2, client_filter := {} } (fun _ => 1) :=
    fun _ => Nat.one_lt_two
  have replayed := ((input_replayed_iff (sample_serializes samples)).2.2.1 _ _ _ _ _ _ made
    (by decide) (fun some_client => absurd rfl some_client)).1.mpr (Or.inr (Or.inl rfl))
    (fun _ => 1) (fun _ _ => 1) inRange _ s ran
  exact ⟨_, _, s, made, ran, drained, second, first, replayed.2.2⟩

def leftover_file : Files := fun name =>
  if name = ascii "60,0" then some [ascii "40", ascii "x"] else none

/-- The weights 60 and 0 are valid, as the file left 40.  The slots from 60 on are
nobody's, and the first message drawn there ends the postman. -/
theorem leftover_filter_exits :
    ∃ p events s, (Filter.Set leftover_file {} (ascii "60,0") 2).Valid = true ∧
      Postman.new leftover_file (ascii "127.0.0.1") 10053 2
        (Filter.Set leftover_file {} (ascii "60,0") 2) = .ok p ∧
      p.DrawsInRange (fun _ => 60) ∧
      Distributed.Run sample_codec (fun _ => 60) (fun _ _ => 0)
        (Distributed.start [sample 1 none] p) events s ∧
      s.admits .skt_read ∧
      s.step sample_codec (fun _ => 60) (fun _ _ => 0) .skt_read =
        .error (.exit "[error] client idx[-1] out of range client_fds.size()=2") := by
  have valid : (Filter.Set leftover_file {} (ascii "60,0") 2).Valid = true := by decide +kernel
  have slot : (60 : Nat) < kFilterTotalWeight := by decide
  have made : Postman.new leftover_file (ascii "127.0.0.1") 10053 2
      (Filter.Set leftover_file {} (ascii "60,0") 2) =
        .ok { num_clients := 2, client_filter := Filter.Set leftover_file {} (ascii "60,0") 2 } :=
    rfl
  have run : ∃ s, Distributed.Run sample_codec (fun _ => 60) (fun _ _ => 0)
      (Distributed.start [sample 1 none]
        { num_clients := 2, client_filter := Filter.Set leftover_file {} (ascii "60,0") 2 })
      [.connect 5 100 [7], .connect 6 200 [7], .read_input] s ∧ s.admits .skt_read ∧
      s.step sample_codec (fun _ => 60) (fun _ _ => 0) .skt_read =
        .error (.exit "[error] client idx[-1] out of range client_fds.size()=2") :=
    ⟨_, .next (by decide) rfl (.next (by decide) rfl (.next (by decide) rfl (.done _))),
      by decide, rfl⟩
  obtain ⟨s, ran, admitted, exits⟩ := run
  exact ⟨_, _, s, valid, made, fun _ => slot, ran, admitted, exits⟩

end LDPlayer
