/-
The replay of a local input: one manager, its workers, and the sockets between.

The first half says what a replay is, for this mode and for the distributed one:
which messages the workers receive, each worker in which order.  The second half
is the system of the local mode.  Frames arrive whole and in order, at any time.
-/
import LDPlayer.Client.Distribution
import LDPlayer.Foundation.Runs

set_option autoImplicit false

namespace LDPlayer

open Sharing

namespace Replay

/-! ### What the workers are to receive -/

def normals (input : List DNSMsg) : List DNSMsg :=
  (input.filter (fun msg => msg.Valid)).map (fun msg => msg.set_sync_time false)

def announcement (input : List DNSMsg) : Option DNSMsg :=
  ((input.filter (fun msg => msg.Valid)).head?).map (fun msg => msg.set_sync_time true)

theorem filter_valid {msg : DNSMsg} (valid : msg.Valid) :
    [msg].filter (fun msg => msg.Valid) = [msg] :=
  List.filter_cons_of_pos (decide_eq_true valid)

theorem filter_dropped {msg : DNSMsg} (dropped : ¬ msg.Valid) :
    [msg].filter (fun msg => msg.Valid) = [] := by
  simp only [List.filter_cons, dropped, decide_false, Bool.false_eq_true, if_false,
    List.filter_nil]

theorem normals_append (first second : List DNSMsg) :
    normals (first ++ second) = normals first ++ normals second := by
  rw [normals, List.filter_append, List.map_append]
  rfl

theorem normals_valid {msg : DNSMsg} (valid : msg.Valid) :
    normals [msg] = [msg.set_sync_time false] := by
  rw [normals, filter_valid valid, List.map_cons, List.map_nil]

private theorem normals_dropped {msg : DNSMsg} (dropped : ¬ msg.Valid) : normals [msg] = [] := by
  rw [normals, filter_dropped dropped, List.map_nil]

theorem normals_filter (messages : List DNSMsg) :
    normals (messages.filter (fun msg => msg.Valid)) = normals messages := by
  rw [normals, List.filter_filter, normals]
  simp only [Bool.and_self]

theorem announcement_filter (messages : List DNSMsg) :
    announcement (messages.filter (fun msg => msg.Valid)) = announcement messages := by
  rw [announcement, List.filter_filter, announcement]
  simp only [Bool.and_self]

theorem mem_normals {input : List DNSMsg} {msg : DNSMsg} (member : msg ∈ input)
    (valid : msg.Valid) : msg.set_sync_time false ∈ normals input :=
  List.mem_map.mpr ⟨msg, List.mem_filter.mpr ⟨member, decide_eq_true valid⟩, rfl⟩

theorem announcement_append_valid (before : List DNSMsg) {msg : DNSMsg} (valid : msg.Valid) :
    announcement (before ++ [msg]) =
      some ((announcement before).getD (msg.set_sync_time true)) := by
  unfold announcement
  rw [List.filter_append, filter_valid valid, List.head?_append]
  cases (before.filter (fun msg => msg.Valid)).head? with
  | none => rfl
  | some first => rfl

private theorem announcement_append_dropped (before : List DNSMsg) {msg : DNSMsg}
    (dropped : ¬ msg.Valid) : announcement (before ++ [msg]) = announcement before := by
  unfold announcement
  rw [List.filter_append, filter_dropped dropped, List.append_nil]

theorem announcement_append {before : List DNSMsg} {sync : DNSMsg}
    (announced : announcement before = some sync) (after : List DNSMsg) :
    announcement (before ++ after) = some sync := by
  unfold announcement at announced ⊢
  obtain ⟨first, found, marked⟩ := Option.map_eq_some_iff.mp announced
  rw [List.filter_append, List.head?_append, found, Option.some_or, Option.map_some, marked]

/-- The replay of an input, as far as it went: every worker has received nothing,
or one announcement and then the front of its share of the messages.  Once the
replay is drained, every message has its worker and every share is whole. -/
structure Replays {Worker : Type} [DecidableEq Worker] (input : List DNSMsg)
    (workers : Worker → Prop) (drained : Prop) (route : Bytes → Option Worker)
    (log : Worker → List DNSMsg) : Prop where
  to_workers : ∀ src_ip worker, route src_ip = some worker → workers worker
  in_order : ∀ worker, log worker = [] ∨ ∃ sync rest, announcement input = some sync ∧
    log worker = sync :: rest ∧ rest <+: share DNSMsg.src_ip route worker (normals input)
  routed : drained → ∀ msg ∈ input, msg.Valid → ∃ worker, route msg.src_ip = some worker
  whole : drained → ∀ worker,
    (log worker = [] ∧ share DNSMsg.src_ip route worker (normals input) = []) ∨
      ∃ sync, announcement input = some sync ∧
        log worker = sync :: share DNSMsg.src_ip route worker (normals input)

/-- What is assumed of the protobuf library: the messages of the input survive it,
whichever way they are marked. -/
def Serializes (codec : Codec) (input : List DNSMsg) : Prop :=
  ∀ msg ∈ input, msg.Valid →
    codec.Inverts msg ∧ ∀ value, codec.Inverts (msg.set_sync_time value)

structure Forked (workers : List Fd) : Prop where
  some_worker : workers ≠ []
  distinct : workers.Nodup
  opened : ∀ fd ∈ workers, 0 ≤ fd

instance (workers : List Fd) : Decidable (Forked workers) :=
  decidable_of_iff (workers ≠ [] ∧ workers.Nodup ∧ ∀ fd ∈ workers, 0 ≤ fd)
    ⟨fun all => ⟨all.1, all.2.1, all.2.2⟩, fun all => ⟨all.1, all.2, all.3⟩⟩

end Replay

/-! ### The system -/

structure Local where
  input : List DNSMsg
  manager : Manager
  wires : Fd → Channel Bytes := fun _ => {}

namespace Local

open Replay

inductive Event where
  | read_input
  | worker_read (fd : Fd)
  deriving DecidableEq, Repr

def start (input : List DNSMsg) (workers : List Fd) : Local :=
  { input := input, manager := Manager.new workers.length workers false }

def step (codec : Codec) (draws : Nat → Nat) (s : Local) (event : Event) : Except Fault Local :=
  match event with
  | .read_input =>
      match s.input with
      | [] => .ok s
      | msg :: rest =>
          match s.manager.read_input_message codec draws msg with
          | .error fault => .error fault
          | .ok (m, sent) =>
              .ok { input := rest, manager := m, wires := sendAll sent s.wires }
  | .worker_read fd => .ok { s with wires := receiveAt fd s.wires }

def admits (s : Local) (event : Event) : Prop :=
  match event with
  | .read_input => s.input ≠ []
  | .worker_read fd => fd ∈ s.manager.client_fd ∧ (s.wires fd).inFlight ≠ []

instance (s : Local) (event : Event) : Decidable (s.admits event) :=
  match event with
  | .read_input => inferInstanceAs (Decidable (s.input ≠ []))
  | .worker_read fd =>
      inferInstanceAs (Decidable (fd ∈ s.manager.client_fd ∧ (s.wires fd).inFlight ≠ []))

abbrev Run (codec : Codec) (draws : Nat → Nat) : Local → List Event → Local → Prop :=
  Runs.Run (step codec draws) admits

def Drained (s : Local) : Prop :=
  s.input = [] ∧ ∀ fd ∈ s.manager.client_fd, (s.wires fd).inFlight = []

instance (s : Local) : Decidable s.Drained :=
  inferInstanceAs (Decidable
    (s.input = [] ∧ ∀ fd ∈ s.manager.client_fd, (s.wires fd).inFlight = []))

def log (codec : Codec) (s : Local) (fd : Fd) : List DNSMsg :=
  (s.wires fd).received.map codec.ParseFromArray

/-! ### The invariant -/

/-- A front of the input was read, and all of it was distributed. -/
structure Invariant (codec : Codec) (input : List DNSMsg) (workers : List Fd) (s : Local) :
    Prop where
  same_workers : s.manager.client_fd = workers
  distributed : ∃ before, input = before ++ s.input ∧
    s.manager.Distributes (announcement before) (normals before)
      (fun fd => (s.wires fd).sent.map codec.ParseFromArray)

variable {codec : Codec} {draws : Nat → Nat} {input : List DNSMsg} {workers : List Fd}

theorem start_invariant (forked : Forked workers) :
    (start input workers).Invariant codec input workers where
  same_workers := rfl
  distributed :=
    ⟨[], rfl, Manager.new_distributes forked.some_worker forked.distinct forked.opened⟩

theorem Invariant.read_input {s : Local} (invariant : s.Invariant codec input workers)
    (serializes : Serializes codec input) (some_msg : s.input ≠ []) :
    ∃ next, s.step codec draws .read_input = .ok next ∧ next.Invariant codec input workers := by
  obtain ⟨before, split, distributes⟩ := invariant.distributed
  obtain ⟨msg, rest, waiting⟩ := List.exists_cons_of_ne_nil some_msg
  have longer : input = (before ++ [msg]) ++ rest := by
    rw [split, waiting, List.append_assoc, List.singleton_append]
  by_cases valid : msg.Valid
  · have member : msg ∈ input := by
      rw [split, waiting]
      exact List.mem_append_right _ List.mem_cons_self
    obtain ⟨m, sent, ran, sameWorkers, after⟩ :=
      distributes.read_input_message draws valid (serializes msg member valid).2
    refine ⟨{ input := rest, manager := m, wires := sendAll sent s.wires }, ?_,
      sameWorkers.trans invariant.same_workers, before ++ [msg], longer, ?_⟩
    · simp only [step, waiting, ran]
    · rw [announcement_append_valid before valid, normals_append, normals_valid valid]
      simp only [sent_sendAll, List.map_append]
      exact after
  · have dropped : s.manager.read_input_message codec draws msg = .ok (s.manager, []) := by
      unfold Manager.read_input_message
      rw [if_pos (not_not.mp valid)]
    refine ⟨{ input := rest, manager := s.manager, wires := sendAll [] s.wires }, ?_,
      invariant.same_workers, before ++ [msg], longer, ?_⟩
    · simp only [step, waiting, dropped]
    · rw [announcement_append_dropped before valid, normals_append, normals_dropped valid,
        List.append_nil]
      simp only [sent_sendAll, addressed, List.filterMap_nil, List.append_nil]
      exact distributes

theorem Invariant.worker_read {s : Local} (invariant : s.Invariant codec input workers)
    (fd : Fd) : Invariant codec input workers { s with wires := receiveAt fd s.wires } where
  same_workers := invariant.same_workers
  distributed := by
    simp only [sent_receiveAt]
    exact invariant.distributed

theorem Invariant.step {s : Local} (invariant : s.Invariant codec input workers)
    (serializes : Serializes codec input) {event : Event} (admitted : s.admits event) :
    ∃ next, s.step codec draws event = .ok next ∧ next.Invariant codec input workers := by
  cases event with
  | read_input => exact invariant.read_input serializes admitted
  | worker_read fd => exact ⟨_, rfl, invariant.worker_read fd⟩

theorem run_invariant (serializes : Serializes codec input) (forked : Forked workers)
    {events : List Event} {s : Local} (run : Run codec draws (start input workers) events s) :
    s.Invariant codec input workers :=
  run.invariant_of_progress
    (fun _ _ invariant admitted => invariant.step serializes admitted)
    (start_invariant forked)

/-! ### The law of the replay -/

private theorem log_front (codec : Codec) (s : Local) (fd : Fd) :
    s.log codec fd <+: (s.wires fd).sent.map codec.ParseFromArray :=
  (s.wires fd).received_front.map _

theorem Invariant.replays {s : Local} (invariant : s.Invariant codec input workers) :
    Replays input (fun fd => fd ∈ workers) s.Drained s.manager.worker_of (s.log codec) := by
  obtain ⟨before, split, distributes⟩ := invariant.distributed
  have front : normals before <+: normals input := by
    rw [split, normals_append]
    exact List.prefix_append _ _
  refine ⟨?_, ?_, ?_, ?_⟩
  · intro src_ip fd found
    rw [← invariant.same_workers]
    exact distributes.ready.mapped _ fd found
  · intro fd
    rcases distributes.shared.received (log_front codec s fd) with
      nothing | ⟨sync, rest, announced, same, isFront⟩
    · exact Or.inl nothing
    · refine Or.inr ⟨sync, rest, ?_, same, isFront.trans (share_front front fd)⟩
      rw [split]
      exact announcement_append announced _
  · intro drained msg member valid
    obtain ⟨exhausted, _empty⟩ := drained
    rw [exhausted, List.append_nil] at split
    subst split
    obtain ⟨fd, found⟩ := distributes.shared.routed _ (mem_normals member valid)
    exact ⟨fd, found⟩
  · intro drained fd
    obtain ⟨exhausted, empty⟩ := drained
    rw [exhausted, List.append_nil] at split
    subst split
    have all : s.log codec fd = (s.wires fd).sent.map codec.ParseFromArray := by
      by_cases member : fd ∈ s.manager.client_fd
      · rw [log, Channel.received_of_empty (empty fd member)]
      · have nothing := log_front codec s fd
        rw [distributes.quiet fd member, List.prefix_nil] at nothing
        rw [nothing]
        exact (distributes.quiet fd member).symm
    rw [all]
    exact distributes.shared.each fd

theorem progress {s : Local} (more : ¬ s.Drained) : ∃ event, s.admits event := by
  by_cases exhausted : s.input = []
  · by_contra stuck
    apply more
    refine ⟨exhausted, ?_⟩
    intro fd member
    by_contra waiting
    exact stuck ⟨.worker_read fd, member, waiting⟩
  · exact ⟨.read_input, exhausted⟩

def rank (s : Local) : Nat ×ₗ Nat :=
  toLex (s.input.length, waiting s.manager.client_fd.toFinset s.wires)

theorem terminates (codec : Codec) (draws : Nat → Nat) :
    WellFounded (Runs.Leads (step codec draws) admits (fun _ => True)) := by
  apply Runs.leads_wellFounded rank
  intro s event next _any admitted stepped
  cases event with
  | read_input =>
      obtain ⟨msg, rest, waiting⟩ := List.exists_cons_of_ne_nil admitted
      simp only [step, waiting] at stepped
      split at stepped
      · cases stepped
      · rw [← Except.ok.inj stepped]
        apply Prod.Lex.toLex_lt_toLex.mpr
        apply Or.inl
        rw [waiting, List.length_cons]
        exact Nat.lt_succ_self _
  | worker_read fd =>
      rw [← Except.ok.inj stepped]
      apply Prod.Lex.toLex_lt_toLex.mpr
      exact Or.inr ⟨rfl, waiting_receiveAt (List.mem_toFinset.mpr admitted.1) admitted.2⟩

end Local

end LDPlayer
