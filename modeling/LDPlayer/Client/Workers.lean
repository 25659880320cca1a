/-
The worker count of the client: option -n of main.cc, the pairs of sockets that
main creates, and the manager that draws among them.

The check of the option looks at characters only.  It accepts zero, a plus alone
and numbers of any length, and `atoi` keeps 32 bits of what it reads.
-/
import LDPlayer.Utility
import LDPlayer.Client.Distribution
import LDPlayer.Foundation.Runs

set_option autoImplicit false

namespace LDPlayer

open Text HashTable Runs

def gt0 (s : Bytes) : Bool := is_number s true

def check_gt0 (s1 : Bytes) (s : String) : Except Fault Unit :=
  if ¬ gt0 s1 then .error (.exit s!"[error] {s} must be > 0, {shown s1} is invalid, abort!")
  else .ok ()

/-- Case 'n' of the options: the argument is a C string, the count an `unsigned int`. -/
def option_n (optarg : Bytes) : Except Fault Nat :=
  match check_gt0 (cString optarg) "number of workers" with
  | .error fault => .error fault
  | .ok () => .ok (atoi (cString optarg) % 2 ^ 32).toNat

/-- The end of each pair of sockets that main keeps for the manager. -/
def client_fd (socketpair : Nat → Fd) (num_clients : Nat) : List Fd :=
  (List.range num_clients).map socketpair

/-- The manager is given the count as an `int`. -/
def start_manager (socketpair : Nat → Fd) (no_map : Bool) (num_clients : Nat) : Manager :=
  Manager.new (Int.bmod num_clients (2 ^ 32)) (client_fd socketpair num_clients) no_map

namespace Manager

inductive Event where
  | com (payload : Bytes)
  | input (msg : DNSMsg)

def step (codec : Codec) (draws : Nat → Nat) (m : Manager) : Event → Except Fault Manager
  | .com payload => (m.com_message codec draws payload).map Prod.fst
  | .input msg => (m.read_input_message codec draws msg).map Prod.fst

/-! ### What no message changes -/

structure Serves (m : Manager) (fds : List Fd) : Prop where
  workers : m.client_fd = fds
  numbered : m.Numbered fds

variable {m next : Manager} {fds : List Fd}

theorem Serves.draw_fd (serves : m.Serves fds) (some_worker : fds ≠ []) {draw : Nat} {fd : Fd}
    (drawn : m.draw_fd draw = .ok (fd, next)) : next.Serves fds := by
  obtain ⟨chosen, _member, same⟩ := serves.numbered.draw_fd some_worker draw
  rw [same] at drawn
  obtain ⟨_, rfl⟩ := Prod.mk.inj (Except.ok.inj drawn)
  exact ⟨serves.workers, ⟨serves.numbered.count, serves.numbered.indexed⟩⟩

theorem Serves.rand_client_fd (serves : m.Serves fds) (some_worker : fds ≠ []) {src_ip : Bytes}
    {draw : Nat} {fd : Fd} (routed : m.rand_client_fd src_ip draw = .ok (fd, next)) :
    next.Serves fds := by
  unfold Manager.rand_client_fd at routed
  by_cases mapping : m.disable_mapping = true
  · rw [if_pos mapping] at routed
    exact serves.draw_fd some_worker routed
  · rw [if_neg mapping] at routed
    cases mapped : m.client_src2fd.lookup (cString src_ip) with
    | some known =>
        simp only [mapped] at routed
        obtain ⟨_, rfl⟩ := Prod.mk.inj (Except.ok.inj routed)
        exact serves
    | none =>
        cases drawn : m.draw_fd draw with
        | error fault => simp only [mapped, drawn, reduceCtorEq] at routed
        | ok both =>
            obtain ⟨chosen, middle⟩ := both
            simp only [mapped, drawn] at routed
            obtain ⟨_, rfl⟩ := Prod.mk.inj (Except.ok.inj routed)
            have kept := serves.draw_fd some_worker drawn
            exact ⟨kept.workers, ⟨kept.numbered.count, kept.numbered.indexed⟩⟩

theorem Serves.send_normal (serves : m.Serves fds) (some_worker : fds ≠ []) {src_ip : Bytes}
    {draws : Nat → Nat} {msg_str : Bytes} {sent : Sent}
    (ran : m.send_normal src_ip draws msg_str = .ok (next, sent)) : next.Serves fds := by
  unfold Manager.send_normal at ran
  cases routed : m.rand_client_fd src_ip (draws m.rand_calls) with
  | error fault => simp only [routed, reduceCtorEq] at ran
  | ok both =>
      obtain ⟨fd, middle⟩ := both
      simp only [routed] at ran
      by_cases none : fd = -1
      · rw [if_pos none] at ran
        cases ran
      · rw [if_neg none] at ran
        obtain ⟨rfl, _⟩ := Prod.mk.inj (Except.ok.inj ran)
        exact serves.rand_client_fd some_worker routed

theorem Serves.synced (serves : m.Serves fds) : Serves { m with done_sync_time := true } fds :=
  ⟨serves.workers, ⟨serves.numbered.count, serves.numbered.indexed⟩⟩

theorem Serves.com_message (serves : m.Serves fds) (some_worker : fds ≠ []) {codec : Codec}
    {draws : Nat → Nat} {payload : Bytes} {sent : Sent}
    (ran : m.com_message codec draws payload = .ok (next, sent)) : next.Serves fds := by
  unfold Manager.com_message at ran
  by_cases first : ¬ m.done_sync_time ∧ (codec.ParseFromArray payload).sync_time = true
  · rw [if_pos first] at ran
    obtain ⟨rfl, _⟩ := Prod.mk.inj (Except.ok.inj ran)
    exact serves.synced
  · rw [if_neg first] at ran
    exact serves.send_normal some_worker ran

theorem Serves.sync_clients (serves : m.Serves fds) {codec : Codec} {msg : DNSMsg} {sent : Sent}
    (ran : m.sync_clients codec msg = .ok (next, sent)) : next.Serves fds := by
  unfold Manager.sync_clients at ran
  by_cases done : m.done_sync_time = true
  · rw [if_pos done] at ran
    obtain ⟨rfl, _⟩ := Prod.mk.inj (Except.ok.inj ran)
    exact serves
  · rw [if_neg done] at ran
    cases written : codec.serialize "serialize message fails" (msg.set_sync_time true) with
    | error fault => simp only [written, reduceCtorEq] at ran
    | ok msg_str =>
        simp only [written] at ran
        obtain ⟨rfl, _⟩ := Prod.mk.inj (Except.ok.inj ran)
        exact serves.synced

theorem Serves.read_input_message (serves : m.Serves fds) (some_worker : fds ≠ []) {codec : Codec}
    {draws : Nat → Nat} {msg : DNSMsg} {sent : Sent}
    (ran : m.read_input_message codec draws msg = .ok (next, sent)) : next.Serves fds := by
  unfold Manager.read_input_message at ran
  by_cases skipped : msg.raw = []
  · rw [if_pos skipped] at ran
    obtain ⟨rfl, _⟩ := Prod.mk.inj (Except.ok.inj ran)
    exact serves
  · rw [if_neg skipped] at ran
    cases announced : m.sync_clients codec msg with
    | error fault => simp only [announced, reduceCtorEq] at ran
    | ok both =>
        obtain ⟨synced, broadcast⟩ := both
        simp only [announced] at ran
        cases written : codec.serialize "serialize message fails" (msg.set_sync_time false) with
        | error fault => simp only [written, reduceCtorEq] at ran
        | ok msg_str =>
            simp only [written] at ran
            cases handed : synced.send_normal msg.src_ip draws msg_str with
            | error fault => simp only [handed, reduceCtorEq] at ran
            | ok last =>
                obtain ⟨routed, one⟩ := last
                simp only [handed] at ran
                obtain ⟨rfl, _⟩ := Prod.mk.inj (Except.ok.inj ran)
                exact (serves.sync_clients announced).send_normal some_worker handed

theorem Serves.step (serves : m.Serves fds) (some_worker : fds ≠ []) {codec : Codec}
    {draws : Nat → Nat} {event : Event} (stepped : m.step codec draws event = .ok next) :
    next.Serves fds := by
  cases event with
  | com payload =>
      obtain ⟨⟨_, sent⟩, ran, rfl⟩ := of_map_eq_ok stepped
      exact serves.com_message some_worker ran
  | input msg =>
      obtain ⟨⟨_, sent⟩, ran, rfl⟩ := of_map_eq_ok stepped
      exact serves.read_input_message some_worker ran

theorem Serves.run (serves : m.Serves fds) (some_worker : fds ≠ []) {codec : Codec}
    {draws : Nat → Nat} {events : List Event}
    (run : Run (Manager.step codec draws) (fun _ _ => True) m events next) : next.Serves fds := by
  have keeps : ∀ (state : Manager) (event : Event) (target : Manager), state.Serves fds → True →
      Manager.step codec draws state event = .ok target → target.Serves fds := by
    intro state event target kept _admitted stepped
    exact kept.step some_worker stepped
  exact run.invariant keeps serves

/-! ### The number that the option gives -/

structure DrawsWorkers (m : Manager) : Prop where
  modulus : m.num_clients ≠ 0
  indexed : ∀ draw : Nat, ∃ fd ∈ m.client_fd,
    m.client_idx2fd.lookup (Int.tmod draw m.num_clients) = some fd

theorem Serves.drawsWorkers (serves : m.Serves fds) (some_worker : fds ≠ []) :
    m.DrawsWorkers where
  modulus := by
    have positive := List.length_pos_iff.mpr some_worker
    rw [serves.numbered.count]
    omega
  indexed := by
    intro draw
    rw [serves.workers]
    exact serves.numbered.drawn some_worker draw

end Manager

/-- The count is positive as an `int`, and every run of the manager draws among
as many workers. -/
structure WorkersPositive (optarg : Bytes) : Prop where
  converted : 1 ≤ atoi (cString optarg)
  drawn : ∀ num_clients, option_n optarg = .ok num_clients →
    ∀ (codec : Codec) (draws : Nat → Nat) (socketpair : Nat → Fd) (no_map : Bool)
      (events : List Manager.Event) (m : Manager),
      Run (Manager.step codec draws) (fun _ _ => True)
        (start_manager socketpair no_map num_clients) events m → m.DrawsWorkers

/-- The number that the digits of the argument spell, up to the largest `long`. -/
def spelled (optarg : Bytes) : Nat :=
  min (digitsValue (unsigned (trim_spaces (cString optarg)))) (2 ^ 63 - 1)

theorem check_gt0_ok_iff (s1 : Bytes) (s : String) :
    check_gt0 s1 s = .ok () ↔ is_number s1 true = true := by
  unfold check_gt0 gt0
  by_cases number : is_number s1 true = true
  · rw [if_neg (not_not.mpr number)]
    exact iff_of_true rfl number
  · rw [if_pos number]
    exact iff_of_false (by intro same; cases same) number

private theorem atoi_of_accepted {optarg : Bytes}
    (accepted : check_gt0 (cString optarg) "number of workers" = .ok ()) :
    atoi (cString optarg) = Int.bmod (spelled optarg) (2 ^ 32) := by
  unfold atoi spelled
  rw [strtol_of_is_number ((check_gt0_ok_iff _ _).mp accepted)]
  congr 1
  unfold trim_spaces
  omega

theorem one_le_bmod_iff (value : Nat) :
    1 ≤ Int.bmod value (2 ^ 32) ↔ 1 ≤ value % 2 ^ 32 ∧ value % 2 ^ 32 < 2 ^ 31 := by
  rw [Int.bmod_def]
  omega

/-- An accepted count is positive unless its low 32 bits are zero or the sign bit
is among them. -/
theorem workersPositive_iff {optarg : Bytes}
    (accepted : check_gt0 (cString optarg) "number of workers" = .ok ()) :
    WorkersPositive optarg ↔ 1 ≤ spelled optarg % 2 ^ 32 ∧ spelled optarg % 2 ^ 32 < 2 ^ 31 := by
  rw [← one_le_bmod_iff, ← atoi_of_accepted accepted]
  constructor
  · intro positive
    exact positive.converted
  · intro converted
    refine ⟨converted, ?_⟩
    intro num_clients chosen codec draws socketpair no_map events m run
    have small : atoi (cString optarg) < 2 ^ 31 := by
      rw [atoi_of_accepted accepted, Int.bmod_def]
      omega
    have count : (num_clients : Int) = atoi (cString optarg) := by
      unfold option_n at chosen
      simp only [accepted] at chosen
      have same := Except.ok.inj chosen
      omega
    have fds : (client_fd socketpair num_clients).length = num_clients := by
      unfold client_fd
      rw [List.length_map, List.length_range]
    have some_worker : client_fd socketpair num_clients ≠ [] := by
      apply List.ne_nil_of_length_pos
      omega
    have started : (start_manager socketpair no_map num_clients).Serves
        (client_fd socketpair num_clients) := by
      have unchanged : Int.bmod num_clients (2 ^ 32) =
          ((client_fd socketpair num_clients).length : Int) := by
        rw [fds, Int.bmod_def]
        omega
      unfold start_manager
      rw [unchanged]
      exact ⟨rfl, Manager.new_numbered _ no_map⟩
    exact (started.run some_worker run).drawsWorkers some_worker

theorem workersPositive_four : WorkersPositive (ascii "4") :=
  (workersPositive_iff (by decide +kernel)).mpr (by decide +kernel)

/-- Zero is accepted; the manager then divides by it on the first message it hands on. -/
theorem option_n_zero :
    option_n (ascii "0") = .ok 0 ∧ ¬ WorkersPositive (ascii "0") ∧
      ∀ (socketpair : Nat → Fd) (no_map : Bool) (src_ip : Bytes) (draws : Nat → Nat)
        (msg_str : Bytes),
        (start_manager socketpair no_map 0).send_normal src_ip draws msg_str =
          .error .divideByZero := by
  refine ⟨by decide +kernel, ?_, ?_⟩
  · intro positive
    have converted := positive.converted
    have zero : atoi (cString (ascii "0")) = 0 := by decide +kernel
    omega
  · intro socketpair no_map src_ip draws msg_str
    cases no_map <;> rfl

end LDPlayer
