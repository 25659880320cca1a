/-
What the threads of the two proxies get done.

Without a new packet the threads of a proxy take finitely many steps, and when none
can take one the queue is empty and all that was read has been sent: a wake-up that
went to the wrong thread is made good by that thread.
-/
import LDPlayer.Proxy.Threads

set_option autoImplicit false

namespace LDPlayer

open OnesComplement WorkerPool Packet

namespace safe_queue

variable {Producer Consumer T : Type} [DecidableEq Producer] [DecidableEq Consumer]
variable {s next : State Producer Consumer T} {spurious : Prop}

theorem Wakes.runs (wakes : Wakes s next) :
    (∀ p, s.producers p = .running → next.producers p = .running) ∧
      ∀ c, s.consumers c = .running → next.consumers c = .running := by
  cases wakes with
  | producer q x waits =>
      refine ⟨?_, fun c runs => runs⟩
      intro p runs
      have different : p ≠ q := by
        intro same
        rw [same, waits] at runs
        cases runs
      exact (Function.update_of_ne different _ _).trans runs
  | consumer d waits =>
      refine ⟨fun p runs => runs, ?_⟩
      intro c runs
      have different : c ≠ d := by
        intro same
        rw [same, waits] at runs
        cases runs
      exact (Function.update_of_ne different _ _).trans runs

theorem Notifies.runs (notifies : Notifies s next) :
    (∀ p, s.producers p = .running → next.producers p = .running) ∧
      ∀ c, s.consumers c = .running → next.consumers c = .running := by
  cases notifies with
  | one _ wakes => exact wakes.runs
  | nobody _ _ => exact ⟨fun _ runs => runs, fun _ runs => runs⟩

theorem notifies_total (s : State Producer Consumer T) : ∃ next, Notifies s next := by
  by_cases producer : ∃ p x, s.producers p = .waiting x
  · obtain ⟨p, x, waits⟩ := producer
    exact ⟨_, .one _ (.producer p x waits)⟩
  · by_cases consumer : ∃ c, s.consumers c = .waiting ()
    · obtain ⟨c, waits⟩ := consumer
      exact ⟨_, .one _ (.consumer c waits)⟩
    · exact ⟨s, .nobody (fun p x waits => producer ⟨p, x, waits⟩)
        fun c waits => consumer ⟨c, waits⟩⟩

omit [DecidableEq Consumer] in
@[simp]
theorem setProducer_producers (p : Producer) (new : Phase T) :
    (s.setProducer p new).producers p = new := by
  unfold State.setProducer
  exact Function.update_self _ _ _

omit [DecidableEq Producer] in
@[simp]
theorem setConsumer_consumers (c : Consumer) (new : Phase Unit) :
    (s.setConsumer c new).consumers c = new := by
  unfold State.setConsumer
  exact Function.update_self _ _ _

/-- In front of an item some thread is awake. -/
def Awake (s : State Unit Consumer T) : Prop :=
  s.queue.q ≠ [] → s.producers () = .notifying ∨ ∃ c, s.consumers c ≠ .waiting ()

/-- The wake-up of a `push` meets a consumer that waits, or all are awake; the one
of a `pop` comes from a consumer that goes on to the next item. -/
theorem Awake.step [Nonempty Consumer] {s next : State Unit Consumer T} (awake : Awake s)
    (step : Step spurious s next) : Awake next := by
  have others (same : next.queue.q = s.queue.q) (kept : next.consumers = s.consumers)
      {phase : Phase T} (producer : s.producers () = phase) (quiet : phase ≠ .notifying) :
      Awake next := by
    intro items
    rw [same] at items
    rw [kept]
    rw [← producer] at quiet
    exact Or.inr ((awake items).resolve_left quiet)
  have consumer (c : Consumer) {phase : Phase Unit} (phase_eq : next.consumers c = phase)
      (quiet : phase ≠ .waiting ()) : Awake next := by
    intro _items
    rw [← phase_eq] at quiet
    exact Or.inr ⟨c, quiet⟩
  cases step with
  | call_push p x runs => exact others rfl rfl runs nofun
  | push p x queue locks pushes =>
      intro _items
      exact Or.inl (setProducer_producers (s := s) p .notifying)
  | push_waits p x locks full => exact others rfl rfl locks nofun
  | push_notifies p _ notifying notifies =>
      cases notifies with
      | one _ wakes =>
          cases wakes with
          | producer q x waits =>
              rw [setProducer_producers q .running] at waits
              cases waits
          | consumer c waits => exact consumer c (setConsumer_consumers c (.locking ())) nofun
      | nobody _ no_consumer =>
          exact fun _items => Or.inr ⟨Classical.arbitrary Consumer, no_consumer _⟩
  | call_pop c runs => exact consumer c (setConsumer_consumers c (.locking ())) nofun
  | pop c item queue locks pops => exact consumer c (setConsumer_consumers (s := s) c .notifying) nofun
  | pop_waits c locks empty => exact fun items => absurd (pop_eq_none_iff.mp empty) items
  | pop_notifies c _ notifying notifies =>
      exact consumer c (notifies.runs.2 c (setConsumer_consumers c .running)) nofun
  | wakes _ _ wakes =>
      cases wakes with
      | producer q x waits => exact others rfl rfl waits nofun
      | consumer c waits => exact consumer c (setConsumer_consumers c (.locking ())) nofun

end safe_queue

namespace ProxyThreads

variable {Worker : Type} [DecidableEq Worker]
variable {order : ByteOrder} {target : InAddr} {spurious : Prop} {reads : Bytes → Prop}
variable {s next : ProxyThreads Worker} {proxy : DNSReplayProxy Worker}

/-! ### The steps come to an end -/

section rank

variable [Fintype Worker]

theorem sum_changed {f g : Worker → Nat} (worker : Worker)
    (others : ∀ other, other ≠ worker → g other = f other) :
    ∑ u, g u + f worker = ∑ u, f u + g worker := by
  have same := Finset.sum_congr rfl fun other member =>
    others other (Finset.ne_of_mem_erase (s := Finset.univ) (a := worker) member)
  rw [← Finset.sum_erase_add _ g (Finset.mem_univ worker),
    ← Finset.sum_erase_add _ f (Finset.mem_univ worker), same]
  exact Nat.add_right_comm _ _ _

/-- A packet to push is worth more than one in the queue, and a thread that
notifies more than the one it may wake. -/
def reader_weight : safe_queue.Phase Bytes → Nat
  | .running => 0
  | .notifying => 2
  | .waiting _ => 8
  | .locking _ => 9

def worker_weight : safe_queue.Phase Unit → Option Bytes → Nat
  | .waiting _, _ => 0
  | .locking _, _ => 1
  | .running, none => 2
  | .running, some _ => 3
  | .notifying, _ => 5

def rank_of (queue : safe_queue.State Unit Worker Bytes) (packet : Worker → Option Bytes) : Nat :=
  reader_weight (queue.producers ()) + 6 * queue.queue.q.length +
    ∑ worker, worker_weight (queue.consumers worker) (packet worker)

def rank (s : ProxyThreads Worker) : Nat := rank_of s.packet_queue s.packet

variable {queue after : safe_queue.State Unit Worker Bytes} {packet : Worker → Option Bytes}

omit [DecidableEq Worker] in
theorem rank_setProducer (queue : safe_queue.State Unit Worker Bytes)
    (packet : Worker → Option Bytes) (p : Unit) (new : safe_queue.Phase Bytes) :
    rank_of (queue.setProducer p new) packet + reader_weight (queue.producers p) =
      rank_of queue packet + reader_weight new := by
  obtain rfl : p = () := rfl
  unfold rank_of safe_queue.State.setProducer
  simp only [Function.update_self]
  omega

theorem rank_setConsumer (queue : safe_queue.State Unit Worker Bytes)
    (packet : Worker → Option Bytes) (worker : Worker) (new : safe_queue.Phase Unit) :
    rank_of (queue.setConsumer worker new) packet +
        worker_weight (queue.consumers worker) (packet worker) =
      rank_of queue packet + worker_weight new (packet worker) := by
  have changed := sum_changed
    (f := fun other => worker_weight (queue.consumers other) (packet other))
    (g := fun other => worker_weight (Function.update queue.consumers worker new other)
      (packet other)) worker ?_
  · simp only [Function.update_self] at changed
    unfold rank_of safe_queue.State.setConsumer
    simp only
    omega
  · intro other different
    simp only [Function.update_of_ne different]

private theorem rank_wakes (wakes : safe_queue.Wakes queue after) :
    rank_of after packet ≤ rank_of queue packet + 1 := by
  cases wakes with
  | producer p x waits =>
      have changed := rank_setProducer queue packet p (.locking x)
      rw [waits] at changed
      simp only [reader_weight] at changed
      omega
  | consumer worker waits =>
      have changed := rank_setConsumer queue packet worker (.locking ())
      rw [waits] at changed
      simp only [worker_weight] at changed
      omega

private theorem rank_notifies (notifies : safe_queue.Notifies queue after) :
    rank_of after packet ≤ rank_of queue packet + 1 := by
  cases notifies with
  | one _ wakes => exact rank_wakes wakes
  | nobody _ _ => exact Nat.le_succ _

private theorem rank_queue (step : safe_queue.Step False queue after)
    (within : Within queue after) :
    rank_of after packet < rank_of queue packet := by
  cases step with
  | call_push p x runs =>
      have kept := within.reader runs
      rw [safe_queue.setProducer_producers] at kept
      cases kept
  | push p x rest locks pushes =>
      obtain ⟨_room, rfl⟩ := safe_queue.push_eq_some_iff.mp pushes
      have changed := rank_setProducer queue packet p .notifying
      rw [locks] at changed
      unfold rank_of at changed ⊢
      simp only [reader_weight, List.length_append, List.length_singleton,
        safe_queue.State.setProducer, Function.update_self] at changed ⊢
      omega
  | push_waits p x locks full =>
      have changed := rank_setProducer queue packet p (.waiting x)
      rw [locks] at changed
      simp only [reader_weight] at changed
      omega
  | push_notifies p _ notifying notifies =>
      have changed := rank_setProducer queue packet p .running
      have woken : rank_of after packet ≤ _ := rank_notifies notifies
      rw [notifying] at changed
      simp only [reader_weight] at changed
      omega
  | call_pop worker runs =>
      have kept := within.workers worker runs
      rw [safe_queue.setConsumer_consumers] at kept
      cases kept
  | pop worker item rest locks pops =>
      exact absurd (List.append_right_eq_self.mp within.popped) (List.cons_ne_nil _ _)
  | pop_waits worker locks empty =>
      have changed := rank_setConsumer queue packet worker (.waiting ())
      rw [locks] at changed
      simp only [worker_weight] at changed
      omega
  | pop_notifies worker _ notifying notifies =>
      have changed := rank_setConsumer queue packet worker .running
      have woken : rank_of after packet ≤ _ := rank_notifies notifies
      have light : worker_weight .running (packet worker) ≤ 3 := by
        cases packet worker with
        | none => decide
        | some pkt => exact Nat.le_refl 3
      rw [notifying] at changed
      simp only [worker_weight] at changed light
      omega
  | wakes allowed _ wakes => exact absurd allowed id

theorem Step.rank (step : Step order target False (fun _ => False) s next) :
    next.rank < s.rank := by
  cases step with
  | read_packet pkt read runs => exact absurd read id
  | queue _ step within => exact rank_queue step within
  | call_pop worker runs idle =>
      have changed := rank_setConsumer s.packet_queue s.packet worker (.locking ())
      rw [runs, idle] at changed
      simp only [worker_weight] at changed
      unfold ProxyThreads.rank
      simp only
      omega
  | pop worker pkt queue locks pops =>
      obtain ⟨front, _same⟩ := safe_queue.pop_eq_some pops
      have changed := sum_changed
        (f := fun other => worker_weight (s.packet_queue.consumers other) (s.packet other))
        (g := fun other => worker_weight
          ((s.packet_queue.setConsumer worker .notifying).consumers other)
          (Function.update s.packet worker (some pkt) other)) worker ?_
      · rw [safe_queue.setConsumer_consumers, locks] at changed
        unfold ProxyThreads.rank rank_of
        simp only [worker_weight] at changed ⊢
        rw [front, List.length_cons]
        change reader_weight (s.packet_queue.producers ()) + _ + _ < _
        omega
      · intro other different
        unfold safe_queue.State.setConsumer
        simp only [Function.update_of_ne different]
  | process_packet worker pkt sent runs holds processed =>
      have changed := sum_changed
        (f := fun other => worker_weight (s.packet_queue.consumers other) (s.packet other))
        (g := fun other => worker_weight (s.packet_queue.consumers other)
          (Function.update s.packet worker none other)) worker ?_
      · rw [Function.update_self, runs, holds] at changed
        unfold ProxyThreads.rank rank_of
        simp only [worker_weight] at changed ⊢
        omega
      · intro other different
        simp only [Function.update_of_ne different]

end rank

/-! ### Where they end -/

structure Quiet (s : ProxyThreads Worker) : Prop where
  reader : s.packet_queue.producers () = .running
  workers : ∀ worker, s.packet_queue.consumers worker = .waiting ()
  queue : s.packet_queue.queue.q = []
  packet : ∀ worker, s.packet worker = none

theorem queue_step {packet_queue : safe_queue.State Unit Worker Bytes}
    (step : safe_queue.Step spurious s.packet_queue packet_queue)
    (within : Within s.packet_queue packet_queue) :
    ∃ next, Step order target spurious reads s next :=
  ⟨_, .queue packet_queue step within⟩

theorem within_notifies {queue changed next : safe_queue.State Unit Worker Bytes}
    (notifies : safe_queue.Notifies changed next)
    (reader : queue.producers () = .running → changed.producers () = .running)
    (workers : ∀ worker, queue.consumers worker = .running → changed.consumers worker = .running)
    (popped : changed.popped = queue.popped) : Within queue next where
  reader := fun runs => notifies.runs.1 () (reader runs)
  workers := fun worker runs => notifies.runs.2 worker (workers worker runs)
  popped := notifies.frame.2.2.trans popped

omit [DecidableEq Worker] in
private theorem within_setProducer {queue : safe_queue.State Unit Worker Bytes}
    (new : safe_queue.Phase Bytes) (calls : queue.producers () ≠ .running) :
    Within queue (queue.setProducer () new) where
  reader := fun runs => absurd runs calls
  workers := fun _worker runs => runs
  popped := rfl

theorem within_setConsumer {queue : safe_queue.State Unit Worker Bytes} {worker : Worker}
    (new : safe_queue.Phase Unit) (calls : queue.consumers worker ≠ .running) :
    Within queue (queue.setConsumer worker new) where
  reader := fun runs => runs
  workers := by
    intro other runs
    have different : other ≠ worker := by
      intro same
      rw [same] at runs
      exact calls runs
    exact (Function.update_of_ne different _ _).trans runs
  popped := rfl

private theorem reader_proceeds (runs : s.packet_queue.producers () ≠ .running)
    (awake : ∀ pkt, s.packet_queue.producers () ≠ .waiting pkt) :
    ∃ next, Step order target False (fun _ => False) s next := by
  cases phase : s.packet_queue.producers () with
  | running => exact absurd phase runs
  | waiting pkt => exact absurd phase (awake pkt)
  | locking pkt =>
      cases pushes : s.packet_queue.queue.push pkt with
      | none => exact queue_step (.push_waits () pkt phase pushes) (within_setProducer _ runs)
      | some queue =>
          have within := within_setProducer .notifying runs
          exact queue_step (.push () pkt queue phase pushes)
            ⟨within.reader, within.workers, within.popped⟩
  | notifying =>
      obtain ⟨next, notifies⟩ :=
        safe_queue.notifies_total (s.packet_queue.setProducer () .running)
      exact queue_step (.push_notifies () next phase notifies)
        (within_notifies notifies (within_setProducer _ runs).reader (fun _ kept => kept) rfl)

private theorem worker_proceeds (works : ∀ worker pkt, s.packet worker = some pkt →
      ∃ sent, process_packet_helper order target pkt = .ok sent)
    {worker : Worker} (awake : s.packet_queue.consumers worker ≠ .waiting ()) :
    ∃ next, Step order target False (fun _ => False) s next := by
  cases phase : s.packet_queue.consumers worker with
  | waiting call => exact absurd phase awake
  | running =>
      cases packet : s.packet worker with
      | none => exact ⟨_, .call_pop worker phase packet⟩
      | some pkt =>
          obtain ⟨sent, processed⟩ := works worker pkt packet
          exact ⟨_, .process_packet worker pkt sent phase packet processed⟩
  | locking call =>
      have runs : s.packet_queue.consumers worker ≠ .running := by
        rw [phase]
        exact nofun
      cases pops : s.packet_queue.queue.pop with
      | none => exact queue_step (.pop_waits worker phase pops) (within_setConsumer _ runs)
      | some taken => exact ⟨_, .pop worker taken.1 taken.2 phase pops⟩
  | notifying =>
      have runs : s.packet_queue.consumers worker ≠ .running := by
        rw [phase]
        exact nofun
      obtain ⟨next, notifies⟩ :=
        safe_queue.notifies_total (s.packet_queue.setConsumer worker .running)
      exact queue_step (.pop_notifies worker next phase notifies)
        (within_notifies notifies (fun kept => kept) (within_setConsumer _ runs).workers rfl)

theorem Implements.quiet (implements : Implements target reads s proxy)
    (works : ∀ worker pkt, s.packet worker = some pkt →
      ∃ sent, process_packet_helper order target pkt = .ok sent)
    (awake : safe_queue.Awake s.packet_queue) (not_stranded : ¬ safe_queue.Stranded s.packet_queue)
    (places : 0 < s.packet_queue.queue.max_len)
    (stuck : ∀ next, ¬ Step order target False (fun _ => False) s next) : Quiet s := by
  have workers : ∀ worker, s.packet_queue.consumers worker = .waiting () := by
    intro worker
    by_contra proceeds
    obtain ⟨next, step⟩ := worker_proceeds works proceeds
    exact stuck next step
  have reader : s.packet_queue.producers () ≠ .running →
      ∃ pkt, s.packet_queue.producers () = .waiting pkt := by
    intro runs
    by_contra proceeds
    obtain ⟨next, step⟩ := reader_proceeds runs (not_exists.mp proceeds)
    exact stuck next step
  have queue : s.packet_queue.queue.q = [] := by
    by_contra items
    rcases awake items with notifying | ⟨worker, wakeful⟩
    · obtain ⟨pkt, waiting⟩ := reader (by rw [notifying]; exact nofun)
      rw [notifying] at waiting
      cases waiting
    · exact wakeful (workers worker)
  refine ⟨?_, workers, queue, ?_⟩
  · by_contra calls
    obtain ⟨pkt, waiting⟩ := reader calls
    refine not_stranded ⟨fun _ => ⟨pkt, waiting⟩, workers, Or.inr ⟨?_, (), pkt, waiting⟩⟩
    rw [queue]
    exact places
  · intro worker
    by_contra holds
    rcases implements.busy worker holds with runs | notifies
    · rw [workers worker] at runs
      cases runs
    · rw [workers worker] at notifies
      cases notifies

omit [DecidableEq Worker] in
theorem Quiet.sent (quiet : Quiet s) (implements : Implements target reads s proxy)
    {work : Bytes → Except Fault Bytes} (accounted : proxy.pool.Accounted work) :
    (s.sent.map Prod.fst).Perm s.packet_queue.pushed := by
  have each := accounted.each
  have hands : proxy.pool.hands = [] := by
    apply List.eq_nil_iff_forall_not_mem.mpr
    intro held member
    have holds := (implements.hands held.1 held.2).mp member
    rw [quiet.packet] at holds
    cases holds
  unfold Pool.pending at each
  rw [hands, implements.queue, quiet.queue, implements.finished, implements.arrived,
    List.map_nil, List.append_nil, List.append_nil] at each
  exact each

/-- A thread by itself sends the packets in the order in which it took them. -/
theorem Implements.alone (implements : Implements target reads s proxy) {worker : Worker}
    (single : ∀ other, other = worker)
    (account : s.sent.map Prod.fst ++ (s.packet worker).toList = s.packet_queue.popped)
    (step : Step order target spurious reads s next) :
    next.sent.map Prod.fst ++ (next.packet worker).toList = next.packet_queue.popped := by
  cases step with
  | read_packet pkt read runs => exact account
  | queue packet_queue step within => exact account.trans within.popped.symm
  | call_pop other runs idle => exact account
  | pop other pkt queue locks pops =>
      obtain rfl := single other
      rw [implements.idle locks, Option.toList_none, List.append_nil] at account
      simp only [Function.update_self, Option.toList_some, account]
  | process_packet other pkt sent runs holds processed =>
      obtain rfl := single other
      rw [holds] at account
      simp only [Function.update_self, Option.toList_none, List.append_nil, List.map_append]
      exact account

end ProxyThreads

/-! ### The two proxies -/

structure ThreadedHierarchy (Worker Worker' : Type) where
  recursive : ProxyThreads Worker
  authoritative : ProxyThreads Worker'

namespace ThreadedHierarchy

open Hierarchy

variable {Worker Worker' : Type} [DecidableEq Worker] [DecidableEq Worker']

def new : ThreadedHierarchy Worker Worker' := { recursive := .new, authoritative := .new }

def Answer (sent : List (Bytes × Bytes)) (pkt : Bytes) : Prop :=
  Plain pkt ∧ ∃ asked ∈ sent, tuple pkt = (tuple asked.2).reverse

/-- A step of a thread of one of the proxies; `reading` lets packets in. -/
inductive Step (order order' : ByteOrder) (a r : InAddr) (spurious reading : Prop)
    (t : ThreadedHierarchy Worker Worker') : ThreadedHierarchy Worker Worker' → Prop
  | recursive (next : ProxyThreads Worker)
      (step : ProxyThreads.Step order a spurious (fun pkt => reading ∧ Query r pkt)
        t.recursive next) :
      Step order order' a r spurious reading t { t with recursive := next }
  | authoritative (next : ProxyThreads Worker')
      (step : ProxyThreads.Step order' r spurious
        (fun pkt => reading ∧ Answer t.recursive.sent pkt) t.authoritative next) :
      Step order order' a r spurious reading t { t with authoritative := next }

def Reached (order order' : ByteOrder) (a r : InAddr) (spurious : Prop)
    (t : ThreadedHierarchy Worker Worker') : Prop :=
  Relation.ReflTransGen (Step order order' a r spurious True) new t

variable {order order' : ByteOrder} {a r : InAddr} {spurious reading : Prop}
variable {t next : ThreadedHierarchy Worker Worker'} {h : Hierarchy Worker Worker'}

structure Implements (a r : InAddr) (t : ThreadedHierarchy Worker Worker')
    (h : Hierarchy Worker Worker') :
    Prop where
  recursive : t.recursive.Implements a (Query r) h.recursive
  authoritative : t.authoritative.Implements r (Answer t.recursive.sent) h.authoritative

theorem Implements.step (implements : Implements a r t h)
    (step : Step order order' a r spurious True t next) :
    ∃ events after, Runs.Run (Hierarchy.step order order') (admits r) h events after ∧
      Implements a r next after := by
  cases step with
  | recursive proxy step =>
      have allowed : t.recursive.Implements a (fun pkt => True ∧ Query r pkt) h.recursive :=
        implements.recursive.mono fun _pkt query => ⟨trivial, query⟩
      obtain ⟨after, kept, moves⟩ := allowed.step step
      have refined : proxy.Implements a (Query r) after := kept.mono fun _pkt both => both.2
      have implementing : Implements a r { t with recursive := proxy }
          { h with recursive := after } := by
        refine ⟨refined, implements.authoritative.mono fun pkt answer => ⟨answer.1, ?_⟩⟩
        obtain ⟨asked, member, same⟩ := answer.2
        rw [← implements.recursive.finished] at member
        rw [← refined.finished]
        -- The server behind the proxy can only have got more to answer.
        exact ⟨asked, moves.finished member, same⟩
      cases moves with
      | rests => exact ⟨[], h, .done h, implementing⟩
      | reads pkt read => exact ⟨[.query pkt], _, .single read.2 rfl, implementing⟩
      | pops worker can => exact ⟨[.recursive_pop worker], _, .single can rfl, implementing⟩
      | processes worker _ can processed =>
          refine ⟨[.recursive_process worker], _, .single can ?_, implementing⟩
          exact congrArg (Except.map fun proxy => { h with recursive := proxy }) processed
  | authoritative proxy step =>
      have allowed : t.authoritative.Implements r
          (fun pkt => True ∧ Answer t.recursive.sent pkt) h.authoritative :=
        implements.authoritative.mono fun _pkt answer => ⟨trivial, answer⟩
      obtain ⟨after, kept, moves⟩ := allowed.step step
      have implementing : Implements a r { t with authoritative := proxy }
          { h with authoritative := after } :=
        ⟨implements.recursive, kept.mono fun _pkt both => both.2⟩
      cases moves with
      | rests => exact ⟨[], h, .done h, implementing⟩
      | reads pkt read =>
          refine ⟨[.answer pkt], _, .single ?_ rfl, implementing⟩
          obtain ⟨plain, answers⟩ := read.2
          rw [← implements.recursive.finished] at answers
          exact ⟨plain, answers⟩
      | pops worker can => exact ⟨[.authoritative_pop worker], _, .single can rfl, implementing⟩
      | processes worker _ can processed =>
          refine ⟨[.authoritative_process worker], _, .single can ?_, implementing⟩
          exact congrArg (Except.map fun proxy => { h with authoritative := proxy }) processed

/-- The threads implement a run of the hierarchy. -/
theorem Reached.implements (reached : Reached order order' a r spurious t) :
    ∃ start events h, Initial a r start ∧
      Runs.Run (Hierarchy.step order order') (admits r) start events h ∧ Implements a r t h := by
  induction reached with
  | refl =>
      let start : Hierarchy Worker Worker' :=
        { recursive := { target_addr := a }, authoritative := { target_addr := r } }
      exact ⟨start, [], start, ⟨rfl, rfl⟩, .done start,
        ProxyThreads.implements_new a _, ProxyThreads.implements_new r _⟩
  | tail _earlier step ih =>
      obtain ⟨start, events, h, initial, run, implements⟩ := ih
      obtain ⟨more, after, later, kept⟩ := implements.step step
      exact ⟨start, events ++ more, after, initial, run.append later, kept⟩

theorem Reached.flows (reached : Reached order order' a r spurious t) :
    ∃ h, Implements a r t h ∧ Flows order order' a r h := by
  obtain ⟨start, events, h, initial, run, implements⟩ := reached.implements
  refine ⟨h, implements, run.invariant_of_progress ?_ initial.flows⟩
  intro state event flows admitted
  exact flows.step admitted

theorem Reached.queues (reached : Reached order order' a r spurious t) :
    safe_queue.Reached spurious (-1) t.recursive.packet_queue ∧
      safe_queue.Reached spurious (-1) t.authoritative.packet_queue := by
  induction reached with
  | refl => exact ⟨.refl, .refl⟩
  | tail _earlier step ih =>
      obtain ⟨recursive, authoritative⟩ := ih
      cases step with
      | recursive proxy step =>
          refine ⟨?_, authoritative⟩
          rcases step.packet_queue with moved | same
          · exact recursive.tail moved
          · exact Eq.mpr (congrArg _ same) recursive
      | authoritative proxy step =>
          refine ⟨recursive, ?_⟩
          rcases step.packet_queue with moved | same
          · exact authoritative.tail moved
          · exact Eq.mpr (congrArg _ same) authoritative

theorem Reached.awake [Nonempty Worker] [Nonempty Worker']
    (reached : Reached order order' a r spurious t) :
    safe_queue.Awake t.recursive.packet_queue ∧
      safe_queue.Awake t.authoritative.packet_queue := by
  induction reached with
  | refl => exact ⟨fun items => absurd rfl items, fun items => absurd rfl items⟩
  | tail _earlier step ih =>
      obtain ⟨recursive, authoritative⟩ := ih
      cases step with
      | recursive proxy step =>
          refine ⟨?_, authoritative⟩
          rcases step.packet_queue with moved | same
          · exact recursive.step moved
          · exact Eq.mpr (congrArg _ same) recursive
      | authoritative proxy step =>
          refine ⟨recursive, ?_⟩
          rcases step.packet_queue with moved | same
          · exact authoritative.step moved
          · exact Eq.mpr (congrArg _ same) authoritative

/-- One thread to a proxy: what it sent, what it holds and what waits is what was
read, in its order. -/
theorem Reached.alone (reached : Reached order order' a r spurious t) :
    (∀ worker : Worker, (∀ other, other = worker) →
      t.recursive.sent.map Prod.fst ++ (t.recursive.packet worker).toList =
        t.recursive.packet_queue.popped) ∧
      ∀ worker : Worker', (∀ other, other = worker) →
        t.authoritative.sent.map Prod.fst ++ (t.authoritative.packet worker).toList =
          t.authoritative.packet_queue.popped := by
  induction reached with
  | refl => exact ⟨fun _worker _single => rfl, fun _worker _single => rfl⟩
  | tail earlier step ih =>
      obtain ⟨recursive, authoritative⟩ := ih
      obtain ⟨_start, _events, h, _initial, _run, implements⟩ := Reached.implements earlier
      cases step with
      | recursive proxy step =>
          have allowed := implements.recursive.mono
            fun _pkt query => And.intro trivial query
          exact ⟨fun worker single => allowed.alone single (recursive worker single) step,
            authoritative⟩
      | authoritative proxy step =>
          have allowed := implements.authoritative.mono
            fun _pkt answer => And.intro trivial answer
          exact ⟨recursive, fun worker single =>
            allowed.alone single (authoritative worker single) step⟩

omit [DecidableEq Worker'] in
private theorem not_stranded [Fintype Worker] (few : Fintype.card Worker < 2 ^ 31)
    {queue : safe_queue.State Unit Worker Bytes} (reached : safe_queue.Reached spurious (-1) queue) :
    ¬ safe_queue.Stranded queue := by
  intro stranded
  have places : (safe_queue.new (-1) : safe_queue Bytes).max_len = 2 ^ 32 - 1 := rfl
  have many := (safe_queue.stranded_reached_iff (by rw [places]; decide)).mp
    ⟨queue, reached, stranded⟩
  rw [places, Fintype.card_unit] at many
  omega

/-- Each packet that was read was sent on, or a thread can go on. -/
structure Delivers (order order' : ByteOrder) (a r : InAddr)
    (t : ThreadedHierarchy Worker Worker') :
    Prop where
  transparent : ∃ h, Implements a r t h ∧ Transparent a r h
  works : (∀ worker pkt, t.recursive.packet worker = some pkt →
      ∃ sent, process_packet_helper order a pkt = .ok sent) ∧
    ∀ worker pkt, t.authoritative.packet worker = some pkt →
      ∃ sent, process_packet_helper order' r pkt = .ok sent
  sent : (∀ next, ¬ Step order order' a r False False t next) →
    t.recursive.Quiet ∧ t.authoritative.Quiet ∧
      (t.recursive.sent.map Prod.fst).Perm t.recursive.packet_queue.pushed ∧
      (t.authoritative.sent.map Prod.fst).Perm t.authoritative.packet_queue.pushed
  in_order : ((∃ worker : Worker, ∀ other, other = worker) →
      t.recursive.sent.map Prod.fst <+: t.recursive.packet_queue.pushed) ∧
    ((∃ worker : Worker', ∀ other, other = worker) →
      t.authoritative.sent.map Prod.fst <+: t.authoritative.packet_queue.pushed)

omit [DecidableEq Worker] [DecidableEq Worker'] in
private theorem in_order {s : ProxyThreads Worker} (ordered : safe_queue.Ordered s.packet_queue)
    {worker : Worker}
    (account : s.sent.map Prod.fst ++ (s.packet worker).toList = s.packet_queue.popped) :
    s.sent.map Prod.fst <+: s.packet_queue.pushed := by
  have fifo := ordered.fifo
  rw [← account, List.append_assoc] at fifo
  exact ⟨_, fifo⟩

theorem Reached.delivers [Fintype Worker] [Nonempty Worker] [Fintype Worker'] [Nonempty Worker']
    (few : Fintype.card Worker < 2 ^ 31) (few' : Fintype.card Worker' < 2 ^ 31)
    (reached : Reached order order' a r spurious t) : Delivers order order' a r t := by
  obtain ⟨h, implements, flows⟩ := reached.flows
  obtain ⟨queue, queue'⟩ := reached.queues
  obtain ⟨awake, awake'⟩ := reached.awake
  have places : 0 < (safe_queue.new (-1) : safe_queue Bytes).max_len := by decide
  have works : ∀ worker pkt, t.recursive.packet worker = some pkt →
      ∃ sent, process_packet_helper order a pkt = .ok sent := by
    intro worker pkt holds
    have held := (implements.recursive.hands worker pkt).mpr holds
    exact flows.queries_processed pkt (flows.queries_accounted.mem_arrived
      (List.mem_append_left _ (List.mem_map_of_mem (f := Prod.snd) held)))
  have works' : ∀ worker pkt, t.authoritative.packet worker = some pkt →
      ∃ sent, process_packet_helper order' r pkt = .ok sent := by
    intro worker pkt holds
    have held := (implements.authoritative.hands worker pkt).mpr holds
    exact flows.answers_processed pkt (flows.answers_accounted.mem_arrived
      (List.mem_append_left _ (List.mem_map_of_mem (f := Prod.snd) held)))
  refine ⟨⟨h, implements, flows.transparent⟩,
    ⟨works, works'⟩, ?_, ?_⟩
  · intro stuck
    have quiet : t.recursive.Quiet := by
      apply implements.recursive.quiet works awake (not_stranded few queue)
      · rw [queue.max_len]
        exact places
      · intro next step
        exact stuck _ (.recursive next (step.mono fun _pkt => False.elim))
    have quiet' : t.authoritative.Quiet := by
      apply implements.authoritative.quiet works' awake' (not_stranded few' queue')
      · rw [queue'.max_len]
        exact places
      · intro next step
        exact stuck _ (.authoritative next (step.mono fun _pkt => False.elim))
    exact ⟨quiet, quiet', quiet.sent implements.recursive flows.queries_accounted,
      quiet'.sent implements.authoritative flows.answers_accounted⟩
  · obtain ⟨account, account'⟩ := reached.alone
    exact ⟨fun ⟨worker, single⟩ => in_order queue.ordered (account worker single),
      fun ⟨worker, single⟩ => in_order queue'.ordered (account' worker single)⟩

/-- Steps that let no packet in and wake no thread for nothing come to an end. -/
theorem threads_rest [Fintype Worker] [Fintype Worker'] :
    WellFounded fun next t : ThreadedHierarchy Worker Worker' =>
      Step order order' a r False False t next := by
  let rank (t : ThreadedHierarchy Worker Worker') : Nat := t.recursive.rank + t.authoritative.rank
  have lowers : ∀ next t : ThreadedHierarchy Worker Worker', Step order order' a r False False t next →
      rank next < rank t := by
    intro next t step
    cases step with
    | recursive proxy step =>
        exact Nat.add_lt_add_right (step.mono fun _pkt both => both.1).rank _
    | authoritative proxy step =>
        exact Nat.add_lt_add_left (step.mono fun _pkt both => both.1).rank _
  exact Subrelation.wf (fun {next t} step => lowers next t step)
    (InvImage.wf rank wellFounded_lt)

/-- However the threads of the two proxies interleave and whichever of them a
wake-up meets, the servers see the exchange of the hierarchy and no thread fails;
left to themselves the threads come to rest, and then all that was read was sent. -/
theorem threads_deliver [Fintype Worker] [Nonempty Worker] [Fintype Worker'] [Nonempty Worker']
    (order order' : ByteOrder) (a r : InAddr) (spurious : Prop)
    (few : Fintype.card Worker < 2 ^ 31) (few' : Fintype.card Worker' < 2 ^ 31) :
    (∀ t : ThreadedHierarchy Worker Worker', Reached order order' a r spurious t →
      Delivers order order' a r t) ∧
    WellFounded fun next t : ThreadedHierarchy Worker Worker' =>
      Step order order' a r False False t next :=
  ⟨fun _t reached => reached.delivers few few', threads_rest⟩

/-- One thread has the plain query while the other one waits for a packet; the
authoritative proxy has a single thread. -/
theorem threads_deliver_query :
    Fintype.card Bool < 2 ^ 31 ∧ ∃ t : ThreadedHierarchy Bool Unit,
      t.recursive.packet false = some plain_query ∧
      t.recursive.packet_queue.consumers true = .waiting () ∧
      Delivers .little .little ⟨10, 0, 0, 9⟩ ⟨10, 0, 0, 2⟩ t := by
  have query : Query ⟨10, 0, 0, 2⟩ plain_query :=
    ⟨⟨by decide, rfl, ⟨rfl, rfl⟩, 6, rfl, rfl, by decide⟩, rfl, rfl⟩
  have few : Fintype.card Bool < 2 ^ 31 := by decide
  have calls {queue : safe_queue.State Unit Bool Bytes} {worker : Bool} {call : Unit}
      (locks : queue.consumers worker = .locking call) : queue.consumers worker ≠ .running := by
    rw [locks]
    exact nofun
  have moves {t : ThreadedHierarchy Bool Unit} {proxy : ProxyThreads Bool}
      (reached : Reached .little .little ⟨10, 0, 0, 9⟩ ⟨10, 0, 0, 2⟩ False t)
      (step : ProxyThreads.Step .little ⟨10, 0, 0, 9⟩ False
        (fun pkt => True ∧ Query ⟨10, 0, 0, 2⟩ pkt) t.recursive proxy) :
      Reached .little .little ⟨10, 0, 0, 9⟩ ⟨10, 0, 0, 2⟩ False { t with recursive := proxy } :=
    reached.tail (.recursive proxy step)
  have waits := moves (moves .refl (.call_pop true rfl rfl))
    (.queue _ (.pop_waits true rfl rfl) (ProxyThreads.within_setConsumer _ (calls rfl)))
  have pushed := moves (moves waits (.read_packet plain_query ⟨trivial, query⟩ rfl))
    (.queue _ (.push () plain_query _ rfl rfl) ⟨nofun, fun _worker runs => runs, rfl⟩)
  have popped := moves (moves pushed (.call_pop false rfl rfl)) (.pop false plain_query _ rfl rfl)
  exact ⟨few, _, rfl, rfl,
    (threads_deliver .little .little ⟨10, 0, 0, 9⟩ ⟨10, 0, 0, 2⟩ False few
      (by decide : Fintype.card Unit < 2 ^ 31)).1 _ popped⟩

end ThreadedHierarchy

end LDPlayer
