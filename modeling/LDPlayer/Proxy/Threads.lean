/-
The threads of a proxy on its queue, and the hierarchy they implement.

The reading thread pushes the packets of the tunnel; each other thread pops a
packet, sends it on and pops the next.  Mutex, condition variable and wake-ups are
those of safe_queue.  Seen through the packets a proxy so run is a pool of workers,
and two of them are the hierarchy.
-/
import LDPlayer.Proxy.Hierarchy
import LDPlayer.Proxy.SafeQueue
import LDPlayer.Foundation.Simulation

set_option autoImplicit false

namespace LDPlayer

open OnesComplement WorkerPool Packet

/-! ### Phases of threads -/

namespace safe_queue

variable {Producer Consumer T : Type} [DecidableEq Producer] [DecidableEq Consumer]
variable {s next : State Producer Consumer T} {spurious : Prop}

def Pushes (s : State Producer Consumer T) (p : Producer) (x : T) : Prop :=
  s.producers p = .locking x ∨ s.producers p = .waiting x

omit [DecidableEq Consumer] in
theorem pushes_setProducer {p q : Producer} {new : Phase T} {x : T}
    (pushes : Pushes (s.setProducer q new) p x) :
    (p = q ∧ (new = .locking x ∨ new = .waiting x)) ∨ Pushes s p x := by
  unfold Pushes State.setProducer at pushes
  simp only at pushes
  by_cases same : p = q
  · subst same
    rw [Function.update_self] at pushes
    exact Or.inl ⟨rfl, pushes⟩
  · rw [Function.update_of_ne same] at pushes
    exact Or.inr pushes

theorem Wakes.pushes (wakes : Wakes s next) {p : Producer} {x : T} (pushes : Pushes next p x) :
    Pushes s p x := by
  cases wakes with
  | producer q y waits =>
      rcases pushes_setProducer pushes with ⟨rfl, locking | waiting⟩ | before
      · cases locking
        exact Or.inr waits
      · cases waiting
      · exact before
  | consumer c waits => exact pushes

theorem Notifies.pushes (notifies : Notifies s next) {p : Producer} {x : T}
    (pushes : Pushes next p x) : Pushes s p x := by
  cases notifies with
  | one _ wakes => exact wakes.pushes pushes
  | nobody _ _ => exact pushes

theorem Step.pushes (step : Step spurious s next) {p : Producer} {x : T}
    (pushes : Pushes next p x) :
    Pushes s p x ∨ (s.producers p = .running ∧ next.producers p ≠ .running) := by
  have changing : next.producers p ≠ .running := by
    intro runs
    rcases pushes with locking | waiting
    · rw [runs] at locking
      cases locking
    · rw [runs] at waiting
      cases waiting
  cases step with
  | call_push q y runs =>
      rcases pushes_setProducer pushes with ⟨rfl, _call⟩ | before
      · exact Or.inr ⟨runs, changing⟩
      · exact Or.inl before
  | push q y queue locks _ =>
      rcases pushes_setProducer (s := s) pushes with ⟨rfl, locking | waiting⟩ | before
      · cases locking
      · cases waiting
      · exact Or.inl before
  | push_waits q y locks _ =>
      rcases pushes_setProducer pushes with ⟨rfl, locking | waiting⟩ | before
      · cases locking
      · cases waiting
        exact Or.inl (Or.inl locks)
      · exact Or.inl before
  | push_notifies q _ notifying notifies =>
      rcases pushes_setProducer (notifies.pushes pushes) with ⟨rfl, locking | waiting⟩ | before
      · cases locking
      · cases waiting
      · exact Or.inl before
  | call_pop c runs => exact Or.inl pushes
  | pop c item queue locks _ => exact Or.inl pushes
  | pop_waits c locks _ => exact Or.inl pushes
  | pop_notifies c _ notifying notifies => exact Or.inl (notifies.pushes pushes)
  | wakes _ _ wakes => exact Or.inl (wakes.pushes pushes)

def Returns (s : State Producer Consumer T) (c : Consumer) : Prop :=
  s.consumers c = .running ∨ s.consumers c = .notifying

omit [DecidableEq Producer] in
theorem returns_setConsumer {c d : Consumer} {old new : Phase Unit} (phase : s.consumers d = old)
    (kept : old = .running ∨ old = .notifying → new = .running ∨ new = .notifying)
    (returns : Returns s c) : Returns (s.setConsumer d new) c := by
  unfold Returns State.setConsumer at *
  simp only
  by_cases same : c = d
  · subst same
    rw [Function.update_self]
    rw [phase] at returns
    exact kept returns
  · rw [Function.update_of_ne same]
    exact returns

theorem Wakes.returns (wakes : Wakes s next) {c : Consumer} (returns : Returns s c) :
    Returns next c := by
  cases wakes with
  | producer p x waits => exact returns
  | consumer d waits =>
      apply returns_setConsumer waits _ returns
      intro impossible
      rcases impossible with runs | notifies
      · cases runs
      · cases notifies

theorem Notifies.returns (notifies : Notifies s next) {c : Consumer} (returns : Returns s c) :
    Returns next c := by
  cases notifies with
  | one _ wakes => exact wakes.returns returns
  | nobody _ _ => exact returns

theorem Step.returns (step : Step spurious s next) {c : Consumer} (returns : Returns s c)
    (no_call : s.consumers c = .running → next.consumers c = .running) : Returns next c := by
  have blocked {d : Consumer} {new : Phase Unit} {call : Unit}
      (locks : s.consumers d = .locking call) : Returns (s.setConsumer d new) c := by
    apply returns_setConsumer locks _ returns
    intro impossible
    rcases impossible with runs | notifies
    · cases runs
    · cases notifies
  cases step with
  | call_push p x runs => exact returns
  | push p x queue locks _ => exact returns
  | push_waits p x locks _ => exact returns
  | push_notifies p _ notifying notifies => exact notifies.returns returns
  | call_pop d runs =>
      by_cases same : c = d
      · subst same
        exact Or.inl (no_call runs)
      · unfold Returns State.setConsumer at *
        simp only
        rw [Function.update_of_ne same]
        exact returns
  | pop d item queue locks _ => exact blocked locks
  | pop_waits d locks _ => exact blocked locks
  | pop_notifies d _ notifying notifies =>
      exact notifies.returns (returns_setConsumer notifying (fun _ => Or.inl rfl) returns)
  | wakes _ _ wakes => exact wakes.returns returns

theorem Step.items (step : Step spurious s next) (kept : next.popped = s.popped) :
    (next.pushed = s.pushed ∧ next.queue.q = s.queue.q) ∨
      ∃ p x, s.producers p = .locking x ∧ next.pushed = s.pushed ++ [x] ∧
        next.queue.q = s.queue.q ++ [x] := by
  cases step with
  | call_push p x runs => exact Or.inl ⟨rfl, rfl⟩
  | push p x queue locks pushes =>
      obtain ⟨_room, rfl⟩ := push_eq_some_iff.mp pushes
      exact Or.inr ⟨p, x, locks, rfl, rfl⟩
  | push_waits p x locks _ => exact Or.inl ⟨rfl, rfl⟩
  | push_notifies p _ notifying notifies =>
      obtain ⟨queue, pushed, _popped⟩ := notifies.frame
      exact Or.inl ⟨pushed, congrArg safe_queue.q queue⟩
  | call_pop c runs => exact Or.inl ⟨rfl, rfl⟩
  | pop c item queue locks _ => exact absurd (List.append_right_eq_self.mp kept) (List.cons_ne_nil _ _)
  | pop_waits c locks _ => exact Or.inl ⟨rfl, rfl⟩
  | pop_notifies c _ notifying notifies =>
      obtain ⟨queue, pushed, _popped⟩ := notifies.frame
      exact Or.inl ⟨pushed, congrArg safe_queue.q queue⟩
  | wakes _ _ wakes =>
      obtain ⟨queue, pushed, _popped⟩ := wakes.frame
      exact Or.inl ⟨pushed, congrArg safe_queue.q queue⟩

end safe_queue

/-! ### A proxy with its threads -/

/-- `packet` is what a thread holds between `pop` and the end of its turn; `sent`
has the packets with what was sent for them. -/
structure ProxyThreads (Worker : Type) where
  packet_queue : safe_queue.State Unit Worker Bytes
  packet : Worker → Option Bytes := fun _ => none
  sent : List (Bytes × Bytes) := []

namespace ProxyThreads

variable {Worker : Type} [DecidableEq Worker]

/-- The queue is of unlimited size, which is -1. -/
def new : ProxyThreads Worker := { packet_queue := { queue := safe_queue.new (-1) } }

structure Within (s next : safe_queue.State Unit Worker Bytes) : Prop where
  reader : s.producers () = .running → next.producers () = .running
  workers : ∀ worker, s.consumers worker = .running → next.consumers worker = .running
  popped : next.popped = s.popped

/-- A step of one thread; `reads` are the packets that the tunnel can have. -/
inductive Step (order : ByteOrder) (target : InAddr) (spurious : Prop) (reads : Bytes → Prop)
    (s : ProxyThreads Worker) : ProxyThreads Worker → Prop
  | read_packet (pkt : Bytes) (read : reads pkt)
      (runs : s.packet_queue.producers () = .running) :
      Step order target spurious reads s
        { s with packet_queue := s.packet_queue.setProducer () (.locking pkt) }
  | queue (next : safe_queue.State Unit Worker Bytes)
      (step : safe_queue.Step spurious s.packet_queue next) (within : Within s.packet_queue next) :
      Step order target spurious reads s { s with packet_queue := next }
  | call_pop (worker : Worker) (runs : s.packet_queue.consumers worker = .running)
      (idle : s.packet worker = none) :
      Step order target spurious reads s
        { s with packet_queue := s.packet_queue.setConsumer worker (.locking ()) }
  | pop (worker : Worker) (pkt : Bytes) (queue : safe_queue Bytes)
      (locks : s.packet_queue.consumers worker = .locking ())
      (pops : s.packet_queue.queue.pop = some (pkt, queue)) :
      Step order target spurious reads s
        { s with
          packet_queue := { s.packet_queue.setConsumer worker .notifying with
            queue := queue
            popped := s.packet_queue.popped ++ [pkt] }
          packet := Function.update s.packet worker (some pkt) }
  | process_packet (worker : Worker) (pkt sent : Bytes)
      (runs : s.packet_queue.consumers worker = .running) (holds : s.packet worker = some pkt)
      (processed : process_packet_helper order target pkt = .ok sent) :
      Step order target spurious reads s
        { s with
          packet := Function.update s.packet worker none
          sent := s.sent ++ [(pkt, sent)] }

variable {order : ByteOrder} {target : InAddr} {spurious : Prop} {reads later : Bytes → Prop}
variable {s next : ProxyThreads Worker} {proxy : DNSReplayProxy Worker}

theorem Step.packet_queue (step : Step order target spurious reads s next) :
    safe_queue.Step spurious s.packet_queue next.packet_queue ∨
      next.packet_queue = s.packet_queue := by
  cases step with
  | read_packet pkt read runs => exact Or.inl (.call_push () pkt runs)
  | queue _ step within => exact Or.inl step
  | call_pop worker runs idle => exact Or.inl (.call_pop worker runs)
  | pop worker pkt queue locks pops => exact Or.inl (.pop worker pkt queue locks pops)
  | process_packet worker pkt sent runs holds processed => exact Or.inr rfl

theorem Step.mono (step : Step order target spurious reads s next)
    (more : ∀ pkt, reads pkt → later pkt) : Step order target spurious later s next := by
  cases step with
  | read_packet pkt read runs => exact .read_packet pkt (more pkt read) runs
  | queue _ step within => exact .queue _ step within
  | call_pop worker runs idle => exact .call_pop worker runs idle
  | pop worker pkt queue locks pops => exact .pop worker pkt queue locks pops
  | process_packet worker pkt sent runs holds processed =>
      exact .process_packet worker pkt sent runs holds processed

/-- The proxy seen through its packets: who holds what, what waits in the queue,
and what was read and sent. -/
structure Implements (target : InAddr) (reads : Bytes → Prop) (s : ProxyThreads Worker)
    (proxy : DNSReplayProxy Worker) : Prop where
  target : proxy.target_addr = target
  arrived : proxy.pool.arrived = s.packet_queue.pushed
  queue : proxy.pool.queue = s.packet_queue.queue.q
  finished : proxy.pool.finished = s.sent
  hands : ∀ worker pkt, (worker, pkt) ∈ proxy.pool.hands ↔ s.packet worker = some pkt
  once : (proxy.pool.hands.map Prod.fst).Nodup
  busy : ∀ worker, s.packet worker ≠ none → safe_queue.Returns s.packet_queue worker
  read : ∀ pkt, safe_queue.Pushes s.packet_queue () pkt → reads pkt

omit [DecidableEq Worker] in
theorem Implements.mono (implements : Implements target reads s proxy)
    (more : ∀ pkt, reads pkt → later pkt) : Implements target later s proxy :=
  { implements with read := fun pkt pushes => more pkt (implements.read pkt pushes) }

omit [DecidableEq Worker] in
theorem implements_new (target : InAddr) (reads : Bytes → Prop) :
    Implements target reads (new : ProxyThreads Worker) { target_addr := target } where
  target := rfl
  arrived := rfl
  queue := rfl
  finished := rfl
  hands := by
    intro worker pkt
    constructor
    · intro member
      cases member
    · intro holds
      cases holds
  once := List.nodup_nil
  busy := fun worker holds => absurd rfl holds
  read := by
    intro pkt pushes
    rcases pushes with locking | waiting
    · cases locking
    · cases waiting

/-- What the pool of a proxy does while a thread takes a step. -/
inductive Moves (order : ByteOrder) (reads : Bytes → Prop) (proxy : DNSReplayProxy Worker) :
    DNSReplayProxy Worker → Prop
  | rests : Moves order reads proxy proxy
  | reads (pkt : Bytes) (read : reads pkt) : Moves order reads proxy (proxy.read_packet pkt)
  | pops (worker : Worker) (can : proxy.pool.CanTake worker) :
      Moves order reads proxy (proxy.pop worker)
  | processes (worker : Worker) (next : DNSReplayProxy Worker)
      (can : proxy.pool.CanFinish worker)
      (processed : proxy.process_packet order worker = .ok next) : Moves order reads proxy next

theorem Moves.finished {after : DNSReplayProxy Worker} (moves : Moves order reads proxy after) :
    proxy.pool.finished ⊆ after.pool.finished := by
  cases moves with
  | rests => exact List.Subset.refl _
  | reads pkt read => exact List.Subset.refl _
  | pops worker can =>
      unfold DNSReplayProxy.pop
      rw [Pool.take_finished]
      exact List.Subset.refl _
  | processes worker _ can processed =>
      unfold DNSReplayProxy.process_packet at processed
      cases finished : proxy.pool.finish (process_packet_helper order proxy.target_addr) worker with
      | error fault =>
          rw [finished] at processed
          cases processed
      | ok pool =>
          rw [finished] at processed
          rw [← Except.ok.inj processed]
          exact fun _done member => Pool.finish_keeps finished member

omit [DecidableEq Worker] in
theorem Implements.canFinish_iff (implements : Implements target reads s proxy)
    {worker : Worker} : proxy.pool.CanFinish worker ↔ s.packet worker ≠ none := by
  unfold Pool.CanFinish
  constructor
  · intro busy empty
    obtain ⟨held, member, rfl⟩ := List.mem_map.mp busy
    have holds := (implements.hands held.1 held.2).mp member
    rw [empty] at holds
    cases holds
  · intro holds
    obtain ⟨pkt, packet⟩ := Option.ne_none_iff_exists'.mp holds
    exact List.mem_map_of_mem (f := Prod.fst) ((implements.hands worker pkt).mpr packet)

theorem Implements.queue_step (implements : Implements target reads s proxy)
    {packet_queue : safe_queue.State Unit Worker Bytes}
    (step : safe_queue.Step spurious s.packet_queue packet_queue)
    (within : Within s.packet_queue packet_queue) :
    ∃ after, Implements target reads { s with packet_queue := packet_queue } after ∧
      Moves order reads proxy after := by
  have busy : ∀ worker, s.packet worker ≠ none → safe_queue.Returns packet_queue worker :=
    fun worker holds => step.returns (implements.busy worker holds) (within.workers worker)
  have read : ∀ pkt, safe_queue.Pushes packet_queue () pkt → reads pkt := by
    intro pkt pushes
    rcases step.pushes pushes with before | ⟨runs, left⟩
    · exact implements.read pkt before
    · exact absurd (within.reader runs) left
  rcases step.items within.popped with ⟨pushed, queue⟩ | ⟨⟨⟩, pkt, locks, pushed, queue⟩
  · exact ⟨proxy, { implements with
      arrived := implements.arrived.trans pushed.symm
      queue := implements.queue.trans queue.symm
      busy := busy
      read := read }, .rests⟩
  · refine ⟨proxy.read_packet pkt, { implements with
      arrived := ?_
      queue := ?_
      busy := busy
      read := read }, .reads pkt (implements.read pkt (Or.inl locks))⟩
    · rw [pushed, ← implements.arrived]
      rfl
    · rw [queue, ← implements.queue]
      rfl

omit [DecidableEq Worker] in
theorem Implements.idle (implements : Implements target reads s proxy) {worker : Worker}
    {call : Unit} (locks : s.packet_queue.consumers worker = .locking call) :
    s.packet worker = none := by
  by_contra holds
  rcases implements.busy worker holds with runs | notifies
  · rw [locks] at runs
    cases runs
  · rw [locks] at notifies
    cases notifies

theorem Implements.pop (implements : Implements target reads s proxy) {worker : Worker}
    {pkt : Bytes} {queue : safe_queue Bytes}
    (locks : s.packet_queue.consumers worker = .locking ())
    (pops : s.packet_queue.queue.pop = some (pkt, queue)) :
    Implements target reads
      { s with
        packet_queue := { s.packet_queue.setConsumer worker .notifying with
          queue := queue
          popped := s.packet_queue.popped ++ [pkt] }
        packet := Function.update s.packet worker (some pkt) } (proxy.pop worker) ∧
      proxy.pool.CanTake worker := by
  obtain ⟨front, _same⟩ := safe_queue.pop_eq_some pops
  have empty := implements.idle locks
  have idle : worker ∉ proxy.pool.hands.map Prod.fst :=
    fun busy => implements.canFinish_iff.mp busy empty
  have waiting : proxy.pool.queue = pkt :: queue.q := implements.queue.trans front
  have taken : proxy.pool.take worker =
      { proxy.pool with queue := queue.q, hands := (worker, pkt) :: proxy.pool.hands } := by
    unfold Pool.take
    rw [if_neg idle, waiting]
  refine ⟨?_, idle, ?_⟩
  · constructor
    · exact implements.target
    · exact (Pool.take_arrived worker).trans implements.arrived
    · exact congrArg Pool.queue taken
    · exact (Pool.take_finished worker).trans implements.finished
    · intro other held
      unfold DNSReplayProxy.pop
      rw [taken]
      simp only [List.mem_cons, Prod.mk.injEq]
      by_cases same : other = worker
      · subst same
        rw [Function.update_self, Option.some.injEq]
        constructor
        · intro either
          rcases either with ⟨_own, new⟩ | old
          · exact new.symm
          · exact absurd (List.mem_map_of_mem (f := Prod.fst) old) idle
        · intro new
          exact Or.inl ⟨rfl, new.symm⟩
      · rw [Function.update_of_ne same, ← implements.hands other held]
        constructor
        · intro either
          exact either.resolve_left fun own => same own.1
        · intro old
          exact Or.inr old
    · unfold DNSReplayProxy.pop
      rw [taken]
      exact List.nodup_cons.mpr ⟨idle, implements.once⟩
    · intro other holds
      by_cases same : other = worker
      · subst same
        exact Or.inr (Function.update_self _ _ _)
      · simp only [Function.update_of_ne same] at holds
        unfold safe_queue.Returns safe_queue.State.setConsumer
        simp only [Function.update_of_ne same]
        exact implements.busy other holds
    · exact implements.read
  · rw [waiting]
    exact List.cons_ne_nil _ _

theorem Implements.process_packet (implements : Implements target reads s proxy)
    {worker : Worker} {pkt sent : Bytes} (holds : s.packet worker = some pkt)
    (processed : process_packet_helper order target pkt = .ok sent) :
    ∃ after, Implements target reads
        { s with packet := Function.update s.packet worker none, sent := s.sent ++ [(pkt, sent)] }
        after ∧ proxy.process_packet order worker = .ok after := by
  have held := (implements.hands worker pkt).mpr holds
  rw [← implements.target] at processed
  obtain ⟨before, behind, split, finished⟩ := Pool.finish_of_mem implements.once held processed
  have once := implements.once
  have hands := implements.hands
  rw [split, List.map_append, List.map_cons] at once
  rw [split] at hands
  have apart : worker ∉ (before ++ behind).map Prod.fst := by
    rw [List.map_append]
    exact (List.nodup_middle.mp once).notMem
  refine ⟨{ proxy with pool := { proxy.pool with
    hands := before ++ behind
    finished := proxy.pool.finished ++ [(pkt, sent)] } }, ?_, ?_⟩
  · constructor
    · exact implements.target
    · exact implements.arrived
    · exact implements.queue
    · exact congrArg (· ++ [(pkt, sent)]) implements.finished
    · intro other item
      by_cases same : other = worker
      · subst same
        simp only [Function.update_self, reduceCtorEq, iff_false]
        exact fun member => apart (List.mem_map_of_mem (f := Prod.fst) member)
      · simp only [Function.update_of_ne same]
        rw [← hands other item, List.mem_append, List.mem_append, List.mem_cons, Prod.mk.injEq]
        constructor
        · intro either
          exact either.imp id Or.inr
        · intro either
          exact either.imp id fun rest => rest.resolve_left fun own => same own.1
    · simp only [List.map_append]
      exact (List.nodup_middle.mp once).of_cons
    · intro other holding
      apply implements.busy other
      by_cases same : other = worker
      · subst same
        exact absurd (Function.update_self _ _ _) holding
      · simp only [Function.update_of_ne same] at holding
        exact holding
    · exact implements.read
  · unfold DNSReplayProxy.process_packet
    rw [finished]

/-- Every step of a thread is one of the pool, or none. -/
theorem Implements.step (implements : Implements target reads s proxy)
    (step : Step order target spurious reads s next) :
    ∃ after, Implements target reads next after ∧ Moves order reads proxy after := by
  cases step with
  | read_packet pkt read runs =>
      refine ⟨proxy, { implements with read := ?_ }, .rests⟩
      intro other pushes
      rcases safe_queue.pushes_setProducer pushes with ⟨_reader, locking | waiting⟩ | before
      · cases locking
        exact read
      · cases waiting
      · exact implements.read other before
  | queue _ step within => exact implements.queue_step step within
  | call_pop worker runs idle =>
      refine ⟨proxy, { implements with busy := ?_ }, .rests⟩
      intro other holds
      have different : other ≠ worker := by
        intro same
        rw [same] at holds
        exact holds idle
      unfold safe_queue.Returns safe_queue.State.setConsumer
      simp only [Function.update_of_ne different]
      exact implements.busy other holds
  | pop worker pkt queue locks pops =>
      obtain ⟨kept, can⟩ := implements.pop locks pops
      exact ⟨proxy.pop worker, kept, .pops worker can⟩
  | process_packet worker pkt sent runs holds processed =>
      obtain ⟨after, kept, done⟩ := implements.process_packet holds processed
      refine ⟨after, kept, .processes worker after (implements.canFinish_iff.mpr ?_) done⟩
      rw [holds]
      exact Option.some_ne_none pkt

end ProxyThreads

end LDPlayer
