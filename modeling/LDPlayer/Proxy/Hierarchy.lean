/-
The emulated hierarchy: a recursive proxy, an authoritative one, and the server
between them.

The worker threads of a proxy are a pool of workers on its packet queue.  The
recursive server and the authoritative one are known by their packets only: the
queries of the first enter the tunnel of its proxy, and the second answers what
it receives to where it came from.
-/
import LDPlayer.Foundation.Runs
import LDPlayer.Foundation.WorkerPool
import LDPlayer.Proxy.Packet

set_option autoImplicit false

namespace LDPlayer

open OnesComplement WorkerPool

structure DNSReplayProxy (Worker : Type) where
  target_addr : InAddr
  pool : Pool Worker Bytes Bytes := {}

namespace DNSReplayProxy

variable {Worker : Type}

def new (a r : InAddr) (proxy_type : String) : Except Fault (DNSReplayProxy Worker) :=
  if proxy_type = "recursive" then .ok { target_addr := a }
  else if proxy_type = "authoritative" then .ok { target_addr := r }
  else .error (.exit ("[error] unknow proxy type [" ++ proxy_type ++ "]"))

def read_packet (pkt : Bytes) (proxy : DNSReplayProxy Worker) : DNSReplayProxy Worker :=
  { proxy with pool := proxy.pool.arrive pkt }

variable [DecidableEq Worker]

def pop (worker : Worker) (proxy : DNSReplayProxy Worker) : DNSReplayProxy Worker :=
  { proxy with pool := proxy.pool.take worker }

def process_packet (order : ByteOrder) (worker : Worker) (proxy : DNSReplayProxy Worker) :
    Except Fault (DNSReplayProxy Worker) :=
  match proxy.pool.finish (process_packet_helper order proxy.target_addr) worker with
  | .error fault => .error fault
  | .ok pool => .ok { proxy with pool := pool }

end DNSReplayProxy

namespace Packet

/-- What names an exchange on the wire; ports are in network order. -/
structure Tuple where
  protocol : UInt8
  src : InAddr
  sport : UInt8 × UInt8
  dst : InAddr
  dport : UInt8 × UInt8
  deriving DecidableEq, Repr

def tuple (pkt : Bytes) : Tuple :=
  { protocol := protocol pkt
    src := source pkt
    sport := (octet pkt 20, octet pkt 21)
    dst := destination pkt
    dport := (octet pkt 22, octet pkt 23) }

def Tuple.reverse (t : Tuple) : Tuple :=
  { protocol := t.protocol, src := t.dst, sport := t.dport, dst := t.src, dport := t.sport }

def Tuple.redirect (target : InAddr) (t : Tuple) : Tuple := { t with src := t.dst, dst := target }

/-- An unfragmented TCP or UDP packet with a header of 20 bytes. -/
structure Plain (pkt : Bytes) : Prop where
  wellFormed : WellFormed pkt
  header : header_length pkt = 20
  unfragmented : Unfragmented pkt
  carries : ∃ check, CarriesCheck pkt check

/-- A packet and what a proxy made of it: the tuple redirected, the transport
header and payload kept but for the checksum, which is right. -/
structure Forwarded (target : InAddr) (pkt sent : Bytes) : Prop where
  tuple : tuple sent = (Packet.tuple pkt).redirect target
  segment : ∀ check, check_offset (protocol pkt) = some check → ∀ index, 20 ≤ index →
    index ≠ 20 + check → index ≠ 20 + check + 1 → sent[index]? = pkt[index]?
  length : sent.length = pkt.length
  verifies : ∀ order, Verifies order (source sent) (destination sent) (protocol pkt)
    (sent.drop 20)

theorem Plain.unchanged {pkt sent : Bytes} {target : InAddr} (plain : Plain pkt)
    (exact : Exact target pkt sent) {check : Nat}
    (known : check_offset (protocol pkt) = some check) {index : Nat}
    (fixed : index < 10 ∨ (20 ≤ index ∧ index ≠ 20 + check ∧ index ≠ 20 + check + 1)) :
    sent[index]? = pkt[index]? := by
  apply exact.unchanged
  intro may
  rcases may with within | own
  · omega
  · obtain ⟨other, carries, place⟩ := own
    obtain rfl := Option.some.inj (known.symm.trans carries.1)
    rw [plain.header] at place
    omega

private theorem octet_congr {pkt sent : Bytes} {index : Nat} (same : sent[index]? = pkt[index]?) :
    octet sent index = octet pkt index := by
  unfold octet
  rw [List.getD_eq_getElem?_getD, List.getD_eq_getElem?_getD, same]

theorem Plain.forwarded (order : ByteOrder) (target : InAddr) {pkt : Bytes} (plain : Plain pkt) :
    ∃ sent, process_packet_helper order target pkt = .ok sent ∧ Forwarded target pkt sent := by
  obtain ⟨check, carries⟩ := plain.carries
  have rewritable : ∀ other, check_offset (protocol pkt) = some other →
      Rewritable target pkt other := by
    intro other known
    obtain rfl := Option.some.inj (carries.1.symm.trans known)
    have within := carries.2.2
    rw [plain.header] at within
    exact ⟨within, Or.inl ⟨plain.header, plain.unfragmented.1⟩⟩
  obtain ⟨sent, sends, exact⟩ := process_of_rewritable order plain.wellFormed rewritable
  obtain ⟨_even, behind, _known⟩ := check_offset_cases carries.1
  have kept (index : Nat) (place : index < 10 ∨ (20 ≤ index ∧ index < 26)) :
      octet sent index = octet pkt index :=
    octet_congr (plain.unchanged exact carries.1 (by omega))
  refine ⟨sent, sends, ?_, ?_, exact.length, ?_⟩
  · unfold tuple Tuple.redirect protocol
    rw [kept 9 (by omega), kept 20 (by omega), kept 21 (by omega), kept 22 (by omega),
      kept 23 (by omega), exact.source, exact.destination]
  · intro other known index transport first second
    exact plain.unchanged exact known (Or.inr ⟨transport, first, second⟩)
  · have valid := exact.valid plain.unfragmented check carries
    rw [plain.header] at valid
    exact valid

theorem Tuple.redirect_reverse_redirect (target : InAddr) (t : Tuple) :
    (t.redirect target).reverse.redirect t.src = t.reverse := rfl

theorem Tuple.redirect_inj {target : InAddr} {t u : Tuple} (client : t.src = u.src) :
    t.redirect target = u.redirect target ↔ t = u := by
  constructor
  · intro same
    cases t with
    | mk protocol src sport dst dport =>
        cases u with
        | mk protocol' src' sport' dst' dport' =>
            obtain ⟨rfl, rfl, rfl, _target, rfl⟩ := Tuple.mk.inj same
            obtain rfl : src = src' := client
            rfl
  · intro same
    rw [same]

theorem Tuple.reverse_inj {t u : Tuple} : t.reverse = u.reverse ↔ t = u := by
  constructor
  · intro same
    have back := congrArg Tuple.reverse same
    exact back
  · intro same
    rw [same]

end Packet

open Packet

structure Hierarchy (Worker Worker' : Type) where
  recursive : DNSReplayProxy Worker
  authoritative : DNSReplayProxy Worker'

namespace Hierarchy

inductive Event (Worker Worker' : Type) where
  | query (pkt : Bytes)
  | answer (pkt : Bytes)
  | recursive_pop (worker : Worker)
  | recursive_process (worker : Worker)
  | authoritative_pop (worker : Worker')
  | authoritative_process (worker : Worker')

def Event.OfWorker {Worker Worker' : Type} : Event Worker Worker' → Prop
  | .query _ => False
  | .answer _ => False
  | _ => True

def dns_port : UInt8 × UInt8 := (0, 53)

structure Query (r : InAddr) (pkt : Bytes) : Prop where
  plain : Plain pkt
  src : (tuple pkt).src = r
  dport : (tuple pkt).dport = dns_port

section model

variable {Worker Worker' : Type} [DecidableEq Worker] [DecidableEq Worker'] (order order' : ByteOrder)

/-- The recursive proxy runs on a host with the first byte order. -/
def step (h : Hierarchy Worker Worker') :
    Event Worker Worker' → Except Fault (Hierarchy Worker Worker')
  | .query pkt => .ok { h with recursive := h.recursive.read_packet pkt }
  | .answer pkt => .ok { h with authoritative := h.authoritative.read_packet pkt }
  | .recursive_pop worker => .ok { h with recursive := h.recursive.pop worker }
  | .recursive_process worker =>
      (h.recursive.process_packet order worker).map (fun proxy => { h with recursive := proxy })
  | .authoritative_pop worker => .ok { h with authoritative := h.authoritative.pop worker }
  | .authoritative_process worker =>
      (h.authoritative.process_packet order' worker).map
        (fun proxy => { h with authoritative := proxy })

/-- The servers: the one at `r` sends queries, and the other one answers what was
delivered to it, to where it came from.  Threads move when they can. -/
def admits (r : InAddr) (h : Hierarchy Worker Worker') : Event Worker Worker' → Prop
  | .query pkt => Query r pkt
  | .answer pkt => Plain pkt ∧
      ∃ asked ∈ h.recursive.pool.finished, tuple pkt = (tuple asked.2).reverse
  | .recursive_pop worker => h.recursive.pool.CanTake worker
  | .recursive_process worker => h.recursive.pool.CanFinish worker
  | .authoritative_pop worker => h.authoritative.pool.CanTake worker
  | .authoritative_process worker => h.authoritative.pool.CanFinish worker

def Initial (a r : InAddr) (h : Hierarchy Worker Worker') : Prop :=
  DNSReplayProxy.new a r "recursive" = .ok h.recursive ∧
    DNSReplayProxy.new a r "authoritative" = .ok h.authoritative

/-- What every run keeps: the accounts of both pools, and where their packets
came from. -/
structure Flows (a r : InAddr) (h : Hierarchy Worker Worker') : Prop where
  target : h.recursive.target_addr = a
  target' : h.authoritative.target_addr = r
  queries_accounted : h.recursive.pool.Accounted (process_packet_helper order a)
  answers_accounted : h.authoritative.pool.Accounted (process_packet_helper order' r)
  queries : ∀ pkt ∈ h.recursive.pool.arrived, Query r pkt
  answers : ∀ pkt ∈ h.authoritative.pool.arrived, Plain pkt ∧
    ∃ asked ∈ h.recursive.pool.finished, tuple pkt = (tuple asked.2).reverse

end model

section runs

variable {Worker Worker' : Type} {order order' : ByteOrder} {a r : InAddr} {h : Hierarchy Worker Worker'}

theorem Initial.flows (initial : Initial a r h) : Flows order order' a r h := by
  obtain ⟨recursive, authoritative⟩ := initial
  have first : h.recursive = { target_addr := a } := (Except.ok.inj recursive).symm
  have second : h.authoritative = { target_addr := r } := (Except.ok.inj authoritative).symm
  cases h with
  | mk recursive authoritative =>
      subst first second
      exact
        { target := rfl
          target' := rfl
          queries_accounted := Pool.accounted_empty
          answers_accounted := Pool.accounted_empty
          queries := fun pkt impossible => absurd impossible List.not_mem_nil
          answers := fun pkt impossible => absurd impossible List.not_mem_nil }

theorem Flows.queries_processed (flows : Flows order order' a r h) :
    ∀ pkt ∈ h.recursive.pool.arrived, ∃ sent, process_packet_helper order a pkt = .ok sent := by
  intro pkt arrived
  obtain ⟨sent, sends, _forwarded⟩ := (flows.queries pkt arrived).plain.forwarded order a
  exact ⟨sent, sends⟩

theorem Flows.answers_processed (flows : Flows order order' a r h) :
    ∀ pkt ∈ h.authoritative.pool.arrived,
      ∃ sent, process_packet_helper order' r pkt = .ok sent := by
  intro pkt arrived
  obtain ⟨sent, sends, _forwarded⟩ := (flows.answers pkt arrived).1.forwarded order' r
  exact ⟨sent, sends⟩

variable [DecidableEq Worker] [DecidableEq Worker']

theorem Flows.step (flows : Flows order order' a r h) {event : Event Worker Worker'}
    (admitted : h.admits r event) :
    ∃ next, Hierarchy.step order order' h event = .ok next ∧ Flows order order' a r next := by
  cases event with
  | query pkt =>
      refine ⟨_, rfl, flows.target, flows.target', flows.queries_accounted.arrive pkt,
        flows.answers_accounted, ?_, flows.answers⟩
      intro other member
      rcases List.mem_append.mp member with earlier | last
      · exact flows.queries other earlier
      · rw [List.mem_singleton.mp last]
        exact admitted
  | answer pkt =>
      refine ⟨_, rfl, flows.target, flows.target', flows.queries_accounted,
        flows.answers_accounted.arrive pkt, flows.queries, ?_⟩
      intro other member
      rcases List.mem_append.mp member with earlier | last
      · exact flows.answers other earlier
      · rw [List.mem_singleton.mp last]
        exact admitted
  | recursive_pop worker =>
      refine ⟨_, rfl, flows.target, flows.target', flows.queries_accounted.take worker,
        flows.answers_accounted, ?_, ?_⟩
      · intro pkt member
        apply flows.queries pkt
        rw [← h.recursive.pool.take_arrived worker]
        exact member
      · intro pkt member
        obtain ⟨plain, asked, finished, same⟩ := flows.answers pkt member
        refine ⟨plain, asked, ?_, same⟩
        change asked ∈ (h.recursive.pool.take worker).finished
        rw [Pool.take_finished]
        exact finished
  | recursive_process worker =>
      obtain ⟨pool, finished⟩ :=
        flows.queries_accounted.finish_ok flows.queries_processed worker
      obtain ⟨accounted, arrived⟩ := flows.queries_accounted.finish finished
      refine ⟨{ h with recursive := { h.recursive with pool := pool } }, ?_, flows.target,
        flows.target', accounted, flows.answers_accounted, ?_, ?_⟩
      · rw [← flows.target] at finished
        unfold Hierarchy.step DNSReplayProxy.process_packet
        simp only [finished]
        rfl
      · intro pkt member
        apply flows.queries pkt
        rw [← arrived]
        exact member
      · intro pkt member
        obtain ⟨plain, asked, earlier, same⟩ := flows.answers pkt member
        exact ⟨plain, asked, Pool.finish_keeps finished earlier, same⟩
  | authoritative_pop worker =>
      refine ⟨_, rfl, flows.target, flows.target', flows.queries_accounted,
        flows.answers_accounted.take worker, flows.queries, ?_⟩
      intro pkt member
      apply flows.answers pkt
      rw [← h.authoritative.pool.take_arrived worker]
      exact member
  | authoritative_process worker =>
      obtain ⟨pool, finished⟩ :=
        flows.answers_accounted.finish_ok flows.answers_processed worker
      obtain ⟨accounted, arrived⟩ := flows.answers_accounted.finish finished
      refine ⟨{ h with authoritative := { h.authoritative with pool := pool } }, ?_, flows.target,
        flows.target', flows.queries_accounted, accounted, flows.queries, ?_⟩
      · rw [← flows.target'] at finished
        unfold Hierarchy.step DNSReplayProxy.process_packet
        simp only [finished]
        rfl
      · intro pkt member
        apply flows.answers pkt
        rw [← arrived]
        exact member

end runs

section transparency

/-- What the two servers see.  A query goes from the server it was sent to on to
the one at `a`; its answer comes back from there, to the port that asked. -/
structure Transparent {Worker Worker' : Type} (a r : InAddr) (h : Hierarchy Worker Worker') :
    Prop where
  query : ∀ done ∈ h.recursive.pool.finished, Query r done.1 ∧ Forwarded a done.1 done.2 ∧
    tuple done.2 =
      { protocol := protocol done.1
        src := destination done.1
        sport := (tuple done.1).sport
        dst := a
        dport := dns_port }
  answer : ∀ done ∈ h.authoritative.pool.finished, Forwarded r done.1 done.2 ∧
    ∃ asked ∈ h.recursive.pool.finished,
      tuple done.1 = (tuple asked.2).reverse ∧ tuple done.2 = (tuple asked.1).reverse
  apart : ∀ asked ∈ h.recursive.pool.finished, ∀ other ∈ h.recursive.pool.finished,
    tuple asked.2 = tuple other.2 ↔ tuple asked.1 = tuple other.1
  matched : ∀ done ∈ h.authoritative.pool.finished, ∀ asked ∈ h.recursive.pool.finished,
    tuple done.2 = (tuple asked.1).reverse ↔ tuple done.1 = (tuple asked.2).reverse
  queries_once : (h.recursive.pool.finished.map Prod.fst ++ h.recursive.pool.pending).Perm
    h.recursive.pool.arrived
  answers_once : (h.authoritative.pool.finished.map Prod.fst ++ h.authoritative.pool.pending).Perm
    h.authoritative.pool.arrived

variable {Worker Worker' : Type} {order order' : ByteOrder} {a r : InAddr} {h : Hierarchy Worker Worker'}

theorem Flows.finished_query (flows : Flows order order' a r h) {done : Bytes × Bytes}
    (member : done ∈ h.recursive.pool.finished) :
    Query r done.1 ∧ Forwarded a done.1 done.2 := by
  have asked := flows.queries done.1 (flows.queries_accounted.finished_arrived member)
  obtain ⟨sent, sends, forwarded⟩ := asked.plain.forwarded order a
  obtain rfl := Except.ok.inj (sends.symm.trans (flows.queries_accounted.result done member))
  exact ⟨asked, forwarded⟩

theorem Flows.finished_answer (flows : Flows order order' a r h) {done : Bytes × Bytes}
    (member : done ∈ h.authoritative.pool.finished) :
    Forwarded r done.1 done.2 ∧
      ∃ asked ∈ h.recursive.pool.finished, tuple done.1 = (tuple asked.2).reverse := by
  obtain ⟨plain, asked⟩ := flows.answers done.1 (flows.answers_accounted.finished_arrived member)
  obtain ⟨sent, sends, forwarded⟩ := plain.forwarded order' r
  obtain rfl := Except.ok.inj (sends.symm.trans (flows.answers_accounted.result done member))
  exact ⟨forwarded, asked⟩

theorem Flows.apart (flows : Flows order order' a r h) {asked other : Bytes × Bytes}
    (member : asked ∈ h.recursive.pool.finished) (member' : other ∈ h.recursive.pool.finished) :
    tuple asked.2 = tuple other.2 ↔ tuple asked.1 = tuple other.1 := by
  obtain ⟨query, forwarded⟩ := flows.finished_query member
  obtain ⟨query', forwarded'⟩ := flows.finished_query member'
  rw [forwarded.tuple, forwarded'.tuple]
  exact Tuple.redirect_inj (query.src.trans query'.src.symm)

/-- The answer to what was delivered goes back to the port that asked. -/
theorem answer_reversed {asked done : Bytes × Bytes} (query : Query r asked.1)
    (out : Forwarded a asked.1 asked.2) (back : Forwarded r done.1 done.2)
    (answers : tuple done.1 = (tuple asked.2).reverse) :
    tuple done.2 = (tuple asked.1).reverse := by
  rw [back.tuple, answers, out.tuple]
  have reversed := Tuple.redirect_reverse_redirect a (tuple asked.1)
  rw [query.src] at reversed
  exact reversed

theorem Flows.transparent (flows : Flows order order' a r h) : Transparent a r h where
  query := by
    intro done member
    obtain ⟨query, forwarded⟩ := flows.finished_query member
    refine ⟨query, forwarded, ?_⟩
    rw [forwarded.tuple, ← query.dport]
    rfl
  answer := by
    intro done member
    obtain ⟨back, asked, finished, answers⟩ := flows.finished_answer member
    obtain ⟨query, out⟩ := flows.finished_query finished
    exact ⟨back, asked, finished, answers, answer_reversed query out back answers⟩
  apart := fun _asked member _other member' => flows.apart member member'
  matched := by
    intro done member asked finished
    obtain ⟨back, own, finished', answers⟩ := flows.finished_answer member
    obtain ⟨query, out⟩ := flows.finished_query finished
    obtain ⟨query', out'⟩ := flows.finished_query finished'
    constructor
    · intro same
      -- The tuple of the query is that of the one which was answered.
      have reversed := answer_reversed query' out' back answers
      have sameQuery := Tuple.reverse_inj.mp (reversed.symm.trans same)
      rw [answers, (flows.apart finished' finished).mpr sameQuery]
    · intro same
      exact answer_reversed query out back same
  queries_once := flows.queries_accounted.each
  answers_once := flows.answers_accounted.each

theorem Flows.proceeds (worker : Worker) (worker' : Worker')
    (some : h.recursive.pool.pending ≠ [] ∨ h.authoritative.pool.pending ≠ []) :
    ∃ event : Event Worker Worker', event.OfWorker ∧ h.admits r event := by
  rcases some with query | answer
  · rcases Pool.can_proceed worker query with can | can
    · obtain ⟨idle, can⟩ := can
      exact ⟨.recursive_pop idle, trivial, can⟩
    · obtain ⟨busy, can⟩ := can
      exact ⟨.recursive_process busy, trivial, can⟩
  · rcases Pool.can_proceed worker' answer with can | can
    · obtain ⟨idle, can⟩ := can
      exact ⟨.authoritative_pop idle, trivial, can⟩
    · obtain ⟨busy, can⟩ := can
      exact ⟨.authoritative_process busy, trivial, can⟩

variable [DecidableEq Worker] [DecidableEq Worker']

/-- Steps before all packets are sent on. -/
def rank (h : Hierarchy Worker Worker') : Nat := h.recursive.pool.rank + h.authoritative.pool.rank

private theorem process_packet_rank {proxy next : DNSReplayProxy Worker} {worker : Worker}
    (can : proxy.pool.CanFinish worker)
    (processed : proxy.process_packet order worker = .ok next) :
    next.pool.rank < proxy.pool.rank := by
  unfold DNSReplayProxy.process_packet at processed
  cases finished : proxy.pool.finish (process_packet_helper order proxy.target_addr) worker with
  | error fault =>
      rw [finished] at processed
      cases processed
  | ok pool =>
      rw [finished] at processed
      rw [← Except.ok.inj processed]
      exact Pool.finish_rank can finished

private theorem workers_rest :
    WellFounded (Runs.Leads (step order order')
      (admits r : Hierarchy Worker Worker' → Event Worker Worker' → Prop) Event.OfWorker) := by
  apply Runs.leads_wellFounded rank
  intro state event next kind admitted stepped
  unfold rank
  cases event with
  | query pkt => exact absurd kind id
  | answer pkt => exact absurd kind id
  | recursive_pop worker =>
      rw [← Except.ok.inj stepped]
      exact Nat.add_lt_add_right (Pool.take_rank admitted) _
  | recursive_process worker =>
      obtain ⟨proxy, processed, rfl⟩ := of_map_eq_ok stepped
      exact Nat.add_lt_add_right (process_packet_rank admitted processed) _
  | authoritative_pop worker =>
      rw [← Except.ok.inj stepped]
      exact Nat.add_lt_add_left (Pool.take_rank admitted) _
  | authoritative_process worker =>
      obtain ⟨proxy, processed, rfl⟩ := of_map_eq_ok stepped
      exact Nat.add_lt_add_left (process_packet_rank admitted processed) _

/-- Whatever the servers send and in whatever order the threads of the proxies
work, every packet is on its way or was delivered, once and as the exchange has
it; no thread fails or waits in front of a packet, and all come to rest. -/
theorem hierarchy_transparent (order order' : ByteOrder) (a r : InAddr)
    {start final : Hierarchy Worker Worker'} {events : List (Event Worker Worker')}
    (initial : Initial a r start)
    (run : Runs.Run (step order order') (admits r) start events final) :
    Transparent a r final ∧
      (∀ event, final.admits r event → ∃ next, step order order' final event = .ok next) ∧
      (∀ (_worker : Worker) (_worker' : Worker'), final.recursive.pool.pending ≠ [] ∨
          final.authoritative.pool.pending ≠ [] →
        ∃ event : Event Worker Worker', event.OfWorker ∧ final.admits r event) ∧
      WellFounded (Runs.Leads (step order order')
        (admits r : Hierarchy Worker Worker' → Event Worker Worker' → Prop) Event.OfWorker) := by
  have flows : Flows order order' a r final := by
    apply run.invariant_of_progress _ initial.flows
    intro state event flows admitted
    exact flows.step admitted
  refine ⟨flows.transparent, ?_,
    fun worker worker' some => Flows.proceeds worker worker' some, workers_rest⟩
  intro event admitted
  obtain ⟨next, stepped, _flows⟩ := flows.step admitted
  exact ⟨next, stepped⟩

def plain_answer : Bytes :=
  [69, 0, 0, 32, 0, 1, 0, 0, 64, 17, 0, 0, 10, 0, 0, 9, 192, 0, 2, 1] ++
    [0, 53, 48, 57, 0, 12, 171, 205, 5, 6, 7, 8]

/-- One query and its answer. -/
theorem hierarchy_transparent_exchange :
    ∃ final : Hierarchy Unit Unit, final.recursive.pool.finished.map Prod.fst = [plain_query] ∧
      final.authoritative.pool.finished.map Prod.fst = [plain_answer] ∧
      Transparent ⟨10, 0, 0, 9⟩ ⟨10, 0, 0, 2⟩ final := by
  have query : Plain plain_query :=
    ⟨by decide, rfl, ⟨rfl, rfl⟩, 6, rfl, rfl, by decide⟩
  have answer : Plain plain_answer :=
    ⟨by decide, rfl, ⟨rfl, rfl⟩, 6, rfl, rfl, by decide⟩
  obtain ⟨sent, sends, forwarded⟩ := query.forwarded .little ⟨10, 0, 0, 9⟩
  obtain ⟨returned, returns, _back⟩ := answer.forwarded .little ⟨10, 0, 0, 2⟩
  have answers : tuple plain_answer = (tuple sent).reverse := by
    rw [forwarded.tuple]
    rfl
  let proxies (queries answers : Pool Unit Bytes Bytes) : Hierarchy Unit Unit :=
    { recursive := { target_addr := ⟨10, 0, 0, 9⟩, pool := queries }
      authoritative := { target_addr := ⟨10, 0, 0, 2⟩, pool := answers } }
  let asked : Pool Unit Bytes Bytes :=
    { arrived := [plain_query], finished := [(plain_query, sent)] }
  let answered : Pool Unit Bytes Bytes :=
    { arrived := [plain_answer], finished := [(plain_answer, returned)] }
  have ask : step .little .little
      (proxies { arrived := [plain_query], hands := [((), plain_query)] } {})
      (.recursive_process ()) = .ok (proxies asked {}) := by
    unfold step DNSReplayProxy.process_packet
    simp only [proxies]
    rw [Pool.finish_held rfl sends]
    rfl
  have reply : step .little .little
      (proxies asked { arrived := [plain_answer], hands := [((), plain_answer)] })
      (.authoritative_process ()) = .ok (proxies asked answered) := by
    unfold step DNSReplayProxy.process_packet
    simp only [proxies]
    rw [Pool.finish_held rfl returns]
    rfl
  have run : Runs.Run (step .little .little) (admits ⟨10, 0, 0, 2⟩) (proxies {} {})
      [.query plain_query, .recursive_pop (), .recursive_process (), .answer plain_answer,
        .authoritative_pop (), .authoritative_process ()] (proxies asked answered) := by
    have held : () ∈ [()] := List.mem_cons_self
    exact .next ⟨query, rfl, rfl⟩ rfl (.next ⟨List.not_mem_nil, List.cons_ne_nil _ _⟩ rfl
      (.next held ask (.next ⟨answer, (plain_query, sent), List.mem_cons_self, answers⟩ rfl
        (.next ⟨List.not_mem_nil, List.cons_ne_nil _ _⟩ rfl (.next held reply (.done _))))))
  exact ⟨proxies asked answered, rfl, rfl,
    (hierarchy_transparent .little .little ⟨10, 0, 0, 9⟩ ⟨10, 0, 0, 2⟩ ⟨rfl, rfl⟩ run).1⟩

end transparency

end Hierarchy

end LDPlayer
