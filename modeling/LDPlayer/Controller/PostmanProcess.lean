/-
The postman as a whole: clients come and go while the input is being dealt.

Accepts, disconnects and pieces of the reader's stream come in any order.  Every
connection is followed with what has been written to it, also after it was closed,
and a descriptor that is used again belongs to another connection.
-/
import LDPlayer.Client.WorkerProcess
import LDPlayer.Controller.PostmanHandles
import LDPlayer.Controller.Distribution
import LDPlayer.Foundation.Sessions

set_option autoImplicit false

namespace LDPlayer

open LengthPrefix Text HashTable Sessions

/-- A connection that was accepted, and the messages it was written. -/
structure Conn where
  fd : Fd
  bev : Ptr
  session : Session
  written : List Bytes := []

namespace Conn

def isOpen (conn : Conn) : Bool := conn.session.closed.isNone

def receive (written : Written) (conn : Conn) : Conn :=
  if conn.isOpen then
    { conn with written := conn.written ++ Sharing.addressed conn.bev written }
  else conn

def close (fd : Fd) (count : Nat) (conn : Conn) : Conn :=
  if conn.isOpen ∧ conn.fd = fd then
    { conn with session := { conn.session with closed := some count } }
  else conn

end Conn

/-- Nothing reads `conns`, all the connections in the order of their accepts, and
`handled`, the messages that were dealt. -/
structure PostmanProcess extends Controller where
  conns : List Conn := []
  handled : List DNSMsg := []

namespace PostmanProcess

def accept_conn_cb (fd : Fd) (bev : Ptr) (p : PostmanProcess) : PostmanProcess :=
  { p with
    postman := p.postman.accept_conn_cb fd bev
    open_conns := p.open_conns.insert fd bev
    conns := p.conns ++ [{ fd := fd, bev := bev, session := { opened := p.handled.length } }] }

def client_bevent_cb (fd : Fd) (p : PostmanProcess) : Except Fault PostmanProcess :=
  match p.toController.step (.disconnect fd) with
  | .error fault => .error fault
  | .ok controller =>
      .ok { toController := controller
            conns := p.conns.map (Conn.close fd p.handled.length)
            handled := p.handled }

def wrote (msg : DNSMsg) (postman : Postman) (written : Written) (p : PostmanProcess) :
    PostmanProcess :=
  { p with
    postman := postman
    conns := p.conns.map (Conn.receive written)
    handled := if msg.raw = [] then p.handled else p.handled ++ [msg] }

def skt_message (codec : Codec) (draws : Nat → Nat) (p : PostmanProcess) (payload : Bytes) :
    Except Fault PostmanProcess :=
  match p.postman.skt_message codec draws payload with
  | .error fault => .error fault
  | .ok (postman, written) => .ok (p.wrote (codec.ParseFromArray payload) postman written)

inductive Event where
  | accept_conn_cb (fd : Fd) (bev : Ptr)
  | client_bevent_cb (fd : Fd)
  | skt_read_cb (data : Bytes)
  deriving DecidableEq, Repr

def Event.data : Event → Bytes
  | .skt_read_cb data => data
  | _ => []

def step (codec : Codec) (draws : Nat → Nat) (reader : Bytes × PostmanProcess) :
    Event → Except Fault (Bytes × PostmanProcess)
  | .accept_conn_cb fd bev => .ok (reader.1, reader.2.accept_conn_cb fd bev)
  | .client_bevent_cb fd => (reader.2.client_bevent_cb fd).map (fun p => (reader.1, p))
  | .skt_read_cb data => readChunk (doWhileLoop (skt_message codec draws)) reader data

/-- An accept has a descriptor that is not open and a bufferevent of no open
connection, and a disconnect comes from an open one. -/
def admits (reader : Bytes × PostmanProcess) : Event → Prop
  | .accept_conn_cb fd bev =>
      fd ∉ reader.2.open_conns ∧ bev ≠ NULL ∧ bev ∉ reader.2.open_conns.values
  | .client_bevent_cb fd => fd ∈ reader.2.open_conns
  | .skt_read_cb _ => True

instance (reader : Bytes × PostmanProcess) (event : Event) : Decidable (admits reader event) :=
  match event with
  | .accept_conn_cb fd bev =>
      inferInstanceAs (Decidable (fd ∉ reader.2.open_conns ∧ bev ≠ NULL ∧
        bev ∉ reader.2.open_conns.values))
  | .client_bevent_cb fd => inferInstanceAs (Decidable (fd ∈ reader.2.open_conns))
  | .skt_read_cb _ => inferInstanceAs (Decidable True)

abbrev Run (codec : Codec) (draws : Nat → Nat) :
    Bytes × PostmanProcess → List Event → Bytes × PostmanProcess → Prop :=
  Runs.Run (step codec draws) admits

/-! ### The invariant -/

def Wrote (codec : Codec) (msg : DNSMsg) (text : Bytes) : Prop :=
  codec.SerializeToString msg = some text

/-- What a connection is due: the announcement of the first message, if it was open
then, and its share of the messages. -/
def dueTo (p : PostmanProcess) (s : State Bytes) (n : Nat) (session : Session) : List DNSMsg :=
  due (DNSMsg.set_sync_time · true) (DNSMsg.set_sync_time · false) p.handled s.dealt n session

/-- The process deals its messages as the sessions do. -/
structure Tracks (codec : Codec) (draws : Nat → Nat) (p : PostmanProcess) (s : State Bytes) :
    Prop where
  consistent : p.toController.Consistent
  distinct : p.open_conns.OneKey
  below : p.postman.DrawsBelow draws
  steps : Steps {} s
  sessions : s.sessions = p.conns.map Conn.session
  dealt : s.dealt.map Prod.fst = p.handled.map (fun msg => cString msg.src_ip)
  open_conns : ∀ fd bev, p.open_conns.lookup fd = some bev ↔
    ∃ conn ∈ p.conns, conn.isOpen = true ∧ conn.fd = fd ∧ conn.bev = bev
  one : ∀ (n m : Nat) conn other, p.conns[n]? = some conn → p.conns[m]? = some other →
    conn.isOpen = true → other.isOpen = true → conn.fd = other.fd → n = m
  current : ∀ source n, s.current source = some n → ∃ conn, p.conns[n]? = some conn ∧
    conn.isOpen = true ∧ p.postman.client_src2fd.lookup source = some conn.fd
  client_fds : p.postman.client_fds = p.conns.map Conn.fd
  announced : p.postman.done_sync_time = true ↔ p.handled ≠ []
  mapped : ∀ ip fd, p.postman.client_src2fd.lookup ip = some fd → fd ∈ p.first_clients
  early : ∀ source n, (source, n) ∈ s.dealt →
    ∃ conn, p.conns[n]? = some conn ∧ conn.fd ∈ p.first_clients
  written : ∀ (n : Nat) conn, p.conns[n]? = some conn →
    List.Forall₂ (Wrote codec) (p.dueTo s n conn.session) conn.written

section tracks

variable {codec : Codec} {draws : Nat → Nat} {p next : PostmanProcess} {s : State Bytes}

theorem Tracks.fair (tracks : Tracks codec draws p s) : Fair s := tracks.steps.fair fair_start

theorem Tracks.together (tracks : Tracks codec draws p s) : p.handled.length = s.dealt.length := by
  have same := congrArg List.length tracks.dealt
  rw [List.length_map, List.length_map] at same
  exact same.symm

theorem Tracks.session_of (tracks : Tracks codec draws p s) {n : Nat} {conn : Conn}
    (found : p.conns[n]? = some conn) : s.sessions[n]? = some conn.session := by
  rw [tracks.sessions, List.getElem?_map, found]
  rfl

theorem isOpen_iff {conn : Conn} : conn.isOpen = true ↔ conn.session.closed = none :=
  Option.isNone_iff_eq_none

theorem Tracks.isOpen (tracks : Tracks codec draws p s) {n : Nat} {conn : Conn}
    (found : p.conns[n]? = some conn) (isOpen : conn.isOpen = true) : s.Open n :=
  ⟨conn.session, tracks.session_of found, isOpen_iff.mp isOpen⟩

theorem Tracks.open_conn (tracks : Tracks codec draws p s) {fd : Fd} {bev : Ptr}
    (found : p.open_conns.lookup fd = some bev) :
    ∃ (n : Nat) (conn : Conn), p.conns[n]? = some conn ∧ conn.isOpen = true ∧ conn.fd = fd ∧
      conn.bev = bev := by
  obtain ⟨conn, member, rest⟩ := (tracks.open_conns fd bev).mp found
  obtain ⟨n, is⟩ := List.mem_iff_getElem?.mp member
  exact ⟨n, conn, is, rest⟩

theorem was_at {f : Conn → Conn} {n : Nat} {conn : Conn} (found : (p.conns.map f)[n]? = some conn) :
    ∃ before, p.conns[n]? = some before ∧ f before = conn := by
  rw [List.getElem?_map] at found
  exact Option.map_eq_some_iff.mp found

theorem is_at {n : Nat} {conn : Conn} (f : Conn → Conn) (found : p.conns[n]? = some conn) :
    (p.conns.map f)[n]? = some (f conn) := by
  rw [List.getElem?_map, found]
  rfl

private theorem initial_tracks (initial : p.toController.Initial) (none_yet : p.conns = [])
    (none_handled : p.handled = []) (below : p.postman.DrawsBelow draws) :
    Tracks codec draws p {} := by
  have consistent := initial.consistent
  obtain ⟨none_open, files, listen_ip, listen_port, n, f, made⟩ := initial
  obtain ⟨_bevs, owners, _lists, fds, _waiting, unsynced, _some_client⟩ :=
    Postman.new_members made
  have no_lookup : ∀ fd bev, p.open_conns.lookup fd ≠ some bev := by
    intro fd bev found
    rw [none_open] at found
    cases found
  exact
    { consistent := consistent
      distinct := fun fd _other bev found => absurd found (no_lookup fd bev)
      below := below
      steps := .refl
      sessions := by
        rw [none_yet]
        rfl
      dealt := by
        rw [none_handled]
        rfl
      open_conns := by
        intro fd bev
        refine iff_of_false (no_lookup fd bev) ?_
        rintro ⟨conn, member, _rest⟩
        rw [none_yet] at member
        cases member
      one := by
        intro n _m conn _other found
        rw [none_yet] at found
        cases found
      current := by
        intro _source _n impossible
        cases impossible
      client_fds := by
        rw [fds, none_yet]
        rfl
      announced := by
        rw [unsynced, none_handled]
        exact iff_of_false Bool.false_ne_true (fun absent => absent rfl)
      mapped := by
        intro ip fd found
        rw [owners] at found
        cases found
      early := by
        intro _source _n impossible
        cases impossible
      written := by
        intro n conn found
        rw [none_yet] at found
        cases found }

/-! ### Accepts -/

theorem Tracks.accept (tracks : Tracks codec draws p s) {fd : Fd} {bev : Ptr}
    (closed : fd ∉ p.open_conns) (live : bev ≠ NULL) (unused : bev ∉ p.open_conns.values) :
    Tracks codec draws (p.accept_conn_cb fd bev) s.opens := by
  obtain ⟨_bevs, _lists, owners⟩ := Controller.accept_conn_cb_tables fd bev p.postman
  obtain ⟨fds, count, filter, flag, _start⟩ := Controller.accept_conn_cb_members fd bev p.postman
  have absent : ∀ conn ∈ p.conns, conn.isOpen = true → conn.fd ≠ fd := by
    intro conn member isOpen same
    exact closed (mem_iff_lookup.mpr
      ⟨conn.bev, (tracks.open_conns fd conn.bev).mpr ⟨conn, member, isOpen, same, rfl⟩⟩)
  have keeps : ∀ {n : Nat} {conn : Conn}, p.conns[n]? = some conn →
      (p.accept_conn_cb fd bev).conns[n]? = some conn := fun found =>
    (List.getElem?_append_left (List.getElem?_eq_some_iff.mp found).1).trans found
  have first : ∀ {other : Fd}, other ∈ p.first_clients →
      other ∈ (p.accept_conn_cb fd bev).first_clients := by
    intro other member
    unfold Controller.first_clients at member ⊢
    change other ∈ List.take _ (p.postman.accept_conn_cb fd bev).client_fds
    rw [fds]
    change other ∈ List.take (p.postman.accept_conn_cb fd bev).num_clients _
    rw [count, List.take_append]
    exact List.mem_append_left _ member
  exact
    { consistent := tracks.consistent.accept closed live
      distinct := tracks.distinct.insert
        (fun other found => unused (mem_values.mpr ⟨other, found⟩))
      below := tracks.below.of_same filter count
      steps := tracks.steps.tail (.opens s)
      sessions := by
        change s.sessions ++ [_] = (p.conns ++ [_]).map Conn.session
        rw [List.map_append, tracks.sessions, ← tracks.together]
        rfl
      dealt := tracks.dealt
      open_conns := by
        intro other image
        constructor
        · intro found
          rcases lookup_insert_cases found with ⟨rfl, rfl⟩ | before
          · exact ⟨_, List.mem_append_right _ List.mem_cons_self, rfl, rfl, rfl⟩
          · obtain ⟨conn, member, rest⟩ := (tracks.open_conns other image).mp before
            exact ⟨conn, List.mem_append_left _ member, rest⟩
        · rintro ⟨conn, member, isOpen, rfl, rfl⟩
          rcases List.mem_append.mp member with old | new
          · exact (AList.lookup_insert_ne (absent conn old isOpen)).trans
              ((tracks.open_conns conn.fd conn.bev).mpr ⟨conn, old, isOpen, rfl, rfl⟩)
          · rw [List.mem_singleton.mp new]
            exact AList.lookup_insert _
      one := by
        intro n m conn other atN atM isOpen alsoOpen same
        rcases getElem?_concat_cases atN with oldN | ⟨rfl, rfl⟩
        · rcases getElem?_concat_cases atM with oldM | ⟨_last, rfl⟩
          · exact tracks.one n m conn other oldN oldM isOpen alsoOpen same
          · exact absurd same (absent conn (List.mem_of_getElem? oldN) isOpen)
        · rcases getElem?_concat_cases atM with oldM | ⟨rfl, _new⟩
          · exact absurd same.symm (absent other (List.mem_of_getElem? oldM) alsoOpen)
          · rfl
      current := by
        intro source n current
        obtain ⟨conn, found, isOpen, mapped⟩ := tracks.current source n current
        refine ⟨conn, keeps found, isOpen, ?_⟩
        change (p.postman.accept_conn_cb fd bev).client_src2fd.lookup source = _
        rw [owners]
        exact mapped
      client_fds := by
        change (p.postman.accept_conn_cb fd bev).client_fds = (p.conns ++ [_]).map Conn.fd
        rw [fds, List.map_append, tracks.client_fds]
        rfl
      announced := by
        change (p.postman.accept_conn_cb fd bev).done_sync_time = true ↔ _
        rw [flag]
        exact tracks.announced
      mapped := by
        intro ip other mapped
        change (p.postman.accept_conn_cb fd bev).client_src2fd.lookup ip = _ at mapped
        rw [owners] at mapped
        exact first (tracks.mapped ip other mapped)
      early := by
        intro source n dealt
        obtain ⟨conn, found, member⟩ := tracks.early source n dealt
        exact ⟨conn, keeps found, first member⟩
      written := by
        intro n conn found
        rcases getElem?_concat_cases found with old | ⟨rfl, rfl⟩
        · exact tracks.written n conn old
        · have none_dealt : ∀ pair ∈ s.dealt, pair.2 ≠ p.conns.length := by
            rintro ⟨source, n⟩ member rfl
            obtain ⟨conn, found, _member⟩ := tracks.early source _ member
            rw [List.getElem?_eq_none (Nat.le_refl _)] at found
            cases found
          have nothing : p.dueTo s p.conns.length { opened := p.handled.length } = [] :=
            due_opened _ _ none_dealt
          change List.Forall₂ _ (p.dueTo s p.conns.length { opened := p.handled.length }) []
          rw [nothing]
          exact .nil }

/-! ### Disconnects -/

private theorem close_fd (fd : Fd) (count : Nat) (conn : Conn) :
    (conn.close fd count).fd = conn.fd := by
  unfold Conn.close
  split
  · rfl
  · rfl

private theorem close_written (fd : Fd) (count : Nat) (conn : Conn) :
    (conn.close fd count).written = conn.written := by
  unfold Conn.close
  split
  · rfl
  · rfl

theorem close_hit {fd : Fd} {count : Nat} {conn : Conn} (hit : conn.isOpen = true ∧ conn.fd = fd) :
    (conn.close fd count).session = { conn.session with closed := some count } := by
  unfold Conn.close
  rw [if_pos hit]

theorem close_other {fd : Fd} {count : Nat} {conn : Conn}
    (other : ¬ (conn.isOpen = true ∧ conn.fd = fd)) : conn.close fd count = conn :=
  if_neg other

private theorem close_isOpen {fd : Fd} {count : Nat} {conn : Conn} :
    (conn.close fd count).isOpen = true ↔ conn.isOpen = true ∧ conn.fd ≠ fd := by
  by_cases hit : conn.isOpen = true ∧ conn.fd = fd
  · rw [isOpen_iff, close_hit hit]
    exact iff_of_false (Option.some_ne_none count) (fun both => both.2 hit.2)
  · rw [close_other hit]
    constructor
    · exact fun isOpen => ⟨isOpen, fun same => hit ⟨isOpen, same⟩⟩
    · exact And.left

theorem Tracks.disconnect (tracks : Tracks codec draws p s) {fd : Fd}
    (connected : fd ∈ p.open_conns)
    (ran : p.client_bevent_cb fd = .ok next) :
    ∃ n, s.Open n ∧ Tracks codec draws next (s.closes n) ∧ next.handled = p.handled := by
  obtain ⟨bev, found⟩ := mem_iff_lookup.mp connected
  obtain ⟨n, gone, atN, isOpen, rfl, _bev⟩ := tracks.open_conn found
  obtain ⟨ips, listed, left⟩ := tracks.consistent.client_bevent_cb connected
  have stepped : p.toController.step (.disconnect gone.fd) = .ok
      { postman :=
          { p.postman with
            client_fd2bev := p.postman.client_fd2bev.erase gone.fd
            client_src2fd := p.postman.client_src2fd.eraseAll ips
            client_fd2src := p.postman.client_fd2src.erase gone.fd }
        open_conns := p.open_conns.erase gone.fd } := by
    simp only [Controller.step, left]
  unfold client_bevent_cb at ran
  rw [stepped] at ran
  rw [← Except.ok.inj ran]
  -- only the connection behind the descriptor is open and has it
  have other_conn : ∀ {m : Nat} {conn : Conn}, p.conns[m]? = some conn → m ≠ n →
      ¬ (conn.isOpen = true ∧ conn.fd = gone.fd) := by
    rintro m conn atM different ⟨alsoOpen, same⟩
    exact different (tracks.one m n conn gone atM atN alsoOpen isOpen same)
  refine ⟨n, tracks.isOpen atN isOpen, ?_, rfl⟩
  exact
    { consistent := tracks.consistent.disconnect connected stepped
      distinct := tracks.distinct.erase gone.fd
      below := tracks.below.of_same rfl rfl
      steps := tracks.steps.tail (.closes (tracks.isOpen atN isOpen))
      sessions := by
        apply List.ext_getElem?
        intro m
        rw [State.closes_sessions, tracks.sessions, List.getElem?_map, List.getElem?_map,
          List.getElem?_map]
        by_cases same : n = m
        · rw [if_pos same, ← same, atN, ← tracks.together]
          exact congrArg some (close_hit ⟨isOpen, rfl⟩).symm
        · rw [if_neg same]
          cases atM : p.conns[m]? with
          | none => rfl
          | some conn =>
              rw [Option.map_some, Option.map_some, Option.map_some,
                close_other (other_conn atM (Ne.symm same))]
      dealt := tracks.dealt
      open_conns := by
        intro other image
        change (p.open_conns.erase gone.fd).lookup other = some image ↔ _
        rw [lookup_erase_eq]
        constructor
        · intro after
          split at after
          · cases after
          · rename_i different
            obtain ⟨conn, member, alsoOpen, rfl, rfl⟩ := (tracks.open_conns other image).mp after
            refine ⟨conn, List.mem_map.mpr ⟨conn, member, ?_⟩, alsoOpen, rfl, rfl⟩
            exact close_other (fun both => different both.2)
        · rintro ⟨conn, member, alsoOpen, rfl, rfl⟩
          obtain ⟨before, old, rfl⟩ := List.mem_map.mp member
          obtain ⟨wasOpen, different⟩ := close_isOpen.mp alsoOpen
          rw [close_other (fun both => different both.2), if_neg different]
          exact (tracks.open_conns before.fd before.bev).mpr ⟨before, old, wasOpen, rfl, rfl⟩
      one := by
        intro m l conn other atM atL alsoOpen otherOpen same
        obtain ⟨before, wasM, rfl⟩ := was_at atM
        obtain ⟨behind, wasL, rfl⟩ := was_at atL
        rw [close_fd, close_fd] at same
        exact tracks.one m l before behind wasM wasL (close_isOpen.mp alsoOpen).1
          (close_isOpen.mp otherOpen).1 same
      current := by
        intro source m current
        change (if s.current source = some n then none else s.current source) = some m at current
        split at current
        · cases current
        · rename_i different
          obtain ⟨conn, atM, alsoOpen, mapped⟩ := tracks.current source m current
          have apart : conn.fd ≠ gone.fd := by
            intro same
            apply different
            rw [current, tracks.one m n conn gone atM atN alsoOpen isOpen same]
          refine ⟨_, is_at _ atM, close_isOpen.mpr ⟨alsoOpen, apart⟩, ?_⟩
          change (p.postman.client_src2fd.eraseAll ips).lookup source = _
          rw [tracks.consistent.grouped.lookup_leave listed, mapped, close_fd, if_neg]
          exact fun same => apart (Option.some.inj same)
      client_fds := by
        change p.postman.client_fds = (p.conns.map _).map Conn.fd
        rw [tracks.client_fds, List.map_map]
        exact List.map_congr_left (fun conn _member => (close_fd _ _ conn).symm)
      announced := tracks.announced
      mapped := by
        intro ip other mapped
        change (p.postman.client_src2fd.eraseAll ips).lookup ip = _ at mapped
        rw [tracks.consistent.grouped.lookup_leave listed] at mapped
        split at mapped
        · cases mapped
        · exact tracks.mapped ip other mapped
      early := by
        intro source m dealt
        obtain ⟨conn, atM, member⟩ := tracks.early source m dealt
        exact ⟨_, is_at _ atM, (close_fd _ _ conn).symm ▸ member⟩
      written := by
        intro m conn atM
        obtain ⟨before, wasM, rfl⟩ := was_at atM
        have earlier := tracks.written m before wasM
        rw [close_written]
        by_cases hit : before.isOpen = true ∧ before.fd = gone.fd
        · have same : p.dueTo s m (before.close gone.fd p.handled.length).session =
              p.dueTo s m before.session := by
            rw [close_hit hit]
            exact due_closed _ _ (isOpen_iff.mp hit.1)
          exact same ▸ earlier
        · rw [close_other hit]
          exact earlier }

/-! ### Messages -/

theorem serialize_wrote {failure : String} {msg : DNSMsg} {text : Bytes}
    (ran : codec.serialize failure msg = .ok text) : Wrote codec msg text := by
  unfold Codec.serialize at ran
  split at ran
  · cases ran
  · rename_i msg_str serialized
    split at ran
    · cases ran
    · rw [← Except.ok.inj ran]
      exact serialized

theorem Tracks.sync_clients (tracks : Tracks codec draws p s) {msg : DNSMsg} {synced : Postman}
    {broadcast : Written} (ran : p.postman.sync_clients codec msg = .ok (synced, broadcast)) :
    synced = { p.postman with done_sync_time := true } ∧
      ∀ fd bev, p.open_conns.lookup fd = some bev → List.Forall₂ (Wrote codec)
        (if p.handled = [] then [msg.set_sync_time true] else [])
        (Sharing.addressed bev broadcast) := by
  unfold Postman.sync_clients at ran
  split at ran
  · rename_i done
    obtain ⟨rfl, rfl⟩ := Prod.mk.inj (Except.ok.inj ran)
    constructor
    · rw [← done]
    · intro fd bev _found
      rw [if_neg (tracks.announced.mp done)]
      exact .nil
  · rename_i unsynced
    split at ran
    · cases ran
    · rename_i text serialized
      obtain ⟨rfl, rfl⟩ := Prod.mk.inj (Except.ok.inj ran)
      refine ⟨rfl, ?_⟩
      intro fd bev found
      have first : p.handled = [] := by
        by_contra some_message
        exact unsynced (tracks.announced.mpr some_message)
      have distinct : p.postman.client_fd2bev.OneKey := by
        intro key other value atKey atOther
        rw [tracks.consistent.bevs] at atKey atOther
        exact tracks.distinct key other value atKey atOther
      have listed : bev ∈ p.postman.client_fd2bev.values :=
        mem_values.mpr ⟨fd, (tracks.consistent.bevs fd).trans found⟩
      rw [if_pos first, Sharing.addressed_broadcast distinct.values_nodup, if_pos listed]
      exact .cons (serialize_wrote serialized) .nil

/-- The source was sent to the client with this descriptor, which is one of the first. -/
structure SentTo (c : Controller) (ip : Bytes) (fd : Fd) (q : Postman) : Prop where
  consistent : Controller.Consistent { c with postman := q }
  first : fd ∈ c.first_clients
  mapped : ∀ other, q.client_src2fd.lookup other =
    if other = ip then some fd else c.postman.client_src2fd.lookup other
  stays : ∀ other, c.postman.client_src2fd.lookup ip = some other → other = fd
  client_fds : q.client_fds = c.postman.client_fds
  num_clients : q.num_clients = c.postman.num_clients
  client_filter : q.client_filter = c.postman.client_filter
  done_sync_time : q.done_sync_time = c.postman.done_sync_time

private theorem sent_to {c : Controller} (consistent : c.Consistent)
    (below : c.postman.DrawsBelow draws)
    (mapped_first : ∀ ip fd, c.postman.client_src2fd.lookup ip = some fd → fd ∈ c.first_clients)
    {src_ip : Bytes} {count : Nat} {bev : Ptr} {q : Postman}
    (routed : c.postman.route src_ip (draws count) = .ok (bev, q)) :
    ∃ fd, c.open_conns.lookup fd = some bev ∧ SentTo c (cString src_ip) fd q := by
  obtain ⟨fd, found, ⟨mapped, same⟩ | ⟨fresh, nonneg, drawn, same⟩⟩ :=
    consistent.route_cases routed
  · refine ⟨fd, found, ?_⟩
    rw [same]
    exact
      { consistent := consistent
        first := mapped_first _ fd mapped
        mapped := by
          intro other
          split
          · rename_i own
            rw [own]
            exact mapped
          · rfl
        stays := fun other also => Option.some.inj (also.symm.trans mapped)
        client_fds := rfl
        num_clients := rfl
        client_filter := rfl
        done_sync_time := rfl }
  · refine ⟨fd, found, ?_⟩
    rw [same]
    exact
      { consistent := consistent.map_source fresh (mem_iff_lookup.mpr ⟨bev, found⟩)
        first := by
          have first : (c.postman.client_idx (draws count)).toNat < c.postman.num_clients := by
            have bound := below count
            omega
          exact List.mem_of_getElem? ((List.getElem?_take_of_lt first).trans drawn)
        mapped := fun _other => lookup_insert_eq
        stays := by
          intro other also
          rw [notMem_iff_lookup.mp fresh] at also
          cases also
        client_fds := rfl
        num_clients := rfl
        client_filter := rfl
        done_sync_time := rfl }

private theorem receive_fd (written : Written) (conn : Conn) :
    (conn.receive written).fd = conn.fd := by
  unfold Conn.receive
  split
  · rfl
  · rfl

private theorem receive_bev (written : Written) (conn : Conn) :
    (conn.receive written).bev = conn.bev := by
  unfold Conn.receive
  split
  · rfl
  · rfl

theorem receive_session (written : Written) (conn : Conn) :
    (conn.receive written).session = conn.session := by
  unfold Conn.receive
  split
  · rfl
  · rfl

private theorem receive_isOpen (written : Written) (conn : Conn) :
    (conn.receive written).isOpen = conn.isOpen :=
  congrArg (fun session : Session => session.closed.isNone) (receive_session written conn)

private theorem receive_nil (conn : Conn) : conn.receive [] = conn := by
  unfold Conn.receive
  split
  · exact congrArg (fun written => { conn with written := written }) (List.append_nil _)
  · rfl

theorem Tracks.deal (tracks : Tracks codec draws p s) {msg : DNSMsg} (valid : msg.raw ≠ [])
    {q : Postman} {written : Written} {fd : Fd} {bev : Ptr}
    (found : p.open_conns.lookup fd = some bev)
    (sent : SentTo { p.toController with postman := { p.postman with done_sync_time := true } }
      (cString msg.src_ip) fd q)
    (wrote : ∀ other image, p.open_conns.lookup other = some image → List.Forall₂ (Wrote codec)
      ((if p.handled = [] then [msg.set_sync_time true] else []) ++
        if bev = image then [msg.set_sync_time false] else [])
      (Sharing.addressed image written)) :
    ∃ n, Tracks codec draws (p.wrote msg q written) (s.deals (cString msg.src_ip) n) := by
  obtain ⟨n, target, atN, isOpen, rfl, rfl⟩ := tracks.open_conn found
  have handled : (p.wrote msg q written).handled = p.handled ++ [msg] := if_neg valid
  have first : ∀ {other : Fd}, other ∈ p.first_clients →
      other ∈ (p.wrote msg q written).first_clients := by
    intro other member
    unfold Controller.first_clients at member ⊢
    change other ∈ List.take q.num_clients q.client_fds
    rw [sent.client_fds, sent.num_clients]
    exact member
  have stays : ∀ other, s.current (cString msg.src_ip) = some other → other = n := by
    intro other current
    obtain ⟨conn, atOther, alsoOpen, mapped⟩ := tracks.current _ other current
    exact tracks.one other n conn target atOther atN alsoOpen isOpen (sent.stays conn.fd mapped)
  refine ⟨n, ?_⟩
  exact
    { consistent := sent.consistent
      distinct := tracks.distinct
      below := tracks.below.of_same sent.client_filter sent.num_clients
      steps := tracks.steps.tail (.deals (tracks.isOpen atN isOpen) stays)
      sessions := by
        change s.sessions = (p.conns.map _).map Conn.session
        rw [tracks.sessions, List.map_map]
        exact List.map_congr_left (fun conn _member => (receive_session _ conn).symm)
      dealt := by
        change (s.dealt ++ [_]).map Prod.fst = _
        rw [handled, List.map_append, List.map_append, tracks.dealt]
        rfl
      open_conns := by
        intro other image
        refine (tracks.open_conns other image).trans ?_
        constructor
        · rintro ⟨conn, member, alsoOpen, rfl, rfl⟩
          exact ⟨_, List.mem_map_of_mem member, (receive_isOpen _ conn).trans alsoOpen,
            receive_fd _ conn, receive_bev _ conn⟩
        · rintro ⟨conn, member, alsoOpen, rfl, rfl⟩
          obtain ⟨before, old, rfl⟩ := List.mem_map.mp member
          exact ⟨before, old, (receive_isOpen _ before).symm.trans alsoOpen,
            (receive_fd _ before).symm, (receive_bev _ before).symm⟩
      one := by
        intro m l conn other atM atL alsoOpen otherOpen same
        obtain ⟨before, wasM, rfl⟩ := was_at atM
        obtain ⟨behind, wasL, rfl⟩ := was_at atL
        rw [receive_fd, receive_fd] at same
        rw [receive_isOpen] at alsoOpen otherOpen
        exact tracks.one m l before behind wasM wasL alsoOpen otherOpen same
      current := by
        intro source m current
        change Function.update s.current _ _ source = some m at current
        change ∃ conn : Conn, (p.conns.map _)[m]? = some conn ∧ conn.isOpen = true ∧
          q.client_src2fd.lookup source = some conn.fd
        rw [sent.mapped]
        by_cases same : source = cString msg.src_ip
        · rw [same, Function.update_self] at current
          obtain rfl := Option.some.inj current
          refine ⟨_, is_at _ atN, (receive_isOpen _ target).trans isOpen, ?_⟩
          rw [if_pos same, receive_fd]
        · rw [Function.update_of_ne same] at current
          obtain ⟨conn, atM, alsoOpen, mapped⟩ := tracks.current source m current
          refine ⟨_, is_at _ atM, (receive_isOpen _ conn).trans alsoOpen, ?_⟩
          rw [if_neg same, receive_fd]
          exact mapped
      client_fds := by
        change q.client_fds = (p.conns.map _).map Conn.fd
        rw [sent.client_fds, List.map_map]
        refine tracks.client_fds.trans ?_
        exact List.map_congr_left (fun conn _member => (receive_fd _ conn).symm)
      announced := by
        rw [handled]
        exact iff_of_true sent.done_sync_time (List.append_ne_nil_of_right_ne_nil _
          (List.cons_ne_nil _ _))
      mapped := by
        intro ip other mapped
        change q.client_src2fd.lookup ip = some other at mapped
        rw [sent.mapped] at mapped
        split at mapped
        · rw [← Option.some.inj mapped]
          exact first sent.first
        · exact first (tracks.mapped ip other mapped)
      early := by
        intro source m dealt
        rcases List.mem_append.mp dealt with old | new
        · obtain ⟨conn, atM, member⟩ := tracks.early source m old
          exact ⟨_, is_at _ atM, (receive_fd _ conn).symm ▸ first member⟩
        · obtain ⟨_same, rfl⟩ := Prod.mk.inj (List.mem_singleton.mp new)
          exact ⟨_, is_at _ atN, (receive_fd _ target).symm ▸ first sent.first⟩
      written := by
        intro m conn atM
        obtain ⟨before, wasM, rfl⟩ := was_at atM
        have session := tracks.session_of wasM
        have bound := tracks.together
        rw [receive_session]
        have now := due_concat (DNSMsg.set_sync_time · true) (DNSMsg.set_sync_time · false)
          tracks.together (bound ▸ tracks.fair.opened m _ session)
          (fun t is_closed => bound ▸ tracks.fair.closed m _ t session is_closed) msg
          (cString msg.src_ip) (n := m) (m := n)
        unfold dueTo
        rw [handled]
        change List.Forall₂ _ (due _ _ (p.handled ++ [msg]) (s.dealt ++ [(cString msg.src_ip, n)])
          m before.session) _
        rw [now]
        by_cases alsoOpen : before.isOpen = true
        · have image := (tracks.open_conns before.fd before.bev).mpr
            ⟨before, List.mem_of_getElem? wasM, alsoOpen, rfl, rfl⟩
          have own : target.bev = before.bev ↔ n = m := by
            constructor
            · intro same
              rw [← same] at image
              exact tracks.one n m target before atN wasM isOpen alsoOpen
                (tracks.distinct _ _ _ found image)
            · rintro rfl
              rw [Option.some.inj (atN.symm.trans wasM)]
          have still := isOpen_iff.mp alsoOpen
          have news := wrote before.fd before.bev image
          unfold Conn.receive
          rw [if_pos alsoOpen]
          simp only [own] at news
          simp only [still, and_true]
          exact List.rel_append (tracks.written m before wasM) news
        · have closed : ¬ before.session.closed = none := fun none => alsoOpen (isOpen_iff.mpr none)
          have other : n ≠ m := by
            rintro rfl
            rw [Option.some.inj (atN.symm.trans wasM)] at isOpen
            exact alsoOpen isOpen
          unfold Conn.receive
          rw [if_neg alsoOpen, if_neg (fun both => closed both.2), if_neg other, List.append_nil,
            List.append_nil]
          exact tracks.written m before wasM }

def valids (codec : Codec) (payloads : List Bytes) : List DNSMsg :=
  (payloads.map codec.ParseFromArray).filter (fun msg => msg.Valid)

theorem Tracks.message (tracks : Tracks codec draws p s) {payload : Bytes}
    (ran : p.skt_message codec draws payload = .ok next) :
    ∃ later, Tracks codec draws next later ∧ next.handled = p.handled ++ valids codec [payload] := by
  unfold PostmanProcess.skt_message Postman.skt_message at ran
  simp only at ran
  by_cases valid : (codec.ParseFromArray payload).raw = []
  · simp only [if_pos valid] at ran
    have same : next = p := by
      rw [← Except.ok.inj ran]
      unfold wrote
      rw [if_pos valid]
      have kept : p.conns.map (Conn.receive []) = p.conns :=
        (List.map_congr_left (fun conn _member => receive_nil conn)).trans (List.map_id _)
      rw [kept]
    have none_valid : valids codec [payload] = [] :=
      List.filter_cons_of_neg (by rw [decide_eq_true_eq]; exact not_not.mpr valid)
    rw [same, none_valid, List.append_nil]
    exact ⟨s, tracks, rfl⟩
  · simp only [if_neg valid] at ran
    have one_valid : valids codec [payload] = [codec.ParseFromArray payload] :=
      List.filter_cons_of_pos (decide_eq_true valid)
    split at ran
    · cases ran
    · rename_i postman written inner
      split at inner
      · cases inner
      · rename_i synced broadcast announced
        obtain ⟨rfl, heard⟩ := tracks.sync_clients announced
        split at inner
        · cases inner
        · rename_i text serialized
          split at inner
          · cases inner
          · rename_i bev routed route
            obtain ⟨rfl, rfl⟩ := Prod.mk.inj (Except.ok.inj inner)
            have consistent : Controller.Consistent { p.toController with
                postman := { p.postman with done_sync_time := true } } :=
              ⟨tracks.consistent.bevs, tracks.consistent.live, tracks.consistent.grouped,
                tracks.consistent.sources⟩
            obtain ⟨fd, found, sent⟩ :=
              sent_to consistent (tracks.below.of_same rfl rfl) tracks.mapped route
            have wrote : ∀ other image, p.open_conns.lookup other = some image →
                List.Forall₂ (Wrote codec)
                  ((if p.handled = [] then [(codec.ParseFromArray payload).set_sync_time true]
                    else []) ++
                    if bev = image then [(codec.ParseFromArray payload).set_sync_time false] else [])
                  (Sharing.addressed image (broadcast ++ [(bev, text)])) := by
              intro other image atOther
              rw [Sharing.addressed_append, Sharing.addressed_single]
              refine List.rel_append (heard other image atOther) ?_
              split
              · exact .cons (serialize_wrote serialized) .nil
              · exact .nil
            obtain ⟨n, dealt⟩ := tracks.deal valid found sent wrote
            rw [← Except.ok.inj ran]
            refine ⟨_, dealt, ?_⟩
            rw [one_valid]
            exact if_neg valid

theorem Tracks.messages (tracks : Tracks codec draws p s) {payloads : List Bytes}
    (folded : payloads.foldlM (skt_message codec draws) p = .ok next) :
    ∃ later, Tracks codec draws next later ∧ next.handled = p.handled ++ valids codec payloads := by
  induction payloads generalizing p s with
  | nil =>
      obtain rfl := Except.ok.inj folded
      exact ⟨s, tracks, (List.append_nil _).symm⟩
  | cons payload rest ih =>
      rw [List.foldlM_cons] at folded
      obtain ⟨middle, ran, behind⟩ := of_bind_eq_ok folded
      obtain ⟨between, first, handled⟩ := tracks.message ran
      obtain ⟨later, last, more⟩ := ih first behind
      refine ⟨later, last, ?_⟩
      rw [more, handled, List.append_assoc]
      unfold valids
      rw [← List.filter_append, ← List.map_append]
      rfl

end tracks

/-! ### Runs -/

/-- What has become of the bytes of the reader: the frames that are complete were
dealt, none of them is left in the buffer, and the bytes on each connection are those
of the messages it was due. -/
structure Delivered (codec : Codec) (received buffered : Bytes) (p : PostmanProcess)
    (s : State Bytes) : Prop where
  handled : ∃ payloads, Framed received buffered payloads ∧ p.handled = valids codec payloads
  sources : s.dealt.map Prod.fst = p.handled.map (fun msg => cString msg.src_ip)
  sessions : s.sessions = p.conns.map Conn.session
  fair : Fair s
  streams : ∀ (n : Nat) conn, p.conns[n]? = some conn →
    List.Forall₂ (Wrote codec) (p.dueTo s n conn.session) conn.written
  early : ∀ source n, (source, n) ∈ s.dealt →
    ∃ conn, p.conns[n]? = some conn ∧
      ∃ first ∈ p.conns.take p.postman.num_clients, first.fd = conn.fd

variable {codec : Codec} {draws : Nat → Nat}

theorem Tracks.step {reader after : Bytes × PostmanProcess} {event : Event} {s : State Bytes}
    (tracks : Tracks codec draws reader.2 s) (admitted : admits reader event)
    (stepped : step codec draws reader event = .ok after) {received : Bytes}
    {payloads : List Bytes} (framed : Framed received reader.1 payloads) :
    ∃ later others, Tracks codec draws after.2 later ∧
      Framed (received ++ event.data) after.1 (payloads ++ others) ∧
      after.2.handled = reader.2.handled ++ valids codec others := by
  have same : Framed (received ++ []) reader.1 (payloads ++ []) := by
    rw [List.append_nil, List.append_nil]
    exact framed
  cases event with
  | accept_conn_cb fd bev =>
      obtain ⟨closed, live, unused⟩ := admitted
      rw [← Except.ok.inj stepped]
      exact ⟨_, [], tracks.accept closed live unused, same, (List.append_nil _).symm⟩
  | client_bevent_cb fd =>
      obtain ⟨p, ran, rfl⟩ := of_map_eq_ok stepped
      obtain ⟨n, _isOpen, later, unchanged⟩ := tracks.disconnect admitted ran
      exact ⟨_, [], later, same, unchanged.trans (List.append_nil _).symm⟩
  | skt_read_cb data =>
      obtain ⟨others, handing⟩ := doWhileLoop_hands_over stepped
      obtain ⟨later, dealt, handled⟩ := tracks.messages handing.folded
      exact ⟨later, others, dealt, framed.read handing, handled⟩

theorem Tracks.run {start final : Bytes × PostmanProcess} {events : List Event} {s : State Bytes}
    (tracks : Tracks codec draws start.2 s) (run : Run codec draws start events final)
    {received : Bytes} {payloads : List Bytes} (framed : Framed received start.1 payloads) :
    ∃ later others, Tracks codec draws final.2 later ∧
      Framed (received ++ (events.map Event.data).flatten) final.1 (payloads ++ others) ∧
      final.2.handled = start.2.handled ++ valids codec others := by
  induction run generalizing s received payloads with
  | done reader =>
      refine ⟨s, [], tracks, ?_, (List.append_nil _).symm⟩
      rw [List.map_nil, List.flatten_nil, List.append_nil, List.append_nil]
      exact framed
  | next admitted stepped _rest ih =>
      obtain ⟨between, fresh, first, read, handled⟩ := tracks.step admitted stepped framed
      obtain ⟨later, others, last, behind, more⟩ := ih first read
      refine ⟨later, fresh ++ others, last, ?_, ?_⟩
      · rw [List.map_cons, List.flatten_cons, ← List.append_assoc, ← List.append_assoc]
        exact behind
      · rw [more, handled, List.append_assoc]
        unfold valids
        rw [List.map_append, List.filter_append]

/-- Whatever clients come and go, every message goes to one of them, in order.

Each non-empty message of a complete frame is dealt to a connection that is open then,
the messages of a source to one connection for as long as it is open.  A connection is
written the announcement exactly if it was open at the first message, and then its
share, in the order of the input.  One that is dealt anything has the descriptor of one
of the clients that the postman waited for: a client that connects later is left out,
unless it gets a descriptor of theirs again. -/
theorem messages_delivered {start final : Bytes × PostmanProcess} {events : List Event}
    (initial : start.2.toController.Initial) (none_yet : start.2.conns = [])
    (none_handled : start.2.handled = []) (fresh : start.1 = [])
    (below : start.2.postman.DrawsBelow draws) (run : Run codec draws start events final) :
    ∃ s, Delivered codec (events.map Event.data).flatten final.1 final.2 s := by
  have start_tracks : Tracks codec draws start.2 {} :=
    initial_tracks initial none_yet none_handled below
  have nothing : Framed [] start.1 [] := by
    rw [fresh]
    exact Framed.nothing
  obtain ⟨s, payloads, tracks, framed, handled⟩ := start_tracks.run run nothing
  rw [List.nil_append, List.nil_append] at framed
  rw [none_handled, List.nil_append] at handled
  refine ⟨s, ?_⟩
  exact
    { handled := ⟨payloads, framed, handled⟩
      sources := tracks.dealt
      sessions := tracks.sessions
      fair := tracks.fair
      streams := tracks.written
      early := by
        intro source n dealt
        obtain ⟨conn, found, member⟩ := tracks.early source n dealt
        unfold Controller.first_clients at member
        rw [tracks.client_fds, ← List.map_take] at member
        exact ⟨conn, found, List.mem_map.mp member⟩ }

theorem step_frame {payload : Bytes} (carried : Carried lengthWidth payload)
    (p : PostmanProcess) :
    step codec draws ([], p) (.skt_read_cb (frame payload)) =
      (p.skt_message codec draws payload).map (fun next => ([], next)) := by
  have fits : payload.length ≤ (payload.length + ([] : Bytes).length) % 2 ^ 32 :=
    Nat.le_of_eq (Nat.mod_eq_of_lt carried.fits).symm
  change doWhileLoop _ ([] ++ frame payload) _ = _
  rw [List.nil_append, ← List.append_nil (frame payload),
    doWhileLoop_eq_whileLoop _ (frame_longer carried []), whileLoop_frame _ carried [] fits]
  cases p.skt_message codec draws payload with
  | error fault => rfl
  | ok next => exact whileLoop_short _ (by decide) next

/-- The source is dealt to the first client, which leaves, and then to the one that
has its descriptor; that one is not announced anything. -/
theorem messages_delivered_reused :
    ∃ final, Run WorkerProcess.wire_codec (fun _ => 0)
        ([], { toController := Controller.twoClients })
        [.accept_conn_cb 5 100, .accept_conn_cb 6 101,
          .skt_read_cb (frame (WorkerProcess.wire_text none)), .client_bevent_cb 5,
          .accept_conn_cb 5 102, .skt_read_cb (frame (WorkerProcess.wire_text none))] final ∧
      final.2.conns.map Conn.written =
        [[WorkerProcess.wire_text (some true), WorkerProcess.wire_text (some false)],
          [WorkerProcess.wire_text (some true)], [WorkerProcess.wire_text (some false)]] ∧
      ∃ s, Delivered WorkerProcess.wire_codec
        (frame (WorkerProcess.wire_text none) ++ frame (WorkerProcess.wire_text none))
        final.1 final.2 s := by
  have run : ∃ final, Run WorkerProcess.wire_codec (fun _ => 0)
      ([], { toController := Controller.twoClients })
      [.accept_conn_cb 5 100, .accept_conn_cb 6 101,
        .skt_read_cb (frame (WorkerProcess.wire_text none)), .client_bevent_cb 5,
        .accept_conn_cb 5 102, .skt_read_cb (frame (WorkerProcess.wire_text none))] final ∧
      final.2.conns.map Conn.written =
        [[WorkerProcess.wire_text (some true), WorkerProcess.wire_text (some false)],
          [WorkerProcess.wire_text (some true)], [WorkerProcess.wire_text (some false)]] :=
    ⟨_, .next (by decide) rfl (.next (by decide) rfl
      (.next trivial ((step_frame (WorkerProcess.wire_text_carried _) _).trans rfl)
        (.next (by decide +kernel) rfl (.next (by decide +kernel) rfl
          (.next trivial ((step_frame (WorkerProcess.wire_text_carried _) _).trans rfl)
            (.done _)))))), by decide +kernel⟩
  obtain ⟨final, reached, written⟩ := run
  have below : Controller.twoClients.postman.DrawsBelow (fun _ => 0) := by
    intro _count
    change Controller.twoClients.postman.client_idx 0 < 2
    decide
  exact ⟨final, reached, written,
    messages_delivered Controller.twoClients_initial rfl rfl rfl below reached⟩

end PostmanProcess

end LDPlayer
