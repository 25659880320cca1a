/-
The controller's postman: postman.cc without its sockets.

A bufferevent is an address, a write to one is an entry in a list of outputs.
What the random generator returns is an argument, so a statement over all
arguments is one over all draws.
-/
import LDPlayer.Controller.Filter
import LDPlayer.Deframe
import LDPlayer.Foundation.HashTable

set_option autoImplicit false

namespace LDPlayer

open Text

/-- The members that the callbacks read and write.  `mt_generator` counts the
draws made so far; `skt_buffer` stands beside this state in `skt_read_cb`. -/
structure Postman where
  num_clients : Nat
  client_filter : Filter
  start_read_input : Bool := false
  done_sync_time : Bool := false
  client_src2fd : HashTable Bytes Fd := ∅
  client_fd2bev : HashTable Fd Ptr := ∅
  client_fd2src : HashTable Fd (List Bytes) := ∅
  client_fds : List Fd := []
  mt_generator : Nat := 0

/-- A write to a connection: the length and the text of one message. -/
abbrev Written : Type := List (Ptr × Bytes)

namespace Postman

def new (files : Files) (listen_ip : Bytes) (listen_port n : Int) (f : Filter) :
    Except Fault Postman :=
  let client_filter := Filter.Set files {} f.GetFilterInput f.GetNumClients
  let num_clients := (n % 2 ^ 32).toNat
  if client_filter.GetNumClients ≠ 0 ∧ client_filter.GetFilterInput ≠ [] ∧
      (¬ client_filter.Valid ∨ n ≠ client_filter.GetNumClients) then
    .error (.exit "[error] client filter is invalid")
  else if listen_port ≤ 0 then .error (.exit "[error] listen port is invalid")
  else if listen_ip = [] then .error (.exit "[error] listen ip is invalid")
  else if num_clients = 0 then .error (.exit "[error] client number is invalid")
  else .ok { num_clients := num_clients, client_filter := client_filter }

/-- Raising `start_read_input` stands for writing POSTMAN_FLAG to the reader. -/
def accept_conn_cb (fd : Fd) (bev : Ptr) (p : Postman) : Postman :=
  let recorded :=
    { p with
      client_fd2bev := p.client_fd2bev.insert fd bev
      client_fd2src := p.client_fd2src.insert fd []
      client_fds := p.client_fds ++ [fd] }
  if ¬ recorded.start_read_input ∧ recorded.client_fd2bev.size = recorded.num_clients then
    { recorded with start_read_input := true }
  else recorded

def client_bevent_cb (fd : Fd) (p : Postman) : Except Fault Postman :=
  if fd ∉ p.client_fd2bev then .error (.exit s!"[error] cannot find [{fd}] in record")
  else
    let removed := { p with client_fd2bev := p.client_fd2bev.erase fd }
    match removed.client_fd2src.lookup fd with
    | none => .ok removed
    | some sources =>
        .ok { removed with
              client_src2fd := removed.client_src2fd.eraseAll sources
              client_fd2src := removed.client_fd2src.erase fd }

def client_idx (draw : Nat) (p : Postman) : Int :=
  if p.client_filter.GetNumClients ≠ 0 then p.client_filter.GetClientIndex draw else draw

def map_source (ip : Bytes) (fd : Fd) (p : Postman) : Postman :=
  { p with
    client_src2fd := p.client_src2fd.insert ip fd
    client_fd2src := p.client_fd2src.insert fd ((p.client_fd2src.subscript [] fd).1 ++ [ip])
    mt_generator := p.mt_generator + 1 }

def select_client (ip : Bytes) (draw : Nat) (p : Postman) : Except Fault Postman :=
  if ip ∈ p.client_src2fd then .ok p
  else if p.client_fd2bev.size = 0 then .error (.exit "[error] no more clients left")
  else
    let idx := p.client_idx draw
    let size := p.client_fds.length
    if idx < 0 ∨ idx ≥ size then
      .error (.exit s!"[error] client idx[{idx}] out of range client_fds.size()={size}")
    else .ok (p.map_source ip (p.client_fds.getD idx.toNat 0))

/-- The two subscripts at the end create the entries they do not find. -/
def rand_client (src_ip : Bytes) (draw : Nat) (p : Postman) : Except Fault (Ptr × Postman) :=
  let ip := cString src_ip
  match p.select_client ip draw with
  | .error fault => .error fault
  | .ok selected =>
      let (fd, client_src2fd) := selected.client_src2fd.subscript 0 ip
      let (bev, client_fd2bev) := selected.client_fd2bev.subscript NULL fd
      .ok (bev, { selected with client_src2fd := client_src2fd, client_fd2bev := client_fd2bev })

def route (src_ip : Bytes) (draw : Nat) (p : Postman) : Except Fault (Ptr × Postman) :=
  match p.rand_client src_ip draw with
  | .error fault => .error fault
  | .ok (bev, routed) =>
      if bev = NULL then .error (.assertion "bev") else .ok (bev, routed)

def sync_clients (codec : Codec) (msg : DNSMsg) (p : Postman) :
    Except Fault (Postman × Written) :=
  if p.done_sync_time then .ok (p, [])
  else
    match codec.serialize "[error] serialize message fails" (msg.set_sync_time true) with
    | .error fault => .error fault
    | .ok msg_str =>
        .ok ({ p with done_sync_time := true },
          p.client_fd2bev.values.map (fun bev => (bev, msg_str)))

def skt_message (codec : Codec) (draws : Nat → Nat) (p : Postman) (payload : Bytes) :
    Except Fault (Postman × Written) :=
  let msg := codec.ParseFromArray payload
  if msg.raw = [] then .ok (p, [])
  else
    match p.sync_clients codec msg with
    | .error fault => .error fault
    | .ok (synced, broadcast) =>
        match codec.serialize "[error] serialize message fails" (msg.set_sync_time false) with
        | .error fault => .error fault
        | .ok msg_str =>
            match synced.route msg.src_ip (draws synced.mt_generator) with
            | .error fault => .error fault
            | .ok (bev, routed) => .ok (routed, broadcast ++ [(bev, msg_str)])

def skt_handle (codec : Codec) (draws : Nat → Nat) (state : Postman × Written)
    (payload : Bytes) : Except Fault (Postman × Written) :=
  match state.1.skt_message codec draws payload with
  | .error fault => .error fault
  | .ok (p, written) => .ok (p, state.2 ++ written)

def skt_read_cb (codec : Codec) (draws : Nat → Nat) (reader : Bytes × (Postman × Written))
    (data : Bytes) : Except Fault (Bytes × (Postman × Written)) :=
  LengthPrefix.readChunk (doWhileLoop (skt_handle codec draws)) reader data

theorem new_members {files : Files} {listen_ip : Bytes} {listen_port n : Int} {f : Filter}
    {p : Postman} (made : Postman.new files listen_ip listen_port n f = .ok p) :
    p.client_fd2bev = ∅ ∧ p.client_src2fd = ∅ ∧ p.client_fd2src = ∅ ∧ p.client_fds = [] ∧
      p.start_read_input = false ∧ p.done_sync_time = false ∧ p.num_clients ≠ 0 := by
  unfold Postman.new at made
  simp only at made
  split at made
  · cases made
  · split at made
    · cases made
    · split at made
      · cases made
      · split at made
        · cases made
        next some_client =>
          rw [← Except.ok.inj made]
          exact ⟨rfl, rfl, rfl, rfl, rfl, rfl, some_client⟩

/-! ### What a lookup for a source does -/

theorem rand_client_mapped {p : Postman} {src_ip : Bytes} {fd : Fd} {bev : Ptr} (draw : Nat)
    (mapped : p.client_src2fd.lookup (cString src_ip) = some fd)
    (found : p.client_fd2bev.lookup fd = some bev) :
    p.rand_client src_ip draw = .ok (bev, p) := by
  have present : cString src_ip ∈ p.client_src2fd := HashTable.mem_iff_lookup.mpr ⟨fd, mapped⟩
  unfold rand_client select_client
  simp only [if_pos present, HashTable.subscript_of_lookup mapped,
    HashTable.subscript_of_lookup found]

theorem select_client_cases {p selected : Postman} {ip : Bytes} {draw : Nat}
    (ran : p.select_client ip draw = .ok selected) :
    (ip ∈ p.client_src2fd ∧ selected = p) ∨
      (ip ∉ p.client_src2fd ∧ p.client_fd2bev.size ≠ 0 ∧ 0 ≤ p.client_idx draw ∧
        ∃ fd, p.client_fds[(p.client_idx draw).toNat]? = some fd ∧
          selected = p.map_source ip fd) := by
  unfold select_client at ran
  by_cases mapped : ip ∈ p.client_src2fd
  · rw [if_pos mapped] at ran
    exact Or.inl ⟨mapped, (Except.ok.inj ran).symm⟩
  · rw [if_neg mapped] at ran
    by_cases none_left : p.client_fd2bev.size = 0
    · rw [if_pos none_left] at ran
      cases ran
    · rw [if_neg none_left] at ran
      by_cases outside : p.client_idx draw < 0 ∨ p.client_idx draw ≥ p.client_fds.length
      · simp only [if_pos outside] at ran
        cases ran
      · simp only [if_neg outside] at ran
        have within : (p.client_idx draw).toNat < p.client_fds.length := by omega
        refine Or.inr ⟨mapped, none_left, by omega, _, List.getElem?_eq_getElem within, ?_⟩
        rw [← Except.ok.inj ran, List.getD_eq_getElem?_getD, List.getElem?_eq_getElem within,
          Option.getD_some]

theorem select_client_fresh {p : Postman} {ip : Bytes} {fd : Fd} {draw : Nat}
    (fresh : ip ∉ p.client_src2fd) (some_client : p.client_fd2bev.size ≠ 0)
    (nonneg : 0 ≤ p.client_idx draw)
    (drawn : p.client_fds[(p.client_idx draw).toNat]? = some fd) :
    p.select_client ip draw = .ok (p.map_source ip fd) := by
  have within := (List.getElem?_eq_some_iff.mp drawn).1
  have inRange : ¬ (p.client_idx draw < 0 ∨ p.client_idx draw ≥ p.client_fds.length) := by omega
  have entry : p.client_fds.getD (p.client_idx draw).toNat 0 = fd := by
    rw [List.getD_eq_getElem?_getD, drawn, Option.getD_some]
  unfold select_client
  simp only [if_neg fresh, if_neg some_client, if_neg inRange, entry]

/-- Once a client is selected, the lookup only reads; the bufferevent is NULL
where the client is gone. -/
theorem rand_client_of_select {p selected : Postman} {src_ip : Bytes} {fd : Fd} {draw : Nat}
    (ran : p.select_client (cString src_ip) draw = .ok selected)
    (mapped : selected.client_src2fd.lookup (cString src_ip) = some fd) :
    p.rand_client src_ip draw =
      .ok ((selected.client_fd2bev.subscript NULL fd).1,
        { selected with client_fd2bev := (selected.client_fd2bev.subscript NULL fd).2 }) := by
  unfold rand_client
  simp only [ran, HashTable.subscript_of_lookup mapped]

theorem route_of_rand_client {p q : Postman} {src_ip : Bytes} {draw : Nat} {bev : Ptr}
    (ran : p.rand_client src_ip draw = .ok (bev, q)) (live : bev ≠ NULL) :
    p.route src_ip draw = .ok (bev, q) := by
  unfold route
  simp only [ran, if_neg live]

theorem rand_client_of_route {p q : Postman} {src_ip : Bytes} {draw : Nat} {bev : Ptr}
    (routed : p.route src_ip draw = .ok (bev, q)) :
    p.rand_client src_ip draw = .ok (bev, q) ∧ bev ≠ NULL := by
  unfold route at routed
  cases ran : p.rand_client src_ip draw with
  | error fault =>
      rw [ran] at routed
      cases routed
  | ok result =>
      simp only [ran] at routed
      by_cases null : result.1 = NULL
      · rw [if_pos null] at routed
        cases routed
      · rw [if_neg null] at routed
        obtain ⟨rfl, rfl⟩ := Prod.mk.inj (Except.ok.inj routed)
        exact ⟨rfl, null⟩

end Postman

end LDPlayer
