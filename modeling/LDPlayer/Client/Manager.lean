/-
The client's manager: manager.cc without its sockets.

It hands the messages on to its worker processes, those of the controller in
distributed mode and those of its own input otherwise.  A write to a worker is
an entry in a list of outputs.  Query pacing is off, and the preload limit only
delays the reading.
-/
import LDPlayer.Deframe
import LDPlayer.Foundation.HashTable

set_option autoImplicit false

namespace LDPlayer

open Text HashTable

/-- The members behind the distribution.  `rand_calls` counts the calls of
`rand` so far; `com_msg_buffer` stands beside this state in `com_read_cb`. -/
structure Manager where
  done_sync_time : Bool := false
  disable_mapping : Bool
  num_clients : Int
  client_fd : List Fd
  client_idx2fd : HashTable Int Fd
  client_src2fd : HashTable Bytes Fd := ∅
  rand_calls : Nat := 0

/-- Writes to the workers: the length and the text of one message each. -/
abbrev Sent : Type := List (Fd × Bytes)

namespace Manager

def indexFrom : Int → List Fd → HashTable Int Fd → HashTable Int Fd
  | _, [], table => table
  | i, fd :: rest, table => indexFrom (i + 1) rest (table.emplace i fd)

def new (n : Int) (clt_fd : List Fd) (no_map : Bool) : Manager :=
  { disable_mapping := no_map
    num_clients := n
    client_fd := clt_fd
    client_idx2fd := indexFrom 0 clt_fd ∅ }

def draw_fd (draw : Nat) (m : Manager) : Except Fault (Fd × Manager) :=
  if m.num_clients = 0 then .error .divideByZero
  else
    let idx := Int.tmod draw m.num_clients
    let (fd, client_idx2fd) := m.client_idx2fd.subscript 0 idx
    .ok (fd, { m with client_idx2fd := client_idx2fd, rand_calls := m.rand_calls + 1 })

def rand_client_fd (src_ip : Bytes) (draw : Nat) (m : Manager) : Except Fault (Fd × Manager) :=
  if m.disable_mapping then m.draw_fd draw
  else
    let ip := cString src_ip
    match m.client_src2fd.lookup ip with
    | some fd => .ok (fd, m)
    | none =>
        match m.draw_fd draw with
        | .error fault => .error fault
        | .ok (fd, drawn) =>
            .ok (fd, { drawn with client_src2fd := drawn.client_src2fd.emplace ip fd })

def send_normal (src_ip : Bytes) (draws : Nat → Nat) (msg_str : Bytes) (m : Manager) :
    Except Fault (Manager × Sent) :=
  match m.rand_client_fd src_ip (draws m.rand_calls) with
  | .error fault => .error fault
  | .ok (fd, routed) =>
      if fd = -1 then .error (.assertion "fd != -1") else .ok (routed, [(fd, msg_str)])

/-- The body of the loop behind the deframing: the bytes are handed on as they
came. -/
def com_message (codec : Codec) (draws : Nat → Nat) (m : Manager) (payload : Bytes) :
    Except Fault (Manager × Sent) :=
  let msg := codec.ParseFromArray payload
  if ¬ m.done_sync_time ∧ msg.sync_time then
    .ok ({ m with done_sync_time := true }, m.client_fd.map (fun cfd => (cfd, payload)))
  else m.send_normal msg.src_ip draws payload

def com_handle (codec : Codec) (draws : Nat → Nat) (state : Manager × Sent) (payload : Bytes) :
    Except Fault (Manager × Sent) :=
  match state.1.com_message codec draws payload with
  | .error fault => .error fault
  | .ok (m, sent) => .ok (m, state.2 ++ sent)

/-- One callback; the state is `com_msg_buffer` and the rest. -/
def com_read_cb (codec : Codec) (draws : Nat → Nat) (reader : Bytes × (Manager × Sent))
    (data : Bytes) : Except Fault (Bytes × (Manager × Sent)) :=
  LengthPrefix.readChunk (whileLoop (com_handle codec draws)) reader data

def sync_clients (codec : Codec) (msg : DNSMsg) (m : Manager) : Except Fault (Manager × Sent) :=
  if m.done_sync_time then .ok (m, [])
  else
    match codec.serialize "serialize message fails" (msg.set_sync_time true) with
    | .error fault => .error fault
    | .ok msg_str =>
        .ok ({ m with done_sync_time := true }, m.client_fd.map (fun cfd => (cfd, msg_str)))

def read_input_message (codec : Codec) (draws : Nat → Nat) (m : Manager) (msg : DNSMsg) :
    Except Fault (Manager × Sent) :=
  if msg.raw = [] then .ok (m, [])
  else
    match m.sync_clients codec msg with
    | .error fault => .error fault
    | .ok (synced, broadcast) =>
        match codec.serialize "serialize message fails" (msg.set_sync_time false) with
        | .error fault => .error fault
        | .ok msg_str =>
            match synced.send_normal msg.src_ip draws msg_str with
            | .error fault => .error fault
            | .ok (routed, sent) => .ok (routed, broadcast ++ sent)

/-- What one read from a worker writes to the output, a C string. -/
def read_client_cb (output_file data : Bytes) : Bytes :=
  if data ≠ [] ∧ output_file ≠ [] then cString data else []

end Manager

end LDPlayer
