/-
The accessors of the DNS header: which bytes is_query, set_random_id and get_id
touch, and with which buffers client.cc calls them.

None of them looks at a length.  The calls are listed function by function as
the source makes them, each with the length of the message that is handed on and
the size of the buffer that holds it.
-/
import LDPlayer.Client.ServerStream
import LDPlayer.Client.Wire
import LDPlayer.Client.Latency

set_option autoImplicit false

namespace LDPlayer

open Text HashTable Runs

inductive Accessor where
  | is_query (is_tcp : Bool)
  | set_random_id
  | get_id
  deriving DecidableEq, Repr

def Accessor.positions : Accessor → List Nat
  | .is_query is_tcp =>
      let offset := 2 + if is_tcp then 2 else 0
      [offset, offset + 1]
  | .set_random_id => [0, 1]
  | .get_id => [0, 1]

/-- A call: the length of the message is what goes with the buffer as its length. -/
structure Access where
  accessor : Accessor
  len : Nat
  size : Nat
  deriving DecidableEq, Repr

namespace Access

def whole (accessor : Accessor) (len : Nat) : Access := ⟨accessor, len, len⟩

def Within (extent : Access → Nat) (access : Access) : Prop :=
  ∀ position ∈ access.accessor.positions, position < extent access

instance (extent : Access → Nat) (access : Access) : Decidable (access.Within extent) :=
  inferInstanceAs (Decidable (∀ position ∈ access.accessor.positions, position < extent access))

theorem within_id (extent : Access → Nat) {access : Access}
    (id : access.accessor = .set_random_id ∨ access.accessor = .get_id) :
    access.Within extent ↔ 2 ≤ extent access := by
  unfold Within
  rcases id with same | same <;>
    (rw [same]
     simp only [Accessor.positions, List.forall_mem_cons, List.not_mem_nil, false_imp_iff,
       implies_true, and_true]
     omega)

private theorem within_is_query (extent : Access → Nat) {access : Access}
    (query : access.accessor = .is_query false) : access.Within extent ↔ 4 ≤ extent access := by
  unfold Within
  rw [query]
  simp only [Accessor.positions, Bool.false_eq_true, if_false, List.forall_mem_cons,
    List.not_mem_nil, false_imp_iff, implies_true, and_true]
  omega

end Access

/-! ### The calls of each function -/

def MAX_BUF_SIZE : Nat := 4096

/-- Larger arrays cannot be allocated; `new` throws and nothing catches it. -/
def PTRDIFF_MAX : Nat := 2 ^ 63 - 1

namespace DNSClient

section accesses

variable (get_query_rr_str : Bytes → Bytes)

def record_message_time_accesses (len : Nat) : List Access :=
  if len > PTRDIFF_MAX then [] else [.whole (.is_query false) len, .whole .get_id len]

def sendto_manager_accesses (len size : Nat) : List Access := [⟨.get_id, len, size⟩]

/-- The loop around `set_random_id`, over the ids that the generator returns. -/
def draw_id_accesses (rr : Bytes) (raw_len : Nat) (c : DNSClient) : List Nat → List Access
  | [] => []
  | id :: rest =>
      .whole .set_random_id raw_len :: .whole .get_id raw_len ::
        if raw_key id rr ∈ c.query_table then draw_id_accesses rr raw_len c rest else []

def send_query_udp_accesses (msg : DNSMsg) (ids : List Nat) (c : DNSClient) : List Access :=
  let raw := raw_copy msg
  if raw.length = 0 then [] else draw_id_accesses (get_query_rr_str raw) raw.length c ids

def send_query_tcp_accesses (msg : DNSMsg) (ids : List Nat) (c : DNSClient) : List Access :=
  let raw := raw_copy msg
  if raw.length = 0 then []
  else
    let tcp_raw_len := (raw.length + 2) % 2 ^ 16
    draw_id_accesses (get_query_rr_str raw) raw.length c ids ++
      if (draw_id (get_query_rr_str raw) c ids).isSome ∧ c.output_timing then
        record_message_time_accesses (size_t_sub tcp_raw_len 2)
      else []

def server_udp_write_cb_accesses (msg : DNSMsg) (c : DNSClient) : List Access :=
  if c.output_timing then record_message_time_accesses msg.raw.length else []

/-- `recv` cuts a datagram to the size of the buffer. -/
def server_udp_read_cb_accesses (data : Bytes) (c : DNSClient) : List Access :=
  let b := min data.length MAX_BUF_SIZE
  if c.output_latency then sendto_manager_accesses b MAX_BUF_SIZE
  else if c.output_timing then record_message_time_accesses b
  else []

def responses (buffer : Bytes) : List Bytes :=
  match serverLoop record buffer [] with
  | .error _ => []
  | .ok (_, taken) => taken

def server_read_cb_accesses (bev : Ptr) (data : Bytes) (c : DNSClient) : List Access :=
  (if c.output_timing then
    (responses (c.buffered bev ++ data)).flatMap
      (fun response => record_message_time_accesses response.length)
  else []) ++
  if c.output_latency then
    let len := size_t_sub data.length 2
    if len > PTRDIFF_MAX then [] else sendto_manager_accesses len len
  else []

def accesses (c : DNSClient) : Event → List Access
  | .send_query_udp msg ids _ _ _ => c.send_query_udp_accesses get_query_rr_str msg ids
  | .send_query_tcp msg ids _ _ => c.send_query_tcp_accesses get_query_rr_str msg ids
  | .server_udp_write_cb _ msg _ => c.server_udp_write_cb_accesses msg
  | .server_udp_read_cb _ data _ => c.server_udp_read_cb_accesses data
  | .server_udp_read_timeout_cb _ => []
  | .server_read_cb bev data _ => c.server_read_cb_accesses bev data
  | .server_event_cb _ _ => []

/-! ### The lengths that keep the calls inside -/

/-- Every message is long enough for what is called on it; `least` bytes are
asked of a datagram where latency is on. -/
def LongEnough (least : Nat) (c : DNSClient) : Event → Prop
  | .send_query_udp msg ids _ _ _ => ids ≠ [] → (raw_copy msg).length ≠ 1
  | .send_query_tcp msg ids _ _ =>
      (ids ≠ [] → (raw_copy msg).length ≠ 1) ∧
        ((draw_id (get_query_rr_str (raw_copy msg)) c ids).isSome ∧ c.output_timing →
          (raw_copy msg).length ≠ 2 ∧ (raw_copy msg).length ≠ 3)
  | .server_udp_write_cb _ msg _ => c.output_timing → 4 ≤ msg.raw.length
  | .server_udp_read_cb _ data _ =>
      if c.output_latency then least ≤ data.length else c.output_timing → 4 ≤ data.length
  | .server_udp_read_timeout_cb _ => True
  | .server_read_cb bev data _ =>
      (c.output_timing →
        ∀ response ∈ responses (c.buffered bev ++ data), 4 ≤ response.length) ∧
        (c.output_latency → data.length < 2 ∨ 4 ≤ data.length)
  | .server_event_cb _ _ => True

end accesses

section extent

variable {get_query_rr_str : Bytes → Bytes} {extent : Access → Nat}

theorem record_message_time_within
    (wholes : ∀ accessor len, extent (.whole accessor len) = len) (len : Nat) :
    (∀ access ∈ record_message_time_accesses len, access.Within extent) ↔ 4 ≤ len := by
  unfold record_message_time_accesses
  by_cases huge : len > PTRDIFF_MAX
  · rw [if_pos huge]
    unfold PTRDIFF_MAX at huge
    exact iff_of_true (List.forall_mem_nil _) (by omega)
  · rw [if_neg huge, List.forall_mem_cons, List.forall_mem_singleton,
      Access.within_is_query extent rfl, Access.within_id extent (Or.inr rfl), wholes, wholes]
    omega

theorem draw_id_within (wholes : ∀ accessor len, extent (.whole accessor len) = len)
    (rr : Bytes) (raw_len : Nat) (c : DNSClient) (ids : List Nat) :
    (∀ access ∈ draw_id_accesses rr raw_len c ids, access.Within extent) ↔
      (ids ≠ [] → 2 ≤ raw_len) := by
  induction ids with
  | nil => exact iff_of_true (List.forall_mem_nil _) (fun some => absurd rfl some)
  | cons id rest ih =>
      rw [draw_id_accesses, List.forall_mem_cons, List.forall_mem_cons,
        Access.within_id extent (Or.inl rfl), Access.within_id extent (Or.inr rfl), wholes, wholes]
      constructor
      · intro all _some
        exact all.1
      · intro long
        have two := long (List.cons_ne_nil _ _)
        refine ⟨two, two, ?_⟩
        by_cases used : raw_key id rr ∈ c.query_table
        · rw [if_pos used]
          exact ih.mpr (fun _some => two)
        · rw [if_neg used]
          exact List.forall_mem_nil _

private theorem tcp_timing_within (wholes : ∀ accessor len, extent (.whole accessor len) = len)
    {raw_len : Nat} (small : raw_len < 2 ^ 16) (some : 2 ≤ raw_len) :
    (∀ access ∈ record_message_time_accesses (size_t_sub ((raw_len + 2) % 2 ^ 16) 2),
      access.Within extent) ↔ raw_len ≠ 2 ∧ raw_len ≠ 3 := by
  rw [record_message_time_within wholes]
  unfold size_t_sub
  split <;> omega

private theorem raw_copy_length (msg : DNSMsg) :
    (raw_copy msg).length = msg.raw.length % 2 ^ 16 := by
  unfold raw_copy
  rw [List.length_take]
  exact Nat.min_eq_left (Nat.mod_le _ _)

private theorem send_query_tcp_within (wholes : ∀ accessor len, extent (.whole accessor len) = len)
    (msg : DNSMsg) (ids : List Nat) (c : DNSClient) :
    (∀ access ∈ c.send_query_tcp_accesses get_query_rr_str msg ids, access.Within extent) ↔
      (ids ≠ [] → (raw_copy msg).length ≠ 1) ∧
        ((draw_id (get_query_rr_str (raw_copy msg)) c ids).isSome ∧ c.output_timing →
          (raw_copy msg).length ≠ 2 ∧ (raw_copy msg).length ≠ 3) := by
  have small : (raw_copy msg).length < 2 ^ 16 := by
    rw [raw_copy_length]
    exact Nat.mod_lt _ (by decide)
  unfold send_query_tcp_accesses
  by_cases empty : (raw_copy msg).length = 0
  · simp only [if_pos empty, List.not_mem_nil, false_imp_iff, implies_true, true_iff]
    omega
  · simp only [if_neg empty, List.forall_mem_append, draw_id_within wholes]
    have positive : (ids ≠ [] → 2 ≤ (raw_copy msg).length) ↔
        (ids ≠ [] → (raw_copy msg).length ≠ 1) := imp_congr_right (fun _some => by omega)
    rw [positive]
    apply and_congr_right
    intro two
    by_cases timed : (draw_id (get_query_rr_str (raw_copy msg)) c ids).isSome ∧
        c.output_timing = true
    · have some : ids ≠ [] := by
        intro none
        rw [none] at timed
        cases timed.1
      have notOne := two some
      rw [if_pos timed, tcp_timing_within wholes small (by omega)]
      exact ⟨fun long _timed => long, fun long => long timed⟩
    · rw [if_neg timed]
      exact iff_of_true (List.forall_mem_nil _) (fun both => absurd both timed)

private theorem server_udp_read_cb_within
    (wholes : ∀ accessor len, extent (.whole accessor len) = len)
    {least : Nat}
    (datagram : ∀ len, 2 ≤ extent ⟨.get_id, min len MAX_BUF_SIZE, MAX_BUF_SIZE⟩ ↔ least ≤ len)
    (data : Bytes) (c : DNSClient) :
    (∀ access ∈ c.server_udp_read_cb_accesses data, access.Within extent) ↔
      if c.output_latency then least ≤ data.length else c.output_timing → 4 ≤ data.length := by
  unfold server_udp_read_cb_accesses sendto_manager_accesses
  by_cases latency : c.output_latency = true
  · simp only [if_pos latency]
    rw [List.forall_mem_singleton, Access.within_id extent (Or.inr rfl), datagram]
  · simp only [if_neg latency]
    by_cases timing : c.output_timing = true
    · rw [if_pos timing, record_message_time_within wholes]
      unfold MAX_BUF_SIZE
      exact ⟨fun long _timing => by omega, fun long => by have enough := long timing; omega⟩
    · rw [if_neg timing]
      exact iff_of_true (List.forall_mem_nil _) (fun on => absurd on timing)

private theorem latency_within (wholes : ∀ accessor len, extent (.whole accessor len) = len)
    (count : Nat) :
    (∀ access ∈ (if size_t_sub count 2 > PTRDIFF_MAX then []
        else sendto_manager_accesses (size_t_sub count 2) (size_t_sub count 2)),
      access.Within extent) ↔ count < 2 ∨ 4 ≤ count := by
  unfold sendto_manager_accesses
  by_cases huge : size_t_sub count 2 > PTRDIFF_MAX
  · rw [if_pos huge]
    unfold size_t_sub PTRDIFF_MAX at huge
    exact iff_of_true (List.forall_mem_nil _) (by split at huge <;> omega)
  · rw [if_neg huge, List.forall_mem_singleton, Access.within_id extent (Or.inr rfl)]
    have length := wholes .get_id (size_t_sub count 2)
    unfold Access.whole at length
    rw [length]
    unfold size_t_sub PTRDIFF_MAX at huge
    unfold size_t_sub
    split at huge
    · omega
    · rename_i more
      rw [if_neg more]
      omega

private theorem server_read_cb_within (wholes : ∀ accessor len, extent (.whole accessor len) = len)
    (bev : Ptr) (data : Bytes) (c : DNSClient) :
    (∀ access ∈ c.server_read_cb_accesses bev data, access.Within extent) ↔
      (c.output_timing →
        ∀ response ∈ responses (c.buffered bev ++ data), 4 ≤ response.length) ∧
        (c.output_latency → data.length < 2 ∨ 4 ≤ data.length) := by
  unfold server_read_cb_accesses
  rw [List.forall_mem_append]
  apply and_congr
  · by_cases timing : c.output_timing = true
    · rw [if_pos timing, List.forall_mem_flatMap]
      simp only [record_message_time_within wholes, timing, true_imp_iff]
    · rw [if_neg timing]
      exact iff_of_true (List.forall_mem_nil _) (fun on => absurd on timing)
  · by_cases latency : c.output_latency = true
    · simp only [latency, true_imp_iff]
      exact latency_within wholes data.length
    · rw [if_neg latency]
      exact iff_of_true (List.forall_mem_nil _) (fun on => absurd on latency)

/-- One event: its calls stay inside exactly where its messages are long enough. -/
theorem accesses_within_iff (wholes : ∀ accessor len, extent (.whole accessor len) = len)
    {least : Nat}
    (datagram : ∀ len, 2 ≤ extent ⟨.get_id, min len MAX_BUF_SIZE, MAX_BUF_SIZE⟩ ↔ least ≤ len)
    (c : DNSClient) (event : Event) :
    (∀ access ∈ c.accesses get_query_rr_str event, access.Within extent) ↔
      c.LongEnough get_query_rr_str least event := by
  cases event with
  | send_query_udp msg ids now new_fd read_ev =>
      unfold accesses send_query_udp_accesses LongEnough
      by_cases empty : (raw_copy msg).length = 0
      · simp only [if_pos empty]
        exact iff_of_true (List.forall_mem_nil _) (fun _some => by omega)
      · simp only [if_neg empty, draw_id_within wholes]
        exact imp_congr_right (fun _some => by omega)
  | send_query_tcp msg ids now new_bev => exact send_query_tcp_within wholes msg ids c
  | server_udp_write_cb fd msg now =>
      unfold accesses server_udp_write_cb_accesses LongEnough
      by_cases timing : c.output_timing = true
      · simp only [timing, if_true, record_message_time_within wholes, true_imp_iff]
      · simp only [if_neg timing]
        exact iff_of_true (List.forall_mem_nil _) (fun on => absurd on timing)
  | server_udp_read_cb fd data now => exact server_udp_read_cb_within wholes datagram data c
  | server_udp_read_timeout_cb fd => exact iff_of_true (List.forall_mem_nil _) trivial
  | server_read_cb bev data now => exact server_read_cb_within wholes bev data c
  | server_event_cb bev which => exact iff_of_true (List.forall_mem_nil _) trivial

end extent

/-! ### The calls against the worker's steps -/

section steps

variable {get_query_rr_str : Bytes → Bytes} {c d : DNSClient}

private theorem responses_loops (buffer : Bytes) :
    ∃ rest, ∀ (State : Type) (handle : State → Bytes → Except Fault State) (state : State),
      serverLoop handle buffer state =
        ((responses buffer).foldlM handle state).map (fun final => (rest, final)) := by
  obtain ⟨rest, handed, _cut, _small, loops⟩ := serverLoop_hands_over buffer
  have same : responses buffer = handed := by
    unfold responses
    rw [loops, foldlM_record]
    rfl
  exact ⟨rest, by rw [same]; exact loops⟩

theorem recorded_long {data addr : Bytes} {now : Timeval}
    (ran : c.record_message_time get_query_rr_str data addr now = .ok d) : 4 ≤ data.length := by
  by_contra short
  unfold record_message_time at ran
  rw [if_pos (Nat.not_le.mp short)] at ran
  cases ran

private theorem all_recorded_long {addr : Bytes} {now : Timeval} {handed : List Bytes}
    (ran : handed.foldlM
      (fun c data => c.record_message_time get_query_rr_str data addr now) c = .ok d) :
    ∀ data ∈ handed, 4 ≤ data.length := by
  induction handed generalizing c with
  | nil => exact List.forall_mem_nil _
  | cons data later ih =>
      rw [List.foldlM_cons] at ran
      obtain ⟨next, first, others⟩ := of_bind_eq_ok ran
      exact List.forall_mem_cons.mpr ⟨recorded_long first, ih others⟩

private theorem logged_long {data addr : Bytes} {now : Timeval}
    (ran : c.log_timing get_query_rr_str data addr now = .ok d) (timing : c.output_timing = true) :
    4 ≤ data.length := by
  unfold log_timing at ran
  rw [if_pos timing] at ran
  exact recorded_long ran

private theorem server_timing_long {bev : Ptr} {data : Bytes} {now : Timeval}
    (ran : c.server_timing get_query_rr_str bev data now = .ok d) :
    ∀ response ∈ responses (c.buffered bev ++ data), 4 ≤ response.length := by
  have before : (c.server_msg_buffer.subscript [] bev).1 = c.buffered bev :=
    subscript_value _ [] bev
  obtain ⟨rest, loops⟩ := responses_loops (c.buffered bev ++ data)
  unfold server_timing at ran
  simp only [before, server_messages_eq, loops] at ran
  split at ran
  · cases ran
  · rename_i recorded
    obtain ⟨final, folded, _same⟩ := of_map_eq_ok recorded
    exact all_recorded_long folded

theorem step_long {event : Event} (stepped : c.step get_query_rr_str event = .ok d) :
    c.LongEnough get_query_rr_str 0 event := by
  cases event with
  | send_query_udp msg ids now new_fd read_ev =>
      intro _some one
      change c.send_query_udp get_query_rr_str msg ids now new_fd read_ev = _ at stepped
      unfold send_query_udp at stepped
      simp only [one, Nat.one_ne_zero, if_false, Nat.one_lt_two, if_true, reduceCtorEq] at stepped
  | send_query_tcp msg ids now new_bev =>
      change c.send_query_tcp get_query_rr_str msg ids now new_bev = _ at stepped
      refine ⟨?_, ?_⟩
      · intro _some one
        unfold send_query_tcp at stepped
        simp only [one, Nat.one_ne_zero, if_false, Nat.one_lt_two, if_true, reduceCtorEq]
          at stepped
      · intro timed
        obtain ⟨id, drawn⟩ := Option.isSome_iff_exists.mp timed.1
        by_cases header : 2 ≤ (raw_copy msg).length
        · rw [send_query_tcp_eq get_query_rr_str header drawn] at stepped
          obtain ⟨sent, ran, _same⟩ := of_map_eq_ok stepped
          unfold tcp_send at ran
          simp only at ran
          split at ran
          · cases ran
          · split at ran
            · cases ran
            · rename_i ready logged
              have on : (c.log_query_timing id (get_query_rr_str (raw_copy msg)) now).output_timing =
                  true := (log_query_timing_keeps _ _ _ _).2.1.trans timed.2
              have long := logged_long logged on
              rw [set_id_length id header] at long
              omega
        · omega
  | server_udp_write_cb fd msg now =>
      intro timing
      change c.server_udp_write_cb get_query_rr_str fd msg now = _ at stepped
      unfold server_udp_write_cb at stepped
      simp only at stepped
      split at stepped
      · cases stepped
      · rename_i ready logged
        exact logged_long logged timing
  | server_udp_read_cb fd data now =>
      change c.server_udp_read_cb get_query_rr_str fd data now = _ at stepped
      unfold server_udp_read_cb at stepped
      change if c.output_latency then 0 ≤ data.length else c.output_timing → 4 ≤ data.length
      by_cases latency : c.output_latency = true
      · rw [if_pos latency]
        exact Nat.zero_le _
      · rw [if_neg latency] at stepped
        rw [if_neg latency]
        exact logged_long stepped
  | server_udp_read_timeout_cb fd => trivial
  | server_read_cb bev data now =>
      change c.server_read_cb get_query_rr_str bev data now = _ at stepped
      refine ⟨?_, ?_⟩
      · intro timing
        unfold server_read_cb at stepped
        rw [if_pos timing] at stepped
        split at stepped
        · cases stepped
        · rename_i ready ran
          exact server_timing_long ran
      · intro latency
        obtain ⟨ready, _reached, outcome⟩ := server_read_cb_cases stepped
        rcases outcome with ⟨_latency, long, _same⟩ | ⟨off, _same⟩
        · exact Or.inr long
        · rw [off] at latency
          cases latency
  | server_event_cb bev which => trivial

/-! ### What is scheduled has the length of what was received -/

theorem step_write_events {event : Event} (stepped : c.step get_query_rr_str event = .ok d) :
    ∀ write ∈ d.write_events, write ∈ c.write_events ∨
      ∃ msg ids now new_fd read_ev, event = .send_query_udp msg ids now new_fd read_ev ∧
        2 ≤ (raw_copy msg).length ∧ write.2.raw.length = (raw_copy msg).length := by
  intro write member
  cases event with
  | send_query_udp msg ids now new_fd read_ev =>
      rcases send_query_udp_cases stepped with rfl | ⟨id, fd, ready, header, _drawn, socket, rfl⟩
      · exact Or.inl member
      · have kept : ready.write_events = c.write_events := by
          rcases udp_socket_cases socket with
            ⟨_on, _fd, rfl⟩ | ⟨_off, _found, rfl⟩ | ⟨_off, _none, _fd, rfl⟩ <;> rfl
        simp only [log_query_timing_write_events, kept] at member
        rcases List.mem_append.mp member with old | new
        · exact Or.inl old
        · rw [List.mem_singleton] at new
          subst new
          exact Or.inr ⟨msg, ids, now, new_fd, read_ev, rfl, header, set_id_length id header⟩
  | send_query_tcp msg ids now new_bev =>
      rcases send_query_tcp_cases stepped with rfl | ⟨id, results, bev, _header, _drawn, connection⟩
      · exact Or.inl member
      · have kept : d.write_events = c.write_events := by
          rcases tcp_connection_cases connection with ⟨_found, rfl⟩ | ⟨_none, _bev, _live, rfl⟩ <;>
            simp
        rw [kept] at member
        exact Or.inl member
  | server_udp_write_cb fd msg now =>
      obtain ⟨_open, results, rfl⟩ := server_udp_write_cb_cases stepped
      exact Or.inl (List.mem_of_mem_erase member)
  | server_udp_read_cb fd data now =>
      rcases server_udp_read_cb_cases stepped with ⟨_on, rfl⟩ | ⟨_off, results, rfl⟩
      · rw [sendto_manager_write_events] at member
        exact Or.inl member
      · exact Or.inl member
  | server_udp_read_timeout_cb fd =>
      have kept : (c.server_udp_read_timeout_cb fd).write_events = c.write_events := by
        unfold server_udp_read_timeout_cb
        simp only
        split
        · rfl
        · split
          · rfl
          · split <;> rfl
      rw [← Except.ok.inj stepped, kept] at member
      exact Or.inl member
  | server_read_cb bev data now =>
      obtain ⟨ready, reached, outcome⟩ := server_read_cb_cases stepped
      have kept : ready.write_events = c.write_events := by
        rcases reached with rfl | ⟨_timing, results, rest, rfl⟩ <;> rfl
      rcases outcome with ⟨_on, _long, rfl⟩ | ⟨_off, rfl⟩
      · rw [sendto_manager_write_events, kept] at member
        exact Or.inl member
      · rw [kept] at member
        exact Or.inl member
  | server_event_cb bev which =>
      have kept : (c.server_event_cb bev which).write_events = c.write_events := by
        unfold server_event_cb
        split <;> rfl
      rw [← Except.ok.inj stepped, kept] at member
      exact Or.inl member

/-- What is asked of the messages and the server alone: nothing of the writes. -/
def LongInput (get_query_rr_str : Bytes → Bytes) (least : Nat) (c : DNSClient) : Event → Prop
  | .send_query_udp msg _ _ _ _ => (raw_copy msg).length = 0 ∨ 4 ≤ (raw_copy msg).length
  | .server_udp_write_cb _ _ _ => True
  | event => c.LongEnough get_query_rr_str least event

def ScheduledLong (c : DNSClient) : Prop := ∀ write ∈ c.write_events, 4 ≤ write.2.raw.length

theorem ScheduledLong.step (scheduled : c.ScheduledLong) {least : Nat} {event : Event}
    (stepped : c.step get_query_rr_str event = .ok d)
    (long : c.LongInput get_query_rr_str least event) : d.ScheduledLong := by
  intro write member
  rcases step_write_events stepped write member with
    old | ⟨msg, ids, now, new_fd, read_ev, rfl, header, same⟩
  · exact scheduled write old
  · rcases long with empty | enough
    · omega
    · omega

theorem LongInput.longEnough (scheduled : c.ScheduledLong) {least : Nat} {event : Event}
    (admitted : c.admits event) (long : c.LongInput get_query_rr_str least event) :
    c.LongEnough get_query_rr_str least event := by
  cases event with
  | send_query_udp msg ids now new_fd read_ev =>
      intro _some one
      rcases long with empty | enough
      · omega
      · omega
  | server_udp_write_cb fd msg now => exact fun _timing => scheduled (fd, msg) admitted
  | send_query_tcp msg ids now new_bev => exact long
  | server_udp_read_cb fd data now => exact long
  | server_udp_read_timeout_cb fd => trivial
  | server_read_cb bev data now => exact long
  | server_event_cb bev which => trivial

theorem Initial.scheduledLong {start : DNSClient} (initial : start.Initial) :
    start.ScheduledLong := by
  obtain ⟨options, open_fds, rfl⟩ := initial
  exact List.forall_mem_nil _

end steps

variable (get_query_rr_str : Bytes → Bytes)

theorem whole_len (accessor : Accessor) (len : Nat) : (Access.whole accessor len).len = len := rfl

theorem whole_size (accessor : Accessor) (len : Nat) : (Access.whole accessor len).size = len := rfl

theorem datagram_len (len : Nat) :
    2 ≤ Access.len ⟨.get_id, min len MAX_BUF_SIZE, MAX_BUF_SIZE⟩ ↔ 2 ≤ len := by
  unfold MAX_BUF_SIZE
  exact Nat.le_min.trans (and_iff_left (by decide))

theorem datagram_size (len : Nat) :
    2 ≤ Access.size ⟨.get_id, min len MAX_BUF_SIZE, MAX_BUF_SIZE⟩ ↔ 0 ≤ len :=
  iff_of_true (Nat.le_of_ble_eq_true rfl) (Nat.zero_le len)

/-- Steps that are defined make no call that leaves its buffer, and none that leaves its
message where messages and server data are long enough. -/
theorem run_within {start c : DNSClient} {events : List Event} (initial : start.Initial)
    (run : Run get_query_rr_str start events c) :
    AllSteps (step get_query_rr_str)
        (fun c event => ∀ access ∈ c.accesses get_query_rr_str event, access.Within Access.size)
        start events ∧
      (AllSteps (step get_query_rr_str) (LongInput get_query_rr_str 2) start events →
        AllSteps (step get_query_rr_str)
          (fun c event => ∀ access ∈ c.accesses get_query_rr_str event, access.Within Access.len)
          start events) := by
  constructor
  · have agree : ∀ c event next, True → admits c event →
        step get_query_rr_str c event = .ok next →
          ((∀ access ∈ c.accesses get_query_rr_str event, access.Within Access.size) ↔ True) := by
      intro c event _next _true _admitted stepped
      apply iff_of_true _ trivial
      exact (accesses_within_iff whole_size datagram_size c event).mpr (step_long stepped)
    have defined := run.allSteps_congr agree (fun _ _ _ _ _ _ _ => trivial) trivial
    exact defined.mpr (fun _ _ _ _ _ _ => trivial)
  · intro long
    -- what is scheduled has the length of what was received
    have agree : ∀ c event next, c.ScheduledLong → admits c event →
        step get_query_rr_str c event = .ok next →
          ((LongInput get_query_rr_str 2 c event ∧
            ∀ access ∈ c.accesses get_query_rr_str event, access.Within Access.len) ↔
          LongInput get_query_rr_str 2 c event) := by
      intro c event _next scheduled admitted _stepped
      apply and_iff_left_of_imp
      intro input
      exact (accesses_within_iff whole_len datagram_len c event).mpr
        (input.longEnough scheduled admitted)
    have both := run.allSteps_congr agree
      (fun _ _ _ scheduled _admitted stepped input => scheduled.step stepped input)
      initial.scheduledLong
    intro before event after state same reached
    exact (both.mpr long before event after state same reached).2

/-- Over a whole run, the event at its end included, whatever becomes of it: the
calls stay inside their messages exactly where each event's messages are long
enough, and inside their buffers where datagrams may be short.  In a run whose steps
are all defined they stay inside their buffers, and inside their messages where what
comes from outside is long enough. -/
theorem accesses_within_run_iff (start : DNSClient) (events : List Event) :
    (AllSteps (step get_query_rr_str)
        (fun c event => ∀ access ∈ c.accesses get_query_rr_str event, access.Within Access.len)
        start events ↔
      AllSteps (step get_query_rr_str) (LongEnough get_query_rr_str 2) start events) ∧
    (AllSteps (step get_query_rr_str)
        (fun c event => ∀ access ∈ c.accesses get_query_rr_str event, access.Within Access.size)
        start events ↔
      AllSteps (step get_query_rr_str) (LongEnough get_query_rr_str 0) start events) ∧
    (∀ c, start.Initial → Run get_query_rr_str start events c →
      AllSteps (step get_query_rr_str)
          (fun c event => ∀ access ∈ c.accesses get_query_rr_str event, access.Within Access.size)
          start events ∧
        (AllSteps (step get_query_rr_str) (LongInput get_query_rr_str 2) start events →
          AllSteps (step get_query_rr_str)
            (fun c event => ∀ access ∈ c.accesses get_query_rr_str event,
              access.Within Access.len) start events)) := by
  refine ⟨?_, ?_, fun c initial run => run_within get_query_rr_str initial run⟩
  · unfold AllSteps
    simp only [accesses_within_iff whole_len datagram_len]
  · unfold AllSteps
    simp only [accesses_within_iff whole_size datagram_size]

def one_byte_query : DNSMsg := { src_ip? := some (ascii "1.2.3.4"), raw? := some [7] }

def one_byte_send : Event := .send_query_udp one_byte_query [5] Timeval.zero 3 1

/-- `set_random_id` writes its second byte behind the packet. -/
theorem one_byte_query_outside :
    one_byte_query.raw ≠ [] ∧ Initial {} ∧ admits {} one_byte_send ∧
      ¬ AllSteps (step (fun _ => []))
        (fun c event => ∀ access ∈ c.accesses (fun _ => []) event, access.Within Access.len)
        {} [one_byte_send] ∧
      ¬ AllSteps (step (fun _ => []))
        (fun c event => ∀ access ∈ c.accesses (fun _ => []) event, access.Within Access.size)
        {} [one_byte_send] := by
  have called : Access.whole .set_random_id 1 ∈ accesses (fun _ => []) {} one_byte_send :=
    List.mem_cons_self
  refine ⟨List.cons_ne_nil _ _, ⟨{}, [], rfl⟩, List.not_mem_nil, ?_, ?_⟩
  · intro all
    have inside := all [] one_byte_send [] _ rfl (.done _) _ called
    exact absurd inside (by decide)
  · intro all
    have inside := all [] one_byte_send [] _ rfl (.done _) _ called
    exact absurd inside (by decide)

end DNSClient

end LDPlayer
