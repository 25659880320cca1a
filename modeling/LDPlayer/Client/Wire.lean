/-
The bytes of the queries on the wire.

A query goes out with its first two bytes replaced by a random id; over TCP its
length stands in front.  Lengths are kept in 16 bits: that of the payload, and
that of the buffer that takes the payload and its length.
-/
import LDPlayer.Client.ServerStream

set_option autoImplicit false

namespace LDPlayer

open LengthPrefix HashTable

def memcpy (buffer : Bytes) (offset : Nat) (source : Bytes) : Except Fault Bytes :=
  if offset + source.length ≤ buffer.length then
    .ok (buffer.take offset ++ source ++ buffer.drop (offset + source.length))
  else .error .outOfBounds

/-- The buffer that `send_query_tcp` fills with the length and the packet. -/
def tcp_raw (raw : Bytes) : Except Fault Bytes :=
  let tcp_raw_len := (raw.length + 2) % 2 ^ 16
  match memcpy (List.replicate tcp_raw_len 0) 0 (encodeLength 2 raw.length) with
  | .error fault => .error fault
  | .ok tcp_raw => memcpy tcp_raw 2 raw

/-- The buffer is large enough up to 65533 bytes, and then it is filled. -/
theorem tcp_raw_eq {raw : Bytes} (small : raw.length < 2 ^ 16) :
    tcp_raw raw =
      if raw.length ≤ 65533 then .ok (LengthPrefix.frame tcpWidth raw)
      else .error .outOfBounds := by
  unfold tcp_raw memcpy
  simp only [encodeLength_length, List.length_replicate]
  by_cases fits : raw.length ≤ 65533
  · have size : (raw.length + 2) % 2 ^ 16 = 2 + raw.length := by omega
    rw [size, if_pos (by omega), if_pos fits]
    simp only [List.take_zero, List.nil_append, Nat.zero_add, List.drop_replicate,
      List.length_append, encodeLength_length, List.length_replicate]
    rw [if_pos (by omega), List.take_left' (encodeLength_length 2 _),
      List.drop_of_length_le (by simp), List.append_nil]
    rfl
  · have size : (raw.length + 2) % 2 ^ 16 = raw.length - 65534 := by omega
    rw [size, if_neg fits, if_neg (by omega)]

theorem set_id_length (id : Nat) {raw : Bytes} (header : 2 ≤ raw.length) :
    (set_id id raw).length = raw.length := by
  unfold set_id
  rw [List.length_cons, List.length_cons, List.length_drop]
  omega

namespace DNSClient

theorem raw_copy_of_lt {msg : DNSMsg} (small : msg.raw.length < 2 ^ 16) :
    raw_copy msg = msg.raw := by
  unfold raw_copy
  rw [Nat.mod_eq_of_lt small, List.take_length]

section wire

variable (get_query_rr_str : Bytes → Bytes)

/-- `send_query_tcp` with the id that was drawn, and the bytes it writes on
which connection. -/
def tcp_send (msg : DNSMsg) (id : Nat) (now : Timeval) (new_bev : Ptr) (c : DNSClient) :
    Except Fault ((Ptr × Bytes) × DNSClient) :=
  let raw := raw_copy msg
  let rr := get_query_rr_str raw
  match tcp_raw (set_id id raw) with
  | .error fault => .error fault
  | .ok bytes =>
      let logged := c.log_query_timing id rr now
      match logged.log_timing get_query_rr_str (set_id id raw) msg.src_ip now with
      | .error fault => .error fault
      | .ok ready =>
          match ready.tcp_connection msg.src_ip new_bev with
          | .error fault => .error fault
          | .ok (bev, connected) => .ok ((bev, bytes), connected)

theorem send_query_tcp_eq {msg : DNSMsg} {ids : List Nat} {id : Nat} {now : Timeval}
    {new_bev : Ptr} {c : DNSClient} (header : 2 ≤ (raw_copy msg).length)
    (drawn : draw_id (get_query_rr_str (raw_copy msg)) c ids = some id) :
    c.send_query_tcp get_query_rr_str msg ids now new_bev =
      (c.tcp_send get_query_rr_str msg id now new_bev).map Prod.snd := by
  have small : (set_id id (raw_copy msg)).length < 2 ^ 16 := by
    rw [set_id_length id header]
    unfold raw_copy
    rw [List.length_take]
    exact Nat.lt_of_le_of_lt (Nat.min_le_left _ _) (Nat.mod_lt _ (by decide))
  unfold send_query_tcp tcp_send
  simp only [if_neg (by omega : ¬ (raw_copy msg).length = 0), if_neg (Nat.not_lt.mpr header), drawn,
    tcp_raw_eq small, set_id_length id header]
  by_cases fits : (raw_copy msg).length ≤ 65533
  · rw [if_neg (by omega), if_pos fits]
    simp only
    cases (c.log_query_timing id (get_query_rr_str (raw_copy msg)) now).log_timing
        get_query_rr_str (set_id id (raw_copy msg)) msg.src_ip now with
    | error fault => rfl
    | ok ready =>
        simp only
        cases ready.tcp_connection msg.src_ip new_bev <;> rfl
  · rw [if_pos (by omega), if_neg fits]
    rfl

structure Query where
  msg : DNSMsg
  id : Nat
  now : Timeval

def tcp_sends (new_bev : Ptr) :
    List Query → DNSClient → Except Fault (List (Ptr × Bytes) × DNSClient)
  | [], c => .ok ([], c)
  | query :: later, c =>
      match c.tcp_send get_query_rr_str query.msg query.id query.now new_bev with
      | .error fault => .error fault
      | .ok (write, next) =>
          (tcp_sends new_bev later next).map (fun rest => (write :: rest.1, rest.2))

/-- The source has this connection, or gets it as its new one. -/
def Connects (c : DNSClient) (ip : Bytes) (new_bev bev : Ptr) : Prop :=
  bev ≠ NULL ∧ (c.src2bev.lookup ip = some bev ∨ c.src2bev.lookup ip = none ∧ bev = new_bev)

/-- The 16 bits hold the length of the query with its length field, and where
times are recorded the query has the bytes that are looked at. -/
def Sendable (timing : Bool) (raw : Bytes) : Prop :=
  raw.length ≤ 65533 ∧ (timing = true → 4 ≤ raw.length)

instance (timing : Bool) (raw : Bytes) : Decidable (Sendable timing raw) :=
  inferInstanceAs (Decidable (_ ∧ _))

variable {get_query_rr_str} {c : DNSClient} {ip : Bytes} {new_bev bev : Ptr}

theorem Connects.tcp_connection (connects : c.Connects ip new_bev bev) :
    ∃ d, c.tcp_connection ip new_bev = .ok (bev, d) ∧ d.src2bev.lookup ip = some bev ∧
      d.output_timing = c.output_timing := by
  obtain ⟨nonnull, found | ⟨absent, rfl⟩⟩ := connects
  · refine ⟨c, ?_, found, rfl⟩
    unfold DNSClient.tcp_connection
    simp only [found, if_neg nonnull]
  · refine ⟨{ c with
        live_bevs := bev :: c.live_bevs
        src2bev := c.src2bev.emplace ip bev
        bev2src := c.bev2src.emplace bev ip
        server_msg_buffer := c.server_msg_buffer.emplace bev [] }, ?_, ?_, rfl⟩
    · unfold DNSClient.tcp_connection
      simp only [absent, if_neg nonnull]
    · unfold emplace
      rw [if_neg (notMem_iff_lookup.mpr absent)]
      exact AList.lookup_insert _

theorem log_query_timing_keeps (id : Nat) (rr : Bytes) (now : Timeval) (c : DNSClient) :
    (c.log_query_timing id rr now).src2bev = c.src2bev ∧
      (c.log_query_timing id rr now).output_timing = c.output_timing ∧
      (c.log_query_timing id rr now).write_events = c.write_events := by
  unfold log_query_timing
  split <;> exact ⟨rfl, rfl, rfl⟩

variable (get_query_rr_str) in
/-- One query: its frame goes out on the connection if it is sendable, and else
the call leaves a buffer. -/
theorem tcp_send_cases {msg : DNSMsg} (id : Nat) (now : Timeval)
    (connects : c.Connects msg.src_ip new_bev bev) (header : 2 ≤ msg.raw.length)
    (small : msg.raw.length ≤ 65535) :
    (Sendable c.output_timing msg.raw → ∃ d,
      c.tcp_send get_query_rr_str msg id now new_bev =
          .ok ((bev, LengthPrefix.frame tcpWidth (set_id id msg.raw)), d) ∧
        d.src2bev.lookup msg.src_ip = some bev ∧ d.output_timing = c.output_timing) ∧
    (¬ Sendable c.output_timing msg.raw →
      c.tcp_send get_query_rr_str msg id now new_bev = .error .outOfBounds) := by
  have copied : raw_copy msg = msg.raw := raw_copy_of_lt (by omega)
  have size : (set_id id msg.raw).length = msg.raw.length := set_id_length id header
  obtain ⟨table, timing, _events⟩ := log_query_timing_keeps id (get_query_rr_str msg.raw) now c
  unfold tcp_send
  simp only [copied, tcp_raw_eq (show (set_id id msg.raw).length < 2 ^ 16 by omega), size]
  constructor
  · intro sendable
    obtain ⟨fits, long⟩ := sendable
    have logged : ∃ results, log_timing get_query_rr_str (set_id id msg.raw) msg.src_ip now
        (c.log_query_timing id (get_query_rr_str msg.raw) now) =
          .ok { c.log_query_timing id (get_query_rr_str msg.raw) now with results := results } := by
      unfold log_timing record_message_time
      rw [timing]
      by_cases recorded : c.output_timing = true
      · rw [if_pos recorded, size, if_neg (Nat.not_lt.mpr (long recorded))]
        exact ⟨_, rfl⟩
      · rw [if_neg recorded]
        exact ⟨_, rfl⟩
    obtain ⟨results, logged⟩ := logged
    have ready : Connects
        { c.log_query_timing id (get_query_rr_str msg.raw) now with results := results }
        msg.src_ip new_bev bev := by
      unfold Connects
      simp only [table]
      exact connects
    obtain ⟨d, connected, found, kept⟩ := ready.tcp_connection
    refine ⟨d, ?_, found, kept.trans timing⟩
    simp only [if_pos fits, logged, connected]
  · intro unsendable
    by_cases fits : msg.raw.length ≤ 65533
    · have short : c.output_timing = true ∧ msg.raw.length < 4 := by
        by_contra otherwise
        apply unsendable
        refine ⟨fits, ?_⟩
        intro recorded
        by_contra less
        exact otherwise ⟨recorded, Nat.not_le.mp less⟩
      have fault : log_timing get_query_rr_str (set_id id msg.raw) msg.src_ip now
          (c.log_query_timing id (get_query_rr_str msg.raw) now) = .error .outOfBounds := by
        unfold log_timing record_message_time
        rw [timing, if_pos short.1, size, if_pos short.2]
      simp only [if_pos fits, fault]
    · simp only [if_neg fits]

variable (get_query_rr_str) in
/-- The frames of a list of queries go out on the connection exactly when each
is sendable. -/
theorem tcp_sends_iff {queries : List Query} (connects : c.Connects ip new_bev bev)
    (sized : ∀ query ∈ queries, query.msg.src_ip = ip ∧
      2 ≤ query.msg.raw.length ∧ query.msg.raw.length ≤ 65535) :
    (∃ d, tcp_sends get_query_rr_str new_bev queries c =
      .ok (queries.map (fun query =>
        (bev, LengthPrefix.frame tcpWidth (set_id query.id query.msg.raw))), d)) ↔
      ∀ query ∈ queries, Sendable c.output_timing query.msg.raw := by
  induction queries generalizing c with
  | nil => exact iff_of_true ⟨c, rfl⟩ (List.forall_mem_nil _)
  | cons query later ih =>
      obtain ⟨⟨rfl, header, small⟩, others⟩ := List.forall_mem_cons.mp sized
      obtain ⟨sends, fails⟩ :=
        tcp_send_cases get_query_rr_str query.id query.now connects header small
      rw [List.forall_mem_cons]
      by_cases sendable : Sendable c.output_timing query.msg.raw
      · obtain ⟨next, sent, found, kept⟩ := sends sendable
        have rest := ih (c := next) ⟨connects.1, Or.inl found⟩ others
        rw [kept] at rest
        rw [and_iff_right sendable, ← rest]
        rw [tcp_sends, sent]
        constructor
        · intro whole
          obtain ⟨d, ran⟩ := whole
          simp only at ran
          cases behind : tcp_sends get_query_rr_str new_bev later next with
          | error fault =>
              rw [behind] at ran
              cases ran
          | ok result =>
              rw [behind] at ran
              obtain ⟨writes, rfl⟩ := Prod.mk.inj (Except.ok.inj ran)
              exact ⟨result.2, congrArg (fun sent => Except.ok (sent, result.2))
                (List.cons.inj writes).2⟩
        · intro part
          obtain ⟨d, ran⟩ := part
          refine ⟨d, ?_⟩
          simp only [ran]
          rfl
      · refine iff_of_false ?_ (fun both => sendable both.1)
        intro whole
        obtain ⟨d, ran⟩ := whole
        unfold tcp_sends at ran
        rw [fails sendable] at ran
        cases ran

/-- The query bytes reach the wire intact exactly up to 65533 bytes over TCP,
and always over UDP.

On one connection, queries of 2 to 65535 bytes all go out, as frames that a
reader of the stream takes apart into the payloads with their ids, exactly when
none exceeds 65533 bytes and, where times are recorded, none is shorter than 4;
`send_query_tcp` does to the worker what sending these bytes does.  Over UDP the
scheduled datagram is the payload with its id. -/
theorem query_bytes_on_wire_iff (get_query_rr_str : Bytes → Bytes) (c : DNSClient)
    (ip : Bytes) (new_bev bev : Ptr) (queries : List Query)
    (connects : c.Connects ip new_bev bev)
    (sized : ∀ query ∈ queries, query.msg.src_ip = ip ∧
      2 ≤ query.msg.raw.length ∧ query.msg.raw.length ≤ 65535) :
    ((∃ writes d, tcp_sends get_query_rr_str new_bev queries c = .ok (writes, d) ∧
        writes = queries.map (fun query =>
          (bev, LengthPrefix.frame tcpWidth (set_id query.id query.msg.raw))) ∧
        unframe tcpWidth (writes.flatMap Prod.snd) =
          (queries.map (fun query => set_id query.id query.msg.raw), [])) ↔
      ∀ query ∈ queries, query.msg.raw.length ≤ 65533 ∧
        (c.output_timing = true → 4 ≤ query.msg.raw.length)) ∧
    (∀ (c : DNSClient) (msg : DNSMsg) (ids : List Nat) (id : Nat) (now : Timeval),
      2 ≤ msg.raw.length → msg.raw.length ≤ 65535 →
      draw_id (get_query_rr_str msg.raw) c ids = some id →
      c.send_query_tcp get_query_rr_str msg ids now new_bev =
        (c.tcp_send get_query_rr_str msg id now new_bev).map Prod.snd) ∧
    ∀ (c ready : DNSClient) (msg : DNSMsg) (ids : List Nat) (id : Nat) (now : Timeval)
      (fd new_fd : Fd) (read_ev : Ptr), 2 ≤ msg.raw.length → msg.raw.length ≤ 65535 →
      draw_id (get_query_rr_str msg.raw) c ids = some id →
      c.udp_socket msg.src_ip new_fd read_ev = .ok (fd, ready) →
      ∃ d sent, c.send_query_udp get_query_rr_str msg ids now new_fd read_ev = .ok d ∧
        d.write_events = ready.write_events ++ [(fd, sent)] ∧
        sent.raw = set_id id msg.raw ∧ sent.raw.length = msg.raw.length := by
  refine ⟨?_, ?_, ?_⟩
  · rw [show (∀ query ∈ queries, query.msg.raw.length ≤ 65533 ∧
        (c.output_timing = true → 4 ≤ query.msg.raw.length)) ↔
        ∀ query ∈ queries, Sendable c.output_timing query.msg.raw from Iff.rfl,
      ← tcp_sends_iff get_query_rr_str connects sized]
    constructor
    · intro whole
      obtain ⟨writes, d, ran, rfl, _decoded⟩ := whole
      exact ⟨d, ran⟩
    · intro whole
      obtain ⟨d, ran⟩ := whole
      refine ⟨_, d, ran, rfl, ?_⟩
      have stream : (queries.map (fun query =>
            (bev, LengthPrefix.frame tcpWidth (set_id query.id query.msg.raw)))).flatMap Prod.snd =
          frames tcpWidth (queries.map (fun query => set_id query.id query.msg.raw)) := by
        unfold frames
        rw [List.flatMap_map, List.flatMap_map]
      rw [stream]
      apply unframe_frames (by decide)
      intro payload member
      obtain ⟨query, listed, rfl⟩ := List.mem_map.mp member
      obtain ⟨_source, header, small⟩ := sized query listed
      rw [set_id_length query.id header]
      exact Nat.lt_of_le_of_lt small (by decide)
  · intro c msg ids id now header small drawn
    have copied : raw_copy msg = msg.raw := raw_copy_of_lt (by omega)
    exact send_query_tcp_eq get_query_rr_str (by rw [copied]; exact header)
      (by rw [copied]; exact drawn)
  · intro c ready msg ids id now fd new_fd read_ev header small drawn socket
    have copied : raw_copy msg = msg.raw := raw_copy_of_lt (by omega)
    have ran : c.send_query_udp get_query_rr_str msg ids now new_fd read_ev =
        .ok { ready.log_query_timing id (get_query_rr_str msg.raw) now with
              write_events :=
                (ready.log_query_timing id (get_query_rr_str msg.raw) now).write_events ++
                  [(fd, msg.set_raw (set_id id msg.raw))] } := by
      unfold send_query_udp
      simp only [copied, if_neg (by omega : ¬ msg.raw.length = 0), if_neg (Nat.not_lt.mpr header),
        drawn, socket]
    refine ⟨_, msg.set_raw (set_id id msg.raw), ran, ?_, rfl, set_id_length id header⟩
    change (ready.log_query_timing id (get_query_rr_str msg.raw) now).write_events ++ _ = _
    rw [(log_query_timing_keeps id (get_query_rr_str msg.raw) now ready).2.2]

end wire

def connected_worker : DNSClient :=
  { src2bev := (∅ : HashTable Bytes Ptr).insert [49] 7, live_bevs := [7] }

theorem connected_worker_connects : connected_worker.Connects [49] 8 7 :=
  ⟨by decide, Or.inl (by decide)⟩

def short_query : DNSMsg := { src_ip? := some [49], raw? := some [0, 0, 1, 2, 3] }

/-- Two sendings of a short query. -/
theorem query_bytes_two :
    ∃ writes d, tcp_sends (fun _ => []) 8
        [{ msg := short_query, id := 258, now := Timeval.zero },
          { msg := short_query, id := 772, now := Timeval.zero }] connected_worker =
        .ok (writes, d) ∧
      unframe tcpWidth (writes.flatMap Prod.snd) = ([[1, 2, 1, 2, 3], [3, 4, 1, 2, 3]], []) := by
  have sized : ∀ query ∈ [({ msg := short_query, id := 258, now := Timeval.zero } : Query),
      { msg := short_query, id := 772, now := Timeval.zero }],
      query.msg.src_ip = [49] ∧ 2 ≤ query.msg.raw.length ∧ query.msg.raw.length ≤ 65535 := by
    intro query member
    rcases List.mem_cons.mp member with rfl | later
    · decide
    · rw [List.mem_singleton.mp later]
      decide
  obtain ⟨writes, d, ran, _frames, decoded⟩ :=
    (query_bytes_on_wire_iff (fun _ => []) connected_worker [49] 8 7 _
      connected_worker_connects sized).1.mpr (by
      intro query member
      rcases List.mem_cons.mp member with rfl | later
      · decide
      · rw [List.mem_singleton.mp later]
        decide)
  exact ⟨writes, d, ran, decoded⟩

def longest_query : DNSMsg := { src_ip? := some [49], raw? := some (List.replicate 65535 0) }

/-- The length with its length field wraps around to 1, and the copies leave the
buffer. -/
theorem longest_query_overflows :
    longest_query.raw.length = 65535 ∧ tcp_raw longest_query.raw = .error .outOfBounds ∧
      connected_worker.tcp_send (fun _ => []) longest_query 258 Timeval.zero 8 =
        .error .outOfBounds := by
  have size : longest_query.raw.length = 65535 := List.length_replicate
  refine ⟨size, ?_, ?_⟩
  · rw [tcp_raw_eq (by rw [size]; decide), if_neg (by rw [size]; decide)]
  · apply (tcp_send_cases (fun _ => []) 258 Timeval.zero connected_worker_connects (by rw [size]; decide)
      (Nat.le_of_eq size)).2
    intro sendable
    have fits := sendable.1
    rw [size] at fits
    exact absurd fits (by decide)

end DNSClient

end LDPlayer
