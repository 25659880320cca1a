/-
From a capture to the wire: TCP segments of a trace and what the client sends
for them.

The readers pass over the two bytes in front of a segment and take the rest for
the query; the client puts the length of the query in front of it again.
-/
import LDPlayer.Client.Wire
import LDPlayer.Input.Packets

set_option autoImplicit false

namespace LDPlayer

open LengthPrefix

private theorem memcpy_length {buffer source copied : Bytes} {offset : Nat}
    (fits : memcpy buffer offset source = .ok copied) : copied.length = buffer.length := by
  unfold memcpy at fits
  split at fits
  · rw [← Except.ok.inj fits]
    simp only [List.length_append, List.length_take, List.length_drop]
    omega
  · cases fits

private theorem tcp_raw_length {raw sent : Bytes} (filled : tcp_raw raw = .ok sent) :
    sent.length = (raw.length + 2) % 2 ^ 16 := by
  unfold tcp_raw at filled
  simp only at filled
  split at filled
  · cases filled
  · rename_i length_copied first
    rw [memcpy_length filled, memcpy_length first, List.length_replicate]

section segments

variable {Packet : Type} {trace : Libtrace Packet} {packet : Packet} {payload : Bytes}

private theorem process_packet_tcp (carries : Carries trace packet TRACE_IPPROTO_TCP 2 payload)
    (kept : (process_packet trace packet).raw ≠ []) :
    14 < payload.length ∧ (process_packet trace packet).raw = payload.drop tcpWidth := by
  rcases process_packet_cases trace packet with empty | ⟨_, proto, limit, behind, found, long, raw⟩
  · exact absurd empty kept
  · obtain ⟨_, rfl, rfl⟩ := carries.unique found
    exact ⟨long, raw⟩

/-- What the client sends for the segment is the segment, up to the id, exactly
for a whole query with its length. -/
theorem tcp_raw_segment_iff {msg : DNSMsg} (id : Nat) (long : 14 < payload.length)
    (raw : msg.raw = payload.drop tcpWidth) :
    tcp_raw (set_id id (DNSClient.raw_copy msg)) =
        .ok (payload.take tcpWidth ++ set_id id (payload.drop tcpWidth)) ↔
      ∃ message, message.length ≤ 65533 ∧ payload = LengthPrefix.frame tcpWidth message := by
  have header : tcpWidth ≤ payload.length := by
    unfold tcpWidth
    omega
  have rest : (payload.drop tcpWidth).length = payload.length - 2 := List.length_drop
  have idSize : (set_id id (payload.drop tcpWidth)).length = (payload.drop tcpWidth).length :=
    set_id_length id (by omega)
  constructor
  · intro same
    have size := tcp_raw_length same
    have bound := Nat.mod_lt ((set_id id (DNSClient.raw_copy msg)).length + 2)
      (by decide : 0 < 2 ^ 16)
    rw [← size, List.length_append, List.length_take_of_le header, idSize, rest] at bound
    have small : msg.raw.length < 2 ^ 16 := by
      rw [raw, rest]
      unfold tcpWidth at bound
      omega
    rw [DNSClient.raw_copy_of_lt small, raw,
      tcp_raw_eq (by rw [idSize, ← raw]; exact small)] at same
    split at same
    · rename_i fits
      have framed := Except.ok.inj same
      unfold LengthPrefix.frame at framed
      obtain ⟨length, _⟩ := List.append_inj framed (by
        rw [encodeLength_length, List.length_take_of_le header])
      rw [idSize] at length fits
      refine ⟨payload.drop tcpWidth, fits, ?_⟩
      unfold LengthPrefix.frame
      rw [length, List.take_append_drop]
    · cases same
  · intro framed
    obtain ⟨message, fits, rfl⟩ := framed
    rw [drop_width_frame] at raw idSize ⊢
    have front : (LengthPrefix.frame tcpWidth message).take tcpWidth =
        encodeLength tcpWidth message.length :=
      List.take_left' (encodeLength_length tcpWidth message.length)
    have small : message.length < 2 ^ 16 := by omega
    rw [DNSClient.raw_copy_of_lt (by rw [raw]; exact small), raw,
      tcp_raw_eq (by rw [idSize]; exact small), idSize, if_pos fits, front]
    unfold LengthPrefix.frame
    rw [idSize]

/-! ### A connection -/

def GivesQuery (segment : Bytes) : Bool :=
  decide (14 < segment.length) && is_query (segment.drop tcpWidth)

theorem givesQuery_long {segment : Bytes} (gives : GivesQuery segment = true) :
    14 < segment.length :=
  of_decide_eq_true (Bool.and_eq_true_iff.mp gives).1

private theorem givesQuery_frame {query : Bytes} (long : 12 < query.length)
    (isQuery : is_query query) :
    GivesQuery (LengthPrefix.frame tcpWidth query) = true := by
  unfold GivesQuery
  rw [drop_width_frame, isQuery, Bool.and_true, decide_eq_true_eq, frame_length]
  unfold tcpWidth
  omega

private theorem queries_of_segments {segments : List (Packet × Bytes)}
    (carried : ∀ segment ∈ segments,
      Carries trace segment.1 TRACE_IPPROTO_TCP 2 segment.2 ∧ Addressed trace segment.1) :
    (segments.map (fun segment => (process_packet trace segment.1).raw)).filter
        (fun raw => raw ≠ []) =
      ((segments.map Prod.snd).filter GivesQuery).map (List.drop tcpWidth) := by
  induction segments with
  | nil => rfl
  | cons segment later ih =>
      obtain ⟨⟨carries, addressed⟩, others⟩ := List.forall_mem_cons.mp carried
      have raw := process_packet_raw carries addressed
      rw [List.map_cons, List.map_cons]
      cases gives : GivesQuery segment.2 with
      | true =>
          have long := givesQuery_long gives
          have query := (Bool.and_eq_true_iff.mp gives).2
          rw [if_pos ⟨long, query⟩] at raw
          have some : segment.2.drop 2 ≠ [] := by
            apply List.ne_nil_of_length_pos
            rw [List.length_drop]
            omega
          rw [List.filter_cons_of_pos (by rw [raw]; exact decide_eq_true some),
            List.filter_cons_of_pos gives, List.map_cons, ih others, raw]
          rfl
      | false =>
          have neither : ¬ (2 + 12 < segment.2.length ∧ is_query (segment.2.drop 2) = true) := by
            intro both
            have given : GivesQuery segment.2 = true :=
              Bool.and_eq_true_iff.mpr ⟨decide_eq_true both.1, both.2⟩
            rw [gives] at given
            cases given
          rw [if_neg neither] at raw
          rw [List.filter_cons_of_neg (by rw [raw]; simp),
            List.filter_cons_of_neg (by rw [gives]; exact Bool.false_ne_true), ih others]

/-- The queries cut out of a connection are its queries exactly when each
segment that is not empty is one of them with its length. -/
theorem queries_of_segments_iff {segments : List (Packet × Bytes)} {queries : List Bytes}
    (carried : ∀ segment ∈ segments,
      Carries trace segment.1 TRACE_IPPROTO_TCP 2 segment.2 ∧ Addressed trace segment.1)
    (areQueries : ∀ query ∈ queries, 12 < query.length ∧ is_query query = true)
    (stream : (segments.map Prod.snd).flatten = frames tcpWidth queries) :
    (segments.map (fun segment => (process_packet trace segment.1).raw)).filter
        (fun raw => raw ≠ []) = queries ↔
      (segments.map Prod.snd).filter (fun segment => segment ≠ []) =
        queries.map (LengthPrefix.frame tcpWidth) := by
  rw [queries_of_segments carried]
  generalize segments.map Prod.snd = chunks at stream ⊢
  have long : ∀ chunk, GivesQuery chunk = true → tcpWidth ≤ chunk.length := by
    intro chunk gives
    have size := givesQuery_long gives
    unfold tcpWidth
    omega
  constructor
  · intro cut
    obtain ⟨framed, empty⟩ := map_drop_filter long stream cut
    rw [← framed]
    apply List.filter_congr
    intro chunk member
    cases gives : GivesQuery chunk with
    | true =>
        have size := givesQuery_long gives
        exact decide_eq_true (List.ne_nil_of_length_pos (by omega))
    | false =>
        rw [empty chunk member gives]
        rfl
  · intro framed
    have same : chunks.filter GivesQuery = chunks.filter (fun chunk => chunk ≠ []) := by
      apply List.filter_congr
      intro chunk member
      by_cases none : chunk = []
      · rw [none]
        rfl
      · have listed : chunk ∈ chunks.filter (fun chunk => chunk ≠ []) :=
          List.mem_filter.mpr ⟨member, decide_eq_true none⟩
        rw [framed] at listed
        obtain ⟨query, asked, rfl⟩ := List.mem_map.mp listed
        obtain ⟨size, isQuery⟩ := areQueries query asked
        rw [givesQuery_frame size isQuery]
        exact (decide_eq_true none).symm
    rw [same, framed, List.map_map]
    apply List.map_id''
    exact drop_width_frame

/-- TCP queries are cut out of a trace by their lengths exactly where a segment
is one query with its length: then the message has the length in front, up to
65533 bytes it goes out as it was captured, and a connection gives its queries
exactly when this holds of all its segments that are not empty. -/
theorem tcp_queries_cut_iff (trace : Libtrace Packet) (input : InputClass) (packet : Packet)
    (payload : Bytes) (carries : Carries trace packet TRACE_IPPROTO_TCP 2 payload)
    (kept : (input.process_packet trace packet).raw ≠ []) :
    ((input.process_packet trace packet).raw.length = decodeLength (payload.take tcpWidth) ↔
      ∃ message, message.length < 256 ^ tcpWidth ∧
        payload = LengthPrefix.frame tcpWidth message) ∧
    (∀ id, tcp_raw (set_id id (DNSClient.raw_copy (input.process_packet trace packet))) =
          .ok (payload.take tcpWidth ++ set_id id (payload.drop tcpWidth)) ↔
      ∃ message, message.length ≤ 65533 ∧ payload = LengthPrefix.frame tcpWidth message) ∧
    ∀ (segments : List (Packet × Bytes)) (queries : List Bytes),
      (∀ segment ∈ segments,
        Carries trace segment.1 TRACE_IPPROTO_TCP 2 segment.2 ∧ Addressed trace segment.1) →
      (∀ query ∈ queries, 12 < query.length ∧ is_query query = true) →
      (segments.map Prod.snd).flatten = frames tcpWidth queries →
      ((segments.map (fun segment => (input.process_packet trace segment.1).raw)).filter
          (fun raw => raw ≠ []) = queries ↔
        (segments.map Prod.snd).filter (fun segment => segment ≠ []) =
          queries.map (LengthPrefix.frame tcpWidth)) := by
  rw [InputClass.process_packet_eq] at kept
  simp only [InputClass.process_packet_eq]
  obtain ⟨long, raw⟩ := process_packet_tcp carries kept
  refine ⟨?_, ?_, ?_⟩
  · rw [raw]
    exact frame_take_drop_iff (by unfold tcpWidth; omega)
  · intro id
    exact tcp_raw_segment_iff id long raw
  · intro segments queries carried areQueries stream
    exact queries_of_segments_iff carried areQueries stream

end segments

def tcp_segment (payload : Bytes) : Bytes :=
  [4, 0, 0, 53, 0, 0, 0, 0, 0, 0, 0, 0, 0x50, 0, 0, 0, 0, 0, 0, 0] ++ payload

def tcp_packet (payload : Bytes) : Bytes :=
  [0x45, 0, 0, 0, 0, 0, 0, 0, 64, 6, 0, 0, 10, 0, 0, 1, 10, 0, 0, 2] ++ tcp_segment payload

private theorem tcp_packet_carries (payload : Bytes) :
    Carries ipv4_trace (tcp_packet payload) TRACE_IPPROTO_TCP 2 payload := by
  have network : ip_payload ipv4_trace TRACE_ETHERTYPE_IP (tcp_packet payload) =
      some (TRACE_IPPROTO_TCP, tcp_segment payload, INET_ADDRSTRLEN) := by
    simp [ip_payload, ipv4_trace, tcp_packet, TRACE_IPPROTO_TCP]
  refine ⟨TRACE_ETHERTYPE_IP, tcp_packet payload, tcp_segment payload, INET_ADDRSTRLEN, rfl,
    List.cons_ne_nil _ _, network, ?_⟩
  have header : ¬ (tcp_segment payload).length < 20 := by
    unfold tcp_segment
    rw [List.length_append]
    exact Nat.not_lt.mpr (Nat.le_add_right 20 _)
  unfold transport_payload
  rw [if_neg (by decide), if_pos rfl, if_neg header]
  simp [ipv4_trace, tcp_segment]

def header_query : Bytes := [0, 7, 1, 0, 0, 0, 0, 0, 0, 0, 0, 0, 0]

/-- Two segments of one query each, with one between them that carries nothing. -/
theorem tcp_queries_cut_one :
    (InputClass.inputSource.process_packet ipv4_trace
        (tcp_packet (LengthPrefix.frame tcpWidth header_query))).raw.length = 13 ∧
      ([tcp_packet (LengthPrefix.frame tcpWidth header_query), tcp_packet [],
          tcp_packet (LengthPrefix.frame tcpWidth header_query)].map (fun packet =>
            (InputClass.inputSource.process_packet ipv4_trace packet).raw)).filter
          (fun raw => raw ≠ []) = [header_query, header_query] := by
  have kept : (InputClass.inputSource.process_packet ipv4_trace
      (tcp_packet (LengthPrefix.frame tcpWidth header_query))).raw ≠ [] := by decide +kernel
  obtain ⟨size, _wire, segments⟩ :=
    tcp_queries_cut_iff ipv4_trace .inputSource _ _ (tcp_packet_carries _) kept
  constructor
  · rw [size.mpr ⟨header_query, by decide, rfl⟩]
    decide
  · have carried : ∀ segment ∈ [LengthPrefix.frame tcpWidth header_query, [],
        LengthPrefix.frame tcpWidth header_query].map (fun payload =>
          (tcp_packet payload, payload)),
        Carries ipv4_trace segment.1 TRACE_IPPROTO_TCP 2 segment.2 ∧
          Addressed ipv4_trace segment.1 := by
      intro segment member
      obtain ⟨payload, _member, rfl⟩ := List.mem_map.mp member
      have port : ipv4_trace.trace_get_destination_port (tcp_packet payload) = 53 := by
        simp [ipv4_trace, tcp_packet, tcp_segment, get_id]
      exact ⟨tcp_packet_carries payload, Or.inl port, fun _ => rfl, fun _ => rfl⟩
    exact (segments _ [header_query, header_query] carried (by decide) (by decide)).mpr (by decide)

/-- Two queries in a segment are taken for one of 28 bytes, and the first
fourteen bytes of a longer one for a query of thirteen. -/
theorem pipelined_queries_merge :
    (InputSource.process_packet ipv4_trace
      (tcp_packet (frames tcpWidth [header_query, header_query]))).raw =
        header_query ++ LengthPrefix.frame tcpWidth header_query ∧
    decodeLength ((frames tcpWidth [header_query, header_query]).take tcpWidth) = 13 ∧
    (InputStream.process_packet ipv4_trace
      (tcp_packet ((LengthPrefix.frame tcpWidth (header_query ++ header_query)).take 15))).raw =
        header_query := by
  decide +kernel

end LDPlayer
