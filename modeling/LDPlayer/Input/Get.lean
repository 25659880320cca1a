/-
get(): the next message of a text file, of a trace or of a raw file.

A message with an empty raw field is dropped by every caller; any other is
serialised, which needs the required fields.
-/
import LDPlayer.Input.Packets
import LDPlayer.Input.TimeStamp
import LDPlayer.RawFile

set_option autoImplicit false

namespace LDPlayer

open Text LengthPrefix

/-- A line of the text and what is behind its newline; the end is no line. -/
def getline (text : Bytes) : Option (Bytes × Bytes) :=
  if text = [] then none
  else some (text.takeWhile (fun byte => byte ≠ 10),
    (text.dropWhile (fun byte => byte ≠ 10)).drop 1)

theorem getline_length {text line rest : Bytes} (read : getline text = some (line, rest)) :
    rest.length < text.length := by
  unfold getline at read
  split at read
  · cases read
  · rename_i some
    obtain ⟨_, rfl⟩ := Prod.mk.inj (Option.some.inj read)
    have shorter : (text.dropWhile (fun byte => byte ≠ 10)).length ≤ text.length :=
      (List.dropWhile_sublist _).length_le
    have positive := List.length_pos_of_ne_nil some
    rw [List.length_drop]
    omega

/-- Lines are passed over up to the first that is neither empty nor a comment. -/
def get_from_text (process_line : Bytes → Except Fault DNSMsg) (text : Bytes) :
    Except Fault (Option DNSMsg × Bytes) :=
  match _line : getline text with
  | none => .ok (none, text)
  | some (line, rest) =>
      if Skipped line then get_from_text process_line rest
      else (process_line line).map (fun msg => (some msg, rest))
termination_by text.length
decreasing_by exact getline_length _line

/-- What an object reads from: the text, the packets of a trace and whether an
error ends it, or the bytes of a raw file. -/
inductive Stream (Packet : Type) where
  | text (rest : Bytes)
  | trace (packets : List Packet) (trace_is_err : Bool)
  | raw (source : Source)

section get

variable {Packet : Type} (codec : Codec) (ldns : Ldns) (trace : Libtrace Packet)

def get_from_trace (process_packet : Packet → DNSMsg) (packets : List Packet)
    (trace_is_err : Bool) : Except Fault (Option DNSMsg × List Packet) :=
  match packets with
  | packet :: later => .ok (some (process_packet packet), later)
  | [] => if trace_is_err then .error (.exit "error in reading packets") else .ok (none, [])

/-- `get` of both classes, with the three readers of one. -/
def get_with (text : Bytes → Except Fault (Option DNSMsg × Bytes))
    (packets : List Packet → Bool → Except Fault (Option DNSMsg × List Packet))
    (raw : Source → Except Fault (Option DNSMsg × Source)) :
    Stream Packet → Except Fault (Option DNSMsg × Stream Packet)
  | .text rest => (text rest).map (fun read => (read.1, .text read.2))
  | .trace later trace_is_err =>
      (packets later trace_is_err).map (fun read => (read.1, .trace read.2 trace_is_err))
  | .raw source => (raw source).map (fun read => (read.1, .raw read.2))

def InputSource.get : Stream Packet → Except Fault (Option DNSMsg × Stream Packet) :=
  get_with (get_from_text (InputSource.process_line ldns))
    (get_from_trace (InputSource.process_packet trace)) (InputSource.get_from_raw codec)

def InputStream.get : Stream Packet → Except Fault (Option DNSMsg × Stream Packet) :=
  get_with (get_from_text (InputStream.process_line ldns))
    (get_from_trace (InputStream.process_packet trace)) (InputStream.get_from_raw codec)

def InputClass.get : InputClass → Stream Packet → Except Fault (Option DNSMsg × Stream Packet)
  | .inputSource => InputSource.get codec ldns trace
  | .inputStream => InputStream.get codec ldns trace

theorem InputClass.get_eq (input : InputClass) :
    input.get codec ldns trace =
      get_with (get_from_text (input.process_line ldns))
        (get_from_trace (input.process_packet trace)) (Source.get_raw codec) := by
  cases input <;> rfl

end get

def DNSMsg.Complete (msg : DNSMsg) : Prop := msg.raw = [] ∨ msg.IsInitialized

instance (msg : DNSMsg) : Decidable msg.Complete := inferInstanceAs (Decidable (_ ∨ _))

private theorem process_line_complete {str_split : Bytes → List Bytes}
    {build : Bytes → Bytes → Bytes → Bytes} {line : Bytes} {msg : DNSMsg}
    (read : process_line str_split build line = .ok msg) : msg.Complete := by
  unfold process_line at read
  split at read
  · rw [← Except.ok.inj read]
    exact Or.inl rfl
  split at read
  · split at read
    · cases read
    · rw [← Except.ok.inj read]
      exact Or.inr ⟨rfl, rfl, rfl, rfl, rfl, rfl⟩
  · rw [← Except.ok.inj read]
    exact Or.inl rfl

theorem get_from_text_eq (process_line : Bytes → Except Fault DNSMsg) {text line rest : Bytes}
    (found : getline text = some (line, rest)) :
    get_from_text process_line text =
      if Skipped line then get_from_text process_line rest
      else (process_line line).map (fun msg => (some msg, rest)) := by
  rw [get_from_text]
  split
  · rename_i ended
    rw [found] at ended
    cases ended
  · rename_i found'
    rw [found] at found'
    obtain ⟨rfl, rfl⟩ := Prod.mk.inj (Option.some.inj found')
    rfl

theorem get_from_text_some {process_line : Bytes → Except Fault DNSMsg} {text rest : Bytes}
    {msg : DNSMsg} (read : get_from_text process_line text = .ok (some msg, rest)) :
    ∃ line, ¬ Skipped line ∧ process_line line = .ok msg := by
  induction text using get_from_text.induct with
  | case1 text ended =>
      rw [get_from_text] at read
      split at read
      · cases read
      · rename_i found
        rw [ended] at found
        cases found
  | case2 text line behind found skipped ih =>
      rw [get_from_text_eq process_line found, if_pos skipped] at read
      exact ih read
  | case3 text line behind found kept =>
      rw [get_from_text_eq process_line found, if_neg kept] at read
      obtain ⟨msg', made, same⟩ := of_map_eq_ok read
      obtain ⟨found, _⟩ := Prod.mk.inj same
      obtain rfl := Option.some.inj found
      exact ⟨line, kept, made⟩

private theorem process_packet_complete {Packet : Type} (trace : Libtrace Packet)
    (packet : Packet) :
    (process_packet trace packet).Complete := by
  rcases process_packet_cases trace packet with empty | ⟨complete, _⟩
  · exact Or.inl empty
  · exact Or.inr complete

section complete

variable {Packet : Type} (codec : Codec) (ldns : Ldns) (trace : Libtrace Packet)

/-- What is returned is complete, except for a record that is not. -/
theorem get_complete_iff (input : InputClass) (stream : Stream Packet) :
    (∀ msg next, input.get codec ldns trace stream = .ok (some msg, next) → msg.Complete) ↔
      ∀ source record, stream = .raw source → source.NextRecord record →
        (codec.ParseFromArray record).Complete := by
  rw [InputClass.get_eq]
  constructor
  · intro all source record same next
    subst same
    obtain ⟨left, read⟩ := (source.get_raw_some_iff codec _).mpr ⟨record, next, rfl⟩
    apply all _ (.raw left)
    change (source.get_raw codec).map _ = _
    rw [read]
    rfl
  · intro records msg next read
    cases stream with
    | text rest =>
        obtain ⟨⟨result, behind⟩, got, same⟩ := of_map_eq_ok read
        obtain ⟨rfl, _⟩ := Prod.mk.inj same
        obtain ⟨line, _kept, made⟩ := get_from_text_some got
        rw [InputClass.process_line_eq] at made
        exact process_line_complete made
    | trace packets trace_is_err =>
        obtain ⟨⟨result, behind⟩, got, same⟩ := of_map_eq_ok read
        obtain ⟨rfl, _⟩ := Prod.mk.inj same
        unfold get_from_trace at got
        cases packets with
        | nil => cases trace_is_err <;> cases got
        | cons packet later =>
            obtain ⟨same, _⟩ := Prod.mk.inj (Except.ok.inj got)
            rw [← Option.some.inj same, InputClass.process_packet_eq]
            exact process_packet_complete trace packet
    | raw source =>
        obtain ⟨⟨result, behind⟩, got, same⟩ := of_map_eq_ok read
        obtain ⟨rfl, _⟩ := Prod.mk.inj same
        obtain ⟨record, front, rfl⟩ := (source.get_raw_some_iff codec msg).mp ⟨behind, got⟩
        exact records source record rfl front

/-- `get` returns only complete messages, and those that are not dropped can be
serialised, exactly where the next record of a raw file, if it parses to a
message with bytes, parses to one with all its required fields. -/
theorem get_returns_complete_iff
    (protobuf : ∀ msg, (codec.SerializeToString msg).isSome ↔ msg.IsInitialized)
    (input : InputClass) (stream : Stream Packet) :
    (∀ msg next, input.get codec ldns trace stream = .ok (some msg, next) →
      (msg.raw = [] ∨ msg.IsInitialized) ∧
      (msg.raw ≠ [] → (codec.SerializeToString msg).isSome ∧
        (codec.SerializeToString (msg.set_sync_time true)).isSome)) ↔
      ∀ source record, stream = .raw source → source.NextRecord record →
        (codec.ParseFromArray record).raw ≠ [] → (codec.ParseFromArray record).IsInitialized := by
  have whole := get_complete_iff codec ldns trace input stream
  constructor
  · intro returned source record same front some
    have complete := whole.mp (fun msg next read => (returned msg next read).1)
      source record same front
    exact complete.resolve_left some
  · intro records msg next read
    have complete : msg.Complete := by
      apply whole.mpr _ msg next read
      intro source record same front
      by_cases empty : (codec.ParseFromArray record).raw = []
      · exact Or.inl empty
      · exact Or.inr (records source record same front empty)
    refine ⟨complete, ?_⟩
    intro some
    have initialized := complete.resolve_left some
    exact ⟨(protobuf msg).mpr initialized, (protobuf (msg.set_sync_time true)).mpr initialized⟩

end complete

/-! ### An encoding -/

/-- It serialises what is initialised, and parses records of the raw field alone. -/
def wire_codec : Codec where
  SerializeToString msg := if msg.IsInitialized then some (wire_text msg) else none
  ParseFromArray bytes :=
    if bytes.take 1 = [66] ∧ (bytes.drop 1).take 1 = [UInt8.ofNat (bytes.length - 2)] then
      { raw? := some (bytes.drop 2) }
    else {}

private theorem wire_codec_serializes (msg : DNSMsg) :
    (wire_codec.SerializeToString msg).isSome ↔ msg.IsInitialized := by
  unfold wire_codec
  by_cases initialized : msg.IsInitialized
  · simp [initialized]
  · simp [initialized]

def sample_query : DNSMsg :=
  { seconds? := some 1, microseconds? := some 500000, tcp? := some false, ipv4? := some true
    src_ip? := some (ascii "10.0.0.1"), raw? := some [1] }

/-- The first line behind a comment. -/
theorem get_returns_complete_line :
    InputClass.inputStream.get wire_codec sample_ldns ipv4_trace
        (.text (ascii "#fsdb time\n1.500000 10.0.0.1 a. IN A udp\n")) =
      .ok (some sample_query, .text []) ∧
    sample_query.IsInitialized ∧ (wire_codec.SerializeToString sample_query).isSome := by
  have line : getline (ascii "1.500000 10.0.0.1 a. IN A udp\n") =
      some (ascii "1.500000 10.0.0.1 a. IN A udp", []) := by decide +kernel
  have comment : getline (ascii "#fsdb time\n1.500000 10.0.0.1 a. IN A udp\n") =
      some (ascii "#fsdb time", ascii "1.500000 10.0.0.1 a. IN A udp\n") := by decide +kernel
  have read : InputStream.process_line sample_ldns (ascii "1.500000 10.0.0.1 a. IN A udp") =
      .ok sample_query := by
    unfold InputStream.process_line process_line
    rw [InputStream.str_split_eq]
    decide +kernel
  have got : InputClass.inputStream.get wire_codec sample_ldns ipv4_trace
      (.text (ascii "#fsdb time\n1.500000 10.0.0.1 a. IN A udp\n")) =
      .ok (some sample_query, .text []) := by
    change (get_from_text (InputStream.process_line sample_ldns) _).map _ = _
    rw [get_from_text_eq _ comment, if_pos (by decide +kernel), get_from_text_eq _ line,
      if_neg (by decide +kernel), read]
    rfl
  have noRecord : ∀ source record,
      (.text (ascii "#fsdb time\n1.500000 10.0.0.1 a. IN A udp\n") : Stream Bytes) = .raw source →
      source.NextRecord record → (wire_codec.ParseFromArray record).raw ≠ [] →
      (wire_codec.ParseFromArray record).IsInitialized := by
    intro source record same
    cases same
  obtain ⟨complete, serialized⟩ := (get_returns_complete_iff wire_codec sample_ldns ipv4_trace
    wire_codec_serializes .inputStream _).mpr noRecord sample_query _ got
  have some : sample_query.raw ≠ [] := by decide
  exact ⟨got, complete.resolve_left some, (serialized some).1⟩

/-- A record of three bytes, the raw field alone, is returned as it is. -/
theorem incomplete_record_returned :
    InputSource.get wire_codec sample_ldns ipv4_trace (.raw { bytes := [0, 0, 0, 3, 66, 1, 7] }) =
      .ok (some { raw? := some [7] }, .raw { bytes := [] }) ∧
    ¬ ({ raw? := some [7] } : DNSMsg).IsInitialized ∧
    wire_codec.SerializeToString { raw? := some [7] } = none := by
  have framed : frame [66, 1, 7] ++ [] = [0, 0, 0, 3, 66, 1, 7] := by decide
  have parsed : wire_codec.ParseFromArray [66, 1, 7] = { raw? := some [7] } := by decide
  have read := Source.get_raw_frame wire_codec false []
    (by decide : [(66 : UInt8), 1, 7].length ≤ BUF_SIZE)
  rw [framed, parsed] at read
  refine ⟨?_, by decide, by decide⟩
  unfold InputSource.get get_with InputSource.get_from_raw
  simp only [read, Except.map]

end LDPlayer
