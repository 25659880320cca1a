/-
Raw files: the writer of the mutator, its reader and that of the replay programs.

A raw file is the messages one after another, each with its length in front.
The writer puts no limit on a message.  The readers read the length they find
into a buffer of 4096 bytes on the stack.
-/
import LDPlayer.Message

set_option autoImplicit false

namespace LDPlayer

open LengthPrefix

def BUF_SIZE : Nat := 4096

def write_raw (codec : Codec) (file : Bytes) (msg : DNSMsg) : Except Fault Bytes :=
  match codec.SerializeToString msg with
  | none => .error (.exit "serialize message fails")
  | some msg_str => .ok (file ++ encodeLength lengthWidth msg_str.length ++ msg_str)

/-- An input file or the standard input, with the bytes that are left of it.  A
file that came up short once fails from then on. -/
structure Source where
  bytes : Bytes
  is_stdin : Bool := false
  good : Bool := true
  deriving DecidableEq, Repr

namespace Source

/-- What `ifs.read` or `fread` can store of `n` bytes. -/
def stored (n : Nat) (source : Source) : Bytes :=
  if source.good then source.bytes.take n else []

/-- Reading `n` bytes into a buffer of `capacity` bytes, which nobody checks. -/
def read_bytes (capacity n : Nat) (source : Source) : Except Fault (Option Bytes × Source) :=
  let stored := source.stored n
  let complete := source.good ∧ stored.length = n
  let left :=
    { source with
      bytes := source.bytes.drop stored.length
      good := source.is_stdin ∨ complete }
  if capacity < stored.length then .error .outOfBounds
  else if complete then .ok (some stored, left)
  else .ok (none, left)

/-- The body that the readers share: the length, then the message. -/
def get_raw (codec : Codec) (source : Source) : Except Fault (Option DNSMsg × Source) :=
  match source.read_bytes lengthWidth lengthWidth with
  | .error fault => .error fault
  | .ok (none, left) => .ok (none, left)
  | .ok (some header, left) =>
      let sz := decodeLength header
      match left.read_bytes BUF_SIZE sz with
      | .error fault => .error fault
      | .ok (none, rest) => .ok (none, rest)
      | .ok (some buf, rest) => .ok (some (codec.ParseFromArray buf), rest)

def calls (get : Source → Except Fault (Option DNSMsg × Source)) :
    Nat → Source → Except Fault (List (Option DNSMsg))
  | 0, _ => .ok []
  | count + 1, source =>
      match get source with
      | .error fault => .error fault
      | .ok (msg, next) => (calls get count next).map (fun later => msg :: later)

/-- The bytes behind the next length that the length makes the reader store are
more than its buffer holds. -/
def Overflows (source : Source) : Prop :=
  source.good = true ∧ lengthWidth ≤ source.bytes.length ∧
    BUF_SIZE < min (decodeLength (source.bytes.take lengthWidth))
      (source.bytes.length - lengthWidth)

instance (source : Source) : Decidable source.Overflows :=
  inferInstanceAs (Decidable (_ ∧ _ ∧ _))

end Source

def InputStream.get_from_raw (codec : Codec) (source : Source) :
    Except Fault (Option DNSMsg × Source) :=
  source.get_raw codec

/-- The reader of the client and of the controller; its loop returns in the first turn. -/
def InputSource.get_from_raw (codec : Codec) (source : Source) :
    Except Fault (Option DNSMsg × Source) :=
  source.get_raw codec

namespace Source

/-! ### One read -/

theorem read_bytes_whole {capacity : Nat} (taken rest : Bytes) (is_stdin : Bool)
    (fits : taken.length ≤ capacity) :
    read_bytes capacity taken.length { bytes := taken ++ rest, is_stdin := is_stdin } =
      .ok (some taken, { bytes := rest, is_stdin := is_stdin }) := by
  have all : stored taken.length { bytes := taken ++ rest, is_stdin := is_stdin } = taken := by
    unfold stored
    rw [if_pos rfl]
    exact List.take_left
  unfold read_bytes
  simp only [all, if_neg (Nat.not_lt.mpr fits), true_and, if_true, or_true, decide_true,
    List.drop_left]

private theorem read_bytes_overflow {capacity n : Nat} (source : Source) (good : source.good = true)
    (tooMany : capacity < min n source.bytes.length) :
    source.read_bytes capacity n = .error .outOfBounds := by
  have size : (source.stored n).length = min n source.bytes.length := by
    unfold stored
    rw [if_pos good, List.length_take]
  unfold read_bytes
  rw [if_pos (by rw [size]; exact tooMany)]

/-- A read stays within the buffer exactly when no more bytes are there or asked for. -/
theorem read_bytes_fits {capacity n : Nat} (source : Source)
    (within : source.good = true → min n source.bytes.length ≤ capacity) :
    ∃ result left, source.read_bytes capacity n = .ok (result, left) := by
  have size : (source.stored n).length ≤ capacity := by
    unfold stored
    by_cases good : source.good = true
    · rw [if_pos good, List.length_take]
      exact within good
    · rw [if_neg good]
      exact Nat.zero_le _
  unfold read_bytes
  simp only [if_neg (Nat.not_lt.mpr size)]
  split
  · exact ⟨_, _, rfl⟩
  · exact ⟨_, _, rfl⟩

theorem read_bytes_short {capacity : Nat} (n : Nat) (source : Source)
    (short : source.good = true → source.bytes.length < n) (fits : n ≤ capacity) :
    ∃ left, source.read_bytes capacity n = .ok (none, left) := by
  have size : (source.stored n).length ≤ capacity := by
    unfold stored
    by_cases good : source.good = true
    · rw [if_pos good, List.length_take]
      omega
    · rw [if_neg good]
      exact Nat.zero_le _
  have incomplete : ¬ (source.good = true ∧ (source.stored n).length = n) := by
    intro complete
    have missing := short complete.1
    have whole := complete.2
    unfold stored at whole
    rw [if_pos complete.1, List.length_take] at whole
    omega
  unfold read_bytes
  simp only [if_neg (Nat.not_lt.mpr size), if_neg incomplete]
  exact ⟨_, rfl⟩

theorem read_header {source : Source} (good : source.good = true)
    (header : lengthWidth ≤ source.bytes.length) :
    source.read_bytes lengthWidth lengthWidth =
      .ok (some (source.bytes.take lengthWidth),
        { bytes := source.bytes.drop lengthWidth, is_stdin := source.is_stdin }) := by
  cases source with
  | mk bytes is_stdin state =>
      simp only at good header ⊢
      subst good
      have width : (bytes.take lengthWidth).length = lengthWidth := by
        rw [List.length_take]
        omega
      have whole := read_bytes_whole _ (bytes.drop lengthWidth) is_stdin (Nat.le_of_eq width)
      rw [width, List.take_append_drop] at whole
      exact whole

/-! ### One call -/

section call

variable (codec : Codec)

/-- A call keeps to its buffer exactly where the length it meets, or what is left
of the file behind it, does not exceed the buffer. -/
theorem get_raw_ok_iff (source : Source) :
    (∃ result, source.get_raw codec = .ok result) ↔ ¬ source.Overflows := by
  unfold Overflows get_raw
  by_cases good : source.good = true
  · by_cases header : lengthWidth ≤ source.bytes.length
    · rw [read_header good header]
      simp only [good, header, true_and, Nat.not_lt]
      rw [← List.length_drop]
      constructor
      · intro returned
        by_contra tooMany
        rw [read_bytes_overflow _ rfl (Nat.not_le.mp tooMany)] at returned
        obtain ⟨result, impossible⟩ := returned
        cases impossible
      · intro within
        obtain ⟨message, left, read⟩ := read_bytes_fits
          { bytes := source.bytes.drop lengthWidth, is_stdin := source.is_stdin } (fun _ => within)
        rw [read]
        cases message with
        | none => exact ⟨_, rfl⟩
        | some buf => exact ⟨_, rfl⟩
    · obtain ⟨left, read⟩ := read_bytes_short lengthWidth source
        (fun _ => Nat.not_le.mp header) (Nat.le_refl lengthWidth)
      rw [read]
      refine iff_of_true ⟨_, rfl⟩ ?_
      intro overflows
      exact header overflows.2.1
  · obtain ⟨left, read⟩ := read_bytes_short lengthWidth source
      (fun isGood => absurd isGood good) (Nat.le_refl lengthWidth)
    rw [read]
    refine iff_of_true ⟨_, rfl⟩ ?_
    intro overflows
    exact good overflows.1

theorem get_raw_frame {msg_str : Bytes} (is_stdin : Bool) (rest : Bytes)
    (fits : msg_str.length ≤ BUF_SIZE) :
    get_raw codec { bytes := frame msg_str ++ rest, is_stdin := is_stdin } =
      .ok (some (codec.ParseFromArray msg_str), { bytes := rest, is_stdin := is_stdin }) := by
  have small : msg_str.length < 256 ^ lengthWidth := Nat.lt_of_le_of_lt fits (by decide)
  have header : lengthWidth ≤ (frame msg_str ++ rest).length := by
    unfold frame
    rw [frame_append_length]
    omega
  have decoded : decodeLength ((frame msg_str ++ rest).take lengthWidth) = msg_str.length :=
    decodeLength_take_of_fits small rest
  have behind : (frame msg_str ++ rest).drop lengthWidth = msg_str ++ rest := by
    unfold frame LengthPrefix.frame
    rw [List.append_assoc, List.drop_append_of_le_length (by simp),
      List.drop_of_length_le (by simp), List.nil_append]
  unfold get_raw
  rw [read_header rfl header]
  simp only [decoded, behind]
  rw [read_bytes_whole _ _ is_stdin fits]

theorem overflows_of_frame {msg_str : Bytes} (is_stdin : Bool) (rest : Bytes)
    (small : msg_str.length < 256 ^ lengthWidth) (large : BUF_SIZE < msg_str.length) :
    Overflows { bytes := frame msg_str ++ rest, is_stdin := is_stdin } := by
  have decoded : decodeLength ((frame msg_str ++ rest).take lengthWidth) = msg_str.length :=
    decodeLength_take_of_fits small rest
  have size : (frame msg_str ++ rest).length = lengthWidth + (msg_str.length + rest.length) :=
    frame_append_length msg_str rest
  refine ⟨rfl, ?_, ?_⟩
  · simp only [size]
    omega
  · simp only [decoded, size]
    omega

def NextRecord (source : Source) (record : Bytes) : Prop :=
  source.good = true ∧ record.length ≤ BUF_SIZE ∧ ∃ rest, source.bytes = frame record ++ rest

theorem read_bytes_some {capacity n : Nat} {source left : Source} {read : Bytes}
    (done : source.read_bytes capacity n = .ok (some read, left)) :
    source.good = true ∧ read = source.bytes.take n ∧ read.length = n ∧ n ≤ capacity ∧
      left.bytes = source.bytes.drop n ∧ left.good = true := by
  unfold read_bytes at done
  simp only at done
  split at done
  · cases done
  · rename_i fits
    split at done
    · rename_i complete
      obtain ⟨whole, rfl⟩ := Prod.mk.inj (Except.ok.inj done)
      obtain ⟨good, size⟩ := complete
      have taken : source.stored n = source.bytes.take n := by
        unfold stored
        rw [if_pos good]
      have same := Option.some.inj whole
      rw [size] at fits
      refine ⟨good, same.symm.trans taken, ?_, Nat.not_lt.mp fits, ?_, ?_⟩
      · rw [← same, size]
      · simp only [size]
      · simp [good, size]
    · cases done

theorem get_raw_some_iff (source : Source) (msg : DNSMsg) :
    (∃ next, source.get_raw codec = .ok (some msg, next)) ↔
      ∃ record, source.NextRecord record ∧ msg = codec.ParseFromArray record := by
  constructor
  · intro returned
    obtain ⟨next, read⟩ := returned
    unfold get_raw at read
    split at read
    · cases read
    · cases read
    · rename_i header left first
      obtain ⟨good, taken, width, _fits, dropped, _left⟩ := read_bytes_some first
      simp only at read
      split at read
      · cases read
      · cases read
      · rename_i buf rest second
        obtain ⟨_good, takenBuf, size, fits, droppedBuf, _rest⟩ := read_bytes_some second
        obtain ⟨same, _⟩ := Prod.mk.inj (Except.ok.inj read)
        refine ⟨buf, ⟨good, by omega, rest.bytes, ?_⟩, (Option.some.inj same).symm⟩
        have length : encodeLength lengthWidth buf.length = header := by
          rw [size, ← width]
          exact encodeLength_decodeLength header
        unfold frame LengthPrefix.frame
        rw [length, List.append_assoc, takenBuf, droppedBuf, List.take_append_drop, taken, dropped,
          List.take_append_drop]
  · intro found
    obtain ⟨record, ⟨good, fits, rest, front⟩, rfl⟩ := found
    cases source with
    | mk bytes is_stdin state =>
        simp only at good front
        subst good front
        exact ⟨_, get_raw_frame codec is_stdin rest fits⟩

private theorem get_raw_nil (is_stdin : Bool) :
    ∃ left, get_raw codec { bytes := [], is_stdin := is_stdin } = .ok (none, left) := by
  obtain ⟨left, read⟩ := read_bytes_short lengthWidth { bytes := [], is_stdin := is_stdin }
    (fun _ => (by decide : 0 < lengthWidth)) (Nat.le_refl lengthWidth)
  unfold get_raw
  rw [read]
  exact ⟨left, rfl⟩

end call

/-! ### The whole file -/

section file

variable (codec : Codec)

/-- What is assumed of the library: parsing inverts serialisation, and a text is
shorter than 2^32 bytes. -/
def RoundTrips (msg : DNSMsg) : Prop :=
  ∃ msg_str, codec.SerializeToString msg = some msg_str ∧
    codec.ParseFromArray msg_str = msg ∧ msg_str.length < 2 ^ 32

def FitsBuffer (msg : DNSMsg) : Prop :=
  ∀ msg_str, codec.SerializeToString msg = some msg_str → msg_str.length ≤ BUF_SIZE

theorem write_raw_all {msgs : List DNSMsg} (trips : ∀ msg ∈ msgs, RoundTrips codec msg)
    (file : Bytes) :
    ∃ texts, msgs.map codec.SerializeToString = texts.map some ∧
      msgs.foldlM (write_raw codec) file = .ok (file ++ frames lengthWidth texts) := by
  induction msgs generalizing file with
  | nil =>
      refine ⟨[], rfl, ?_⟩
      rw [frames_nil, List.append_nil]
      rfl
  | cons msg later ih =>
      obtain ⟨msg_str, written, _parsed, _short⟩ := trips msg List.mem_cons_self
      obtain ⟨texts, all, rest⟩ := ih
        (fun other member => trips other (List.mem_cons_of_mem msg member)) (file ++ frame msg_str)
      refine ⟨msg_str :: texts, ?_, ?_⟩
      · rw [List.map_cons, List.map_cons, written, all]
      · have first : write_raw codec file msg = .ok (file ++ frame msg_str) := by
          unfold write_raw
          rw [written]
          simp only [List.append_assoc]
          rfl
        rw [List.foldlM_cons, first]
        change later.foldlM (write_raw codec) (file ++ frame msg_str) = _
        rw [rest, frames_cons, List.append_assoc]
        rfl

/-- The calls give back the texts of a file exactly as far as they all fit. -/
theorem calls_get_raw_iff {msgs : List DNSMsg} (trips : ∀ msg ∈ msgs, RoundTrips codec msg)
    {texts : List Bytes} (written : msgs.map codec.SerializeToString = texts.map some)
    (is_stdin : Bool) :
    calls (get_raw codec) (msgs.length + 1)
        { bytes := frames lengthWidth texts, is_stdin := is_stdin } =
          .ok (msgs.map some ++ [none]) ↔
      ∀ msg ∈ msgs, FitsBuffer codec msg := by
  induction msgs generalizing texts with
  | nil =>
      cases texts with
      | nil =>
          obtain ⟨left, ended⟩ := get_raw_nil codec is_stdin
          refine iff_of_true ?_ (fun msg impossible => absurd impossible List.not_mem_nil)
          change calls (get_raw codec) 1 { bytes := [], is_stdin := is_stdin } = _
          unfold calls
          rw [ended]
          rfl
      | cons msg_str others => cases written
  | cons msg later ih =>
      cases texts with
      | nil => cases written
      | cons msg_str others =>
          rw [List.map_cons, List.map_cons] at written
          obtain ⟨first, rest⟩ := List.cons.inj written
          obtain ⟨msg_str', written', parsed, short⟩ := trips msg List.mem_cons_self
          obtain rfl := Option.some.inj (first.symm.trans written')
          have behind := ih (fun other member => trips other (List.mem_cons_of_mem msg member)) rest
          rw [frames_cons, List.length_cons, List.map_cons, List.cons_append, List.forall_mem_cons,
            ← behind]
          change calls (get_raw codec) (later.length + 1 + 1)
            { bytes := frame msg_str ++ _, is_stdin := is_stdin } = _ ↔ _
          rw [calls]
          by_cases fits : msg_str.length ≤ BUF_SIZE
          · have fitsBuffer : FitsBuffer codec msg := by
              intro other same
              obtain rfl := Option.some.inj (first.symm.trans same)
              exact fits
            rw [get_raw_frame codec is_stdin _ fits, parsed]
            simp only [fitsBuffer, true_and]
            cases calls (get_raw codec) (later.length + 1)
                { bytes := frames lengthWidth others, is_stdin := is_stdin } with
            | error fault => exact iff_of_false (fun same => nomatch same) (fun same => nomatch same)
            | ok result =>
                constructor
                · intro same
                  rw [(List.cons.inj (Except.ok.inj same)).2]
                · intro same
                  rw [Except.ok.inj same]
                  rfl
          · have overflows := overflows_of_frame is_stdin (frames lengthWidth others)
              (Nat.lt_of_lt_of_le short (by decide)) (Nat.not_le.mp fits)
            have fault := mt (get_raw_ok_iff codec _).mp (not_not.mpr overflows)
            refine iff_of_false ?_ (fun both => fits (both.1 msg_str first))
            intro returned
            split at returned
            · cases returned
            · rename_i result next read
              exact fault ⟨_, read⟩

/-- Raw files come back exactly as far as every message fits the buffer.

The file of a list of messages is read back as that list and then the end, by
either reader and from a file or the standard input, if and only if the text of
each message has at most 4096 bytes.  On whatever file, a call keeps to its
buffer if and only if the length it meets, or what is left behind it, has at
most 4096 bytes. -/
theorem raw_file_round_trip_iff (msgs : List DNSMsg) (trips : ∀ msg ∈ msgs, RoundTrips codec msg)
    (is_stdin : Bool) :
    (∃ file, msgs.foldlM (write_raw codec) [] = .ok file ∧
      (calls (InputStream.get_from_raw codec) (msgs.length + 1)
          { bytes := file, is_stdin := is_stdin } = .ok (msgs.map some ++ [none]) ↔
        ∀ msg ∈ msgs, FitsBuffer codec msg) ∧
      (calls (InputSource.get_from_raw codec) (msgs.length + 1)
          { bytes := file, is_stdin := is_stdin } = .ok (msgs.map some ++ [none]) ↔
        ∀ msg ∈ msgs, FitsBuffer codec msg)) ∧
    ∀ source : Source,
      ((∃ result, InputStream.get_from_raw codec source = .ok result) ↔ ¬ source.Overflows) ∧
      ((∃ result, InputSource.get_from_raw codec source = .ok result) ↔ ¬ source.Overflows) := by
  constructor
  · obtain ⟨texts, written, file⟩ := write_raw_all codec trips []
    rw [List.nil_append] at file
    refine ⟨_, file, ?_, ?_⟩
    · exact calls_get_raw_iff codec trips written is_stdin
    · exact calls_get_raw_iff codec trips written is_stdin
  · intro source
    exact ⟨get_raw_ok_iff codec source, get_raw_ok_iff codec source⟩

end file

theorem library_on_trips {msgs : List DNSMsg} (distinct : (msgs.map wire_text).Nodup)
    (whole : ∀ msg ∈ msgs, msg.IsInitialized ∧ (wire_text msg).length < 2 ^ 32) :
    ∀ msg ∈ msgs, RoundTrips (library_on msgs) msg := by
  intro msg member
  exact ⟨wire_text msg, if_pos (whole msg member).1, parse_wire_text distinct member,
    (whole msg member).2⟩

private theorem library_on_fits {msgs : List DNSMsg} {msg : DNSMsg}
    (short : (wire_text msg).length ≤ BUF_SIZE) : FitsBuffer (library_on msgs) msg := by
  intro msg_str written
  have text := (Option.ite_none_right_eq_some.mp written).2
  rw [← Option.some.inj text]
  exact short

/-- A query for the address of `a.`, with bytes behind it. -/
def raw_query (id : UInt8) (tcp : Bool) (padding : Bytes) : DNSMsg :=
  { seconds? := some 1461234567
    microseconds? := some 12345
    tcp? := some tcp
    ipv4? := some true
    src_ip? := some (Text.ascii "10.0.0.1")
    raw? := some ([0, id, 1, 0, 0, 1, 0, 0, 0, 0, 0, 0, 1, 97, 0, 0, 1, 0, 1] ++ padding) }

private theorem raw_query_size (id : UInt8) (tcp : Bool) (padding : Bytes) :
    (wire_text (raw_query id tcp padding)).length =
      43 + (varint 10 (19 + padding.length)).length + padding.length := by
  have seconds : (varint 10 ((1461234567 : Int) % 2 ^ 64).toNat).length = 5 := by decide
  have microseconds : (varint 10 ((12345 : Int) % 2 ^ 64).toNat).length = 2 := by decide
  have address : (Text.ascii "10.0.0.1").length = 8 ∧ (varint 10 8).length = 1 := by decide
  simp only [wire_text, raw_query, Option.map_some, Option.map_none, Option.getD_some,
    Option.getD_none, List.length_append, List.length_cons, List.length_nil, seconds,
    microseconds, address.1, address.2, Nat.reduceAdd]
  omega

/-- Two queries of one source, the second one over TCP. -/
theorem raw_file_round_trip_short :
    ∃ file, [raw_query 7 false [], raw_query 8 true []].foldlM
        (write_raw (library_on [raw_query 7 false [], raw_query 8 true []])) [] = .ok file ∧
      calls (InputStream.get_from_raw (library_on [raw_query 7 false [], raw_query 8 true []])) 3
          { bytes := file } =
        .ok [some (raw_query 7 false []), some (raw_query 8 true []), none] ∧
      calls (InputSource.get_from_raw (library_on [raw_query 7 false [], raw_query 8 true []])) 3
          { bytes := file } =
        .ok [some (raw_query 7 false []), some (raw_query 8 true []), none] := by
  have trips : ∀ msg ∈ [raw_query 7 false [], raw_query 8 true []],
      RoundTrips (library_on [raw_query 7 false [], raw_query 8 true []]) msg :=
    library_on_trips (by decide +kernel) (by decide +kernel)
  obtain ⟨file, written, stream, source⟩ := (raw_file_round_trip_iff _ _ trips false).1
  have short : ∀ msg ∈ [raw_query 7 false [], raw_query 8 true []],
      (wire_text msg).length ≤ BUF_SIZE := by
    decide +kernel
  have fits : ∀ msg ∈ [raw_query 7 false [], raw_query 8 true []],
      FitsBuffer (library_on [raw_query 7 false [], raw_query 8 true []]) msg :=
    fun msg member => library_on_fits (short msg member)
  exact ⟨file, written, stream.mpr fits, source.mpr fits⟩

def large_query : DNSMsg := raw_query 7 true (List.replicate 4981 0)

/-- It is written, and neither reader survives it. -/
theorem large_query_overflows :
    ∃ file, [large_query].foldlM (write_raw (library_on [large_query])) [] = .ok file ∧
      (¬ ∃ result, InputStream.get_from_raw (library_on [large_query]) { bytes := file } =
        .ok result) ∧
      (¬ ∃ result, InputSource.get_from_raw (library_on [large_query]) { bytes := file } =
        .ok result) ∧
      calls (InputStream.get_from_raw (library_on [large_query])) 2 { bytes := file } ≠
        .ok [some large_query, none] := by
  have size : (wire_text large_query).length = 5026 := by
    unfold large_query
    rw [raw_query_size, List.length_replicate]
    decide
  have whole : large_query.IsInitialized := ⟨rfl, rfl, rfl, rfl, rfl, rfl⟩
  have trips : ∀ msg ∈ [large_query], RoundTrips (library_on [large_query]) msg :=
    library_on_trips (List.nodup_singleton _) (List.forall_mem_singleton.mpr
      ⟨whole, by rw [size]; decide⟩)
  have serialized : (library_on [large_query]).SerializeToString large_query =
      some (wire_text large_query) := by
    simp only [library_on, if_pos whole]
  obtain ⟨texts, written, file⟩ := write_raw_all _ trips []
  have text : texts = [wire_text large_query] := by
    apply List.map_injective_iff.mpr (Option.some_injective Bytes)
    rw [← written, List.map_singleton, List.map_singleton, serialized]
  subst text
  have overflows : Overflows { bytes := frame (wire_text large_query) ++ [], is_stdin := false } :=
    overflows_of_frame false [] (by rw [size]; decide) (by rw [size]; decide)
  have fault := mt (get_raw_ok_iff (library_on [large_query]) _).mp (not_not.mpr overflows)
  refine ⟨_, file, fault, fault, ?_⟩
  intro returned
  have fits := (calls_get_raw_iff _ trips written false).mp returned large_query
    List.mem_cons_self (wire_text large_query) serialized
  rw [size] at fits
  exact absurd fits (by decide)

end Source

end LDPlayer
