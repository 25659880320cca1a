/-
The mutator as a converter of raw files to text, without mutation options: the
loop of start() over the records, and in write_text the loop that pads the
microseconds.

The padding loop compares an `unsigned int` with a difference in `size_t`.  What
is printed with more than six characters makes the difference wrap around, and
the counter never gets there.
-/
import LDPlayer.Foundation.Loops
import LDPlayer.Input.Get

set_option autoImplicit false

namespace LDPlayer

open Text LengthPrefix Loops StateTransition

def IsInt32 (value : Int) : Prop := -2 ^ 31 ≤ value ∧ value < 2 ^ 31

def SixPlaces (value : Int) : Prop := -99999 ≤ value ∧ value ≤ 999999

instance (value : Int) : Decidable (IsInt32 value) := inferInstanceAs (Decidable (_ ∧ _))

instance (value : Int) : Decidable (SixPlaces value) := inferInstanceAs (Decidable (_ ∧ _))

theorem to_string_length_le_iff {value : Int} {count : Nat} (positive : 0 < count) :
    (to_string value).length ≤ count + 1 ↔
      (value < 0 → value.natAbs < 10 ^ count) ∧ (0 ≤ value → value.natAbs < 10 ^ (count + 1)) := by
  unfold to_string signedDecimal
  by_cases negative : value < 0
  · rw [if_pos negative, List.length_cons, Nat.add_le_add_iff_right, decimal_length_le_iff positive]
    exact ⟨fun small => ⟨fun _ => small, fun nonneg => by omega⟩, fun both => both.1 negative⟩
  · rw [if_neg negative, decimal_length_le_iff (Nat.succ_pos count)]
    exact ⟨fun small => ⟨fun below => absurd below negative, fun _ => small⟩,
      fun both => both.2 (by omega)⟩

theorem sixPlaces_iff (value : Int) : SixPlaces value ↔ (to_string value).length ≤ 6 := by
  rw [to_string_length_le_iff (by decide : 0 < 5)]
  unfold SixPlaces
  omega

theorem IsInt32.length_le {value : Int} (int32 : IsInt32 value) :
    (to_string value).length ≤ 11 := by
  rw [to_string_length_le_iff (by decide : 0 < 10)]
  obtain ⟨low, high⟩ := int32
  omega

/-! ### The padding loop -/

/-- One turn; the counter and the text so far. -/
def pad (usec : Bytes) (loop : UInt32 × Bytes) : Option (UInt32 × Bytes) :=
  if loop.1.toNat < size_t_sub 6 usec.length then some (loop.1 + 1, loop.2 ++ ascii "0")
  else none

theorem pad_count (usec : Bytes) (loop : UInt32 × Bytes) :
    (pad usec loop).map (fun next => next.1.toNat) =
      count (2 ^ 32) (size_t_sub 6 usec.length) loop.1.toNat := by
  unfold pad count
  by_cases below : loop.1.toNat < size_t_sub 6 usec.length
  · rw [if_pos below, if_pos below, Option.map_some, UInt32.toNat_add]
    rfl
  · rw [if_neg below, if_neg below, Option.map_none]

theorem bound_small_iff {value : Int} (int32 : IsInt32 value) :
    size_t_sub 6 (to_string value).length < 2 ^ 32 ↔ SixPlaces value := by
  have short := int32.length_le
  rw [sixPlaces_iff]
  unfold size_t_sub
  split <;> omega

/-- The loop ends for six characters or less, and else it never does. -/
theorem pad_ends_iff {value : Int} (int32 : IsInt32 value) (l : Bytes) :
    Ends (pad (to_string value)) (0, l) ↔ SixPlaces value := by
  rw [ends_view (pad_count (to_string value)) (0, l), ← bound_small_iff int32]
  exact count_ends_iff (by decide)

private theorem pad_within_six {value : Int} (six : SixPlaces value) (l : Bytes) :
    endsWithin (pad (to_string value)) 6 (0, l) = true := by
  have short := (sixPlaces_iff value).mp six
  have bound : size_t_sub 6 (to_string value).length ≤ 6 := by
    unfold size_t_sub
    split <;> omega
  rw [within_view (pad_count (to_string value)) 6 (0, l)]
  exact count_within (by omega) 6 (by omega)

theorem pad_within_iff {value : Int} (int32 : IsInt32 value) (l : Bytes) :
    endsWithin (pad (to_string value)) 6 (0, l) = true ↔ SixPlaces value := by
  constructor
  · intro within
    exact (pad_ends_iff int32 l).mp (ends_of_within within)
  · intro six
    exact pad_within_six six l

/-! ### The conversion -/

def time_front (msg : DNSMsg) : Bytes := to_string msg.seconds ++ ascii "."

def text_line (dns_msg_str : Bytes → Option Bytes) (msg : DNSMsg) (l : Bytes) : Option Bytes :=
  let l := l ++ to_string msg.microseconds ++ ascii "\t" ++ msg.src_ip ++ ascii "\t" ++
    (if msg.tcp then ascii "tcp\t" else ascii "udp\t")
  (dns_msg_str msg.raw).map (fun msg_str => l ++ msg_str ++ ascii "\n")

/-- In front of a call of `get`, or in a turn of the padding loop. -/
inductive Conversion where
  | reading (source : Source) (written : Bytes)
  | padding (source : Source) (written : Bytes) (msg : DNSMsg) (loop : UInt32 × Bytes)

/-- A record that leaves the reader's buffer is an end as well. -/
def convert (codec : Codec) (dns_msg_str : Bytes → Option Bytes) : Conversion → Option Conversion
  | .reading source written =>
      match InputStream.get_from_raw codec source with
      | .error _ => none
      | .ok (none, _) => none
      | .ok (some msg, rest) =>
          if msg.raw = [] then some (.reading rest written)
          else some (.padding rest written msg (0, time_front msg))
  | .padding source written msg loop =>
      match pad (to_string msg.microseconds) loop with
      | some next => some (.padding source written msg next)
      | none => some (.reading source (written ++ (text_line dns_msg_str msg loop.2).getD []))

theorem Source.get_raw_shorter {codec : Codec} {source rest : Source} {msg : DNSMsg}
    (read : source.get_raw codec = .ok (some msg, rest)) :
    rest.bytes.length < source.bytes.length := by
  unfold get_raw at read
  split at read
  · cases read
  · cases read
  · rename_i header left first
    obtain ⟨_good, taken, width, _fits, dropped, _left⟩ := read_bytes_some first
    simp only at read
    split at read
    · cases read
    · cases read
    · rename_i buf behind second
      obtain ⟨_good, _taken, _size, _fits, droppedBuf, _rest⟩ := read_bytes_some second
      obtain ⟨_, rfl⟩ := Prod.mk.inj (Except.ok.inj read)
      have enough : lengthWidth ≤ source.bytes.length := by
        rw [← width, taken, List.length_take]
        exact Nat.min_le_right _ _
      have positive : 0 < lengthWidth := by decide
      rw [droppedBuf, dropped, List.length_drop, List.length_drop]
      omega

/-- The messages that successive calls return, up to the first that returns none. -/
def Source.records (codec : Codec) (source : Source) : List DNSMsg :=
  match _read : source.get_raw codec with
  | .ok (some msg, rest) => msg :: rest.records codec
  | _ => []
termination_by source.bytes.length
decreasing_by exact Source.get_raw_shorter _read

section conversion

variable {codec : Codec} (dns_msg_str : Bytes → Option Bytes)

theorem Source.records_some {source rest : Source} {msg : DNSMsg}
    (read : source.get_raw codec = .ok (some msg, rest)) :
    source.records codec = msg :: rest.records codec := by
  rw [records]
  split
  · rename_i found
    obtain ⟨same, rfl⟩ := Prod.mk.inj (Except.ok.inj (read.symm.trans found))
    rw [Option.some.inj same]
  · rename_i none
    exact absurd read (none msg rest)

theorem Source.mem_records {source : Source} {msg : DNSMsg}
    (member : msg ∈ source.records codec) : ∃ record, msg = codec.ParseFromArray record := by
  induction source using Source.records.induct codec with
  | case1 source first rest read ih =>
      rw [records_some read] at member
      rcases List.mem_cons.mp member with rfl | later
      · obtain ⟨record, _front, same⟩ := (get_raw_some_iff codec source msg).mp ⟨rest, read⟩
        exact ⟨record, same⟩
      · exact ih later
  | case2 source ended =>
      rw [records] at member
      split at member
      · rename_i first rest read
        exact absurd read (ended first rest)
      · cases member

/-- One record: the conversion goes on behind it exactly if its padding ends. -/
theorem padding_ends_iff {source : Source} {written : Bytes} {msg : DNSMsg}
    (int32 : IsInt32 msg.microseconds) {holds : Prop}
    (behind : ∀ written, Ends (convert codec dns_msg_str) (.reading source written) ↔ holds) :
    Ends (convert codec dns_msg_str) (.padding source written msg (0, time_front msg)) ↔
      SixPlaces msg.microseconds ∧ holds := by
  have inside : ∀ loop next, pad (to_string msg.microseconds) loop = some next →
      convert codec dns_msg_str (.padding source written msg loop) =
        some (.padding source written msg next) := by
    intro loop next turn
    simp only [convert, turn]
  have leaves : ∀ loop, pad (to_string msg.microseconds) loop = none →
      convert codec dns_msg_str (.padding source written msg loop) =
        some (.reading source (written ++ (text_line dns_msg_str msg loop.2).getD [])) := by
    intro loop last
    simp only [convert, last]
  rw [ends_nested inside leaves, ← pad_ends_iff int32 (time_front msg), ends_iff_mem]
  simp only [behind]
  exact ⟨fun ⟨last, evaluated, after⟩ => ⟨⟨last, evaluated⟩, after⟩,
    fun ⟨⟨last, evaluated⟩, after⟩ => ⟨last, evaluated, after⟩⟩

theorem reading_ends_iff (int32 : ∀ bytes, IsInt32 (codec.ParseFromArray bytes).microseconds)
    (source : Source) (written : Bytes) :
    Ends (convert codec dns_msg_str) (.reading source written) ↔
      ∀ msg ∈ source.records codec, msg.raw ≠ [] → SixPlaces msg.microseconds := by
  induction source using Source.records.induct codec generalizing written with
  | case1 source msg rest read ih =>
      obtain ⟨record, _front, same⟩ := (Source.get_raw_some_iff codec source msg).mp ⟨rest, read⟩
      have ranged : IsInt32 msg.microseconds := by
        rw [same]
        exact int32 record
      rw [Source.records_some read, List.forall_mem_cons]
      have turn : convert codec dns_msg_str (.reading source written) =
          if msg.raw = [] then some (.reading rest written)
          else some (.padding rest written msg (0, time_front msg)) := by
        simp only [convert, InputStream.get_from_raw, read]
      by_cases empty : msg.raw = []
      · rw [if_pos empty] at turn
        rw [ends_iff_next turn, ih]
        exact (and_iff_right (fun nonempty => absurd empty nonempty)).symm
      · rw [if_neg empty] at turn
        rw [ends_iff_next turn, padding_ends_iff dns_msg_str ranged ih]
        exact and_congr_left' ⟨fun six _nonempty => six, fun six => six empty⟩
  | case2 source ended =>
      have last : convert codec dns_msg_str (.reading source written) = none := by
        simp only [convert, InputStream.get_from_raw]
        split
        · rfl
        · rfl
        · rename_i msg rest read
          exact absurd read (ended msg rest)
      have none : source.records codec = [] := by
        rw [Source.records]
        split
        · rename_i msg rest read
          exact absurd read (ended msg rest)
        · rfl
      rw [none]
      exact iff_of_true (ends_of_none last) (List.forall_mem_nil _)

private theorem padded_text {msg : DNSMsg} (six : SixPlaces msg.microseconds)
    {last : UInt32 × Bytes}
    (evaluated : last ∈ eval (pad (to_string msg.microseconds)) (0, time_front msg)) :
    write_text dns_msg_str msg = .ok (text_line dns_msg_str msg last.2) := by
  have short := (sixPlaces_iff _).mp six
  have bound : size_t_sub 6 (to_string msg.microseconds).length =
      6 - (to_string msg.microseconds).length := if_neg (by omega)
  obtain ⟨reached, ended⟩ := mem_eval.mp evaluated
  -- As many zeros as the counter says, which does not get past the bound.
  have kept : last.1.toNat ≤ 6 - (to_string msg.microseconds).length ∧
      last.2 = time_front msg ++ List.replicate last.1.toNat 48 := by
    apply kept_of_reaches (fun loop : UInt32 × Bytes =>
      loop.1.toNat ≤ 6 - (to_string msg.microseconds).length ∧
        loop.2 = time_front msg ++ List.replicate loop.1.toNat 48) _ reached
    · exact ⟨Nat.zero_le _, (List.append_nil _).symm⟩
    · intro loop next holds turn
      obtain ⟨_small, text⟩ := holds
      unfold pad at turn
      rw [bound] at turn
      by_cases below : loop.1.toNat < 6 - (to_string msg.microseconds).length
      · rw [if_pos below] at turn
        obtain rfl := Option.some.inj turn
        have next : (loop.1 + 1).toNat = loop.1.toNat + 1 := by
          rw [UInt32.toNat_add]
          exact Nat.mod_eq_of_lt (by change loop.1.toNat + 1 < 2 ^ 32; omega)
        change (loop.1 + 1).toNat ≤ _ ∧
          loop.2 ++ ascii "0" = _ ++ List.replicate (loop.1 + 1).toNat 48
        rw [next, text, List.append_assoc, List.replicate_succ']
        exact ⟨by omega, rfl⟩
      · rw [if_neg below] at turn
        cases turn
  have full : last.1.toNat = 6 - (to_string msg.microseconds).length := by
    unfold pad at ended
    rw [bound] at ended
    by_contra less
    rw [if_pos (by omega)] at ended
    cases ended
  unfold write_text time_column text_line
  rw [if_neg (by omega), kept.2, full]
  simp only [time_front, List.append_assoc]

variable (codec) in
/-- The padding loop takes six turns at most, or ends at all, and the conversion of
a file ends, exactly where the microseconds are printed with six characters or less;
the text of a record is then the line of `write_text`. -/
theorem raw_to_text_ends_iff (int32 : ∀ bytes, IsInt32 (codec.ParseFromArray bytes).microseconds)
    (source : Source) :
    (∀ msg next, InputStream.get_from_raw codec source = .ok (some msg, next) →
      (endsWithin (pad (to_string msg.microseconds)) 6 (0, time_front msg) = true ↔
          SixPlaces msg.microseconds) ∧
        (Ends (pad (to_string msg.microseconds)) (0, time_front msg) ↔
          SixPlaces msg.microseconds) ∧
        ∀ last ∈ eval (pad (to_string msg.microseconds)) (0, time_front msg),
          write_text dns_msg_str msg = .ok (text_line dns_msg_str msg last.2)) ∧
    (Ends (convert codec dns_msg_str) (.reading source []) ↔
      ∀ msg ∈ source.records codec, msg.raw ≠ [] → SixPlaces msg.microseconds) := by
  constructor
  · intro msg next read
    obtain ⟨record, _front, same⟩ := (Source.get_raw_some_iff codec source msg).mp ⟨next, read⟩
    have ranged : IsInt32 msg.microseconds := by
      rw [same]
      exact int32 record
    refine ⟨pad_within_iff ranged (time_front msg), pad_ends_iff ranged (time_front msg), ?_⟩
    intro last evaluated
    have six := (pad_ends_iff ranged (time_front msg)).mp (ends_iff_mem.mpr ⟨last, evaluated⟩)
    exact padded_text dns_msg_str six evaluated
  · exact reading_ends_iff dns_msg_str int32 source []

end conversion

theorem wire_codec_microseconds (bytes : Bytes) :
    (wire_codec.ParseFromArray bytes).microseconds = 0 := by
  unfold wire_codec
  simp only
  split <;> rfl

/-- A file with one record, which holds the raw field alone. -/
theorem raw_to_text_ends_one :
    Ends (convert wire_codec (fun _ => none)) (.reading { bytes := [0, 0, 0, 3, 66, 1, 7] } []) := by
  have int32 : ∀ bytes, IsInt32 (wire_codec.ParseFromArray bytes).microseconds := by
    intro bytes
    rw [wire_codec_microseconds]
    decide
  apply (raw_to_text_ends_iff wire_codec (fun _ => none) int32
    { bytes := [0, 0, 0, 3, 66, 1, 7] }).2.mpr
  intro msg member _nonempty
  obtain ⟨record, rfl⟩ := Source.mem_records member
  rw [wire_codec_microseconds]
  decide

def whole_second : DNSMsg :=
  { seconds? := some 1, microseconds? := some 1000000, tcp? := some false, ipv4? := some true
    src_ip? := some (ascii "1.2.3.4"), raw? := some [7] }

/-- The library on the record of that message, and on records of the raw field alone. -/
def second_codec : Codec where
  SerializeToString := wire_codec.SerializeToString
  ParseFromArray bytes :=
    if bytes = wire_text whole_second then whole_second else wire_codec.ParseFromArray bytes

/-- The file with that record: its padding takes more than six turns and the
conversion never ends. -/
theorem whole_second_never_ends :
    InputStream.get_from_raw second_codec { bytes := frame (wire_text whole_second) } =
        .ok (some whole_second, { bytes := [] }) ∧
      endsWithin (pad (to_string whole_second.microseconds)) 6 (0, time_front whole_second) =
        false ∧
      ¬ Ends (convert second_codec (fun _ => none))
        (.reading { bytes := frame (wire_text whole_second) } []) := by
  have parsed : second_codec.ParseFromArray (wire_text whole_second) = whole_second := by
    simp only [second_codec, if_true]
  have read := Source.get_raw_frame second_codec false []
    (show (wire_text whole_second).length ≤ BUF_SIZE by decide +kernel)
  rw [List.append_nil, parsed] at read
  have long : ¬ SixPlaces whole_second.microseconds := by decide
  have int32 : ∀ bytes, IsInt32 (second_codec.ParseFromArray bytes).microseconds := by
    intro bytes
    unfold second_codec
    simp only
    split
    · decide
    · rw [wire_codec_microseconds]
      decide
  refine ⟨read, ?_, ?_⟩
  · rw [Bool.eq_false_iff]
    intro within
    exact long ((pad_within_iff (by decide) _).mp within)
  · rw [reading_ends_iff (fun _ => none) int32]
    intro all
    apply long
    apply all whole_second _ (List.cons_ne_nil _ _)
    rw [Source.records_some read]
    exact List.mem_cons_self

end LDPlayer
