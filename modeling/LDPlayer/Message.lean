/-
The data that the programs pass to each other: the protobuf message of
dns_msg.proto, its framing, timestamps, and the ways a program stops.

Protobuf itself is a parameter.  A codec is only the two calls the programs
make; what is assumed of it is stated where it is used.
-/
import LDPlayer.Foundation.Text

set_option autoImplicit false

namespace LDPlayer

/-- How a process leaves the modelled code: an `err`/`errx` exit with its text,
a failed `assert`, an access outside a buffer, `std::out_of_range`, or a
division by zero. -/
inductive Fault where
  | exit (message : String)
  | assertion (condition : String)
  | outOfBounds
  | outOfRange
  | divideByZero
  deriving DecidableEq, Repr

theorem of_map_eq_ok {α β : Type} {f : α → β} {value : Except Fault α} {result : β}
    (mapped : value.map f = .ok result) : ∃ inner, value = .ok inner ∧ f inner = result := by
  cases value with
  | error fault => cases mapped
  | ok inner => exact ⟨inner, rfl, Except.ok.inj mapped⟩

theorem of_bind_eq_ok {α β : Type} {rest : α → Except Fault β} {value : Except Fault α}
    {result : β} (bound : value >>= rest = .ok result) :
    ∃ inner, value = .ok inner ∧ rest inner = .ok result := by
  cases value with
  | error fault => cases bound
  | ok inner => exact ⟨inner, rfl, bound⟩

/-- File descriptors, with −1 for none. -/
abbrev Fd : Type := Int

abbrev Ptr : Type := Nat

def NULL : Ptr := 0

/-! ### Time values -/

structure Timeval where
  tv_sec : Int
  tv_usec : Int
  deriving DecidableEq, Repr

namespace Timeval

def zero : Timeval := { tv_sec := 0, tv_usec := 0 }

def evutil_timerisset (tv : Timeval) : Bool := tv.tv_sec ≠ 0 ∨ tv.tv_usec ≠ 0

/-- Subtraction with borrow, as the macro of libevent does it. -/
def evutil_timersub (tvp uvp : Timeval) : Timeval :=
  let sec := tvp.tv_sec - uvp.tv_sec
  let usec := tvp.tv_usec - uvp.tv_usec
  if usec < 0 then { tv_sec := sec - 1, tv_usec := usec + 1000000 }
  else { tv_sec := sec, tv_usec := usec }

theorem evutil_timerisset_iff (tv : Timeval) :
    tv.evutil_timerisset = true ↔ tv ≠ zero := by
  cases tv with
  | mk sec usec =>
      simp only [evutil_timerisset, zero, decide_eq_true_eq, ne_eq, Timeval.mk.injEq]
      exact not_and_or.symm

end Timeval

/-! ### Packets -/

def get_id (buf : Bytes) : Nat := (buf.getD 0 0).toNat * 256 + (buf.getD 1 0).toNat

def set_id (id : Nat) (buf : Bytes) : Bytes :=
  UInt8.ofNat (id / 256 % 256) :: UInt8.ofNat (id % 256) :: buf.drop 2

def is_query (buf : Bytes) : Bool := (buf.getD 2 0).toNat < 128

/-! ### DNSMsg -/

/-- The fields of the message, absent where they were not set. -/
structure DNSMsg where
  seconds? : Option Int := none
  microseconds? : Option Int := none
  tcp? : Option Bool := none
  ipv4? : Option Bool := none
  response? : Option Bool := none
  src_ip? : Option Bytes := none
  dst_ip? : Option Bytes := none
  raw? : Option Bytes := none
  sync_time? : Option Bool := none
  deriving DecidableEq, Repr

namespace DNSMsg

def seconds (msg : DNSMsg) : Int := msg.seconds?.getD 0
def microseconds (msg : DNSMsg) : Int := msg.microseconds?.getD 0
def tcp (msg : DNSMsg) : Bool := msg.tcp?.getD false
def src_ip (msg : DNSMsg) : Bytes := msg.src_ip?.getD []
def raw (msg : DNSMsg) : Bytes := msg.raw?.getD []
def sync_time (msg : DNSMsg) : Bool := msg.sync_time?.getD false

def IsInitialized (msg : DNSMsg) : Prop :=
  msg.seconds?.isSome ∧ msg.microseconds?.isSome ∧ msg.tcp?.isSome ∧ msg.ipv4?.isSome ∧
    msg.src_ip?.isSome ∧ msg.raw?.isSome

instance (msg : DNSMsg) : Decidable msg.IsInitialized :=
  inferInstanceAs (Decidable (_ ∧ _ ∧ _ ∧ _ ∧ _ ∧ _))

def set_raw (msg : DNSMsg) (raw : Bytes) : DNSMsg := { msg with raw? := some raw }

def set_sync_time (msg : DNSMsg) (value : Bool) : DNSMsg :=
  { msg with sync_time? := some value }

def q_ts (msg : DNSMsg) : Timeval :=
  { tv_sec := msg.seconds, tv_usec := msg.microseconds }

def Valid (msg : DNSMsg) : Prop := msg.raw ≠ []

instance (msg : DNSMsg) : Decidable msg.Valid :=
  inferInstanceAs (Decidable (msg.raw ≠ []))

@[simp] theorem src_ip_set_sync_time (msg : DNSMsg) (value : Bool) :
    (msg.set_sync_time value).src_ip = msg.src_ip := rfl

@[simp] theorem sync_time_set_sync_time (msg : DNSMsg) (value : Bool) :
    (msg.set_sync_time value).sync_time = value := rfl

end DNSMsg

/-- The two calls into the protobuf library.  Serialisation fails by returning
nothing; a parse leaves whatever fields it read. -/
structure Codec where
  SerializeToString : DNSMsg → Option Bytes
  ParseFromArray : Bytes → DNSMsg

/-- Parsing inverts serialisation on this message, and the text is not empty. -/
def Codec.Inverts (codec : Codec) (msg : DNSMsg) : Prop :=
  ∃ bytes, bytes ≠ [] ∧ codec.SerializeToString msg = some bytes ∧
    codec.ParseFromArray bytes = msg

def Codec.serialize (codec : Codec) (failure : String) (msg : DNSMsg) : Except Fault Bytes :=
  match codec.SerializeToString msg with
  | none => .error (.exit failure)
  | some msg_str =>
      if msg_str = [] then .error (.assertion "msg_str.size() > 0") else .ok msg_str

theorem Codec.Inverts.serialize {codec : Codec} {msg : DNSMsg} (inverts : codec.Inverts msg)
    (failure : String) :
    ∃ msg_str, codec.serialize failure msg = .ok msg_str ∧
      codec.ParseFromArray msg_str = msg := by
  obtain ⟨msg_str, nonempty, written, parsed⟩ := inverts
  refine ⟨msg_str, ?_, parsed⟩
  unfold Codec.serialize
  simp only [written, if_neg nonempty]

/-! ### The encoding of protobuf -/

/-- Seven bits a byte; the count bounds the bytes. -/
def varint : Nat → Nat → Bytes
  | 0, _ => []
  | count + 1, value =>
      if value < 128 then [UInt8.ofNat value]
      else UInt8.ofNat (value % 128 + 128) :: varint count (value / 128)

/-- The fields of dns_msg.proto that are there, in the order of their numbers. -/
def wire_text (msg : DNSMsg) : Bytes :=
  let number (tag : UInt8) (field : Option Int) : Bytes :=
    (field.map (fun value => tag :: varint 10 (value % 2 ^ 64).toNat)).getD []
  let flag (tag : UInt8) (field : Option Bool) : Bytes :=
    (field.map (fun value => [tag, if value then 1 else 0])).getD []
  let bytes (tag : UInt8) (field : Option Bytes) : Bytes :=
    (field.map (fun value => tag :: varint 10 value.length ++ value)).getD []
  number 8 msg.seconds? ++ number 16 msg.microseconds? ++ flag 24 msg.tcp? ++ flag 32 msg.ipv4? ++
    flag 40 msg.response? ++ bytes 50 msg.src_ip? ++ bytes 58 msg.dst_ip? ++ bytes 66 msg.raw? ++
    flag 72 msg.sync_time?

/-- The library on these messages: it serialises what is initialised, and parses their
texts. -/
def library_on (msgs : List DNSMsg) : Codec where
  SerializeToString msg := if msg.IsInitialized then some (wire_text msg) else none
  ParseFromArray text := (msgs.find? (fun msg => wire_text msg = text)).getD {}

theorem parse_wire_text {msgs : List DNSMsg} (distinct : (msgs.map wire_text).Nodup)
    {msg : DNSMsg} (member : msg ∈ msgs) :
    (library_on msgs).ParseFromArray (wire_text msg) = msg := by
  have found : msgs.find? (fun other => wire_text other = wire_text msg) = some msg := by
    induction msgs with
    | nil => cases member
    | cons first later ih =>
        rw [List.map_cons, List.nodup_cons] at distinct
        rcases List.mem_cons.mp member with rfl | inside
        · exact List.find?_cons_of_pos (decide_eq_true rfl)
        · have other : wire_text first ≠ wire_text msg := fun same =>
            distinct.1 (List.mem_map.mpr ⟨msg, inside, same.symm⟩)
          rw [List.find?_cons_of_neg (by simpa using other)]
          exact ih distinct.2 inside
  simp only [library_on, found, Option.getD_some]

/-! ### Frames between the programs -/

def lengthWidth : Nat := 4

def frame (payload : Bytes) : Bytes := LengthPrefix.frame lengthWidth payload

end LDPlayer
