/-
The checksums of the proxy: socket_util.cc.

Words are loaded and stored in the byte order of the host, a parameter here.
The sum is a `long` in the source; the sums of packets stay below 2^63.
-/
import LDPlayer.Deframe
import LDPlayer.Foundation.OnesComplement

set_option autoImplicit false

namespace LDPlayer

open LengthPrefix OnesComplement

structure InAddr where
  first : UInt8
  second : UInt8
  third : UInt8
  fourth : UInt8
  deriving DecidableEq, Repr

def InAddr.s_addr (addr : InAddr) : Bytes := [addr.first, addr.second, addr.third, addr.fourth]

@[simp] theorem InAddr.s_addr_length (addr : InAddr) : addr.s_addr.length = 4 := rfl

def htons (value : Nat) : Bytes := encodeLength 2 value

/-- The struct in memory; it has no gaps. -/
def pseudo_hdr (ip_src ip_dst : InAddr) (protocol : UInt8) (length : Nat) : Bytes :=
  ip_src.s_addr ++ ip_dst.s_addr ++ [0, protocol] ++ htons length

@[simp] theorem pseudo_hdr_length (ip_src ip_dst : InAddr) (protocol : UInt8) (length : Nat) :
    (pseudo_hdr ip_src ip_dst protocol length).length = 12 := by
  unfold pseudo_hdr htons
  simp only [List.length_append, InAddr.s_addr_length, encodeLength_length, List.length_cons,
    List.length_nil]

/-- The loop over whole words: the sum, and what is left of the buffer and of the count. -/
def inner_loop (order : ByteOrder) : Nat → Bytes → Nat → Except Fault (Nat × Bytes × Nat)
  | count + 2, first :: second :: rest, sum =>
      inner_loop order count rest (sum + order.word first second)
  | _ + 2, _, _ => .error .outOfBounds
  | count, addr, sum => .ok (sum, addr, count)

def complement (sum : Nat) : Nat := ones - fold sum

def cksum (order : ByteOrder) (addr : Bytes) (count : Nat) : Except Fault Nat :=
  match inner_loop order count addr 0 with
  | .error fault => .error fault
  | .ok (sum, rest, left) =>
      if left > 0 then
        -- The last byte is loaded as a word, with the byte behind it.
        match readAt rest 0 2 with
        | .error fault => .error fault
        | .ok last => .ok (complement (sum + total order last))
      else .ok (complement sum)

/-- The buffer that is summed up: pseudo header, segment and padding. -/
def cksum_buffer (pkt : Bytes) (len : Nat) (ip_src ip_dst : InAddr) (protocol : UInt8) :
    Except Fault Bytes :=
  match readAt pkt 0 len with
  | .error fault => .error fault
  | .ok segment =>
      .ok (pseudo_hdr ip_src ip_dst protocol len ++ segment ++ List.replicate (len % 2) 0)

def udp_tcp_cksum (order : ByteOrder) (pkt : Bytes) (len : Nat) (ip_src ip_dst : InAddr)
    (protocol : UInt8) : Except Fault Nat :=
  match cksum_buffer pkt len ip_src ip_dst protocol with
  | .error fault => .error fault
  | .ok buf => cksum order buf (len + 12 + len % 2)

/-! ### The loop -/

theorem inner_loop_even (order : ByteOrder) {count : Nat} {addr : Bytes} (even : count % 2 = 0)
    (within : count ≤ addr.length) (sum : Nat) :
    inner_loop order count addr sum =
      .ok (sum + total order (addr.take count), addr.drop count, 0) := by
  induction count, addr, sum using inner_loop.induct order with
  | case1 count first second rest sum ih =>
      have inner := ih (by omega) (by simp only [List.length_cons] at within; omega)
      rw [inner_loop, inner, List.take_succ_cons, List.take_succ_cons, List.drop_succ_cons,
        List.drop_succ_cons]
      change _ = Except.ok (sum + (order.word first second + total order (rest.take count)), _)
      rw [Nat.add_assoc]
  | case2 count addr sum short =>
      exfalso
      cases addr with
      | nil => simp at within
      | cons first tail =>
          cases tail with
          | nil => simp at within
          | cons second rest => exact short first second rest rfl
  | case3 count addr sum small none =>
      have zero : count = 0 := by
        rcases Nat.lt_or_ge count 2 with below | above
        · omega
        · exact absurd (Nat.sub_add_cancel above).symm (none _)
      subst zero
      rw [inner_loop]
      · rfl
      · exact none
      · exact small

private theorem cksum_even (order : ByteOrder) {addr : Bytes} (even : addr.length % 2 = 0) :
    cksum order addr addr.length = .ok (complement (total order addr)) := by
  unfold cksum
  rw [inner_loop_even order even (Nat.le_refl _), List.take_length, Nat.zero_add]
  rfl

/-! ### The checksum of a segment -/

def segment_sum (order : ByteOrder) (ip_src ip_dst : InAddr) (protocol : UInt8)
    (segment : Bytes) : Nat :=
  total order (pseudo_hdr ip_src ip_dst protocol segment.length ++ segment)

/-- The checksum of a segment is right: pseudo header, segment and padding sum up
to all ones. -/
def Verifies (order : ByteOrder) (ip_src ip_dst : InAddr) (protocol : UInt8)
    (segment : Bytes) : Prop :=
  Complete order (pad (pseudo_hdr ip_src ip_dst protocol segment.length ++ segment))

instance (order : ByteOrder) (ip_src ip_dst : InAddr) (protocol : UInt8) (segment : Bytes) :
    Decidable (Verifies order ip_src ip_dst protocol segment) :=
  inferInstanceAs (Decidable (Complete order _))

theorem verifies_iff (order : ByteOrder) (ip_src ip_dst : InAddr) (protocol : UInt8)
    (segment : Bytes) :
    Verifies order ip_src ip_dst protocol segment ↔
      Complete order (pseudo_hdr ip_src ip_dst protocol segment.length ++ segment) := by
  unfold Verifies Complete
  rw [total_pad]

theorem verifies_congr (order other : ByteOrder) (ip_src ip_dst : InAddr) (protocol : UInt8)
    (segment : Bytes) :
    Verifies order ip_src ip_dst protocol segment ↔ Verifies other ip_src ip_dst protocol segment :=
  complete_congr order other _

theorem cksum_buffer_whole (segment : Bytes) (ip_src ip_dst : InAddr) (protocol : UInt8) :
    cksum_buffer segment segment.length ip_src ip_dst protocol =
      .ok (pad (pseudo_hdr ip_src ip_dst protocol segment.length ++ segment)) := by
  have read : readAt segment 0 segment.length = .ok segment := by
    unfold readAt
    rw [if_pos (by omega), List.drop_zero, List.take_length]
  unfold cksum_buffer pad
  simp only [read, List.length_append, pseudo_hdr_length]
  by_cases even : segment.length % 2 = 0
  · rw [if_pos (by omega), even]
    simp only [List.replicate_zero, List.append_nil]
  · have odd : segment.length % 2 = 1 := by omega
    rw [if_neg (by omega), odd]
    rfl

theorem pad_length (segment : Bytes) (ip_src ip_dst : InAddr) (protocol : UInt8) :
    (pad (pseudo_hdr ip_src ip_dst protocol segment.length ++ segment)).length =
      segment.length + 12 + segment.length % 2 := by
  unfold pad
  by_cases even : (pseudo_hdr ip_src ip_dst protocol segment.length ++ segment).length % 2 = 0
  · rw [if_pos even]
    simp only [List.length_append, pseudo_hdr_length] at even ⊢
    omega
  · rw [if_neg even]
    simp only [List.length_append, pseudo_hdr_length, List.length_cons, List.length_nil] at even ⊢
    omega

theorem udp_tcp_cksum_eq (order : ByteOrder) (segment : Bytes) (ip_src ip_dst : InAddr)
    (protocol : UInt8) :
    udp_tcp_cksum order segment segment.length ip_src ip_dst protocol =
      .ok (complement (segment_sum order ip_src ip_dst protocol segment)) := by
  have size := pad_length segment ip_src ip_dst protocol
  unfold udp_tcp_cksum segment_sum
  rw [cksum_buffer_whole]
  simp only
  rw [← size, cksum_even order (by omega), total_pad]

/-- With its checksum stored into the zero field, a segment verifies in whatever
order its words are read. -/
theorem verifies_store (order : ByteOrder) (front back : Bytes) (even : front.length % 2 = 0)
    (ip_src ip_dst : InAddr) (protocol : UInt8) (other : ByteOrder) :
    Verifies other ip_src ip_dst protocol
      (front ++ order.store (complement
        (segment_sum order ip_src ip_dst protocol (front ++ [0, 0] ++ back))) ++ back) := by
  rw [verifies_iff]
  have size (value : Nat) :
      (front ++ order.store value ++ back).length = (front ++ [0, 0] ++ back).length := by
    simp only [List.length_append, ByteOrder.store_length, List.length_cons, List.length_nil]
  rw [size]
  exact complete_store_behind order _ front back (by rw [pseudo_hdr_length]) even other

private theorem total_pseudo_hdr_pos (order : ByteOrder) (ip_src ip_dst : InAddr) {protocol : UInt8}
    (known : protocol ≠ 0) (length : Nat) :
    0 < total order (pseudo_hdr ip_src ip_dst protocol length) := by
  have some : 0 < protocol.toNat := by
    rw [Nat.pos_iff_ne_zero]
    intro zero
    exact known (UInt8.toNat_inj.mp zero)
  have word : 0 < total order [0, protocol] := by
    cases order with
    | little =>
        change 0 < protocol.toNat * 256 + 0 + 0
        omega
    | big =>
        change 0 < 0 * 256 + protocol.toNat + 0
        omega
  unfold pseudo_hdr
  rw [List.append_assoc, total_append _ _ (by simp), total_append [0, protocol] _ (by simp)]
  omega

/-- Nothing else does, all ones aside. -/
theorem store_eq_iff_verifies (order : ByteOrder) (front back : Bytes)
    (even : front.length % 2 = 0) (first second : UInt8) (ip_src ip_dst : InAddr)
    {protocol : UInt8} (known : protocol ≠ 0) :
    order.store (complement
        (segment_sum order ip_src ip_dst protocol (front ++ [0, 0] ++ back))) = [first, second] ↔
      Verifies order ip_src ip_dst protocol (front ++ [first, second] ++ back) ∧
        [first, second] ≠ [255, 255] := by
  have size : (front ++ [first, second] ++ back).length = (front ++ [0, 0] ++ back).length := by
    simp only [List.length_append, List.length_cons, List.length_nil]
  rw [verifies_iff, size]
  exact store_of_complete_behind _ front back first second (by rw [pseudo_hdr_length]) even
    (total_pseudo_hdr_pos order ip_src ip_dst known _)

/-- The loop of `cksum` leaves no byte of the buffer over, and its sum fits a `long`. -/
theorem cksum_buffer_used_up (order : ByteOrder) (segment : Bytes)
    (short : segment.length ≤ 65535) (ip_src ip_dst : InAddr) (protocol : UInt8) :
    ∃ buf sum rest,
      cksum_buffer segment segment.length ip_src ip_dst protocol = .ok buf ∧
      inner_loop order (segment.length + 12 + segment.length % 2) buf 0 = .ok (sum, rest, 0) ∧
      sum < 2 ^ 63 := by
  have size := pad_length segment ip_src ip_dst protocol
  have bound := total_le order (pad (pseudo_hdr ip_src ip_dst protocol segment.length ++ segment))
  have even : (pad (pseudo_hdr ip_src ip_dst protocol segment.length ++ segment)).length % 2 = 0 := by
    omega
  have loop := inner_loop_even order even (Nat.le_refl _) 0
  rw [List.take_length, Nat.zero_add, size] at loop
  exact ⟨_, _, _, cksum_buffer_whole segment ip_src ip_dst protocol, loop, by omega⟩

/-- Storing the checksum of a segment with a zero field makes the segment verify,
in whatever order its words are read; the loop leaves no byte over, and its sum
fits a `long`. -/
theorem udp_tcp_cksum_completes (order : ByteOrder) {segment front back : Bytes}
    (field : segment = front ++ [0, 0] ++ back) (even : front.length % 2 = 0)
    (short : segment.length ≤ 65535) (ip_src ip_dst : InAddr) (protocol : UInt8) :
    (∃ sum,
      udp_tcp_cksum order segment segment.length ip_src ip_dst protocol = .ok sum ∧
      sum < 2 ^ 16 ∧
      ∀ other, Verifies other ip_src ip_dst protocol (front ++ order.store sum ++ back)) ∧
    ∃ buf sum rest,
      cksum_buffer segment segment.length ip_src ip_dst protocol = .ok buf ∧
      inner_loop order (segment.length + 12 + segment.length % 2) buf 0 = .ok (sum, rest, 0) ∧
      sum < 2 ^ 63 := by
  refine ⟨?_, cksum_buffer_used_up order segment short ip_src ip_dst protocol⟩
  refine ⟨_, udp_tcp_cksum_eq order segment ip_src ip_dst protocol, ?_, ?_⟩
  · unfold complement ones
    omega
  · intro other
    subst field
    exact verifies_store order front back even ip_src ip_dst protocol other

/-- Three bytes behind a zero field. -/
theorem udp_tcp_cksum_completes_three :
    ∃ sum, udp_tcp_cksum .little [0, 0, 1, 2, 3] 5 ⟨10, 0, 0, 1⟩ ⟨10, 0, 0, 2⟩ 17 = .ok sum ∧
      sum < 2 ^ 16 ∧
      ∀ other, Verifies other ⟨10, 0, 0, 1⟩ ⟨10, 0, 0, 2⟩ 17
        ([] ++ ByteOrder.little.store sum ++ [1, 2, 3]) := by
  have field : ([0, 0, 1, 2, 3] : Bytes) = [] ++ [0, 0] ++ [1, 2, 3] := rfl
  have short : ([0, 0, 1, 2, 3] : Bytes).length ≤ 65535 := by decide
  exact (udp_tcp_cksum_completes .little field rfl short ⟨10, 0, 0, 1⟩ ⟨10, 0, 0, 2⟩ 17).1

end LDPlayer
