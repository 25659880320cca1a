/-
The rewriting of a packet: process_packet_helper of proxy.cc.

The packet is a buffer of bytes and every access has its offset in it, as the
casts of the source lay the headers over the buffer.  The transport header is
taken to begin at byte 20, whatever the header says about its own length, and
to be there at all, whatever the fragment offset is.
-/
import LDPlayer.Proxy.Checksum

set_option autoImplicit false

namespace LDPlayer

open OnesComplement

def writeAt (pkt : Bytes) (offset : Nat) (bytes : Bytes) : Except Fault Bytes :=
  if offset + bytes.length ≤ pkt.length then
    .ok (pkt.take offset ++ bytes ++ pkt.drop (offset + bytes.length))
  else .error .outOfBounds

def byteAt (pkt : Bytes) (offset : Nat) : Except Fault UInt8 :=
  match pkt[offset]? with
  | none => .error .outOfBounds
  | some byte => .ok byte

def addrAt (pkt : Bytes) (offset : Nat) : Except Fault InAddr :=
  match readAt pkt offset 4 with
  | .ok [first, second, third, fourth] => .ok ⟨first, second, third, fourth⟩
  | _ => .error .outOfBounds

def IPPROTO_TCP : UInt8 := 6

def IPPROTO_UDP : UInt8 := 17

/-- Where the header of this protocol keeps its `check`. -/
def check_offset (ip_p : UInt8) : Option Nat :=
  if ip_p = IPPROTO_TCP then some 16 else if ip_p = IPPROTO_UDP then some 6 else none

def change_address (target : InAddr) (pkt : Bytes) : Except Fault Bytes :=
  match byteAt pkt 0 with
  | .error fault => .error fault
  | .ok vhl =>
      let ip_v := vhl.toNat / 16
      if ip_v = 4 then
        match addrAt pkt 16 with
        | .error fault => .error fault
        | .ok ip_dst =>
            match writeAt pkt 12 ip_dst.s_addr with
            | .error fault => .error fault
            | .ok moved =>
                match writeAt moved 16 target.s_addr with
                | .error fault => .error fault
                | .ok directed => writeAt directed 10 [0, 0]
      else if ip_v = 6 then .error (.exit "[error] IPv6 is not supported!")
      else .ok pkt

/-- The new checksum in the header that is laid over byte 20. -/
def change_check (order : ByteOrder) (ip_p : UInt8) (check : Nat) (pkt : Bytes) :
    Except Fault Bytes :=
  match writeAt pkt (20 + check) [0, 0] with
  | .error fault => .error fault
  | .ok cleared =>
      match addrAt cleared 12, addrAt cleared 16 with
      | .ok ip_src, .ok ip_dst =>
          match udp_tcp_cksum order (cleared.drop 20) ((pkt.length + 2 ^ 16 - 20) % 2 ^ 16)
              ip_src ip_dst ip_p with
          | .error fault => .error fault
          | .ok sum => writeAt cleared (20 + check) (order.store sum)
      | _, _ => .error .outOfBounds

/-- The packet that is sent to the target.  The kernel fills in the checksum of
the IP header. -/
def process_packet_helper (order : ByteOrder) (target : InAddr) (pkt : Bytes) :
    Except Fault Bytes :=
  match change_address target pkt with
  | .error fault => .error fault
  | .ok changed =>
      match byteAt changed 9 with
      | .error fault => .error fault
      | .ok ip_p =>
          match check_offset ip_p with
          | none => .ok changed
          | some check => change_check order ip_p check changed

/-! ### Stores and loads -/

private theorem readAt_mid (front mid back : Bytes) :
    readAt (front ++ mid ++ back) front.length mid.length = .ok mid := by
  unfold readAt
  rw [if_pos (by simp), List.append_assoc, List.drop_left, List.take_left]

theorem writeAt_mid (front old back new : Bytes) (same : new.length = old.length) :
    writeAt (front ++ old ++ back) front.length new = .ok (front ++ new ++ back) := by
  have within : front.length + new.length ≤ (front ++ old ++ back).length := by
    simp only [List.length_append]
    omega
  have first : (front ++ old ++ back).take front.length = front := by
    rw [List.append_assoc, List.take_left]
  have last : (front ++ old ++ back).drop (front.length + new.length) = back := by
    rw [same, ← List.length_append, List.drop_left]
  unfold writeAt
  rw [if_pos within, first, last]

theorem addrAt_mid (front back : Bytes) (addr : InAddr) :
    addrAt (front ++ addr.s_addr ++ back) front.length = .ok addr := by
  have read := readAt_mid front addr.s_addr back
  rw [InAddr.s_addr_length] at read
  unfold addrAt
  rw [read]
  rfl

/-! ### The first twenty bytes -/

def assemble (lead ip_sum : Bytes) (ip_src ip_dst : InAddr) (rest : Bytes) : Bytes :=
  lead ++ ip_sum ++ ip_src.s_addr ++ ip_dst.s_addr ++ rest

private theorem exists_s_addr (bytes : Bytes) (four : bytes.length = 4) :
    ∃ addr : InAddr, bytes = addr.s_addr := by
  match bytes, four with
  | [first, second, third, fourth], _ => exact ⟨⟨first, second, third, fourth⟩, rfl⟩

theorem exists_assemble {pkt : Bytes} (header : 20 ≤ pkt.length) :
    ∃ lead ip_sum ip_src ip_dst rest, lead.length = 10 ∧ ip_sum.length = 2 ∧
      pkt = assemble lead ip_sum ip_src ip_dst rest := by
  obtain ⟨ip_src, source⟩ := exists_s_addr ((pkt.drop 12).take 4) (by
    rw [List.length_take, List.length_drop]
    omega)
  obtain ⟨ip_dst, destination⟩ := exists_s_addr ((pkt.drop 16).take 4) (by
    rw [List.length_take, List.length_drop]
    omega)
  have next (offset count : Nat) :
      pkt.drop offset = (pkt.drop offset).take count ++ pkt.drop (offset + count) := by
    rw [← List.drop_drop, List.take_append_drop]
  refine ⟨pkt.take 10, (pkt.drop 10).take 2, ip_src, ip_dst, pkt.drop 20, ?_, ?_, ?_⟩
  · rw [List.length_take]
    omega
  · rw [List.length_take, List.length_drop]
    omega
  · unfold assemble
    rw [← source, ← destination, List.append_assoc, List.append_assoc, List.append_assoc,
      ← next 16 4, ← next 12 4, ← next 10 2, List.take_append_drop]

section assembled

variable {lead ip_sum rest : Bytes} {ip_src ip_dst : InAddr}

theorem assemble_length (ten : lead.length = 10) (two : ip_sum.length = 2) :
    (assemble lead ip_sum ip_src ip_dst rest).length = 20 + rest.length := by
  unfold assemble
  simp only [List.length_append, InAddr.s_addr_length]
  omega

theorem assemble_getElem_lead (ten : lead.length = 10) {index : Nat} (small : index < 10) :
    (assemble lead ip_sum ip_src ip_dst rest)[index]? = lead[index]? := by
  unfold assemble
  simp only [List.append_assoc]
  exact List.getElem?_append_left (by omega)

theorem assemble_drop (ten : lead.length = 10) (two : ip_sum.length = 2) (offset : Nat) :
    (assemble lead ip_sum ip_src ip_dst rest).drop (20 + offset) = rest.drop offset := by
  have size : (lead ++ ip_sum ++ ip_src.s_addr ++ ip_dst.s_addr).length = 20 := by
    simp only [List.length_append, InAddr.s_addr_length]
    omega
  unfold assemble
  rw [← size, ← List.drop_drop, List.drop_left]

theorem assemble_payload (ten : lead.length = 10) (two : ip_sum.length = 2) :
    (assemble lead ip_sum ip_src ip_dst rest).drop 20 = rest :=
  assemble_drop ten two 0

theorem assemble_field (ten : lead.length = 10) (two : ip_sum.length = 2) (front back : Bytes)
    (first second : UInt8) :
    ((assemble lead ip_sum ip_src ip_dst (front ++ [first, second] ++ back)).drop
      (20 + front.length)).take 2 = [first, second] := by
  rw [assemble_drop ten two, List.append_assoc, List.drop_left]
  rfl

theorem assemble_getElem_rest (ten : lead.length = 10) (two : ip_sum.length = 2) (index : Nat) :
    (assemble lead ip_sum ip_src ip_dst rest)[20 + index]? = rest[index]? := by
  rw [← List.head?_drop, assemble_drop ten two, List.head?_drop]

theorem addrAt_source (ten : lead.length = 10) (two : ip_sum.length = 2) :
    addrAt (assemble lead ip_sum ip_src ip_dst rest) 12 = .ok ip_src := by
  have size : (lead ++ ip_sum).length = 12 := by
    rw [List.length_append]
    omega
  have mid := addrAt_mid (lead ++ ip_sum) (ip_dst.s_addr ++ rest) ip_src
  rw [size] at mid
  unfold assemble
  rw [List.append_assoc]
  exact mid

theorem addrAt_destination (ten : lead.length = 10) (two : ip_sum.length = 2) :
    addrAt (assemble lead ip_sum ip_src ip_dst rest) 16 = .ok ip_dst := by
  have size : (lead ++ ip_sum ++ ip_src.s_addr).length = 16 := by
    simp only [List.length_append, InAddr.s_addr_length]
    omega
  have mid := addrAt_mid (lead ++ ip_sum ++ ip_src.s_addr) rest ip_dst
  rw [size] at mid
  exact mid

private theorem change_address_assemble (ten : lead.length = 10) (two : ip_sum.length = 2)
    {vhl : UInt8} (first : lead[0]? = some vhl) (four : vhl.toNat / 16 = 4) (target : InAddr) :
    change_address target (assemble lead ip_sum ip_src ip_dst rest) =
      .ok (assemble lead [0, 0] ip_dst target rest) := by
  have byte : byteAt (assemble lead ip_sum ip_src ip_dst rest) 0 = .ok vhl := by
    unfold byteAt
    rw [assemble_getElem_lead ten (by omega), first]
  have moved : writeAt (assemble lead ip_sum ip_src ip_dst rest) 12 ip_dst.s_addr =
      .ok (assemble lead ip_sum ip_dst ip_dst rest) := by
    have size : (lead ++ ip_sum).length = 12 := by
      rw [List.length_append]
      omega
    have mid := writeAt_mid (lead ++ ip_sum) ip_src.s_addr (ip_dst.s_addr ++ rest)
      ip_dst.s_addr rfl
    rw [size] at mid
    unfold assemble
    rw [List.append_assoc, List.append_assoc _ _ rest]
    exact mid
  have directed : writeAt (assemble lead ip_sum ip_dst ip_dst rest) 16 target.s_addr =
      .ok (assemble lead ip_sum ip_dst target rest) := by
    have size : (lead ++ ip_sum ++ ip_dst.s_addr).length = 16 := by
      simp only [List.length_append, InAddr.s_addr_length]
      omega
    have mid := writeAt_mid (lead ++ ip_sum ++ ip_dst.s_addr) ip_dst.s_addr rest
      target.s_addr rfl
    rw [size] at mid
    exact mid
  have cleared : writeAt (assemble lead ip_sum ip_dst target rest) 10 [0, 0] =
      .ok (assemble lead [0, 0] ip_dst target rest) := by
    have mid := writeAt_mid lead ip_sum (ip_dst.s_addr ++ (target.s_addr ++ rest))
      [0, 0] two.symm
    rw [ten] at mid
    unfold assemble
    simp only [List.append_assoc] at mid ⊢
    exact mid
  unfold change_address
  rw [byte]
  simp only [if_pos four]
  rw [addrAt_destination ten two]
  simp only
  rw [moved]
  simp only
  rw [directed]
  exact cleared

private theorem change_check_assemble (order : ByteOrder) (ten : lead.length = 10)
    (two : ip_sum.length = 2) (ip_p : UInt8) (front old back : Bytes) (field : old.length = 2)
    (small : (front ++ old ++ back).length < 2 ^ 16) :
    change_check order ip_p front.length
        (assemble lead ip_sum ip_src ip_dst (front ++ old ++ back)) =
      .ok (assemble lead ip_sum ip_src ip_dst (front ++ order.store (complement
        (segment_sum order ip_src ip_dst ip_p (front ++ [0, 0] ++ back))) ++ back)) := by
  have stores (bytes new : Bytes) (pair : bytes.length = 2) (same : new.length = 2) :
      writeAt (assemble lead ip_sum ip_src ip_dst (front ++ bytes ++ back)) (20 + front.length) new =
        .ok (assemble lead ip_sum ip_src ip_dst (front ++ new ++ back)) := by
    have size : (lead ++ ip_sum ++ ip_src.s_addr ++ ip_dst.s_addr ++ front).length =
        20 + front.length := by
      simp only [List.length_append, InAddr.s_addr_length]
      omega
    have mid := writeAt_mid (lead ++ ip_sum ++ ip_src.s_addr ++ ip_dst.s_addr ++ front) bytes back
      new (same.trans pair.symm)
    rw [size] at mid
    unfold assemble
    simp only [List.append_assoc] at mid ⊢
    exact mid
  have behind : (assemble lead ip_sum ip_src ip_dst (front ++ [0, 0] ++ back)).drop (20 + 0) =
      (front ++ [0, 0] ++ back).drop 0 :=
    assemble_drop ten two 0
  have length : ((assemble lead ip_sum ip_src ip_dst (front ++ old ++ back)).length +
      2 ^ 16 - 20) % 2 ^ 16 = (front ++ [0, 0] ++ back).length := by
    rw [assemble_length ten two]
    simp only [List.length_append, List.length_cons, List.length_nil] at small ⊢
    omega
  unfold change_check
  rw [stores old [0, 0] field rfl]
  simp only
  rw [addrAt_source ten two, addrAt_destination ten two, length]
  simp only
  rw [behind, List.drop_zero, udp_tcp_cksum_eq]
  exact stores [0, 0] _ rfl (ByteOrder.store_length _ _)

end assembled

/-! ### What a packet says -/

namespace Packet

def octet (pkt : Bytes) (offset : Nat) : UInt8 := pkt.getD offset 0

def version (pkt : Bytes) : Nat := (octet pkt 0).toNat / 16

def header_length (pkt : Bytes) : Nat := (octet pkt 0).toNat % 16 * 4

def total_length (pkt : Bytes) : Nat := (octet pkt 2).toNat * 256 + (octet pkt 3).toNat

def fragment_offset (pkt : Bytes) : Nat := (octet pkt 6).toNat % 32 * 256 + (octet pkt 7).toNat

def more_fragments (pkt : Bytes) : Bool := (octet pkt 6).toNat / 32 % 2 = 1

def protocol (pkt : Bytes) : UInt8 := octet pkt 9

def addr (pkt : Bytes) (offset : Nat) : InAddr :=
  ⟨octet pkt offset, octet pkt (offset + 1), octet pkt (offset + 2), octet pkt (offset + 3)⟩

def source (pkt : Bytes) : InAddr := addr pkt 12

def destination (pkt : Bytes) : InAddr := addr pkt 16

structure WellFormed (pkt : Bytes) : Prop where
  version : version pkt = 4
  least : 20 ≤ header_length pkt
  header : header_length pkt ≤ pkt.length
  length : total_length pkt = pkt.length

instance (pkt : Bytes) : Decidable (WellFormed pkt) :=
  decidable_of_iff (Packet.version pkt = 4 ∧ 20 ≤ header_length pkt ∧
      header_length pkt ≤ pkt.length ∧ total_length pkt = pkt.length)
    ⟨fun all => ⟨all.1, all.2.1, all.2.2.1, all.2.2.2⟩,
      fun all => ⟨all.1, all.2, all.3, all.4⟩⟩

/-- The packet carries a TCP or UDP header with the checksum at this offset in it. -/
def CarriesCheck (pkt : Bytes) (check : Nat) : Prop :=
  check_offset (protocol pkt) = some check ∧ fragment_offset pkt = 0 ∧
    header_length pkt + check + 2 ≤ pkt.length

def Unfragmented (pkt : Bytes) : Prop := fragment_offset pkt = 0 ∧ more_fragments pkt = false

/-- The bytes that may change: the checksum of the IP header, the addresses, and
the checksum of the transport header that the packet carries. -/
def MayChange (pkt : Bytes) (index : Nat) : Prop :=
  (10 ≤ index ∧ index < 20) ∨ ∃ check, CarriesCheck pkt check ∧
    (index = header_length pkt + check ∨ index = header_length pkt + check + 1)

structure Exact (target : InAddr) (pkt sent : Bytes) : Prop where
  length : sent.length = pkt.length
  source : source sent = destination pkt
  destination : destination sent = target
  unchanged : ∀ index, ¬ MayChange pkt index → sent[index]? = pkt[index]?
  valid : Unfragmented pkt → ∀ check, CarriesCheck pkt check → ∀ order,
    Verifies order (Packet.source sent) (Packet.destination sent) (protocol pkt)
      (sent.drop (header_length pkt))

/-- What is asked of a TCP or UDP packet whose checksum is laid at this offset
behind byte 20: the field is within the packet, and either the header has 20
bytes and the packet is a first fragment, or the bytes there happen to be right
already and the transport header's own checksum is. -/
def Rewritable (target : InAddr) (pkt : Bytes) (check : Nat) : Prop :=
  20 + check + 2 ≤ pkt.length ∧
    ((header_length pkt = 20 ∧ fragment_offset pkt = 0) ∨
      (Verifies .big (destination pkt) target (protocol pkt) (pkt.drop 20) ∧
        (pkt.drop (20 + check)).take 2 ≠ [255, 255] ∧
        (Unfragmented pkt → CarriesCheck pkt check →
          Verifies .big (destination pkt) target (protocol pkt) (pkt.drop (header_length pkt)))))

theorem check_offset_cases {ip_p : UInt8} {check : Nat} (known : check_offset ip_p = some check) :
    check % 2 = 0 ∧ 6 ≤ check ∧ ip_p ≠ 0 := by
  unfold check_offset IPPROTO_TCP IPPROTO_UDP at known
  split at known
  · rename_i tcp
    obtain rfl := Option.some.inj known
    exact ⟨rfl, by decide, by rw [tcp]; decide⟩
  · split at known
    · rename_i udp
      obtain rfl := Option.some.inj known
      exact ⟨rfl, by decide, by rw [udp]; decide⟩
    · cases known

section assembled

variable {lead ip_sum rest : Bytes} {ip_src ip_dst : InAddr}

theorem octet_assemble (ten : lead.length = 10) {index : Nat} (small : index < 10) :
    octet (assemble lead ip_sum ip_src ip_dst rest) index = octet lead index := by
  unfold octet
  rw [List.getD_eq_getElem?_getD, List.getD_eq_getElem?_getD, assemble_getElem_lead ten small]

theorem addr_of_addrAt {pkt : Bytes} {offset : Nat} {known : InAddr}
    (read : addrAt pkt offset = .ok known) : addr pkt offset = known := by
  unfold addrAt readAt at read
  by_cases within : offset + 4 ≤ pkt.length
  · rw [if_pos within] at read
    have bytes (count : Nat) (small : count < 4) :
        octet pkt (offset + count) = ((pkt.drop offset).take 4).getD count 0 := by
      unfold octet
      rw [List.getD_eq_getElem?_getD, List.getD_eq_getElem?_getD, List.getElem?_take,
        if_pos small, List.getElem?_drop]
    unfold addr
    rw [show offset = offset + 0 from rfl, bytes 0 (by omega), Nat.add_zero, bytes 1 (by omega),
      bytes 2 (by omega), bytes 3 (by omega)]
    split at read
    · rename_i first second third fourth same
      have taken := Except.ok.inj same
      rw [taken]
      exact Except.ok.inj read
    · cases read
  · rw [if_neg within] at read
    cases read

theorem source_assemble (ten : lead.length = 10) (two : ip_sum.length = 2) :
    source (assemble lead ip_sum ip_src ip_dst rest) = ip_src :=
  addr_of_addrAt (addrAt_source ten two)

theorem destination_assemble (ten : lead.length = 10) (two : ip_sum.length = 2) :
    destination (assemble lead ip_sum ip_src ip_dst rest) = ip_dst :=
  addr_of_addrAt (addrAt_destination ten two)

end assembled

theorem WellFormed.short {pkt : Bytes} (wellFormed : WellFormed pkt) : pkt.length < 2 ^ 16 := by
  have high := (octet pkt 2).toNat_lt
  have low := (octet pkt 3).toNat_lt
  rw [← wellFormed.length]
  unfold total_length
  omega

/-! ### Rewriting well-formed packets -/

section rewriting

variable {lead ip_sum rest : Bytes} {ip_src ip_dst : InAddr}

theorem exact_assemble (ten : lead.length = 10) (two : ip_sum.length = 2) (target : InAddr)
    {other : Bytes} (same : other.length = rest.length)
    (unchanged : ∀ index, ¬ MayChange (assemble lead ip_sum ip_src ip_dst rest) (20 + index) →
      other[index]? = rest[index]?)
    (valid : Unfragmented (assemble lead ip_sum ip_src ip_dst rest) → ∀ check,
      CarriesCheck (assemble lead ip_sum ip_src ip_dst rest) check → ∀ order,
      Verifies order ip_dst target (protocol (assemble lead ip_sum ip_src ip_dst rest))
        ((assemble lead [0, 0] ip_dst target other).drop
          (header_length (assemble lead ip_sum ip_src ip_dst rest)))) :
    Exact target (assemble lead ip_sum ip_src ip_dst rest)
      (assemble lead [0, 0] ip_dst target other) where
  length := by rw [assemble_length ten rfl, assemble_length ten two, same]
  source := by rw [source_assemble ten rfl, destination_assemble ten two]
  destination := destination_assemble ten rfl
  unchanged := by
    intro index fixed
    rcases Nat.lt_or_ge index 10 with early | late
    · rw [assemble_getElem_lead ten early, assemble_getElem_lead ten early]
    · rcases Nat.lt_or_ge index 20 with within | behind
      · exact absurd (Or.inl ⟨late, within⟩) fixed
      · obtain ⟨offset, rfl⟩ := Nat.exists_eq_add_of_le behind
        rw [assemble_getElem_rest ten rfl, assemble_getElem_rest ten two]
        exact unchanged offset fixed
  valid := by
    intro whole check carries order
    rw [source_assemble ten rfl, destination_assemble ten rfl]
    exact valid whole check carries order

private theorem byteAt_assemble (ten : lead.length = 10) {index : Nat} (small : index < 10)
    (other : Bytes) (from_addr to_addr : InAddr) (sum : Bytes) :
    byteAt (assemble lead sum from_addr to_addr other) index =
      .ok (octet (assemble lead ip_sum ip_src ip_dst rest) index) := by
  have known : lead[index]? = some (octet lead index) := by
    unfold octet
    rw [List.getD_eq_getElem?_getD, List.getElem?_eq_getElem (by omega)]
    rfl
  unfold byteAt
  rw [assemble_getElem_lead ten small, known, octet_assemble ten small]

theorem process_change_address (target : InAddr) (ten : lead.length = 10)
    (two : ip_sum.length = 2)
    (four : version (assemble lead ip_sum ip_src ip_dst rest) = 4) :
    change_address target (assemble lead ip_sum ip_src ip_dst rest) =
        .ok (assemble lead [0, 0] ip_dst target rest) ∧
      byteAt (assemble lead [0, 0] ip_dst target rest) 9 =
        .ok (protocol (assemble lead ip_sum ip_src ip_dst rest)) := by
  refine ⟨?_, byteAt_assemble ten (by omega) rest ip_dst target [0, 0]⟩
  have first : lead[0]? = some (octet lead 0) := by
    unfold octet
    rw [List.getD_eq_getElem?_getD, List.getElem?_eq_getElem (by omega)]
    rfl
  apply change_address_assemble ten two first
  unfold version at four
  rw [octet_assemble ten (by omega)] at four
  exact four

private theorem process_other (order : ByteOrder) (target : InAddr) (ten : lead.length = 10)
    (two : ip_sum.length = 2)
    (four : version (assemble lead ip_sum ip_src ip_dst rest) = 4)
    (other : check_offset (protocol (assemble lead ip_sum ip_src ip_dst rest)) = none) :
    process_packet_helper order target (assemble lead ip_sum ip_src ip_dst rest) =
      .ok (assemble lead [0, 0] ip_dst target rest) := by
  obtain ⟨changed, known⟩ := process_change_address target ten two four
  unfold process_packet_helper
  rw [changed]
  simp only
  rw [known]
  simp only [other]

theorem process_check (order : ByteOrder) (target : InAddr) (ten : lead.length = 10)
    (two : ip_sum.length = 2)
    (four : version (assemble lead ip_sum ip_src ip_dst rest) = 4) {check : Nat}
    (carried : check_offset (protocol (assemble lead ip_sum ip_src ip_dst rest)) = some check) :
    process_packet_helper order target (assemble lead ip_sum ip_src ip_dst rest) =
      change_check order (protocol (assemble lead ip_sum ip_src ip_dst rest)) check
        (assemble lead [0, 0] ip_dst target rest) := by
  obtain ⟨changed, known⟩ := process_change_address target ten two four
  unfold process_packet_helper
  rw [changed]
  simp only
  rw [known]
  simp only [carried]

private theorem change_check_outside (order : ByteOrder) (ip_p : UInt8) {check : Nat} {pkt : Bytes}
    (outside : pkt.length < 20 + check + 2) :
    change_check order ip_p check pkt = .error .outOfBounds := by
  have write : writeAt pkt (20 + check) [0, 0] = .error .outOfBounds := by
    unfold writeAt
    rw [if_neg]
    simp only [List.length_cons, List.length_nil]
    omega
  unfold change_check
  rw [write]

end rewriting

theorem exists_field {rest : Bytes} {check : Nat} (within : check + 2 ≤ rest.length) :
    ∃ front first second back, front.length = check ∧
      rest = front ++ [first, second] ++ back := by
  have pair : ((rest.drop check).take 2).length = 2 := by
    rw [List.length_take, List.length_drop]
    omega
  obtain ⟨first, second, field⟩ := List.length_eq_two.mp pair
  refine ⟨rest.take check, first, second, rest.drop (check + 2), ?_, ?_⟩
  · rw [List.length_take]
    omega
  · rw [← field, List.append_assoc, ← List.drop_drop, List.take_append_drop, List.take_append_drop]

private theorem getElem_replaced (front old new back : Bytes) (same : new.length = old.length)
    {index : Nat} (outside : index < front.length ∨ front.length + old.length ≤ index) :
    (front ++ new ++ back)[index]? = (front ++ old ++ back)[index]? := by
  rcases outside with before | after
  · rw [List.append_assoc, List.append_assoc, List.getElem?_append_left before,
      List.getElem?_append_left before]
  · have first : (front ++ new).length ≤ index := by
      rw [List.length_append]
      omega
    have second : (front ++ old).length ≤ index := by
      rw [List.length_append]
      omega
    rw [List.getElem?_append_right first, List.getElem?_append_right second, List.length_append,
      List.length_append, same]

private theorem getElem_field (front back : Bytes) (first second : UInt8) :
    (front ++ [first, second] ++ back)[front.length]? = some first ∧
      (front ++ [first, second] ++ back)[front.length + 1]? = some second := by
  have split : front ++ [first, second] ++ back = front ++ first :: second :: back := by
    rw [List.append_assoc]
    rfl
  rw [split, List.getElem?_append_right (Nat.le_refl _), List.getElem?_append_right (by omega),
    Nat.sub_self, Nat.add_sub_cancel_left]
  exact ⟨rfl, rfl⟩

/-- A header longer than 20 bytes does not have its checksum where the code puts one. -/
theorem field_not_mayChange {pkt : Bytes} {check : Nat}
    (least : 20 ≤ header_length pkt) (known : check_offset (protocol pkt) = some check)
    (moved : ¬ (header_length pkt = 20 ∧ fragment_offset pkt = 0)) :
    ¬ MayChange pkt (20 + check) ∧ ¬ MayChange pkt (20 + check + 1) := by
  have words : header_length pkt % 4 = 0 := by
    unfold header_length
    omega
  have other : ∀ offset, offset ≤ 1 → ¬ MayChange pkt (20 + check + offset) := by
    intro offset small may
    rcases may with within | own
    · omega
    · obtain ⟨check', carries, place⟩ := own
      obtain rfl := Option.some.inj (known.symm.trans carries.1)
      have longer : header_length pkt ≠ 20 := fun same => moved ⟨same, carries.2.1⟩
      omega
  exact ⟨other 0 (by omega), other 1 (by omega)⟩

section field

variable {lead ip_sum front back : Bytes} {ip_src ip_dst : InAddr} {first second : UInt8}

theorem process_field (order : ByteOrder) (target : InAddr) (ten : lead.length = 10)
    (two : ip_sum.length = 2)
    (wellFormed : WellFormed (assemble lead ip_sum ip_src ip_dst (front ++ [first, second] ++ back)))
    (carried : check_offset (protocol
      (assemble lead ip_sum ip_src ip_dst (front ++ [first, second] ++ back))) =
        some front.length) :
    process_packet_helper order target
        (assemble lead ip_sum ip_src ip_dst (front ++ [first, second] ++ back)) =
      .ok (assemble lead [0, 0] ip_dst target (front ++ order.store (complement
        (segment_sum order ip_dst target (protocol
          (assemble lead ip_sum ip_src ip_dst (front ++ [first, second] ++ back)))
          (front ++ [0, 0] ++ back))) ++ back)) := by
  have short := wellFormed.short
  rw [assemble_length ten two] at short
  rw [process_check order target ten two wellFormed.version carried]
  exact change_check_assemble order ten rfl _ front [first, second] back rfl (by omega)

/-- The stored checksum is what was there, exactly where the segment verified already. -/
theorem stored_iff (order : ByteOrder) (target : InAddr) {ip_p : UInt8}
    (carried : check_offset ip_p = some front.length) :
    order.store (complement (segment_sum order ip_dst target ip_p (front ++ [0, 0] ++ back))) =
        [first, second] ↔
      Verifies .big ip_dst target ip_p (front ++ [first, second] ++ back) ∧
        [first, second] ≠ [255, 255] := by
  obtain ⟨even, _behind, known⟩ := check_offset_cases carried
  rw [store_eq_iff_verifies order front back even first second ip_dst target known,
    verifies_congr order .big]

private theorem exact_of_rewritable (order : ByteOrder) (target : InAddr) (ten : lead.length = 10)
    (two : ip_sum.length = 2)
    (wellFormed : WellFormed (assemble lead ip_sum ip_src ip_dst (front ++ [first, second] ++ back)))
    (carried : check_offset (protocol
      (assemble lead ip_sum ip_src ip_dst (front ++ [first, second] ++ back))) =
        some front.length)
    (rewritable : Rewritable target
      (assemble lead ip_sum ip_src ip_dst (front ++ [first, second] ++ back)) front.length) :
    Exact target (assemble lead ip_sum ip_src ip_dst (front ++ [first, second] ++ back))
      (assemble lead [0, 0] ip_dst target (front ++ order.store (complement
        (segment_sum order ip_dst target (protocol
          (assemble lead ip_sum ip_src ip_dst (front ++ [first, second] ++ back)))
          (front ++ [0, 0] ++ back))) ++ back)) := by
  obtain ⟨even, _behind, _known⟩ := check_offset_cases carried
  obtain ⟨within, condition⟩ := rewritable
  rcases condition with ⟨plain, whole⟩ | ⟨right, partly, own⟩
  · -- The field belongs to the header of the packet.
    apply exact_assemble ten two target
    · simp only [List.length_append, ByteOrder.store_length, List.length_cons, List.length_nil]
    · intro index fixed
      apply getElem_replaced front [first, second] _ back (ByteOrder.store_length _ _)
      by_contra inside
      have range : index = front.length ∨ index = front.length + 1 := by
        simp only [List.length_cons, List.length_nil] at inside
        omega
      apply fixed
      refine Or.inr ⟨front.length, ⟨carried, whole, by omega⟩, ?_⟩
      rw [plain]
      omega
    · intro _unfragmented check carries other
      rw [plain]
      rw [← Nat.add_zero 20, assemble_drop ten rfl, List.drop_zero]
      exact verifies_store order front back even ip_dst target _ other
  · -- The bytes that are overwritten were right already.
    rw [destination_assemble ten two] at right own
    rw [assemble_field ten two] at partly
    rw [assemble_payload ten two] at right
    rw [(stored_iff order target carried).mpr ⟨right, partly⟩]
    apply exact_assemble ten two target rfl
    · intro index _fixed
      rfl
    · intro unfragmented check carries other
      obtain rfl := Option.some.inj (carried.symm.trans carries.1)
      have verified := own unfragmented carries
      obtain ⟨options, longer⟩ := Nat.exists_eq_add_of_le wellFormed.least
      rw [longer, assemble_drop ten two] at verified
      rw [longer, assemble_drop ten rfl]
      exact (verifies_congr .big other _ _ _ _).mp verified

private theorem rewritable_of_exact (order : ByteOrder) (target : InAddr) (ten : lead.length = 10)
    (two : ip_sum.length = 2)
    (wellFormed : WellFormed (assemble lead ip_sum ip_src ip_dst (front ++ [first, second] ++ back)))
    (carried : check_offset (protocol
      (assemble lead ip_sum ip_src ip_dst (front ++ [first, second] ++ back))) =
        some front.length)
    (exact : Exact target (assemble lead ip_sum ip_src ip_dst (front ++ [first, second] ++ back))
      (assemble lead [0, 0] ip_dst target (front ++ order.store (complement
        (segment_sum order ip_dst target (protocol
          (assemble lead ip_sum ip_src ip_dst (front ++ [first, second] ++ back)))
          (front ++ [0, 0] ++ back))) ++ back))) :
    Rewritable target
      (assemble lead ip_sum ip_src ip_dst (front ++ [first, second] ++ back)) front.length := by
  have within : 20 + front.length + 2 ≤
      (assemble lead ip_sum ip_src ip_dst (front ++ [first, second] ++ back)).length := by
    rw [assemble_length ten two]
    simp only [List.length_append, List.length_cons, List.length_nil]
    omega
  refine ⟨within, ?_⟩
  by_cases plain :
      header_length (assemble lead ip_sum ip_src ip_dst (front ++ [first, second] ++ back)) = 20 ∧
        fragment_offset (assemble lead ip_sum ip_src ip_dst (front ++ [first, second] ++ back)) = 0
  · exact Or.inl plain
  · right
    obtain ⟨fixed, fixed'⟩ := field_not_mayChange wellFormed.least carried plain
    have kept := exact.unchanged _ fixed
    have kept' := exact.unchanged _ fixed'
    rw [assemble_getElem_rest ten rfl, assemble_getElem_rest ten two] at kept
    rw [Nat.add_assoc, assemble_getElem_rest ten rfl, assemble_getElem_rest ten two] at kept'
    obtain ⟨low, high, stored, _loaded⟩ := order.store_eq
      (show complement (segment_sum order ip_dst target (protocol
        (assemble lead ip_sum ip_src ip_dst (front ++ [first, second] ++ back)))
          (front ++ [0, 0] ++ back)) < 65536 by unfold complement ones; omega)
    rw [stored] at kept kept'
    have same : [low, high] = [first, second] := by
      rw [(getElem_field front back low high).1, (getElem_field front back first second).1] at kept
      rw [(getElem_field front back low high).2, (getElem_field front back first second).2] at kept'
      rw [Option.some.inj kept, Option.some.inj kept']
    rw [same] at stored
    obtain ⟨right, partly⟩ := (stored_iff order target carried).mp stored
    rw [destination_assemble ten two]
    refine ⟨?_, ?_, ?_⟩
    · rw [assemble_payload ten two]
      exact right
    · rw [assemble_field ten two]
      exact partly
    · intro unfragmented carries
      have verified := exact.valid unfragmented _ carries .big
      obtain ⟨options, longer⟩ := Nat.exists_eq_add_of_le wellFormed.least
      rw [source_assemble ten rfl, destination_assemble ten rfl, longer, assemble_drop ten rfl,
        stored] at verified
      rw [longer, assemble_drop ten two]
      exact verified

end field

theorem rewritable_of_process {order : ByteOrder} {target : InAddr} {pkt sent : Bytes}
    (wellFormed : WellFormed pkt) (sends : process_packet_helper order target pkt = .ok sent)
    (exact : Exact target pkt sent) {check : Nat}
    (carried : check_offset (protocol pkt) = some check) : Rewritable target pkt check := by
  obtain ⟨lead, ip_sum, ip_src, ip_dst, rest, ten, two, rfl⟩ :=
    exists_assemble (Nat.le_trans wellFormed.least wellFormed.header)
  by_cases within : check + 2 ≤ rest.length
  · obtain ⟨front, first, second, back, rfl, rfl⟩ := exists_field within
    have sent_is := process_field order target ten two wellFormed carried
    obtain rfl := Except.ok.inj (sent_is.symm.trans sends)
    exact rewritable_of_exact order target ten two wellFormed carried exact
  · rw [process_check order target ten two wellFormed.version carried,
      change_check_outside] at sends
    · cases sends
    · rw [assemble_length ten rfl]
      omega

theorem process_of_rewritable (order : ByteOrder) {target : InAddr} {pkt : Bytes}
    (wellFormed : WellFormed pkt)
    (rewritable : ∀ check, check_offset (protocol pkt) = some check →
      Rewritable target pkt check) :
    ∃ sent, process_packet_helper order target pkt = .ok sent ∧ Exact target pkt sent := by
  obtain ⟨lead, ip_sum, ip_src, ip_dst, rest, ten, two, rfl⟩ :=
    exists_assemble (Nat.le_trans wellFormed.least wellFormed.header)
  cases carried : check_offset (protocol (assemble lead ip_sum ip_src ip_dst rest)) with
  | none =>
      refine ⟨_, process_other order target ten two wellFormed.version carried, ?_⟩
      apply exact_assemble ten two target rfl
      · intro index _fixed
        rfl
      · intro _unfragmented check carries
        have impossible := carried.symm.trans carries.1
        cases impossible
  | some check =>
      have possible := rewritable check carried
      have within : check + 2 ≤ rest.length := by
        have inside := possible.1
        rw [assemble_length ten two] at inside
        omega
      obtain ⟨front, first, second, back, rfl, rfl⟩ := exists_field within
      exact ⟨_, process_field order target ten two wellFormed carried,
        exact_of_rewritable order target ten two wellFormed carried possible⟩

/-- What the proxy sends for a well-formed packet is exact in just these cases:
the packet is neither TCP nor UDP; or the field that is overwritten is within it
and belongs to the header of a first fragment behind a header of 20 bytes; or
the overwritten bytes, and the checksum of the header that is elsewhere, happen
to be right for the new addresses already. -/
theorem process_packet_exact_iff (order : ByteOrder) (target : InAddr) {pkt : Bytes}
    (wellFormed : WellFormed pkt) :
    (∃ sent, process_packet_helper order target pkt = .ok sent ∧ Exact target pkt sent) ↔
      ∀ check, check_offset (protocol pkt) = some check → Rewritable target pkt check := by
  constructor
  · intro exactly check carried
    obtain ⟨sent, sends, exact⟩ := exactly
    exact rewritable_of_process wellFormed sends exact carried
  · intro rewritable
    exact process_of_rewritable order wellFormed rewritable

def plain_query : Bytes :=
  [69, 0, 0, 32, 0, 1, 0, 0, 64, 17, 0, 0, 10, 0, 0, 2, 192, 0, 2, 1] ++
    [48, 57, 0, 53, 0, 12, 171, 205, 1, 2, 3, 4]

def query_with_options : Bytes :=
  [70, 0, 0, 36, 0, 1, 0, 0, 64, 17, 0, 0, 10, 0, 0, 2, 192, 0, 2, 1] ++ [148, 4, 0, 0] ++
    [48, 57, 0, 53, 0, 12, 171, 205, 1, 2, 3, 4]

def last_fragment : Bytes :=
  [69, 0, 0, 32, 0, 1, 0, 185, 64, 17, 0, 0, 10, 0, 0, 2, 192, 0, 2, 1] ++
    [1, 2, 3, 4, 5, 6, 7, 8, 9, 10, 11, 12]

theorem process_packet_exact_plain :
    WellFormed plain_query ∧
      ∃ sent, process_packet_helper .little ⟨10, 0, 0, 9⟩ plain_query = .ok sent ∧
        Exact ⟨10, 0, 0, 9⟩ plain_query sent := by
  have wellFormed : WellFormed plain_query := by decide
  refine ⟨wellFormed, (process_packet_exact_iff .little ⟨10, 0, 0, 9⟩ wellFormed).mpr ?_⟩
  intro check carried
  obtain rfl : 6 = check := Option.some.inj carried
  exact ⟨by decide, Or.inl ⟨by decide, by decide⟩⟩

/-- Neither a packet with options nor a later fragment is sent exactly: bytes of the
UDP header, or of the payload, are overwritten with a checksum. -/
theorem options_and_fragment_clobbered :
    WellFormed query_with_options ∧ WellFormed last_fragment ∧
      (¬ ∃ sent, process_packet_helper .little ⟨10, 0, 0, 9⟩ query_with_options = .ok sent ∧
        Exact ⟨10, 0, 0, 9⟩ query_with_options sent) ∧
      ¬ ∃ sent, process_packet_helper .little ⟨10, 0, 0, 9⟩ last_fragment = .ok sent ∧
        Exact ⟨10, 0, 0, 9⟩ last_fragment sent := by
  have options : WellFormed query_with_options := by decide
  have fragment : WellFormed last_fragment := by decide
  refine ⟨options, fragment, ?_, ?_⟩
  · intro exactly
    obtain ⟨sent, sends, exact⟩ := exactly
    have carried : check_offset (protocol query_with_options) = some 6 := by decide
    obtain ⟨_within, plain | overwritten⟩ := rewritable_of_process options sends exact carried
    · exact absurd plain.1 (by decide)
    · exact absurd overwritten.1 (by decide)
  · intro exactly
    obtain ⟨sent, sends, exact⟩ := exactly
    have carried : check_offset (protocol last_fragment) = some 6 := by decide
    obtain ⟨_within, plain | overwritten⟩ := rewritable_of_process fragment sends exact carried
    · exact absurd plain.2 (by decide)
    · exact absurd overwritten.1 (by decide)

end Packet

end LDPlayer
