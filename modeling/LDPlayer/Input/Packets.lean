/-
Captured packets: what process_packet makes of a packet of a trace.

libtrace, which finds the headers of a packet, is a parameter.  A pointer with
the number of bytes left behind it is the list of these bytes.  The two classes
have the same function.
-/
import LDPlayer.Input.TextLine

set_option autoImplicit false

namespace LDPlayer

open Text

def TRACE_ETHERTYPE_IP : Nat := 0x0800
def TRACE_ETHERTYPE_IPV6 : Nat := 0x86DD
def TRACE_IPPROTO_TCP : Nat := 6
def TRACE_IPPROTO_UDP : Nat := 17

def INET_ADDRSTRLEN : Nat := 16
def INET6_ADDRSTRLEN : Nat := 46

/-- What the library tells about a packet, and about the headers in it: the
ethertype or the protocol, and the bytes behind, unless there are none to point
to. -/
structure Libtrace (Packet : Type) where
  trace_get_layer3 : Packet → Nat × Option Bytes
  trace_get_source_port : Packet → Nat
  trace_get_destination_port : Packet → Nat
  trace_get_payload_from_ip : Bytes → Nat × Option Bytes
  trace_get_payload_from_ip6 : Bytes → Nat × Option Bytes
  trace_get_payload_from_udp : Bytes → Option Bytes
  trace_get_payload_from_tcp : Bytes → Option Bytes
  trace_get_timeval : Packet → Timeval
  trace_get_source_address_string : Packet → Nat → Option Bytes
  trace_get_destination_address_string : Packet → Nat → Option Bytes

section packets

variable {Packet : Type} (trace : Libtrace Packet)

/-- The protocol behind the network header, what is there, and how long an
address is as text. -/
def ip_payload (ethertype : Nat) (cp : Bytes) : Option (Nat × Bytes × Nat) :=
  if ethertype = TRACE_ETHERTYPE_IP then
    let (proto, cp) := trace.trace_get_payload_from_ip cp
    cp.map (fun cp => (proto, cp, INET_ADDRSTRLEN))
  else if ethertype = TRACE_ETHERTYPE_IPV6 then
    let (proto, cp) := trace.trace_get_payload_from_ip6 cp
    cp.map (fun cp => (proto, cp, INET6_ADDRSTRLEN))
  else none

/-- The bytes that are passed over in front of the message, and what is behind
the transport header. -/
def transport_payload (proto : Nat) (cp : Bytes) : Option (Nat × Bytes) :=
  if proto = TRACE_IPPROTO_UDP then
    if cp.length < 8 then none
    else (trace.trace_get_payload_from_udp cp).map (fun cp => (0, cp))
  else if proto = TRACE_IPPROTO_TCP then
    if cp.length < 20 then none
    else (trace.trace_get_payload_from_tcp cp).map (fun cp => (2, cp))
  else none

def query_message (packet : Packet) (ethertype proto addr_len : Nat) (dns_payload : Bytes) :
    DNSMsg :=
  let ts := trace.trace_get_timeval packet
  let msg : DNSMsg :=
    { seconds? := some ts.tv_sec
      microseconds? := some ts.tv_usec
      tcp? := some (proto = TRACE_IPPROTO_TCP)
      ipv4? := some (ethertype = TRACE_ETHERTYPE_IP) }
  match trace.trace_get_source_address_string packet addr_len with
  | none => msg
  | some src_ip =>
      let msg := { msg with src_ip? := some (cString src_ip) }
      match trace.trace_get_destination_address_string packet addr_len with
      | none => msg
      | some dst_ip =>
          { msg with
            dst_ip? := some (cString dst_ip)
            raw? := some dns_payload }

/-- A packet that is no query over UDP or TCP gives an empty message. -/
def process_packet (packet : Packet) : DNSMsg :=
  match trace.trace_get_layer3 packet with
  | (_, none) => {}
  | (ethertype, some cp) =>
      if cp.length = 0 then {}
      else if trace.trace_get_destination_port packet ≠ 53 ∧
          trace.trace_get_source_port packet ≠ 53 then {}
      else
        match ip_payload trace ethertype cp with
        | none => {}
        | some (proto, cp, addr_len) =>
            if cp.length = 0 then {}
            else
              match transport_payload trace proto cp with
              | none => {}
              | some (left_limit, cp) =>
                  if cp.length ≤ left_limit + 12 then {}
                  else if is_query (cp.drop left_limit) then
                    query_message trace packet ethertype proto addr_len (cp.drop left_limit)
                  else {}

def InputSource.process_packet (packet : Packet) : DNSMsg := LDPlayer.process_packet trace packet

def InputStream.process_packet (packet : Packet) : DNSMsg := LDPlayer.process_packet trace packet

def InputClass.process_packet : InputClass → Packet → DNSMsg
  | .inputSource => InputSource.process_packet trace
  | .inputStream => InputStream.process_packet trace

theorem InputClass.process_packet_eq (input : InputClass) (packet : Packet) :
    input.process_packet trace packet = LDPlayer.process_packet trace packet := by
  cases input <;> rfl

def Carries (packet : Packet) (proto left_limit : Nat) (payload : Bytes) : Prop :=
  ∃ ethertype cp segment addr_len,
    trace.trace_get_layer3 packet = (ethertype, some cp) ∧ cp ≠ [] ∧
      ip_payload trace ethertype cp = some (proto, segment, addr_len) ∧
      transport_payload trace proto segment = some (left_limit, payload)

private theorem query_message_cases (packet : Packet) (ethertype proto addr_len : Nat)
    (dns_payload : Bytes) :
    (query_message trace packet ethertype proto addr_len dns_payload).raw = [] ∨
      (query_message trace packet ethertype proto addr_len dns_payload).raw = dns_payload ∧
        (query_message trace packet ethertype proto addr_len dns_payload).IsInitialized := by
  unfold query_message
  cases trace.trace_get_source_address_string packet addr_len with
  | none => exact Or.inl rfl
  | some src_ip =>
      cases trace.trace_get_destination_address_string packet addr_len with
      | none => exact Or.inl rfl
      | some dst_ip => exact Or.inr ⟨rfl, rfl, rfl, rfl, rfl, rfl, rfl⟩

/-- A message that is not empty has all its fields, and its bytes are those
behind the part that is passed over, which is more than a header. -/
theorem process_packet_cases (packet : Packet) :
    (process_packet trace packet).raw = [] ∨
      (process_packet trace packet).IsInitialized ∧
        ∃ proto left_limit payload, Carries trace packet proto left_limit payload ∧
          left_limit + 12 < payload.length ∧
          (process_packet trace packet).raw = payload.drop left_limit := by
  unfold process_packet
  split
  · exact Or.inl rfl
  · rename_i ethertype cp layer3
    split
    · exact Or.inl rfl
    rename_i some
    split
    · exact Or.inl rfl
    split
    · exact Or.inl rfl
    · rename_i proto segment addr_len network
      split
      · exact Or.inl rfl
      split
      · exact Or.inl rfl
      · rename_i left_limit payload transport
        split
        · exact Or.inl rfl
        · rename_i long
          split
          · rcases query_message_cases trace packet ethertype proto addr_len
                (payload.drop left_limit) with empty | ⟨raw, complete⟩
            · exact Or.inl empty
            · exact Or.inr ⟨complete, proto, left_limit, payload,
                ⟨ethertype, cp, segment, addr_len, layer3,
                  fun none => some (List.length_eq_zero_iff.mpr none), network, transport⟩,
                Nat.not_le.mp long, raw⟩
          · exact Or.inl rfl

variable {trace}

theorem Carries.unique {packet : Packet} {proto other left_limit limit : Nat}
    {payload behind : Bytes} (first : Carries trace packet proto left_limit payload)
    (second : Carries trace packet other limit behind) :
    proto = other ∧ left_limit = limit ∧ payload = behind := by
  obtain ⟨ethertype, cp, segment, addr_len, layer3, _some, network, transport⟩ := first
  obtain ⟨ethertype', cp', segment', addr_len', layer3', _some', network', transport'⟩ := second
  obtain ⟨rfl, same⟩ := Prod.mk.inj (layer3.symm.trans layer3')
  obtain rfl := Option.some.inj same
  obtain ⟨rfl, rest⟩ := Prod.mk.inj (Option.some.inj (network.symm.trans network'))
  obtain ⟨rfl, _⟩ := Prod.mk.inj rest
  obtain ⟨rfl, rfl⟩ := Prod.mk.inj (Option.some.inj (transport.symm.trans transport'))
  exact ⟨rfl, rfl, rfl⟩

structure Addressed (trace : Libtrace Packet) (packet : Packet) : Prop where
  port : trace.trace_get_destination_port packet = 53 ∨ trace.trace_get_source_port packet = 53
  source : ∀ addr_len, (trace.trace_get_source_address_string packet addr_len).isSome
  destination : ∀ addr_len, (trace.trace_get_destination_address_string packet addr_len).isSome

/-- The message of such a packet holds what is behind the part passed over, if
that is a query. -/
theorem process_packet_raw {packet : Packet} {proto left_limit : Nat} {payload : Bytes}
    (carries : Carries trace packet proto left_limit payload) (addressed : Addressed trace packet) :
    (process_packet trace packet).raw =
      if left_limit + 12 < payload.length ∧ is_query (payload.drop left_limit) = true then
        payload.drop left_limit
      else [] := by
  obtain ⟨ethertype, cp, segment, addr_len, layer3, some, network, transport⟩ := carries
  have segmentSome : segment ≠ [] := by
    intro none
    subst none
    unfold transport_payload at transport
    split at transport
    · cases transport
    · split at transport
      · cases transport
      · cases transport
  have port : ¬ (trace.trace_get_destination_port packet ≠ 53 ∧
      trace.trace_get_source_port packet ≠ 53) := by
    intro neither
    exact addressed.port.elim neither.1 neither.2
  have filled : (query_message trace packet ethertype proto addr_len
      (payload.drop left_limit)).raw = payload.drop left_limit := by
    obtain ⟨source, sourceIs⟩ := Option.isSome_iff_exists.mp (addressed.source addr_len)
    obtain ⟨destination, destinationIs⟩ :=
      Option.isSome_iff_exists.mp (addressed.destination addr_len)
    unfold query_message
    rw [sourceIs, destinationIs]
    rfl
  unfold process_packet
  rw [layer3]
  simp only [List.length_eq_zero_iff, some, segmentSome, if_false, if_neg port, network, transport]
  by_cases long : left_limit + 12 < payload.length
  · rw [if_neg (Nat.not_le.mpr long)]
    by_cases query : is_query (payload.drop left_limit) = true
    · rw [if_pos query, if_pos ⟨long, query⟩, filled]
    · rw [if_neg query, if_neg (fun both => query both.2)]
      rfl
  · rw [if_pos (Nat.not_lt.mp long), if_neg (fun both => long both.1)]
    rfl

end packets

def ipv4_trace : Libtrace Bytes :=
  let header (packet : Bytes) : Nat := 4 * ((packet.getD 0 0).toNat % 16)
  let address (packet : Bytes) (offset : Nat) : Bytes :=
    join [46] (((packet.drop offset).take 4).map (fun byte => decimal byte.toNat))
  { trace_get_layer3 := fun packet => (TRACE_ETHERTYPE_IP, some packet)
    trace_get_source_port := fun packet => get_id (packet.drop (header packet))
    trace_get_destination_port := fun packet => get_id (packet.drop (header packet + 2))
    trace_get_payload_from_ip := fun cp => ((cp.getD 9 0).toNat, some (cp.drop (header cp)))
    trace_get_payload_from_ip6 := fun _ => (0, none)
    trace_get_payload_from_udp := fun cp => some (cp.drop 8)
    trace_get_payload_from_tcp := fun cp => some (cp.drop (4 * ((cp.getD 12 0).toNat / 16)))
    trace_get_timeval := fun _ => { tv_sec := 1, tv_usec := 0 }
    trace_get_source_address_string := fun packet _ => some (address packet 12)
    trace_get_destination_address_string := fun packet _ => some (address packet 16) }

end LDPlayer
