/-
Changing a packet: the header and EDNS options of dns_util.cc.

Options are single bits of a word.  A header option changes the wire form in
place; the EDNS options are collected and applied to the packet that ldns
parses.  The macros of ldns for the flags are a parameter, as are its parser
and its printer.
-/
import LDPlayer.Foundation.HashTable
import LDPlayer.Message

set_option autoImplicit false

namespace LDPlayer

namespace Mutator

def DNS_OPCODE : UInt32 := 0x1
def DNS_AA : UInt32 := 0x2
def DNS_TC : UInt32 := 0x4
def DNS_RD : UInt32 := 0x8
def DNS_RA : UInt32 := 0x10
def DNS_Z : UInt32 := 0x20
def DNS_AD : UInt32 := 0x40
def DNS_CD : UInt32 := 0x80
def EDNS_DO : UInt32 := 0x100
def EDNS_UDP_SIZE : UInt32 := 0x200
def EDNS_EXTENDED_RCODE : UInt32 := 0x400
def EDNS_VERSION : UInt32 := 0x800
def EDNS_Z : UInt32 := 0x1000

/-- One bit, within bounds. -/
def valid_option (a down up : UInt32) : Bool := a ≥ down && a ≤ up && a &&& (a - 1) == 0

abbrev Options : Type := HashTable UInt32 UInt32

abbrev Opt : Type := Sigma fun _ : UInt32 => UInt32

/-! ### The header -/

inductive Flag where
  | aa
  | tc
  | rd
  | ra
  | z
  | ad
  | cd
  deriving DecidableEq, Repr

def Flag.part : Flag → UInt32
  | .aa => DNS_AA
  | .tc => DNS_TC
  | .rd => DNS_RD
  | .ra => DNS_RA
  | .z => DNS_Z
  | .ad => DNS_AD
  | .cd => DNS_CD

/-- The byte and the bit of every flag in the macros of ldns: below the opcode in
the third byte, above the response code in the fourth. -/
structure HeaderBits where
  place : Flag → Nat × Nat
  within : ∀ flag, (place flag).1 = 2 ∧ (place flag).2 < 3 ∨
    (place flag).1 = 3 ∧ 4 ≤ (place flag).2 ∧ (place flag).2 < 8
  apart : Function.Injective place

def write (buf : Bytes) (i : Nat) (change : UInt8 → UInt8) : Except Fault Bytes :=
  if i < buf.length then .ok (buf.modify i change) else .error .outOfBounds

/-- The value is shifted as a word and cut to the byte with what it is or-ed to. -/
def opcode_byte (val : UInt32) (byte : UInt8) : UInt8 :=
  ((byte.toUInt32 &&& ~~~(0x78 : UInt32)) ||| (val <<< 3)).toUInt8

def LDNS_OPCODE_SET (buf : Bytes) (val : UInt32) : Except Fault Bytes :=
  write buf 2 (opcode_byte val)

def mask (bit : Nat) : UInt8 := UInt8.ofNat (2 ^ bit)

/-- The value zero clears the flag, every other one sets it. -/
def flag_byte (bit : Nat) (val : UInt32) (byte : UInt8) : UInt8 :=
  if val = 0 then byte &&& ~~~mask bit else byte ||| mask bit

def LDNS_FLAG (bits : HeaderBits) (flag : Flag) (buf : Bytes) (val : UInt32) :
    Except Fault Bytes :=
  write buf (bits.place flag).1 (flag_byte (bits.place flag).2 val)

def change_dns_pkt_header (bits : HeaderBits) (buf : Bytes) (part val : UInt32) :
    Except Fault (Bool × Bytes) :=
  if part = DNS_OPCODE then (LDNS_OPCODE_SET buf val).map (Prod.mk true)
  else if part = DNS_AA then (LDNS_FLAG bits .aa buf val).map (Prod.mk true)
  else if part = DNS_TC then (LDNS_FLAG bits .tc buf val).map (Prod.mk true)
  else if part = DNS_RD then (LDNS_FLAG bits .rd buf val).map (Prod.mk true)
  else if part = DNS_RA then (LDNS_FLAG bits .ra buf val).map (Prod.mk true)
  else if part = DNS_Z then (LDNS_FLAG bits .z buf val).map (Prod.mk true)
  else if part = DNS_AD then (LDNS_FLAG bits .ad buf val).map (Prod.mk true)
  else if part = DNS_CD then (LDNS_FLAG bits .cd buf val).map (Prod.mk true)
  else .ok (false, buf)

/-! ### The EDNS part -/

/-- A packet as ldns keeps it: the EDNS fields, and what the program does not touch. -/
structure LdnsPkt (Rest : Type) where
  edns_do : Bool
  edns_udp_size : UInt16
  edns_extended_rcode : UInt8
  edns_version : UInt8
  edns_z : UInt16
  edns_data : Option Bytes
  rest : Rest
  deriving DecidableEq, Repr

variable {Rest : Type}

def change_dns_pkt_edns (pkt : LdnsPkt Rest) (part val : UInt32) : Bool × LdnsPkt Rest :=
  if part = EDNS_DO then
    if val > 0 then (true, { pkt with edns_do := true })
    else
      -- all of EDNS is unset
      (true,
        { pkt with
          edns_do := false
          edns_udp_size := 0
          edns_extended_rcode := 0
          edns_version := 0
          edns_z := 0
          edns_data := none })
  else if part = EDNS_UDP_SIZE then (true, { pkt with edns_udp_size := val.toUInt16 })
  else if part = EDNS_EXTENDED_RCODE then
    (true, { pkt with edns_extended_rcode := val.toUInt8 })
  else if part = EDNS_VERSION then (true, { pkt with edns_version := val.toUInt8 })
  else if part = EDNS_Z then (true, { pkt with edns_z := val.toUInt16 })
  else (false, pkt)

/-- What is called of ldns: the flag macros, and the conversions from and to the
wire form, each with the text of its error. -/
structure Ldns (Rest : Type) where
  bits : HeaderBits
  wire2pkt : Bytes → Except String (LdnsPkt Rest)
  pkt2wire : LdnsPkt Rest → Except String Bytes

/-! ### The packet -/

structure Changed where
  buf : Bytes
  edns_opt : Options
  header_ok : Bool

/-- The body of the first loop; an EDNS option is kept for the second one. -/
def change_opt (bits : HeaderBits) (c : Changed) (o : Opt) :
    Except Fault Changed :=
  if valid_option o.1 EDNS_DO EDNS_Z then
    .ok { c with edns_opt := c.edns_opt.insert o.1 o.2 }
  else if valid_option o.1 DNS_OPCODE DNS_CD then
    if c.header_ok then
      (change_dns_pkt_header bits c.buf o.1 o.2).map
        (fun header => { c with header_ok := header.1, buf := header.2 })
    else .ok c
  else .ok c

def change_edns_opt (edns : Bool × LdnsPkt Rest) (o : Opt) :
    Bool × LdnsPkt Rest :=
  if edns.1 then change_dns_pkt_edns edns.2 o.1 o.2 else edns

def change_dns_pkt (ldns : Ldns Rest) (opt_order edns_order : HashTable.Order UInt32 UInt32)
    (raw_old : Bytes) (opt : Options) : Except Fault (Bool × Option Bytes) :=
  if raw_old = [] then .error (.assertion "raw_old_sz > 0")
  else
    match (opt_order.through opt).foldlM (change_opt ldns.bits)
        { buf := raw_old, edns_opt := ∅, header_ok := true } with
    | .error fault => .error fault
    | .ok changed =>
        if changed.edns_opt.size = 0 then .ok (changed.header_ok, some changed.buf)
        else
          match ldns.wire2pkt changed.buf with
          | .error s => .error (.exit ("cannot parse packet:" ++ s))
          | .ok pkt =>
              let edns := (edns_order.through changed.edns_opt).foldl change_edns_opt (true, pkt)
              match ldns.pkt2wire edns.2 with
              | .error _ => .ok (false, none)
              | .ok raw => .ok (changed.header_ok && edns.1, some raw)

end Mutator

end LDPlayer
