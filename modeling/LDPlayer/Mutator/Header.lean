/-
The header options of a mutation.

Each option has a say on some bits of one byte, and no two on the same bit.  So
the changed packet does not depend on the order of the options, and every bit of
it is known.  An opcode that does not fit its field reaches one bit further, the
one that marks a response.
-/
import LDPlayer.Mutator.DNSUtil

set_option autoImplicit false

namespace LDPlayer

namespace Mutator

def bit (buf : Bytes) (i k : Nat) : Option Bool :=
  buf[i]?.map (fun byte => byte.toBitVec.getLsbD k)

/-! ### One option -/

inductive HeaderPart where
  | opcode
  | single (flag : Flag)
  deriving DecidableEq, Repr

namespace HeaderPart

def part : HeaderPart → UInt32
  | .opcode => DNS_OPCODE
  | .single flag => flag.part

variable (bits : HeaderBits)

def byte : HeaderPart → Nat
  | .opcode => 2
  | .single flag => (bits.place flag).1

def change : HeaderPart → UInt32 → UInt8 → UInt8
  | .opcode => opcode_byte
  | .single flag => flag_byte (bits.place flag).2

/-- The bits of its byte on which the option has a say. -/
def Touches : HeaderPart → Nat → Prop
  | .opcode, k => 3 ≤ k
  | .single flag, k => k = (bits.place flag).2

def newBit : HeaderPart → UInt32 → Nat → Bool → Bool
  | .opcode, val, k, old => decide (k = 7) && old || val.toNat.testBit (k - 3)
  | .single _, val, _, _ => decide (val ≠ 0)

variable {bits}

theorem byte_lt (p : HeaderPart) : p.byte bits < 4 := by
  cases p with
  | opcode => exact Nat.lt_of_lt_of_le (Nat.lt_add_one 2) (Nat.le_succ 3)
  | single flag =>
      change (bits.place flag).1 < 4
      rcases bits.within flag with third | fourth <;> omega

/-- No two options have a say on the same bit. -/
theorem touches_apart {p q : HeaderPart} {k : Nat} (within : k < 8)
    (sameByte : p.byte bits = q.byte bits) (left : p.Touches bits k)
    (right : q.Touches bits k) : p = q := by
  cases p with
  | opcode =>
      cases q with
      | opcode => rfl
      | single flag =>
          have place := bits.within flag
          simp only [byte, Touches] at sameByte left right
          omega
  | single flag =>
      cases q with
      | opcode =>
          have place := bits.within flag
          simp only [byte, Touches] at sameByte left right
          omega
      | single other =>
          have samePlace : bits.place flag = bits.place other :=
            Prod.ext sameByte (left.symm.trans right)
          rw [bits.apart samePlace]

private theorem mask_bit {place k : Nat} (within : k < 8) :
    (mask place).toBitVec.getLsbD k = decide (k = place) := by
  unfold mask
  rw [UInt8.toBitVec_ofNat', BitVec.getLsbD_ofNat, Nat.testBit_two_pow]
  simp only [within, decide_true, Bool.true_and, eq_comm]

private theorem flag_byte_bit (place : Nat) {k : Nat} (val : UInt32) (old : UInt8)
    (within : k < 8) :
    (flag_byte place val old).toBitVec.getLsbD k =
      if k = place then decide (val ≠ 0) else old.toBitVec.getLsbD k := by
  unfold flag_byte
  by_cases zero : val = 0
  · rw [if_pos zero, UInt8.toBitVec_and, UInt8.toBitVec_not, BitVec.getLsbD_and,
      BitVec.getLsbD_not, mask_bit within]
    by_cases own : k = place <;> simp [own, zero, within]
  · rw [if_neg zero, UInt8.toBitVec_or, BitVec.getLsbD_or, mask_bit within]
    by_cases own : k = place <;> simp [own, zero]

private theorem opcode_byte_bit {k : Nat} (val : UInt32) (old : UInt8) (within : k < 8) :
    (opcode_byte val old).toBitVec.getLsbD k =
      if 3 ≤ k then decide (k = 7) && old.toBitVec.getLsbD k || val.toNat.testBit (k - 3)
      else old.toBitVec.getLsbD k := by
  have cleared : (~~~(0x78#32)).getLsbD k = decide (k < 3 ∨ k = 7) := by
    revert k
    decide
  have shift : (val <<< 3).toBitVec = val.toBitVec <<< 3 := rfl
  have wide : (~~~(0x78 : UInt32)).toBitVec = ~~~(0x78#32) := rfl
  unfold opcode_byte
  rw [UInt32.toBitVec_toUInt8, BitVec.getLsbD_setWidth, UInt32.toBitVec_or, BitVec.getLsbD_or,
    UInt32.toBitVec_and, BitVec.getLsbD_and, UInt8.toBitVec_toUInt32, BitVec.getLsbD_setWidth,
    shift, BitVec.getLsbD_shiftLeft, wide, cleared]
  have value : val.toBitVec.getLsbD (k - 3) = val.toNat.testBit (k - 3) := rfl
  rw [value]
  by_cases low : k < 3
  · simp [low, within, show ¬ 3 ≤ k by omega, show k < 32 by omega]
  · simp [low, within, show 3 ≤ k by omega, show k < 32 by omega, Bool.and_comm]

theorem change_bit (p : HeaderPart) (val : UInt32) (old : UInt8) {k : Nat} (within : k < 8) :
    (p.Touches bits k → (p.change bits val old).toBitVec.getLsbD k =
      p.newBit val k (old.toBitVec.getLsbD k)) ∧
    (¬ p.Touches bits k → (p.change bits val old).toBitVec.getLsbD k =
      old.toBitVec.getLsbD k) := by
  cases p with
  | opcode =>
      have all := opcode_byte_bit val old within
      constructor
      · intro own
        exact all.trans (if_pos own)
      · intro other
        exact all.trans (if_neg other)
  | single flag =>
      have all := flag_byte_bit (bits.place flag).2 val old within
      constructor
      · intro own
        exact all.trans (if_pos own)
      · intro other
        exact all.trans (if_neg other)

end HeaderPart

/-! ### Which options there are -/

theorem valid_option_pow {part down up : UInt32} (positive : 0 < down)
    (valid : valid_option part down up = true) :
    ∃ n, part.toNat = 2 ^ n ∧ down ≤ part ∧ part ≤ up := by
  unfold valid_option at valid
  rw [Bool.and_eq_true, Bool.and_eq_true, decide_eq_true_eq, decide_eq_true_eq,
    beq_iff_eq] at valid
  obtain ⟨⟨low, high⟩, single⟩ := valid
  have nonzero : 0 < part.toNat := by
    have least : down.toNat ≤ part.toNat := UInt32.le_iff_toNat_le.mp low
    have first : 0 < down.toNat := UInt32.lt_iff_toNat_lt.mp positive
    omega
  have one : (1 : UInt32) ≤ part := UInt32.le_iff_toNat_le.mpr nonzero
  have word : part.toNat &&& (part.toNat - 1) = 0 := by
    have both := congrArg UInt32.toNat single
    rw [UInt32.toNat_and, UInt32.toNat_sub_of_le _ _ one] at both
    exact both
  obtain ⟨n, power⟩ := (Nat.and_sub_one_eq_zero_iff_isPowerOfTwo nonzero.ne').mp word
  exact ⟨n, power, low, high⟩

theorem header_option_iff (part : UInt32) :
    valid_option part DNS_OPCODE DNS_CD = true ↔ ∃ p : HeaderPart, p.part = part := by
  constructor
  · intro valid
    obtain ⟨n, power, _low, high⟩ := valid_option_pow (by decide) valid
    have bound : part.toNat ≤ 2 ^ 7 := UInt32.le_iff_toNat_le.mp high
    have small : n ≤ 7 := by
      rw [power] at bound
      exact (Nat.pow_le_pow_iff_right (by decide)).mp bound
    have given (p : HeaderPart) (same : p.part.toNat = 2 ^ n) : ∃ p : HeaderPart, p.part = part :=
      ⟨p, UInt32.toNat_inj.mp (same.trans power.symm)⟩
    interval_cases n
    · exact given .opcode rfl
    · exact given (.single .aa) rfl
    · exact given (.single .tc) rfl
    · exact given (.single .rd) rfl
    · exact given (.single .ra) rfl
    · exact given (.single .z) rfl
    · exact given (.single .ad) rfl
    · exact given (.single .cd) rfl
  · intro given
    obtain ⟨p, rfl⟩ := given
    cases p with
    | opcode => rfl
    | single flag => cases flag <;> rfl

theorem not_edns_option (p : HeaderPart) : valid_option p.part EDNS_DO EDNS_Z = false := by
  cases p with
  | opcode => rfl
  | single flag => cases flag <;> rfl

/-! ### The loop over the options -/

variable (bits : HeaderBits)

theorem change_dns_pkt_header_part (buf : Bytes) (p : HeaderPart) (val : UInt32) :
    change_dns_pkt_header bits buf p.part val =
      (write buf (p.byte bits) (p.change bits val)).map (Prod.mk true) := by
  cases p with
  | opcode => rfl
  | single flag => cases flag <;> rfl

def header_changed (buf : Bytes) (o : Opt) : Bytes :=
  match change_dns_pkt_header bits buf o.1 o.2 with
  | .error _ => buf
  | .ok (_, changed) => changed

/-- The body of the first loop where no byte is missing. -/
def opt_changed (c : Changed) (o : Opt) : Changed :=
  { c with
    buf := header_changed bits c.buf o
    edns_opt := if valid_option o.1 EDNS_DO EDNS_Z then c.edns_opt.insert o.1 o.2
      else c.edns_opt }

def Fits (raw : Bytes) (opt : Options) : Prop :=
  ∀ p : HeaderPart, p.part ∈ opt → p.byte bits < raw.length

def Sound (raw : Bytes) (c : Changed) : Prop :=
  c.buf.length = raw.length ∧ c.header_ok = true

variable {bits}

theorem header_changed_part (buf : Bytes) (p : HeaderPart) (val : UInt32) :
    header_changed bits buf ⟨p.part, val⟩ = buf.modify (p.byte bits) (p.change bits val) := by
  unfold header_changed
  rw [change_dns_pkt_header_part]
  unfold write
  by_cases there : p.byte bits < buf.length
  · rw [if_pos there]
    rfl
  · rw [if_neg there]
    exact (List.modify_eq_self (Nat.le_of_not_lt there)).symm

private theorem change_dns_pkt_header_other (buf : Bytes) {part : UInt32} (val : UInt32)
    (other : ∀ p : HeaderPart, p.part ≠ part) :
    change_dns_pkt_header bits buf part val = .ok (false, buf) := by
  have opcode : part ≠ DNS_OPCODE := (other .opcode).symm
  have flag (flag : Flag) : part ≠ flag.part := (other (.single flag)).symm
  unfold change_dns_pkt_header
  rw [if_neg opcode, if_neg (by exact flag .aa), if_neg (by exact flag .tc),
    if_neg (by exact flag .rd), if_neg (by exact flag .ra), if_neg (by exact flag .z),
    if_neg (by exact flag .ad), if_neg (by exact flag .cd)]

theorem header_changed_other (buf : Bytes) {o : Opt}
    (other : ∀ p : HeaderPart, p.part ≠ o.1) : header_changed bits buf o = buf := by
  unfold header_changed
  rw [change_dns_pkt_header_other buf o.2 other]

private theorem header_changed_length (buf : Bytes) (o : Opt) :
    (header_changed bits buf o).length = buf.length := by
  by_cases given : ∃ p : HeaderPart, p.part = o.1
  · obtain ⟨p, same⟩ := given
    have split : o = ⟨p.part, o.2⟩ := by rw [same]
    rw [split, header_changed_part, List.length_modify]
  · rw [header_changed_other buf (fun p same => given ⟨p, same⟩)]

theorem Sound.opt_changed {raw : Bytes} (c : Changed) (o : Opt)
    (sound : Sound raw c) : Sound raw (opt_changed bits c o) :=
  ⟨(header_changed_length c.buf o).trans sound.1, sound.2⟩

theorem change_opt_ok {raw : Bytes} {c : Changed} (sound : Sound raw c)
    {o : Opt}
    (fits : ∀ p : HeaderPart, p.part = o.1 → p.byte bits < raw.length) :
    change_opt bits c o = .ok (opt_changed bits c o) := by
  obtain ⟨part, val⟩ := o
  unfold change_opt opt_changed
  by_cases given : ∃ p : HeaderPart, p.part = part
  · obtain ⟨p, rfl⟩ := given
    have there : p.byte bits < c.buf.length := sound.1 ▸ fits p rfl
    simp only [not_edns_option, Bool.false_eq_true, if_false, sound.2, if_true,
      (header_option_iff p.part).mpr ⟨p, rfl⟩, change_dns_pkt_header_part,
      header_changed_part, write, if_pos there]
    rfl
  · have other (p : HeaderPart) : p.part ≠ part := fun same => given ⟨p, same⟩
    have unknown : valid_option part DNS_OPCODE DNS_CD = false := by
      rw [Bool.eq_false_iff]
      exact fun valid => given ((header_option_iff part).mp valid)
    have same : header_changed bits c.buf ⟨part, val⟩ = c.buf := header_changed_other c.buf other
    simp only [unknown, Bool.false_eq_true, if_false, same]
    split <;> rfl

private theorem change_opt_fault {raw : Bytes} {c : Changed} (sound : Sound raw c) {p : HeaderPart}
    (short : raw.length ≤ p.byte bits) (val : UInt32) :
    change_opt bits c ⟨p.part, val⟩ = .error .outOfBounds := by
  have missing : ¬ p.byte bits < c.buf.length := Nat.not_lt.mpr (sound.1 ▸ short)
  unfold change_opt
  simp only [not_edns_option, Bool.false_eq_true, if_false, sound.2, if_true,
    (header_option_iff p.part).mpr ⟨p, rfl⟩, change_dns_pkt_header_part, write, if_neg missing]
  rfl

section loop

variable (bits) (order : HashTable.Order UInt32 UInt32) (raw : Bytes) (opt : Options)

def opts_changed : Changed :=
  (order.through opt).foldl (opt_changed bits) { buf := raw, edns_opt := ∅, header_ok := true }

variable {bits raw opt}

theorem opt_loop_fits (fits : Fits bits raw opt) :
    (order.through opt).foldlM (change_opt bits)
        { buf := raw, edns_opt := ∅, header_ok := true } =
      .ok (opts_changed bits order raw opt) := by
  apply HashTable.foldlM_ok (opt_changed bits) (Sound raw) Sound.opt_changed
  · intro c sound o member
    apply change_opt_ok sound
    intro p same
    apply fits p
    rw [same]
    exact HashTable.mem_iff_lookup.mpr ⟨o.2, HashTable.Order.mem_through.mp member⟩
  · exact ⟨rfl, rfl⟩

theorem opt_loop_short (short : ¬ Fits bits raw opt) :
    (order.through opt).foldlM (change_opt bits)
        { buf := raw, edns_opt := ∅, header_ok := true } = .error .outOfBounds := by
  unfold Fits at short
  push Not at short
  obtain ⟨p, given, missing⟩ := short
  obtain ⟨val, found⟩ := HashTable.mem_iff_lookup.mp given
  apply HashTable.foldlM_error (opt_changed bits) (Sound raw)
    (HashTable.Order.mem_through.mpr found) Sound.opt_changed
  · intro c sound o _member
    by_cases fits : ∀ q : HeaderPart, q.part = o.1 → q.byte bits < raw.length
    · exact Or.inl (change_opt_ok sound fits)
    · push Not at fits
      obtain ⟨q, same, absent⟩ := fits
      have split : o = ⟨q.part, o.2⟩ := by rw [same]
      rw [split]
      exact Or.inr (change_opt_fault sound absent o.2)
  · intro c sound
    exact change_opt_fault sound missing val
  · exact ⟨rfl, rfl⟩

theorem opts_changed_sound : Sound raw (opts_changed bits order raw opt) := by
  unfold opts_changed
  apply List.foldlRecOn
  · exact ⟨rfl, rfl⟩
  · intro c sound o _member
    exact sound.opt_changed c o

theorem bit_modify (buf : Bytes) (j : Nat) (change : UInt8 → UInt8) (i k : Nat) :
    bit (buf.modify j change) i k =
      if j = i then buf[i]?.map (fun byte => (change byte).toBitVec.getLsbD k)
      else bit buf i k := by
  unfold bit
  rw [List.getElem?_modify]
  cases buf[i]? with
  | none => exact (ite_self _).symm
  | some byte => split <;> rfl

private theorem bit_touched (buf : Bytes) (p : HeaderPart) (val : UInt32) {k : Nat} (within : k < 8)
    (own : p.Touches bits k) :
    bit (header_changed bits buf ⟨p.part, val⟩) (p.byte bits) k =
      (bit buf (p.byte bits) k).map (p.newBit val k) := by
  rw [header_changed_part, bit_modify, if_pos rfl]
  unfold bit
  rw [Option.map_map]
  congr 1
  funext byte
  exact (p.change_bit val byte within).1 own

theorem bit_untouched (buf : Bytes) (o : Opt) {i k : Nat}
    (within : k < 8)
    (others : ∀ p : HeaderPart, p.part = o.1 → p.byte bits = i → ¬ p.Touches bits k) :
    bit (header_changed bits buf o) i k = bit buf i k := by
  by_cases given : ∃ p : HeaderPart, p.part = o.1
  · obtain ⟨p, same⟩ := given
    have split : o = ⟨p.part, o.2⟩ := by rw [same]
    rw [split, header_changed_part, bit_modify]
    by_cases here : p.byte bits = i
    · rw [if_pos here]
      unfold bit
      congr 1
      funext byte
      exact (p.change_bit o.2 byte within).2 (others p same here)
    · rw [if_neg here]
  · rw [header_changed_other buf (fun p same => given ⟨p, same⟩)]

/-- Every bit on which an option has a say is what that option makes of it, in
whatever order the options are applied. -/
theorem opts_changed_bit (p : HeaderPart) {k : Nat} (within : k < 8)
    (own : p.Touches bits k) :
    bit (opts_changed bits order raw opt).buf (p.byte bits) k =
      (opt.lookup p.part).elim (bit raw (p.byte bits) k)
        (fun val => (bit raw (p.byte bits) k).map (p.newBit val k)) := by
  unfold opts_changed
  apply HashTable.Order.view_foldl (fun c : Changed => bit c.buf (p.byte bits) k)
    (fun val => Option.map (p.newBit val k)) order opt
  · intro c o _member other
    apply bit_untouched c.buf o within
    intro q same here touched
    exact other (same ▸ congrArg _ (HeaderPart.touches_apart within here touched own))
  · intro c val
    exact bit_touched c.buf p val within own

theorem opts_changed_bit_other {i k : Nat} (within : k < 8)
    (none : ∀ p : HeaderPart, p.part ∈ opt → p.byte bits = i → ¬ p.Touches bits k) :
    bit (opts_changed bits order raw opt).buf i k = bit raw i k := by
  by_cases owned : ∃ p : HeaderPart, p.byte bits = i ∧ p.Touches bits k
  · obtain ⟨p, rfl, own⟩ := owned
    have absent : p.part ∉ opt := fun given => none p given rfl own
    rw [opts_changed_bit order p within own, HashTable.notMem_iff_lookup.mp absent]
    rfl
  · push Not at owned
    unfold opts_changed
    apply List.foldlRecOn (motive := fun c : Changed => bit c.buf i k = bit raw i k)
    · rfl
    · intro c same o _member
      rw [← same]
      exact bit_untouched c.buf o within (fun p _same here => owned p here)

theorem opts_changed_edns (part : UInt32) :
    (opts_changed bits order raw opt).edns_opt.lookup part =
      if valid_option part EDNS_DO EDNS_Z then opt.lookup part else none := by
  have kept : (opts_changed bits order raw opt).edns_opt.lookup part =
      (opt.lookup part).elim none
        (fun val => if valid_option part EDNS_DO EDNS_Z then some val else none) := by
    unfold opts_changed
    apply HashTable.Order.view_foldl (fun c : Changed => c.edns_opt.lookup part)
      (fun val old => if valid_option part EDNS_DO EDNS_Z then some val else old) order opt
    · intro c o _member other
      unfold opt_changed
      split
      · exact HashTable.lookup_insert_eq.trans (if_neg (Ne.symm other))
      · rfl
    · intro c val
      unfold opt_changed
      split
      · exact HashTable.lookup_insert_eq.trans (if_pos rfl)
      · rfl
  rw [kept]
  cases opt.lookup part with
  | none => exact (ite_self _).symm
  | some val => rfl

end loop

/-! ### The mutated header -/

def opcode (packet : Bytes) : Nat := (packet.getD 2 0).toNat / 8 % 16

/-- A packet with what the options ask for, and all else as it was. -/
structure HeaderMutated (bits : HeaderBits) (opt : Options) (raw packet : Bytes) : Prop where
  length : packet.length = raw.length
  flags : ∀ flag val, opt.lookup flag.part = some val →
    bit packet (bits.place flag).1 (bits.place flag).2 = some (decide (val ≠ 0))
  opcode : ∀ val, opt.lookup DNS_OPCODE = some val → val.toNat < 16 →
    opcode packet = val.toNat
  others : ∀ i k, k < 8 → (∀ flag, flag.part ∈ opt → (i, k) ≠ bits.place flag) →
    (DNS_OPCODE ∈ opt → ¬ (i = 2 ∧ 3 ≤ k ∧ k ≤ 6)) → bit packet i k = bit raw i k

def HeaderOnly (opt : Options) : Prop := ∀ part ∈ opt, ∃ p : HeaderPart, p.part = part

section mutated

variable {order : HashTable.Order UInt32 UInt32} {raw : Bytes} {opt : Options}

theorem change_dns_pkt_header_only {Rest : Type} (ldns : Ldns Rest)
    (edns_order : HashTable.Order UInt32 UInt32) (nonempty : raw ≠ [])
    (fits : Fits ldns.bits raw opt) (header_only : HeaderOnly opt) :
    change_dns_pkt ldns order edns_order raw opt =
      .ok (true, some (opts_changed ldns.bits order raw opt).buf) := by
  have none : (opts_changed ldns.bits order raw opt).edns_opt.size = 0 := by
    rw [HashTable.size_eq_zero]
    intro part
    rw [opts_changed_edns]
    by_cases given : part ∈ opt
    · obtain ⟨p, rfl⟩ := header_only part given
      exact if_neg (by rw [not_edns_option]; exact Bool.false_ne_true)
    · rw [HashTable.notMem_iff_lookup.mp given, ite_self]
  have sound : (opts_changed ldns.bits order raw opt).header_ok = true :=
    (opts_changed_sound order).2
  unfold change_dns_pkt
  rw [if_neg nonempty, opt_loop_fits order fits]
  simp only [none, if_true, sound]

theorem bit_some {buf : Bytes} {i : Nat} (there : i < buf.length) (k : Nat) :
    bit buf i k = some ((buf.getD i 0).toBitVec.getLsbD k) := by
  unfold bit
  rw [List.getElem?_eq_getElem there, List.getD_eq_getElem _ _ there]
  rfl

theorem is_query_iff {raw : Bytes} (long : 2 < raw.length) :
    is_query raw = false ↔ bit raw 2 7 = some true := by
  have top : ∀ byte : UInt8, decide (byte.toNat < 128) = !byte.toBitVec.getLsbD 7 := by
    decide +kernel
  rw [bit_some long, Option.some.injEq]
  unfold is_query
  rw [top, Bool.not_eq_false']

private theorem opcode_eq {packet : Bytes} (long : 2 < packet.length) {val : UInt32}
    (small : val.toNat < 16)
    (low : ∀ k, 3 ≤ k → k ≤ 6 → bit packet 2 k = some (val.toNat.testBit (k - 3))) :
    opcode packet = val.toNat := by
  have field : opcode packet = (packet.getD 2 0).toNat / 2 ^ 3 % 2 ^ 4 := rfl
  apply Nat.eq_of_testBit_eq
  intro k
  rw [field, Nat.testBit_mod_two_pow, Nat.testBit_div_two_pow]
  by_cases inside : k < 4
  · have own := low (k + 3) (Nat.le_add_left 3 k) (by omega)
    rw [bit_some long, Option.some.injEq, Nat.add_sub_cancel] at own
    rw [decide_eq_true inside, Bool.true_and]
    exact own
  · rw [decide_eq_false inside, Bool.false_and]
    symm
    apply Nat.testBit_lt_two_pow
    have wide : 2 ^ 4 ≤ 2 ^ k := Nat.pow_le_pow_right Nat.two_pos (Nat.le_of_not_lt inside)
    omega

theorem opts_changed_asked {bits : HeaderBits} (fits : Fits bits raw opt) (p : HeaderPart)
    {val : UInt32} (asked : opt.lookup p.part = some val) {k : Nat} (within : k < 8)
    (own : p.Touches bits k) :
    bit (opts_changed bits order raw opt).buf (p.byte bits) k =
      some (p.newBit val k ((raw.getD (p.byte bits) 0).toBitVec.getLsbD k)) := by
  have there := fits p (HashTable.mem_iff_lookup.mpr ⟨val, asked⟩)
  rw [opts_changed_bit order p within own, asked, Option.elim_some, bit_some there]
  rfl

theorem opts_changed_response {bits : HeaderBits} (fits : Fits bits raw opt) {val : UInt32}
    (asked : opt.lookup DNS_OPCODE = some val) :
    bit (opts_changed bits order raw opt).buf 2 7 = bit raw 2 7 ↔
      (val.toNat.testBit 4 = true → is_query raw = false) := by
  have there : 2 < raw.length := fits .opcode (HashTable.mem_iff_lookup.mpr ⟨val, asked⟩)
  have changed : bit (opts_changed bits order raw opt).buf 2 7 =
      some ((raw.getD 2 0).toBitVec.getLsbD 7 || val.toNat.testBit 4) :=
    opts_changed_asked fits .opcode asked (Nat.lt_add_one 7) (Nat.le_add_left 3 4)
  rw [changed, is_query_iff there, bit_some there, Option.some.injEq, Option.some.injEq]
  cases (raw.getD 2 0).toBitVec.getLsbD 7 <;> cases val.toNat.testBit 4 <;> simp

theorem opts_changed_mutated {bits : HeaderBits} (fits : Fits bits raw opt)
    (response : ∀ val, opt.lookup DNS_OPCODE = some val → val.toNat.testBit 4 = true →
      is_query raw = false) :
    HeaderMutated bits opt raw (opts_changed bits order raw opt).buf where
  length := (opts_changed_sound order).1
  flags := by
    intro flag val asked
    have within : (bits.place flag).2 < 8 := by
      rcases bits.within flag with third | fourth <;> omega
    exact opts_changed_asked fits (.single flag) asked within rfl
  opcode := by
    intro val asked small
    have there : 2 < raw.length := fits .opcode (HashTable.mem_iff_lookup.mpr ⟨val, asked⟩)
    have length : (opts_changed bits order raw opt).buf.length = raw.length :=
      (opts_changed_sound order).1
    apply opcode_eq (length ▸ there) small
    intro k low high
    have own : HeaderPart.opcode.Touches bits k := low
    have inside : decide (k = 7) = false := decide_eq_false (by omega)
    have all : bit (opts_changed bits order raw opt).buf 2 k =
        some (HeaderPart.opcode.newBit val k ((raw.getD 2 0).toBitVec.getLsbD k)) :=
      opts_changed_asked fits .opcode asked (by omega) own
    rw [HeaderPart.newBit, inside, Bool.false_and, Bool.false_or] at all
    exact all
  others := by
    intro i k within notFlag notOpcode
    by_cases top : DNS_OPCODE ∈ opt ∧ i = 2 ∧ k = 7
    · obtain ⟨given, rfl, rfl⟩ := top
      obtain ⟨val, asked⟩ := HashTable.mem_iff_lookup.mp given
      exact (opts_changed_response fits asked).mpr (response val asked)
    · apply opts_changed_bit_other order within
      intro p given here own
      cases p with
      | opcode =>
          have third : i = 2 := here.symm
          have low : 3 ≤ k := own
          have free := notOpcode given
          exact top ⟨given, third, by omega⟩
      | single flag => exact notFlag flag given (Prod.ext here.symm own)

end mutated

/-- Header options on a packet with a whole header do what they ask for and nothing
else, exactly when no opcode reaches the bit of a response: it has to leave the bit
clear, or the packet is a response already. -/
theorem header_mutated_iff {Rest : Type} (ldns : Ldns Rest)
    (opt_order edns_order : HashTable.Order UInt32 UInt32) (raw : Bytes) (opt : Options)
    (header : 12 ≤ raw.length) (header_only : HeaderOnly opt) :
    (∃ packet, change_dns_pkt ldns opt_order edns_order raw opt = .ok (true, some packet) ∧
      HeaderMutated ldns.bits opt raw packet) ↔
      ∀ val, opt.lookup DNS_OPCODE = some val → val.toNat.testBit 4 = true →
        is_query raw = false := by
  have nonempty : raw ≠ [] := List.ne_nil_of_length_pos (by omega)
  have fits : Fits ldns.bits raw opt := by
    intro p _given
    have early : p.byte ldns.bits < 4 := p.byte_lt
    omega
  rw [change_dns_pkt_header_only ldns edns_order nonempty fits header_only]
  constructor
  · intro mutated val asked
    obtain ⟨packet, result, mutated⟩ := mutated
    obtain rfl : (opts_changed ldns.bits opt_order raw opt).buf = packet :=
      Option.some.inj (Prod.mk.inj (Except.ok.inj result)).2
    apply (opts_changed_response fits asked).mp
    apply mutated.others 2 7 (Nat.lt_add_one 7)
    · intro flag _given same
      have place := ldns.bits.within flag
      rw [← same] at place
      omega
    · intro _given inside
      omega
  · intro response
    exact ⟨_, rfl, opts_changed_mutated fits response⟩

/-- The macros as ldns has them. -/
def wire_bits : HeaderBits where
  place
    | .aa => (2, 2)
    | .tc => (2, 1)
    | .rd => (2, 0)
    | .ra => (3, 7)
    | .z => (3, 6)
    | .ad => (3, 5)
    | .cd => (3, 4)
  within := by
    intro flag
    cases flag <;> simp
  apart := by
    intro left right same
    cases left <;> cases right <;> simp at same ⊢

def word (value : UInt16) : Bytes := [(value >>> 8).toUInt8, value.toUInt8]

/-- The record that ldns writes where one of the fields, the version and the last one
apart, is set. -/
def edns_record (pkt : LdnsPkt Bytes) : Option Bytes :=
  if pkt.edns_do ∨ pkt.edns_udp_size > 0 ∨ pkt.edns_extended_rcode > 0 ∨ pkt.edns_data ≠ none then
    let data := pkt.edns_data.getD []
    let flags := if pkt.edns_do then pkt.edns_z ||| 0x8000 else pkt.edns_z
    some ([0, 0, 41] ++ word pkt.edns_udp_size ++ [pkt.edns_extended_rcode, pkt.edns_version] ++
      word flags ++ word (UInt16.ofNat data.length) ++ data)
  else none

/-- ldns on packets of a header alone, the only ones that this one parses. -/
def header_ldns : Ldns Bytes where
  bits := wire_bits
  wire2pkt wire :=
    if wire.length = 12 ∧ wire.drop 4 = List.replicate 8 0 then
      .ok
        { edns_do := false
          edns_udp_size := 0
          edns_extended_rcode := 0
          edns_version := 0
          edns_z := 0
          edns_data := none
          rest := wire }
    else .error "General LDNS error"
  pkt2wire pkt :=
    match edns_record pkt with
    | none => .ok pkt.rest
    | some record => .ok (pkt.rest.take 11 ++ [1] ++ record)

def plain_query : Bytes := [0, 7, 1, 0] ++ List.replicate 8 0

def answer_update : Options := (AList.insert DNS_AA 1 ∅).insert DNS_OPCODE 5

theorem header_mutated_update :
    ∃ packet, change_dns_pkt header_ldns .stored .stored plain_query answer_update =
        .ok (true, some packet) ∧
      HeaderMutated wire_bits answer_update plain_query packet := by
  apply (header_mutated_iff header_ldns .stored .stored plain_query answer_update
    (Nat.le_refl 12) ?_).mpr
  · intro val asked
    have five : 5 = val := Option.some.inj asked
    rw [← five]
    intro reaches
    cases reaches
  · intro part given
    rcases (AList.mem_insert _).mp given with rfl | given
    · exact ⟨.opcode, rfl⟩
    · rcases (AList.mem_insert _).mp given with rfl | given
      · exact ⟨.single .aa, rfl⟩
      · cases given

def wide_opcode : Options := AList.insert DNS_OPCODE 16 ∅

/-- The opcode 16 turns a query into a response. -/
theorem header_mutated_response :
    ¬ ∃ packet, change_dns_pkt header_ldns .stored .stored plain_query wide_opcode =
          .ok (true, some packet) ∧
        HeaderMutated wire_bits wide_opcode plain_query packet := by
  intro mutated
  obtain ⟨packet, result, mutated⟩ := mutated
  have changed : change_dns_pkt header_ldns .stored .stored plain_query wide_opcode =
      .ok (true, some ([0, 7, 129, 0] ++ List.replicate 8 0)) := rfl
  rw [changed] at result
  obtain rfl := Option.some.inj (Prod.mk.inj (Except.ok.inj result)).2
  have flags (flag : Flag) (_given : flag.part ∈ wide_opcode) : (2, 7) ≠ wire_bits.place flag := by
    cases flag <;> simp [wire_bits]
  have response := mutated.others 2 7 (Nat.lt_add_one 7) flags (fun _given inside => by omega)
  cases response

end Mutator

end LDPlayer
