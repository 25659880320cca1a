/-
mutate_query: which options are applied to one query, and to what value.

Each option is drawn with its percentage.  An option of one bit that is not drawn
is set to the complement, one of several bits is then left alone.  The table is
gone through in an order of its own, and so the draws are handed out in it.
-/
import LDPlayer.Mutator.Header

set_option autoImplicit false

namespace LDPlayer

namespace Mutator

abbrev Requests : Type := HashTable UInt32 (Int × UInt32)

abbrev Request : Type := Sigma fun _ : UInt32 => Int × UInt32

/-- `rand() % 100 + 1 <= prob`, for a result of `rand`. -/
def do_change (rand : Nat) (prob : Int) : Bool := ((rand % 100 + 1 : Nat) : Int) ≤ prob

def one_bit (part : UInt32) : Bool :=
  part &&& DNS_AA ≠ 0 || part &&& DNS_TC ≠ 0 || part &&& DNS_RD ≠ 0 || part &&& DNS_RA ≠ 0 ||
    part &&& DNS_Z ≠ 0 || part &&& DNS_AD ≠ 0 || part &&& DNS_CD ≠ 0 || part &&& EDNS_DO ≠ 0

def multi_bit (part : UInt32) : Bool :=
  part &&& DNS_OPCODE ≠ 0 || part &&& EDNS_UDP_SIZE ≠ 0 || part &&& EDNS_EXTENDED_RCODE ≠ 0 ||
    part &&& EDNS_VERSION ≠ 0 || part &&& EDNS_Z ≠ 0

def applied (part val : UInt32) (drawn : Bool) : Option UInt32 :=
  if one_bit part then
    if drawn then some (if val > 0 then 1 else 0) else some (if val > 0 then 0 else 1)
  else if multi_bit part then if drawn then some val else none
  else none

def apply_option (rand : Nat → Nat) (loop : Nat × Options) (o : Request) : Nat × Options :=
  match applied o.1 o.2.2 (do_change (rand loop.1) o.2.1) with
  | some val => (loop.1 + 1, loop.2.insert o.1 val)
  | none => (loop.1 + 1, loop.2)

structure Orders where
  opt : HashTable.Order UInt32 (Int × UInt32)
  opt_applied : HashTable.Order UInt32 UInt32
  edns_opt : HashTable.Order UInt32 UInt32

def opt_applied (orders : Orders) (rand : Nat → Nat) (calls : Nat) (opt : Requests) :
    Nat × Options :=
  (orders.opt.through opt).foldl (apply_option rand) (calls, ∅)

/-- A packet that is not stored leaves an empty field. -/
def mutate_query {Rest : Type} (ldns : Ldns Rest) (orders : Orders) (rand : Nat → Nat)
    (opt : Requests) (calls : Nat) (msg : DNSMsg) : Except Fault (Nat × DNSMsg) :=
  let loop := opt_applied orders rand calls opt
  (change_dns_pkt ldns orders.opt_applied orders.edns_opt msg.raw loop.2).map
    (fun changed => (loop.1, msg.set_raw (changed.2.getD [])))

/-! ### The draws -/

def place (orders : Orders) (opt : Requests) (part : UInt32) : Nat :=
  (orders.opt.through opt).findIdx (fun o => o.1 == part)

def drawn (orders : Orders) (rand : Nat → Nat) (calls : Nat) (opt : Requests) (part : UInt32) :
    Bool :=
  do_change (rand (calls + place orders opt part)) ((opt.lookup part).elim 0 Prod.fst)

section draws

variable {rand : Nat → Nat}

theorem apply_option_calls (loop : Nat × Options) (o : Request) :
    (apply_option rand loop o).1 = loop.1 + 1 := by
  unfold apply_option
  split <;> rfl

theorem apply_option_other (loop : Nat × Options) {o : Request} {part : UInt32}
    (other : o.1 ≠ part) : (apply_option rand loop o).2.lookup part = loop.2.lookup part := by
  unfold apply_option
  split
  · exact AList.lookup_insert_ne other.symm
  · rfl

private theorem apply_option_own (loop : Nat × Options) (o : Request)
    (absent : loop.2.lookup o.1 = none) :
    (apply_option rand loop o).2.lookup o.1 =
      applied o.1 o.2.2 (do_change (rand loop.1) o.2.1) := by
  unfold apply_option
  split
  · rename_i val chosen
    rw [chosen]
    exact AList.lookup_insert _
  · rename_i none
    rw [none]
    exact absent

private theorem apply_options_calls (items : List Request) (loop : Nat × Options) :
    (items.foldl (apply_option rand) loop).1 = loop.1 + items.length := by
  induction items generalizing loop with
  | nil => rfl
  | cons o later ih =>
      rw [List.foldl_cons, ih, apply_option_calls, List.length_cons]
      omega

theorem apply_options_absent {items : List Request} {part : UInt32}
    (absent : ∀ o ∈ items, o.1 ≠ part) (loop : Nat × Options) :
    (items.foldl (apply_option rand) loop).2.lookup part = loop.2.lookup part := by
  induction items generalizing loop with
  | nil => rfl
  | cons o later ih =>
      rw [List.foldl_cons, ih fun other member => absent other (List.mem_cons_of_mem o member),
        apply_option_other loop (absent o List.mem_cons_self)]

private theorem apply_options_lookup {items : List Request} (distinct : items.NodupKeys)
    {o : Request} (member : o ∈ items) (loop : Nat × Options)
    (absent : loop.2.lookup o.1 = none) :
    (items.foldl (apply_option rand) loop).2.lookup o.1 =
      applied o.1 o.2.2
        (do_change (rand (loop.1 + items.findIdx (fun other => other.1 == o.1))) o.2.1) := by
  induction items generalizing loop with
  | nil => cases member
  | cons first later ih =>
      obtain ⟨new, rest⟩ := List.nodupKeys_cons.mp distinct
      have apart : ∀ other ∈ later, other.1 ≠ first.1 := by
        intro other listed same
        exact new (same ▸ List.mem_keys_of_mem listed)
      rw [List.foldl_cons]
      rcases List.mem_cons.mp member with rfl | listed
      · have here : List.findIdx (fun other : Request => other.1 == o.1) (o :: later) = 0 := by
          rw [List.findIdx_cons, beq_self_eq_true, cond_true]
        rw [apply_options_absent apart, apply_option_own loop o absent, here, Nat.add_zero]
      · have other : first.1 ≠ o.1 := (apart o listed).symm
        have there : List.findIdx (fun other : Request => other.1 == o.1) (first :: later) =
            List.findIdx (fun other : Request => other.1 == o.1) later + 1 := by
          rw [List.findIdx_cons, beq_eq_false_iff_ne.mpr other, cond_false]
        rw [ih rest listed _ ((apply_option_other loop other).trans absent), apply_option_calls,
          there]
        congr 3
        omega

variable (orders : Orders) (calls : Nat) (opt : Requests)

theorem opt_applied_lookup (part : UInt32) :
    (opt_applied orders rand calls opt).2.lookup part =
      (opt.lookup part).bind
        (fun request => applied part request.2 (drawn orders rand calls opt part)) := by
  unfold opt_applied
  cases asked : opt.lookup part with
  | none =>
      rw [Option.bind_none, apply_options_absent]
      · exact AList.lookup_empty part
      · intro o member same
        have listed : opt.lookup o.1 = some o.2 := HashTable.Order.mem_through.mp member
        rw [same, asked] at listed
        cases listed
  | some request =>
      have member : (⟨part, request⟩ : Request) ∈ orders.opt.through opt :=
        HashTable.Order.mem_through.mpr asked
      have distinct : (orders.opt.through opt).NodupKeys :=
        (List.perm_nodupKeys (orders.opt.perm opt)).mpr opt.nodupKeys
      rw [apply_options_lookup distinct member (calls, ∅) (AList.lookup_empty part)]
      unfold drawn place
      rw [asked]
      rfl

/-- Each option takes one draw, whether it is applied or not. -/
theorem opt_applied_calls : (opt_applied orders rand calls opt).1 = calls + opt.size := by
  unfold opt_applied HashTable.size
  rw [apply_options_calls, (orders.opt.perm opt).length_eq]

end draws

/-! ### Queries with other headers -/

def HeaderRequests (opt : Requests) : Prop := ∀ part ∈ opt, ∃ p : HeaderPart, p.part = part

def SmallOpcode (opt : Requests) : Prop :=
  ∀ prob val, opt.lookup DNS_OPCODE = some (prob, val) → val.toNat < 16

/-- Each flag has its value or, where it is not drawn, the complement; the opcode is
the one asked for where it is drawn; all else is as it was. -/
structure Mutated (bits : HeaderBits) (opt : Requests) (drawn : UInt32 → Bool)
    (raw packet : Bytes) : Prop where
  length : packet.length = raw.length
  flags : ∀ flag prob val, opt.lookup flag.part = some (prob, val) →
    bit packet (bits.place flag).1 (bits.place flag).2 =
      some (if drawn flag.part then decide (val ≠ 0) else decide (val = 0))
  opcode : ∀ prob val, opt.lookup DNS_OPCODE = some (prob, val) → drawn DNS_OPCODE = true →
    opcode packet = val.toNat
  others : ∀ i k, k < 8 → (∀ flag, flag.part ∈ opt → (i, k) ≠ bits.place flag) →
    (DNS_OPCODE ∈ opt → drawn DNS_OPCODE = true → ¬ (i = 2 ∧ 3 ≤ k ∧ k ≤ 6)) →
    bit packet i k = bit raw i k

private theorem applied_flag (flag : Flag) (val : UInt32) (drawn : Bool) :
    applied flag.part val drawn =
      some (if drawn then (if val > 0 then 1 else 0) else (if val > 0 then 0 else 1)) := by
  have single : one_bit flag.part = true := by cases flag <;> rfl
  unfold applied
  rw [if_pos single]
  exact (apply_ite some _ _ _).symm

theorem applied_opcode (val : UInt32) (drawn : Bool) :
    applied DNS_OPCODE val drawn = if drawn then some val else none := by
  have several : one_bit DNS_OPCODE = false := rfl
  have known : multi_bit DNS_OPCODE = true := rfl
  unfold applied
  rw [several, known]
  rfl

private theorem flag_value (val : UInt32) (drawn : Bool) :
    decide ((if drawn then (if val > 0 then 1 else 0) else (if val > 0 then 0 else 1)) ≠
        (0 : UInt32)) =
      if drawn then decide (val ≠ 0) else decide (val = 0) := by
  have positive : val > 0 ↔ val ≠ 0 := UInt32.pos_iff_ne_zero
  by_cases zero : val = 0
  · cases drawn <;> simp [zero]
  · cases drawn <;> simp [positive.mpr zero, zero]

section header

variable (orders : Orders) (rand : Nat → Nat) (calls : Nat) {opt : Requests}

private theorem opt_applied_header (header : HeaderRequests opt) :
    HeaderOnly (opt_applied orders rand calls opt).2 := by
  intro part given
  obtain ⟨val, asked⟩ := HashTable.mem_iff_lookup.mp given
  rw [opt_applied_lookup] at asked
  obtain ⟨request, listed, _applied⟩ := Option.bind_eq_some_iff.mp asked
  exact header part (HashTable.mem_iff_lookup.mpr ⟨request, listed⟩)

private theorem mutated_of_applied {bits : HeaderBits} {raw packet : Bytes}
    (small : SmallOpcode opt)
    (changed : HeaderMutated bits (opt_applied orders rand calls opt).2 raw packet) :
    Mutated bits opt (drawn orders rand calls opt) raw packet where
  length := changed.length
  flags := by
    intro flag prob val asked
    have listed : (opt_applied orders rand calls opt).2.lookup flag.part =
        some (if drawn orders rand calls opt flag.part then (if val > 0 then 1 else 0)
          else (if val > 0 then 0 else 1)) := by
      rw [opt_applied_lookup, asked, Option.bind_some, applied_flag]
    rw [changed.flags flag _ listed, flag_value]
  opcode := by
    intro prob val asked chosen
    have listed : (opt_applied orders rand calls opt).2.lookup DNS_OPCODE = some val := by
      rw [opt_applied_lookup, asked, Option.bind_some, applied_opcode, chosen, if_pos rfl]
    exact changed.opcode val listed (small prob val asked)
  others := by
    intro i k within flags field
    apply changed.others i k within
    · intro flag given
      obtain ⟨val, asked⟩ := HashTable.mem_iff_lookup.mp given
      rw [opt_applied_lookup] at asked
      obtain ⟨request, listed, _applied⟩ := Option.bind_eq_some_iff.mp asked
      exact flags flag (HashTable.mem_iff_lookup.mpr ⟨request, listed⟩)
    · intro given
      obtain ⟨val, asked⟩ := HashTable.mem_iff_lookup.mp given
      rw [opt_applied_lookup] at asked
      obtain ⟨request, listed, chosen⟩ := Option.bind_eq_some_iff.mp asked
      apply field (HashTable.mem_iff_lookup.mpr ⟨request, listed⟩)
      rw [applied_opcode] at chosen
      by_contra left
      rw [if_neg left] at chosen
      cases chosen

/-- Header options leave the response bit, because the opcode fits its field. -/
theorem mutate_query_header {Rest : Type} (ldns : Ldns Rest) {msg : DNSMsg}
    (long : 4 ≤ msg.raw.length) (header : HeaderRequests opt) (small : SmallOpcode opt) :
    ∃ packet, mutate_query ldns orders rand opt calls msg =
        .ok (calls + opt.size, msg.set_raw packet) ∧
      Mutated ldns.bits opt (drawn orders rand calls opt) msg.raw packet := by
  have nonempty : msg.raw ≠ [] := List.ne_nil_of_length_pos (by omega)
  have fits : Fits ldns.bits msg.raw (opt_applied orders rand calls opt).2 := by
    intro p _given
    have early : p.byte ldns.bits < 4 := p.byte_lt
    omega
  refine ⟨(opts_changed ldns.bits orders.opt_applied msg.raw
    (opt_applied orders rand calls opt).2).buf, ?_,
    mutated_of_applied orders rand calls small (opts_changed_mutated fits ?_)⟩
  · unfold mutate_query
    simp only [change_dns_pkt_header_only ldns orders.edns_opt nonempty fits
      (opt_applied_header orders rand calls header), opt_applied_calls]
    rfl
  · intro val asked high
    rw [opt_applied_lookup] at asked
    obtain ⟨request, listed, chosen⟩ := Option.bind_eq_some_iff.mp asked
    have fitting := small request.1 request.2 listed
    rw [applied_opcode] at chosen
    split at chosen
    · rw [← Option.some.inj chosen, Nat.testBit_lt_two_pow (Nat.lt_of_lt_of_le fitting (by decide))]
        at high
      cases high
    · cases chosen

end header

end Mutator

end LDPlayer
