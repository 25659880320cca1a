/-
Mutation and the order of the hash maps.

The options of the header touch different bits, those of EDNS different fields,
but for one: unsetting DO clears the fields of the four others.  The packet then
depends on which of them come after it.
-/
import LDPlayer.Mutator.Header

set_option autoImplicit false

namespace LDPlayer

namespace Mutator

inductive EdnsPart where
  | edns_do
  | udp_size
  | extended_rcode
  | version
  | z
  deriving DecidableEq, Repr

namespace EdnsPart

def part : EdnsPart → UInt32
  | .edns_do => EDNS_DO
  | .udp_size => EDNS_UDP_SIZE
  | .extended_rcode => EDNS_EXTENDED_RCODE
  | .version => EDNS_VERSION
  | .z => EDNS_Z

variable {Rest : Type}

def field : EdnsPart → LdnsPkt Rest → Nat
  | .edns_do, pkt => pkt.edns_do.toNat
  | .udp_size, pkt => pkt.edns_udp_size.toNat
  | .extended_rcode, pkt => pkt.edns_extended_rcode.toNat
  | .version, pkt => pkt.edns_version.toNat
  | .z, pkt => pkt.edns_z.toNat

def cut : EdnsPart → UInt32 → Nat
  | .edns_do, val => if val > 0 then 1 else 0
  | .udp_size, val => val.toUInt16.toNat
  | .extended_rcode, val => val.toUInt8.toNat
  | .version, val => val.toUInt8.toNat
  | .z, val => val.toUInt16.toNat

private theorem part_injective : Function.Injective part := by
  intro left right same
  cases left <;> cases right <;> first | rfl | exact absurd same (by decide)

end EdnsPart

theorem edns_option_iff (part : UInt32) :
    valid_option part EDNS_DO EDNS_Z = true ↔ ∃ p : EdnsPart, p.part = part := by
  constructor
  · intro valid
    obtain ⟨n, power, low, high⟩ := valid_option_pow (by decide) valid
    have least : 2 ^ 8 ≤ part.toNat := UInt32.le_iff_toNat_le.mp low
    have bound : part.toNat ≤ 2 ^ 12 := UInt32.le_iff_toNat_le.mp high
    rw [power] at least bound
    have small : n ≤ 12 := (Nat.pow_le_pow_iff_right (Nat.lt_add_one 1)).mp bound
    have large : 8 ≤ n := (Nat.pow_le_pow_iff_right (Nat.lt_add_one 1)).mp least
    have given (p : EdnsPart) (same : p.part.toNat = 2 ^ n) : ∃ p : EdnsPart, p.part = part :=
      ⟨p, UInt32.toNat_inj.mp (same.trans power.symm)⟩
    interval_cases n
    · exact given .edns_do rfl
    · exact given .udp_size rfl
    · exact given .extended_rcode rfl
    · exact given .version rfl
    · exact given .z rfl
  · intro given
    obtain ⟨p, rfl⟩ := given
    cases p <;> rfl

/-! ### One EDNS option -/

section edns

variable {Rest : Type}

def cleared (pkt : LdnsPkt Rest) : LdnsPkt Rest :=
  { pkt with
    edns_do := false
    edns_udp_size := 0
    edns_extended_rcode := 0
    edns_version := 0
    edns_z := 0
    edns_data := none }

structure OptRecord where
  udp_size : UInt16
  extended_rcode : UInt8
  version : UInt8
  flags : UInt16
  data : Bytes
  deriving DecidableEq, Repr

/-- The record is there if DO, the size, the response code or data is set, or where ldns
keeps that the packet had one; DO is the highest bit of its flags. -/
def opt_record (present : Rest → Bool) (pkt : LdnsPkt Rest) : Option OptRecord :=
  if pkt.edns_do ∨ pkt.edns_udp_size ≠ 0 ∨ pkt.edns_extended_rcode ≠ 0 ∨ pkt.edns_data ≠ none ∨
      present pkt.rest then
    some
      { udp_size := pkt.edns_udp_size
        extended_rcode := pkt.edns_extended_rcode
        version := pkt.edns_version
        flags := if pkt.edns_do then pkt.edns_z ||| 0x8000 else pkt.edns_z
        data := pkt.edns_data.getD [] }
  else none

/-- What is known of the printer of ldns.  It prints what it has parsed, with any EDNS
fields, and it prints two such packets alike exactly if they have the same record. -/
structure Ldns.PrintsOpt (ldns : Ldns Rest) (present : Rest → Bool) : Prop where
  prints : ∀ buf pkt, ldns.wire2pkt buf = .ok pkt → ∀ changed, changed.rest = pkt.rest →
    ∃ wire, ldns.pkt2wire changed = .ok wire
  alike : ∀ buf pkt, ldns.wire2pkt buf = .ok pkt → ∀ left right, left.rest = pkt.rest →
    right.rest = pkt.rest → (ldns.pkt2wire left = ldns.pkt2wire right ↔
      opt_record present left = opt_record present right)

def edns_changed (pkt : LdnsPkt Rest) (o : Opt) : LdnsPkt Rest :=
  (change_dns_pkt_edns pkt o.1 o.2).2

theorem LdnsPkt.eq_of_fields {left right : LdnsPkt Rest}
    (fields : ∀ p : EdnsPart, p.field left = p.field right)
    (data : left.edns_data = right.edns_data) (rest : left.rest = right.rest) : left = right := by
  have edns_do : left.edns_do.toNat = right.edns_do.toNat := fields .edns_do
  have udp_size := UInt16.toNat_inj.mp (fields .udp_size)
  have extended_rcode := UInt8.toNat_inj.mp (fields .extended_rcode)
  have version := UInt8.toNat_inj.mp (fields .version)
  have z := UInt16.toNat_inj.mp (fields .z)
  have same : left.edns_do = right.edns_do := by
    revert edns_do
    cases left.edns_do <;> cases right.edns_do <;> simp
  cases left
  cases right
  simp only at same udp_size extended_rcode version z data rest
  rw [same, udp_size, extended_rcode, version, z, data, rest]

theorem edns_changed_unset (pkt : LdnsPkt Rest) :
    edns_changed pkt ⟨EDNS_DO, 0⟩ = cleared pkt := rfl

theorem field_changed_own (pkt : LdnsPkt Rest) (p : EdnsPart) (val : UInt32) :
    p.field (edns_changed pkt ⟨p.part, val⟩) = p.cut val := by
  cases p with
  | edns_do =>
      unfold edns_changed change_dns_pkt_edns EdnsPart.cut
      by_cases positive : val > 0
      · simp only [EdnsPart.part, if_true, if_pos positive]
        rfl
      · simp only [EdnsPart.part, if_true, if_neg positive]
        rfl
  | udp_size => rfl
  | extended_rcode => rfl
  | version => rfl
  | z => rfl

theorem edns_changed_set (pkt : LdnsPkt Rest) {val : UInt32} (positive : val ≠ 0) :
    edns_changed pkt ⟨EDNS_DO, val⟩ = { pkt with edns_do := true } := by
  unfold edns_changed change_dns_pkt_edns
  rw [if_pos rfl, if_pos (UInt32.pos_iff_ne_zero.mpr positive)]

theorem field_changed_other (pkt : LdnsPkt Rest) {p q : EdnsPart} {val : UInt32}
    (other : q ≠ p) (keeps : q = .edns_do → val ≠ 0) :
    p.field (edns_changed pkt ⟨q.part, val⟩) = p.field pkt := by
  cases q with
  | edns_do =>
      have set : edns_changed pkt ⟨EdnsPart.part .edns_do, val⟩ = _ :=
        edns_changed_set pkt (keeps rfl)
      rw [set]
      cases p <;> first | rfl | exact absurd rfl other
  | udp_size => cases p <;> first | rfl | exact absurd rfl other
  | extended_rcode => cases p <;> first | rfl | exact absurd rfl other
  | version => cases p <;> first | rfl | exact absurd rfl other
  | z => cases p <;> first | rfl | exact absurd rfl other

theorem rest_changed (pkt : LdnsPkt Rest) (o : Opt) :
    (edns_changed pkt o).rest = pkt.rest := by
  unfold edns_changed change_dns_pkt_edns
  split_ifs <;> rfl

theorem data_changed (pkt : LdnsPkt Rest) (q : EdnsPart) {val : UInt32}
    (keeps : q = .edns_do → val ≠ 0) :
    (edns_changed pkt ⟨q.part, val⟩).edns_data = pkt.edns_data := by
  cases q with
  | edns_do =>
      have set : edns_changed pkt ⟨EdnsPart.part .edns_do, val⟩ = _ :=
        edns_changed_set pkt (keeps rfl)
      rw [set]
  | udp_size => rfl
  | extended_rcode => rfl
  | version => rfl
  | z => rfl

theorem opt_record_cleared (present : Rest → Bool) (pkt : LdnsPkt Rest) :
    opt_record present (cleared pkt) =
      if present pkt.rest then some ⟨0, 0, 0, 0, []⟩ else none := by
  unfold opt_record cleared
  simp

/-- A field with a value shows, if it makes a record or there is one anyhow. -/
theorem opt_record_ne {present : Rest → Bool} {changed pkt : LdnsPkt Rest} {p : EdnsPart}
    (rest : changed.rest = pkt.rest) (other : p ≠ .edns_do) (value : p.field changed ≠ 0)
    (shows : p = .udp_size ∨ p = .extended_rcode ∨ present pkt.rest = true) :
    opt_record present changed ≠ opt_record present (cleared pkt) := by
  rw [opt_record_cleared]
  unfold opt_record
  rw [rest]
  by_cases shown : present pkt.rest = true
  · rw [if_pos (Or.inr (Or.inr (Or.inr (Or.inr shown)))), if_pos shown]
    intro same
    obtain ⟨udp_size, extended_rcode, version, flags, _data⟩ :=
      OptRecord.mk.inj (Option.some.inj same)
    cases p with
    | edns_do => exact other rfl
    | udp_size => exact value (congrArg UInt16.toNat udp_size)
    | extended_rcode => exact value (congrArg UInt8.toNat extended_rcode)
    | version => exact value (congrArg UInt8.toNat version)
    | z =>
        split at flags
        · exact (by decide : ¬ (0x8000 : UInt16) = 0) (UInt16.or_eq_zero_iff.mp flags).2
        · exact value (congrArg UInt16.toNat flags)
  · rw [if_neg shown]
    have set : changed.edns_udp_size ≠ 0 ∨ changed.edns_extended_rcode ≠ 0 := by
      rcases shows with rfl | rfl | is
      · exact Or.inl fun zero => value (congrArg UInt16.toNat zero)
      · exact Or.inr fun zero => value (congrArg UInt8.toNat zero)
      · exact absurd is shown
    rw [if_pos (Or.inr (or_assoc.mp (Or.inl set)))]
    exact Option.some_ne_none _

private theorem cleared_changed (pkt : LdnsPkt Rest) (p : EdnsPart) {val : UInt32}
    (nothing : p.cut val = 0) : edns_changed (cleared pkt) ⟨p.part, val⟩ = cleared pkt := by
  have zero (q : EdnsPart) : q.field (cleared pkt) = 0 := by
    cases q <;> rfl
  have unset : p = .edns_do → val = 0 := by
    intro same
    subst same
    by_contra nonzero
    have positive : val > 0 := UInt32.pos_iff_ne_zero.mpr nonzero
    simp only [EdnsPart.cut, if_pos positive] at nothing
    cases nothing
  by_cases deletes : p = .edns_do
  · rw [unset deletes, deletes]
    rfl
  · have keeps : p = .edns_do → val ≠ 0 := fun same => absurd same deletes
    apply LdnsPkt.eq_of_fields
    · intro q
      by_cases same : p = q
      · subst same
        rw [field_changed_own, nothing, zero]
      · rw [field_changed_other _ same keeps]
    · exact data_changed _ p keeps
    · exact rest_changed _ _

end edns

/-! ### The loop over the EDNS options -/

section loop

variable {Rest : Type} (order : HashTable.Order UInt32 UInt32)

def EdnsOnly (opt : Options) : Prop := ∀ part ∈ opt, ∃ p : EdnsPart, p.part = part

def edns_final (pkt : LdnsPkt Rest) (opt : Options) : LdnsPkt Rest :=
  (order.through opt).foldl edns_changed pkt

variable {order} {opt : Options}

theorem EdnsOnly.entry (edns_only : EdnsOnly opt) {o : Opt}
    (member : o ∈ order.through opt) :
    ∃ p : EdnsPart, o = ⟨p.part, o.2⟩ ∧ opt.lookup p.part = some o.2 := by
  have stored := HashTable.Order.mem_through.mp member
  obtain ⟨p, same⟩ := edns_only o.1 (HashTable.mem_iff_lookup.mpr ⟨o.2, stored⟩)
  refine ⟨p, ?_, ?_⟩
  · rw [same]
  · rw [same]
    exact stored

private theorem change_dns_pkt_edns_ok (pkt : LdnsPkt Rest) (p : EdnsPart) (val : UInt32) :
    (change_dns_pkt_edns pkt p.part val).1 = true := by
  cases p with
  | edns_do =>
      unfold change_dns_pkt_edns
      simp only [EdnsPart.part, if_true]
      split <;> rfl
  | udp_size => rfl
  | extended_rcode => rfl
  | version => rfl
  | z => rfl

private theorem edns_loop (edns_only : EdnsOnly opt) (pkt : LdnsPkt Rest) :
    (order.through opt).foldl change_edns_opt (true, pkt) =
      (true, edns_final order pkt opt) := by
  have each (items : List Opt) :
      (∀ o ∈ items, ∃ p : EdnsPart, o = ⟨p.part, o.2⟩) → ∀ pkt : LdnsPkt Rest,
        items.foldl change_edns_opt (true, pkt) = (true, items.foldl edns_changed pkt) := by
    induction items with
    | nil => intro _parts pkt; rfl
    | cons o rest ih =>
        intro parts pkt
        obtain ⟨p, split⟩ := parts o List.mem_cons_self
        have step : change_edns_opt (true, pkt) o = (true, edns_changed pkt o) := by
          rw [split]
          exact Prod.ext (change_dns_pkt_edns_ok pkt p o.2) rfl
        rw [List.foldl_cons, List.foldl_cons, step]
        exact ih (fun o member => parts o (List.mem_cons_of_mem _ member)) _
  apply each
  intro o member
  obtain ⟨p, split, _stored⟩ := edns_only.entry member
  exact ⟨p, split⟩

theorem rest_foldl (items : List Opt) (pkt : LdnsPkt Rest) :
    (items.foldl edns_changed pkt).rest = pkt.rest := by
  apply List.foldlRecOn (motive := fun final : LdnsPkt Rest => final.rest = pkt.rest)
  · rfl
  · intro final same o _member
    exact (rest_changed final o).trans same

section kept

variable (edns_only : EdnsOnly opt) (kept : opt.lookup EDNS_DO ≠ some 0)

include edns_only kept

theorem entry_keeps {o : Opt} (member : o ∈ order.through opt) :
    ∃ p : EdnsPart, o = ⟨p.part, o.2⟩ ∧ (p = .edns_do → o.2 ≠ 0) := by
  obtain ⟨p, split, stored⟩ := edns_only.entry member
  refine ⟨p, split, ?_⟩
  intro same zero
  rw [same, zero] at stored
  exact kept stored

/-- Where DO is not unset, each field holds what its own option asks for. -/
theorem edns_final_field (pkt : LdnsPkt Rest) (p : EdnsPart) :
    p.field (edns_final order pkt opt) = (opt.lookup p.part).elim (p.field pkt) p.cut := by
  unfold edns_final
  apply HashTable.Order.view_foldl (fun pkt : LdnsPkt Rest => p.field pkt)
    (fun val _old => p.cut val) order opt
  · intro current o member other
    obtain ⟨q, split, keeps⟩ := entry_keeps edns_only kept member
    rw [split] at other ⊢
    exact field_changed_other current (fun same => other (congrArg EdnsPart.part same)) keeps
  · intro current val
    exact field_changed_own current p val

private theorem edns_final_data (pkt : LdnsPkt Rest) :
    (edns_final order pkt opt).edns_data = pkt.edns_data := by
  unfold edns_final
  apply List.foldlRecOn (motive := fun final : LdnsPkt Rest => final.edns_data = pkt.edns_data)
  · rfl
  · intro final same o member
    obtain ⟨q, split, keeps⟩ := entry_keeps edns_only kept member
    rw [split, ← same]
    exact data_changed final q keeps

end kept

/-- Unsetting DO clears the field of another option, which has a value and shows: a size
or a response code always does, the others only in a record that is there anyhow. -/
def Conflict (shown : Bool) (opt : Options) : Prop :=
  opt.lookup EDNS_DO = some 0 ∧ ∃ p : EdnsPart, p ≠ .edns_do ∧
    (∃ val, opt.lookup p.part = some val ∧ p.cut val ≠ 0) ∧
      (p = .udp_size ∨ p = .extended_rcode ∨ shown = true)

theorem cleared_of_rest {left right : LdnsPkt Rest} (same : left.rest = right.rest) :
    cleared left = cleared right := by
  unfold cleared
  rw [same]

private theorem edns_final_of_cleared (holds : LdnsPkt Rest → Prop)
    (unset : opt.lookup EDNS_DO = some 0) {pkt : LdnsPkt Rest} (start : holds (cleared pkt))
    (stays : ∀ final, holds final → ∀ o ∈ order.through opt, holds (edns_changed final o)) :
    holds (edns_final order pkt opt) := by
  have listed : (⟨EDNS_DO, 0⟩ : Opt) ∈ order.through opt :=
    HashTable.Order.mem_through.mpr unset
  obtain ⟨front, back, split⟩ := List.append_of_mem listed
  have mid := rest_foldl front pkt
  unfold edns_final
  rw [split, List.foldl_append, List.foldl_cons, edns_changed_unset, cleared_of_rest mid]
  apply List.foldlRecOn (motive := holds)
  · exact start
  · intro final current o later
    refine stays final current o ?_
    rw [split]
    exact List.mem_append_right _ (List.mem_cons_of_mem _ later)

/-- An option beside the one that unsets DO has no value, if its value would show. -/
theorem cut_of_free {shown : Bool} (unset : opt.lookup EDNS_DO = some 0)
    (free : ¬ Conflict shown opt) {p : EdnsPart} {val : UInt32}
    (stored : opt.lookup p.part = some val)
    (shows : p = .edns_do ∨ p = .udp_size ∨ p = .extended_rcode ∨ shown = true) :
    p.cut val = 0 := by
  by_cases deletes : p = .edns_do
  · rw [deletes] at stored ⊢
    rw [Option.some.inj (stored.symm.trans unset)]
    rfl
  · by_contra value
    exact free ⟨unset, p, deletes, ⟨val, stored, value⟩, shows.resolve_left deletes⟩

private structure Blank (pkt : LdnsPkt Rest) : Prop where
  edns_do : pkt.edns_do = false
  udp_size : pkt.edns_udp_size = 0
  extended_rcode : pkt.edns_extended_rcode = 0
  edns_data : pkt.edns_data = none

private theorem Blank.changed {final : LdnsPkt Rest} (blank : Blank final) {p : EdnsPart}
    {val : UInt32}
    (nothing : p = .edns_do ∨ p = .udp_size ∨ p = .extended_rcode → p.cut val = 0) :
    Blank (edns_changed final ⟨p.part, val⟩) := by
  cases p with
  | edns_do =>
      have zero : ¬ val > 0 := by
        intro positive
        have one : EdnsPart.cut .edns_do val = 1 := if_pos positive
        rw [nothing (Or.inl rfl)] at one
        cases one
      have unset : edns_changed final ⟨EDNS_DO, val⟩ = cleared final := by
        unfold edns_changed change_dns_pkt_edns
        rw [if_pos rfl, if_neg zero]
        rfl
      exact unset ▸ ⟨rfl, rfl, rfl, rfl⟩
  | udp_size =>
      exact ⟨blank.edns_do, UInt16.toNat_inj.mp (nothing (Or.inr (Or.inl rfl))),
        blank.extended_rcode, blank.edns_data⟩
  | extended_rcode =>
      exact ⟨blank.edns_do, blank.udp_size, UInt8.toNat_inj.mp (nothing (Or.inr (Or.inr rfl))),
        blank.edns_data⟩
  | version => exact ⟨blank.edns_do, blank.udp_size, blank.extended_rcode, blank.edns_data⟩
  | z => exact ⟨blank.edns_do, blank.udp_size, blank.extended_rcode, blank.edns_data⟩

/-- Where DO is unset and no other option shows, the packet is printed without EDNS, or
with an empty record. -/
theorem opt_record_unset {present : Rest → Bool} {pkt : LdnsPkt Rest} (edns_only : EdnsOnly opt)
    (unset : opt.lookup EDNS_DO = some 0) (free : ¬ Conflict (present pkt.rest) opt) :
    opt_record present (edns_final order pkt opt) = opt_record present (cleared pkt) := by
  cases shown : present pkt.rest with
  | true =>
      rw [shown] at free
      have final : edns_final order pkt opt = cleared pkt := by
        apply edns_final_of_cleared (fun final => final = cleared pkt) unset
        · rfl
        · intro final same o member
          obtain ⟨p, shape, stored⟩ := edns_only.entry member
          subst same
          rw [shape]
          exact cleared_changed pkt p
            (cut_of_free unset free stored (Or.inr (Or.inr (Or.inr rfl))))
      rw [final]
  | false =>
      have blank : Blank (edns_final order pkt opt) := by
        apply edns_final_of_cleared Blank unset
        · exact ⟨rfl, rfl, rfl, rfl⟩
        · intro final current o member
          obtain ⟨p, shape, stored⟩ := edns_only.entry member
          rw [shape]
          apply current.changed
          intro shows
          apply cut_of_free unset free stored
          rcases shows with same | same | same
          · exact Or.inl same
          · exact Or.inr (Or.inl same)
          · exact Or.inr (Or.inr (Or.inl same))
      have rest : (edns_final order pkt opt).rest = pkt.rest := rest_foldl _ pkt
      rw [opt_record_cleared, shown]
      unfold opt_record
      rw [blank.edns_do, blank.udp_size, blank.extended_rcode, blank.edns_data, rest, shown]
      rfl

private theorem opt_record_final {present : Rest → Bool} {order' : HashTable.Order UInt32 UInt32}
    {opt' : Options} {pkt : LdnsPkt Rest} (edns_only : EdnsOnly opt)
    (edns_only' : EdnsOnly opt') (same : ∀ part, opt.lookup part = opt'.lookup part)
    (free : ¬ Conflict (present pkt.rest) opt) :
    opt_record present (edns_final order pkt opt) =
      opt_record present (edns_final order' pkt opt') := by
  by_cases unset : opt.lookup EDNS_DO = some 0
  · have free' : ¬ Conflict (present pkt.rest) opt' := by
      unfold Conflict at free ⊢
      simp only [← same]
      exact free
    rw [opt_record_unset edns_only unset free,
      opt_record_unset edns_only' (same EDNS_DO ▸ unset) free']
  · have unset' : opt'.lookup EDNS_DO ≠ some 0 := same EDNS_DO ▸ unset
    have final : edns_final order pkt opt = edns_final order' pkt opt' := by
      apply LdnsPkt.eq_of_fields
      · intro p
        rw [edns_final_field edns_only unset, edns_final_field edns_only' unset', same]
      · rw [edns_final_data edns_only unset, edns_final_data edns_only' unset']
      · exact (rest_foldl _ pkt).trans (rest_foldl _ pkt).symm
    rw [final]

/-- The option that unsets DO may come last. -/
theorem exists_order_cleared (unset : opt.lookup EDNS_DO = some 0) (pkt : LdnsPkt Rest) :
    ∃ order, edns_final order pkt opt = cleared pkt := by
  have member : ⟨EDNS_DO, 0⟩ ∈ opt.entries := AList.mem_lookup_iff.mp unset
  have arranged : (opt.entries.erase ⟨EDNS_DO, 0⟩ ++ [(⟨EDNS_DO, 0⟩ : Opt)]).Perm opt.entries :=
    (List.perm_append_singleton _ _).trans (List.perm_cons_erase member).symm
  obtain ⟨order, through⟩ := HashTable.Order.exists_through arranged
  refine ⟨order, ?_⟩
  unfold edns_final
  rw [through, List.foldl_append, List.foldl_cons, List.foldl_nil, edns_changed_unset]
  exact cleared_of_rest (rest_foldl _ pkt)

/-- It may come first, and another option then has its way. -/
theorem exists_order_kept (edns_only : EdnsOnly opt) (unset : opt.lookup EDNS_DO = some 0)
    {p : EdnsPart} (other : p ≠ .edns_do) {val : UInt32} (asked : opt.lookup p.part = some val)
    (pkt : LdnsPkt Rest) : ∃ order, p.field (edns_final order pkt opt) = p.cut val := by
  have member : ⟨EDNS_DO, 0⟩ ∈ opt.entries := AList.mem_lookup_iff.mp unset
  have arranged := (List.perm_cons_erase member).symm
  obtain ⟨order, through⟩ := HashTable.Order.exists_through arranged
  have once : (order.through opt).NodupKeys :=
    (List.perm_nodupKeys (order.perm opt)).mpr opt.nodupKeys
  have found : (order.through opt).dlookup p.part = some val :=
    (HashTable.Order.dlookup_through p.part).trans asked
  have key : p.part ≠ EDNS_DO := fun same => other (EdnsPart.part_injective same)
  rw [through] at once found
  rw [List.dlookup_cons_ne _ _ key] at found
  obtain ⟨fresh, restOnce⟩ := List.nodupKeys_cons.mp once
  refine ⟨order, ?_⟩
  unfold edns_final
  rw [through, List.foldl_cons,
    HashTable.view_foldl (fun pkt : LdnsPkt Rest => p.field pkt) (fun val _old => p.cut val)
      restOnce _ (fun current val => field_changed_own current p val), found]
  · rfl
  · intro current o later different
    have stored : o ∈ order.through opt := by
      rw [through]
      exact List.mem_cons_of_mem _ later
    obtain ⟨q, shape, _asked⟩ := edns_only.entry stored
    have keeps : q = .edns_do → o.2 ≠ 0 := by
      intro same _zero
      apply fresh
      have first : o.1 = EDNS_DO := by
        rw [shape, same]
        rfl
      have key := List.mem_keys_of_mem later
      rw [first] at key
      exact key
    rw [shape] at different ⊢
    exact field_changed_other current (fun same => different (congrArg EdnsPart.part same)) keeps

end loop

/-! ### The whole packet -/

section whole

variable {bits : HeaderBits} {raw : Bytes} {opt : Options}

private theorem eq_of_bits {left right : Bytes} (length : left.length = right.length)
    (same : ∀ i k, k < 8 → bit left i k = bit right i k) : left = right := by
  apply List.ext_getElem length
  intro i there here
  apply UInt8.toBitVec_inj.mp
  apply BitVec.eq_of_getLsbD_eq
  intro k within
  have one := same i k within
  rw [bit_some there, bit_some here, Option.some.injEq, List.getD_eq_getElem _ _ there,
    List.getD_eq_getElem _ _ here] at one
  exact one

private theorem opts_changed_buf (order order' : HashTable.Order UInt32 UInt32) :
    (opts_changed bits order raw opt).buf = (opts_changed bits order' raw opt).buf := by
  apply eq_of_bits
  · exact (opts_changed_sound order).1.trans (opts_changed_sound order').1.symm
  · intro i k within
    by_cases owned : ∃ p : HeaderPart, p.byte bits = i ∧ p.Touches bits k
    · obtain ⟨p, rfl, own⟩ := owned
      rw [opts_changed_bit order p within own, opts_changed_bit order' p within own]
    · push Not at owned
      rw [opts_changed_bit_other order within (fun p _given => owned p),
        opts_changed_bit_other order' within (fun p _given => owned p)]

theorem opts_changed_edns_only (order : HashTable.Order UInt32 UInt32) :
    EdnsOnly (opts_changed bits order raw opt).edns_opt := by
  intro part given
  obtain ⟨val, found⟩ := HashTable.mem_iff_lookup.mp given
  rw [opts_changed_edns] at found
  by_cases valid : valid_option part EDNS_DO EDNS_Z = true
  · exact (edns_option_iff part).mp valid
  · rw [if_neg valid] at found
    cases found

theorem opts_changed_edns_part (order : HashTable.Order UInt32 UInt32) (p : EdnsPart) :
    (opts_changed bits order raw opt).edns_opt.lookup p.part = opt.lookup p.part := by
  rw [opts_changed_edns]
  exact if_pos ((edns_option_iff p.part).mpr ⟨p, rfl⟩)

private theorem opts_changed_conflict (order : HashTable.Order UInt32 UInt32) (shown : Bool) :
    Conflict shown (opts_changed bits order raw opt).edns_opt ↔ Conflict shown opt := by
  have unset : (opts_changed bits order raw opt).edns_opt.lookup EDNS_DO = opt.lookup EDNS_DO :=
    opts_changed_edns_part order .edns_do
  unfold Conflict
  simp only [unset, opts_changed_edns_part]

theorem change_dns_pkt_eq {Rest : Type} (ldns : Ldns Rest)
    (opt_order edns_order : HashTable.Order UInt32 UInt32) (nonempty : raw ≠ [])
    (fits : Fits ldns.bits raw opt) :
    change_dns_pkt ldns opt_order edns_order raw opt =
      if (opts_changed ldns.bits opt_order raw opt).edns_opt.size = 0 then
        .ok (true, some (opts_changed ldns.bits opt_order raw opt).buf)
      else
        match ldns.wire2pkt (opts_changed ldns.bits opt_order raw opt).buf with
        | .error s => .error (.exit ("cannot parse packet:" ++ s))
        | .ok pkt =>
            match ldns.pkt2wire
                (edns_final edns_order pkt (opts_changed ldns.bits opt_order raw opt).edns_opt) with
            | .error _ => .ok (false, none)
            | .ok wire => .ok (true, some wire) := by
  have header_ok : (opts_changed ldns.bits opt_order raw opt).header_ok = true :=
    (opts_changed_sound opt_order).2
  unfold change_dns_pkt
  rw [if_neg nonempty, opt_loop_fits opt_order fits]
  simp only [header_ok]
  by_cases none : (opts_changed ldns.bits opt_order raw opt).edns_opt.size = 0
  · rw [if_pos none, if_pos none]
  · rw [if_neg none, if_neg none]
    cases ldns.wire2pkt (opts_changed ldns.bits opt_order raw opt).buf with
    | error s => rfl
    | ok pkt =>
        simp only [edns_loop (opts_changed_edns_only opt_order)]
        cases ldns.pkt2wire
          (edns_final edns_order pkt (opts_changed ldns.bits opt_order raw opt).edns_opt) with
        | error s => rfl
        | ok wire => rfl

def with_header_opts (bits : HeaderBits) (raw : Bytes) (opt : Options) : Bytes :=
  (opts_changed bits .stored raw opt).buf

variable {Rest : Type} {ldns : Ldns Rest} {present : Rest → Bool}

private theorem change_dns_pkt_same (printer : ldns.PrintsOpt present)
    (free : raw ≠ [] → Fits ldns.bits raw opt →
      ∀ pkt, ldns.wire2pkt (with_header_opts ldns.bits raw opt) = .ok pkt →
        ¬ Conflict (present pkt.rest) opt)
    (opt_order edns_order opt_order' edns_order' : HashTable.Order UInt32 UInt32) :
    change_dns_pkt ldns opt_order edns_order raw opt =
      change_dns_pkt ldns opt_order' edns_order' raw opt := by
  by_cases empty : raw = []
  · unfold change_dns_pkt
    rw [if_pos empty, if_pos empty]
  by_cases fits : Fits ldns.bits raw opt
  · have tables (part : UInt32) :
        (opts_changed ldns.bits opt_order raw opt).edns_opt.lookup part =
          (opts_changed ldns.bits opt_order' raw opt).edns_opt.lookup part := by
      rw [opts_changed_edns, opts_changed_edns]
    have sizes : (opts_changed ldns.bits opt_order raw opt).edns_opt.size = 0 ↔
        (opts_changed ldns.bits opt_order' raw opt).edns_opt.size = 0 := by
      simp only [HashTable.size_eq_zero, tables]
    rw [change_dns_pkt_eq ldns _ _ empty fits, change_dns_pkt_eq ldns _ _ empty fits,
      opts_changed_buf opt_order' .stored, opts_changed_buf opt_order .stored]
    simp only [sizes]
    cases parsed : ldns.wire2pkt (opts_changed ldns.bits .stored raw opt).buf with
    | error s => rfl
    | ok pkt =>
        have apart : ¬ Conflict (present pkt.rest)
            (opts_changed ldns.bits opt_order raw opt).edns_opt := by
          rw [opts_changed_conflict]
          exact free empty fits pkt parsed
        have records : opt_record present
              (edns_final edns_order pkt (opts_changed ldns.bits opt_order raw opt).edns_opt) =
            opt_record present
              (edns_final edns_order' pkt (opts_changed ldns.bits opt_order' raw opt).edns_opt) :=
          opt_record_final (opts_changed_edns_only opt_order) (opts_changed_edns_only opt_order')
            tables apart
        have alike := (printer.alike _ pkt parsed _ _ (rest_foldl _ pkt) (rest_foldl _ pkt)).mpr
          records
        change ldns.pkt2wire (edns_final _ _ _) = ldns.pkt2wire (edns_final _ _ _) at alike
        simp only [alike]
  · unfold change_dns_pkt
    rw [if_neg empty, if_neg empty, opt_loop_short opt_order fits,
      opt_loop_short opt_order' fits]

/-- A conflict shows: the same packet loses EDNS in one order and has the field of an
option set in another. -/
theorem change_dns_pkt_conflict (printer : ldns.PrintsOpt present) (nonempty : raw ≠ [])
    (fits : Fits ldns.bits raw opt) {pkt : LdnsPkt Rest}
    (parsed : ldns.wire2pkt (with_header_opts ldns.bits raw opt) = .ok pkt)
    (conflict : Conflict (present pkt.rest) opt) :
    ∃ edns_order edns_order', change_dns_pkt ldns .stored edns_order raw opt ≠
      change_dns_pkt ldns .stored edns_order' raw opt := by
  obtain ⟨unset, p, other, ⟨val, asked, value⟩, shows⟩ := conflict
  let edns_opt := (opts_changed ldns.bits .stored raw opt).edns_opt
  have unset' : edns_opt.lookup EDNS_DO = some 0 :=
    (opts_changed_edns_part .stored .edns_do).trans unset
  have asked' : edns_opt.lookup p.part = some val :=
    (opts_changed_edns_part .stored p).trans asked
  have some : ¬ edns_opt.size = 0 := by
    intro none
    rw [HashTable.size_eq_zero.mp none] at unset'
    cases unset'
  have result (edns_order : HashTable.Order UInt32 UInt32) :
      ∃ wire, ldns.pkt2wire (edns_final edns_order pkt edns_opt) = .ok wire ∧
        change_dns_pkt ldns .stored edns_order raw opt = .ok (true, .some wire) := by
    obtain ⟨wire, printed⟩ := printer.prints _ pkt parsed _
      (rest_foldl (edns_order.through edns_opt) pkt)
    refine ⟨wire, printed, ?_⟩
    unfold with_header_opts at parsed
    rw [change_dns_pkt_eq ldns .stored edns_order nonempty fits, if_neg some, parsed]
    change ldns.pkt2wire (edns_final _ _ _) = _ at printed
    simp only [edns_opt] at printed
    simp only [printed]
  obtain ⟨last, gone⟩ := exists_order_cleared unset' pkt
  obtain ⟨first, kept⟩ := exists_order_kept (opts_changed_edns_only .stored) unset' other
    asked' pkt
  refine ⟨first, last, ?_⟩
  intro same
  obtain ⟨wire, printed, lastResult⟩ := result last
  obtain ⟨wire', printed', firstResult⟩ := result first
  rw [lastResult, firstResult] at same
  have equal : wire' = wire := Option.some.inj (Prod.mk.inj (Except.ok.inj same)).2
  have rest : (edns_final first pkt edns_opt).rest = pkt.rest := rest_foldl _ pkt
  have alike := (printer.alike _ pkt parsed _ (cleared pkt) rest rfl).mp
    (printed'.trans (equal ▸ gone ▸ printed.symm))
  exact opt_record_ne rest other (kept ▸ value) shows alike

end whole

private theorem word_injective : Function.Injective word := by
  intro left right same
  obtain ⟨high, low⟩ := List.cons.inj same
  have highs := congrArg UInt8.toNat high
  have lows := congrArg UInt8.toNat (List.cons.inj low).1
  apply UInt16.toNat_inj.mp
  have left_lt := left.toNat_lt
  have right_lt := right.toNat_lt
  have shift : (8 : UInt16).toNat % 16 = 8 := rfl
  simp only [UInt16.toNat_toUInt8, UInt16.toNat_shiftRight, Nat.shiftRight_eq_div_pow,
    shift] at highs lows
  omega

/-- For every packet and all options: the result does not depend on the order in which
the hash maps are gone through, exactly when DO is not unset together with an option
that shows.  A packet that is too short for its header options, or that ldns does not
parse, ends every order in the same way. -/
theorem change_dns_pkt_order_iff {Rest : Type} {ldns : Ldns Rest} {present : Rest → Bool}
    (printer : ldns.PrintsOpt present) (raw : Bytes) (opt : Options) :
    (∀ opt_order edns_order opt_order' edns_order',
        change_dns_pkt ldns opt_order edns_order raw opt =
          change_dns_pkt ldns opt_order' edns_order' raw opt) ↔
      (raw ≠ [] → Fits ldns.bits raw opt →
        ∀ pkt, ldns.wire2pkt (with_header_opts ldns.bits raw opt) = .ok pkt →
          ¬ Conflict (present pkt.rest) opt) := by
  constructor
  · intro same nonempty fits pkt parsed conflict
    obtain ⟨edns_order, edns_order', differ⟩ :=
      change_dns_pkt_conflict printer nonempty fits parsed conflict
    exact differ (same .stored edns_order .stored edns_order')
  · exact fun free opt_order edns_order opt_order' edns_order' =>
      change_dns_pkt_same printer free opt_order edns_order opt_order' edns_order'

/-! ### Queries of a header alone -/

def OptRecord.wire (record : OptRecord) : Bytes :=
  [0, 0, 41] ++ word record.udp_size ++ [record.extended_rcode, record.version] ++
    word record.flags ++ word (UInt16.ofNat record.data.length) ++ record.data

private theorem wire_injective : Function.Injective OptRecord.wire := by
  intro left right same
  unfold OptRecord.wire at same
  obtain ⟨front, data⟩ := List.append_inj same rfl
  obtain ⟨front, _length⟩ := List.append_inj front rfl
  obtain ⟨front, flags⟩ := List.append_inj front rfl
  obtain ⟨front, rest⟩ := List.append_inj front rfl
  obtain ⟨_type, udp_size⟩ := List.append_inj front rfl
  obtain ⟨extended_rcode, version⟩ := List.cons.inj rest
  cases left
  cases right
  simp only at data flags udp_size extended_rcode version
  rw [data, word_injective flags, word_injective udp_size, extended_rcode,
    (List.cons.inj version).1]

/-- `header_ldns` keeps of no packet that it had a record. -/
private theorem edns_record_eq (pkt : LdnsPkt Bytes) :
    edns_record pkt = (opt_record (fun _rest => false) pkt).map OptRecord.wire := by
  unfold edns_record opt_record
  simp only [Bool.false_eq_true, or_false, UInt16.pos_iff_ne_zero, UInt8.pos_iff_ne_zero,
    gt_iff_lt]
  split
  · rfl
  · rfl

private theorem header_ldns_printsOpt : header_ldns.PrintsOpt (fun _rest => false) where
  prints := by
    intro buf pkt _parsed changed _rest
    unfold header_ldns
    simp only
    cases edns_record changed with
    | none => exact ⟨_, rfl⟩
    | some record => exact ⟨_, rfl⟩
  alike := by
    intro buf pkt parsed left right rest rest'
    have twelve : pkt.rest.length = 12 := by
      change (if buf.length = 12 ∧ buf.drop 4 = List.replicate 8 0 then _ else _) = _ at parsed
      split at parsed
      · rename_i header
        rw [← Except.ok.inj parsed]
        exact header.1
      · cases parsed
    have print (some_pkt : LdnsPkt Bytes) (same : some_pkt.rest = pkt.rest) :
        header_ldns.pkt2wire some_pkt = .ok (match opt_record (fun _rest => false) some_pkt with
          | none => pkt.rest
          | some record => pkt.rest.take 11 ++ [1] ++ record.wire) := by
      unfold header_ldns
      simp only [edns_record_eq, same]
      cases opt_record (fun _rest => false) some_pkt with
      | none => rfl
      | some record => rfl
    have longer (record : OptRecord) : pkt.rest ≠ pkt.rest.take 11 ++ [1] ++ record.wire := by
      intro same
      have lengths := congrArg List.length same
      unfold OptRecord.wire at lengths
      simp only [List.length_append, List.length_take, List.length_cons, List.length_nil] at lengths
      omega
    rw [print left rest, print right rest', Except.ok.injEq]
    cases opt_record (fun _rest => false) left with
    | none =>
        cases opt_record (fun _rest => false) right with
        | none => exact iff_of_true rfl rfl
        | some record => exact iff_of_false (longer record) (Option.some_ne_none record).symm
    | some record =>
        cases opt_record (fun _rest => false) right with
        | none => exact iff_of_false (longer record).symm (Option.some_ne_none record)
        | some other =>
            rw [List.append_cancel_left_eq, Option.some.injEq]
            exact wire_injective.eq_iff

def deleted_with_version : Options := (AList.insert EDNS_VERSION 1 ∅).insert EDNS_DO 0

theorem change_dns_pkt_order_version :
    (∀ pkt, header_ldns.wire2pkt (with_header_opts header_ldns.bits plain_query
        deleted_with_version) = .ok pkt → ¬ Conflict false deleted_with_version) ∧
      ∀ opt_order edns_order opt_order' edns_order',
        change_dns_pkt header_ldns opt_order edns_order plain_query deleted_with_version =
          change_dns_pkt header_ldns opt_order' edns_order' plain_query deleted_with_version := by
  have free : ¬ Conflict false deleted_with_version := by
    rintro ⟨_unset, p, other, ⟨val, asked, value⟩, shows⟩
    rcases shows with rfl | rfl | impossible
    · exact Option.some_ne_none val (asked.symm.trans (by decide))
    · exact Option.some_ne_none val (asked.symm.trans (by decide))
    · cases impossible
  exact ⟨fun _pkt _parsed => free, (change_dns_pkt_order_iff header_ldns_printsOpt plain_query
    deleted_with_version).mpr fun _nonempty _fits _pkt _parsed => free⟩

def deleted_with_size : Options := (AList.insert EDNS_UDP_SIZE 4096 ∅).insert EDNS_DO 0

def backwards : HashTable.Order UInt32 UInt32 :=
  ⟨fun table => table.entries.reverse, fun table => List.reverse_perm table.entries⟩

/-- Two orders of one map, one the other backwards, give a query without EDNS and one with
a size of 4096 bytes. -/
theorem deleted_with_size_depends :
    ¬ ∀ opt_order edns_order opt_order' edns_order',
        change_dns_pkt header_ldns opt_order edns_order plain_query deleted_with_size =
          change_dns_pkt header_ldns opt_order' edns_order' plain_query deleted_with_size := by
  intro same
  have one : change_dns_pkt header_ldns .stored .stored plain_query deleted_with_size =
      .ok (true, some plain_query) := rfl
  have other : change_dns_pkt header_ldns .stored backwards plain_query deleted_with_size =
      .ok (true, some ([0, 7, 1, 0, 0, 0, 0, 0, 0, 0, 0, 1] ++
        [0, 0, 41, 16, 0, 0, 0, 0, 0, 0, 0])) := by decide +kernel
  have both := same .stored .stored .stored backwards
  rw [one, other] at both
  cases both

end Mutator

end LDPlayer
