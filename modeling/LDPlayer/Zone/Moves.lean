/-
Which delegations move.

A zone takes a line of another zone unless the owner of the line is foreign to it.
So `fix_delegation` comes to its end exactly when each record that it moves, and
the addresses that go with it, can be in the zone that they are moved to.
-/
import LDPlayer.Zone.InZone

set_option autoImplicit false

namespace LDPlayer

open Text DomainName Actions HashTable

namespace Converter

variable {Data : Type}

/-- The lines that a move of the record from this zone adds to `t`, and the stop where
one of the sets cannot be looked up. -/
def moved_lines (dns : Dnspython Data) (zone : DNSZone Data) (t record : Bytes) :
    Except Stop (List Bytes) := do
  let ns_records ← zone.get_rrset_str dns t (ascii "NS")
  if ns_records = [] then pure []
  else if t <:+ (words record).getLastD [] then do
    let a_records ← zone.get_rrset_str dns ((words record).getLastD []) (ascii "A")
    let aaaa_records ← zone.get_rrset_str dns ((words record).getLastD []) (ascii "AAAA")
    pure (record :: (a_records ++ aaaa_records))
  else pure [record]

/-- The record can be moved from `z` to `t`: zone `t` takes each line. -/
def MoveTaken (dns : Dnspython Data) (Subdomain : Bytes → Bytes → Prop) (z t record : Bytes)
    (c : Converter Data) : Prop :=
  ∀ zone target, c.name2zone.lookup z = some zone → c.name2zone.lookup t = some target →
    ∃ lines, moved_lines dns zone t record = .ok lines ∧
      ∀ line ∈ lines, DNSZone.Takes Subdomain (dns.origin target.data) line

/-- Every step of `fix_delegation` moves what can be moved, from this state on. -/
def DelegationsTaken (dns : Dnspython Data) (order : Order) (Subdomain : Bytes → Bytes → Prop)
    (out : OutputFiles) (c : Converter Data) : Prop :=
  DelegationSteps dns order (MoveTaken dns Subdomain) out c

section steps

variable {dns : Dnspython Data} {order : Order} {Subdomain : Bytes → Bytes → Prop}
variable {c : Converter Data} {zs : List Bytes}

/-! ### One move -/

/-- While lines go from `z` to `t`, zone `z` stays and zone `t` keeps its origin. -/
private structure Between (dns : Dnspython Data) (z t : Bytes) (zone : DNSZone Data)
    (origin : Bytes) (c : Converter Data) : Prop where
  source : c.name2zone.lookup z = some zone
  target : ∃ target, c.name2zone.lookup t = some target ∧ dns.origin target.data = origin

variable {z t origin : Bytes} {zone : DNSZone Data}

private theorem add_record_between (documented : dns.Documented) (other : z ≠ t) (line : Bytes) :
    Keeps (Between dns z t zone origin) (fun _stop _c => True) (add_record dns true t line) := by
  apply add_record_triple
  · exact fun _c _holds _absent => trivial
  · intro c target next holds found added
    refine ⟨?_, next, lookup_insert_eq.trans (if_pos rfl), ?_⟩
    · rw [lookup_insert_eq, if_neg other]
      exact holds.source
    · obtain ⟨same, is, origin⟩ := holds.target
      rw [found] at is
      rw [add_record_origin documented added, Option.some.inj is, origin]
  · exact fun _c _target _stop _holds _found _stopped => trivial

private theorem add_record_ends {line : Bytes} (reads : dns.Reads Subdomain line)
    (between : Between dns z t zone origin c) :
    Ends (add_record dns true t line) c ↔ DNSZone.Takes Subdomain origin line := by
  obtain ⟨target, found, rfl⟩ := between.target
  rw [← reads.add_record_iff target]
  unfold Ends add_record
  simp only [found]
  cases target.add_record dns true line with
  | error stop =>
      refine iff_of_false ?_ ?_
      · rintro ⟨_done, next, impossible⟩
        cases impossible
      · rintro ⟨next, impossible⟩
        cases impossible
  | ok next => exact iff_of_true ⟨(), _, rfl⟩ ⟨next, rfl⟩

private theorem reads_of_given (rereads : dns.Rereads Subdomain) {name rt : Bytes}
    {records : List Bytes} (address : rt = ascii "A" ∨ rt = ascii "AAAA")
    (given : zone.get_rrset_str dns name rt = .ok records) :
    ∀ line ∈ records, dns.Reads Subdomain line := by
  have same : upper rt = rt := by
    rcases address with rfl | rfl
    · rfl
    · rfl
  unfold DNSZone.get_rrset_str at given
  rw [same] at given
  split at given
  · cases given
  · rename_i rrset found
    intro line member
    rw [← Except.ok.inj given, List.mem_dedup] at member
    cases rrset with
    | none => cases member
    | some lines =>
        exact rereads.addresses _ _ rt lines address (DNSZone.raising_ok found) line member

private theorem copy_addresses_between (documented : dns.Documented) (other : z ≠ t)
    (ns_server rt : Bytes) :
    Keeps (Between dns z t zone origin) (fun _stop _c => True)
      (copy_addresses dns order z t ns_server rt) := by
  apply Keeps.bind (keeps_zone_at fun _c holds => ⟨zone, holds.source⟩)
  intro from_zone
  apply Keeps.bind (keeps_value fun _stop _c _holds _stopped => trivial)
  intro records
  exact Keeps.each fun line _member => add_record_between documented other line

private theorem copy_addresses_ends (documented : dns.Documented)
    (rereads : dns.Rereads Subdomain) (other : z ≠ t) {ns_server rt : Bytes}
    (address : rt = ascii "A" ∨ rt = ascii "AAAA") (between : Between dns z t zone origin c) :
    Ends (copy_addresses dns order z t ns_server rt) c ↔
      ∃ records, zone.get_rrset_str dns ns_server rt = .ok records ∧
        ∀ line ∈ records, DNSZone.Takes Subdomain origin line := by
  unfold copy_addresses
  rw [ends_bind_of_ok (zone_at_ok between.source)]
  cases given : zone.get_rrset_str dns ns_server rt with
  | error stop =>
      refine iff_of_false (not_ends (bind_of_error (value_error rfl c))) ?_
      rintro ⟨records, impossible, _taken⟩
      cases impossible
  | ok records =>
      have reads := reads_of_given rereads address given
      have through := order.perm records
      rw [ends_bind_of_ok (value_ok rfl c), each_ends_iff_forall
        (fun line _member => add_record_between documented other line)
        (fun line member state holds => add_record_ends (reads line (through.subset member)) holds)
        c between]
      constructor
      · exact fun taken => ⟨records, rfl, fun line member =>
          taken line (through.symm.subset member)⟩
      · rintro ⟨same, is, taken⟩ line member
        rw [← Except.ok.inj is] at taken
        exact taken line (through.subset member)

private def AddressesTaken (dns : Dnspython Data) (Subdomain : Bytes → Bytes → Prop)
    (zone : DNSZone Data) (origin ns_server rt : Bytes) : Prop :=
  ∃ records, zone.get_rrset_str dns ns_server rt = .ok records ∧
    ∀ line ∈ records, DNSZone.Takes Subdomain origin line

private theorem copy_servers_ends (documented : dns.Documented) (rereads : dns.Rereads Subdomain)
    (other : z ≠ t) {ns_server : Bytes} (between : Between dns z t zone origin c) :
    Ends (copy_servers dns order z t ns_server) c ↔
      (t <:+ ns_server → AddressesTaken dns Subdomain zone origin ns_server (ascii "A") ∧
        AddressesTaken dns Subdomain zone origin ns_server (ascii "AAAA")) := by
  unfold copy_servers
  by_cases inside : t <:+ ns_server
  · rw [if_pos inside, forall_prop_of_true inside]
    apply ends_bind_iff (copy_addresses_ends documented rereads other (Or.inl rfl) between)
    intro _done next ended
    have still := (copy_addresses_between documented other _ _ c between).1 _done next ended
    exact copy_addresses_ends documented rereads other (Or.inr rfl) still
  · rw [if_neg inside]
    exact iff_of_true (ends_pure () c) fun ends => absurd ends inside

private theorem moved_lines_taken {record : Bytes} {ns_records : List Bytes}
    (given : zone.get_rrset_str dns t (ascii "NS") = .ok ns_records) (some : ns_records ≠ []) :
    (∃ lines, moved_lines dns zone t record = .ok lines ∧
        ∀ line ∈ lines, DNSZone.Takes Subdomain origin line) ↔
      DNSZone.Takes Subdomain origin record ∧ (t <:+ (words record).getLastD [] →
        AddressesTaken dns Subdomain zone origin ((words record).getLastD []) (ascii "A") ∧
          AddressesTaken dns Subdomain zone origin ((words record).getLastD []) (ascii "AAAA")) := by
  unfold moved_lines AddressesTaken
  rw [given]
  change (∃ lines, (if ns_records = [] then _ else _) = Except.ok lines ∧ _) ↔ _
  rw [if_neg some]
  by_cases inside : t <:+ (words record).getLastD []
  · rw [if_pos inside, forall_prop_of_true inside]
    cases first : zone.get_rrset_str dns ((words record).getLastD []) (ascii "A") with
    | error stop =>
        refine iff_of_false ?_ ?_
        · rintro ⟨lines, impossible, _taken⟩
          cases impossible
        · rintro ⟨_record, ⟨records, impossible, _taken⟩, _rest⟩
          cases impossible
    | ok a_records =>
        cases second : zone.get_rrset_str dns ((words record).getLastD []) (ascii "AAAA") with
        | error stop =>
            refine iff_of_false ?_ ?_
            · rintro ⟨lines, impossible, _taken⟩
              cases impossible
            · rintro ⟨_record, _first, records, impossible, _taken⟩
              cases impossible
        | ok aaaa_records =>
            constructor
            · rintro ⟨lines, same, taken⟩
              rw [← Except.ok.inj same, List.forall_mem_cons, List.forall_mem_append] at taken
              exact ⟨taken.1, ⟨a_records, rfl, taken.2.1⟩, aaaa_records, rfl, taken.2.2⟩
            · rintro ⟨own, ⟨a, same, taken⟩, aaaa, same', taken'⟩
              refine ⟨_, rfl, ?_⟩
              rw [List.forall_mem_cons, List.forall_mem_append, Except.ok.inj same,
                Except.ok.inj same']
              exact ⟨own, taken, taken'⟩
  · rw [if_neg inside]
    constructor
    · rintro ⟨lines, same, taken⟩
      rw [← Except.ok.inj same] at taken
      exact ⟨taken record List.mem_cons_self, fun ends => absurd ends inside⟩
    · rintro ⟨own, _addresses⟩
      refine ⟨[record], rfl, ?_⟩
      intro line member
      rw [List.mem_singleton.mp member]
      exact own

private theorem move_record_ends (documented : dns.Documented) (rereads : dns.Rereads Subdomain)
    (other : z ≠ t) {record : Bytes} (reads : dns.Reads Subdomain record)
    (own : z ∈ c.name2zone) (present : t ∈ c.name2zone) :
    Ends (move_record dns order z t record) c ↔ MoveTaken dns Subdomain z t record c := by
  obtain ⟨zone, found⟩ := mem_iff_lookup.mp own
  obtain ⟨target, found'⟩ := mem_iff_lookup.mp present
  have between : Between dns z t zone (dns.origin target.data) c := ⟨found, target, found', rfl⟩
  have taken : MoveTaken dns Subdomain z t record c ↔
      ∃ lines, moved_lines dns zone t record = .ok lines ∧
        ∀ line ∈ lines, DNSZone.Takes Subdomain (dns.origin target.data) line := by
    unfold MoveTaken
    simp only [found, found', Option.some.injEq]
    exact ⟨fun moves => moves zone target rfl rfl, fun lines _ _ same same' => same ▸ same' ▸ lines⟩
  rw [taken]
  unfold move_record
  rw [ends_bind_of_ok (zone_at_ok found)]
  cases given : zone.get_rrset_str dns t (ascii "NS") with
  | error stop =>
      refine iff_of_false (not_ends (bind_of_error (value_error rfl c))) ?_
      rintro ⟨lines, impossible, _taken⟩
      unfold moved_lines at impossible
      rw [given] at impossible
      cases impossible
  | ok ns_records =>
      rw [ends_bind_of_ok (value_ok rfl c)]
      by_cases none : ns_records = []
      · rw [if_pos none]
        refine iff_of_true (ends_pure () c) ⟨[], ?_, fun line member =>
          absurd member List.not_mem_nil⟩
        unfold moved_lines
        rw [given]
        exact if_pos none
      · rw [if_neg none, moved_lines_taken given none]
        apply ends_bind_iff (add_record_ends reads between)
        intro _done next ended
        have still := (add_record_between documented other record c between).1 _done next ended
        exact copy_servers_ends documented rereads other still

/-! ### All moves -/

private theorem fix_record_ends (rereads : dns.Rereads Subdomain)
    {good : (z t record : Bytes) → Converter Data → Prop} {names : List Bytes} {record : Bytes}
    {data : Data} (line : record ∈ dns.to_text data)
    (moves : ∀ t ∈ names, z ≠ t → dns.Reads Subdomain (strip record) →
      (Ends (move_record dns order z t (strip record)) c ↔ good z t (strip record) c)) :
    Ends (fix_record dns order names z record) c ↔ RecordSteps good names z record c := by
  unfold fix_record RecordSteps
  simp only [words_strip]
  by_cases blank : strip record = []
  · rw [if_pos blank]
    refine iff_of_true (ends_pure () c) ?_
    intro owner rt t first
    rw [← words_strip, blank] at first
    cases first
  rw [if_neg blank]
  have columns := rereads.columns data record line blank
  have first : (words record)[0]? = some (words record)[0] := List.getElem?_eq_getElem _
  have fourth : (words record)[3]? = some (words record)[3] := List.getElem?_eq_getElem _
  have reads_first : word (words record) 0 = .ok (words record)[0] := by
    unfold word
    rw [first]
  have reads_fourth : word (words record) 3 = .ok (words record)[3] := by
    unfold word
    rw [fourth]
  rw [ends_bind_of_ok (value_ok reads_fourth c)]
  by_cases delegates : upper (words record)[3] = ascii "NS"
  · rw [if_neg (not_not_intro delegates), ends_bind_of_ok (value_ok reads_first c)]
    generalize (words record)[0] = owner at first
    by_cases same : closest names z owner = z
    · rw [if_pos same]
      refine iff_of_true (ends_pure () c) ?_
      intro other rt t begins _fourth _delegates candidate longer longest
      rw [first] at begins
      rw [← Option.some.inj begins] at candidate longest
      exact absurd (closest_of_longest candidate longer longest ▸ same) candidate.other
    · rw [if_neg same]
      obtain ⟨result, bound⟩ := closest_spec names z owner
      obtain ⟨candidate, longer⟩ := result.resolve_left same
      have reads : dns.Reads Subdomain (strip record) := by
        have given := rereads.delegations data record line _ fourth delegates
        unfold Dnspython.Reads at given ⊢
        rw [words_strip]
        exact given
      rw [moves _ candidate.member (Ne.symm same) reads]
      constructor
      · intro moved other rt t begins _fourth _delegates candidate' longer' longest
        rw [first] at begins
        rw [← Option.some.inj begins] at candidate' longest
        rw [← closest_of_longest candidate' longer' longest]
        exact moved
      · intro condition
        exact condition owner _ _ first fourth delegates candidate longer bound
  · rw [if_pos delegates]
    refine iff_of_true (ends_pure () c) ?_
    intro owner rt t _first fourth' delegates'
    rw [fourth] at fourth'
    rw [← Option.some.inj fourth'] at delegates'
    exact absurd delegates' delegates

private theorem fix_zone_ends (documented : dns.Documented) (rereads : dns.Rereads Subdomain)
    {names : List Bytes} (zones : ∀ t ∈ names, t ∈ zs) (own : z ∈ zs) (has : Has zs c) :
    Ends (fix_zone dns order names z) c ↔
      ZoneSteps dns order (MoveTaken dns Subdomain) names z c := by
  unfold fix_zone ZoneSteps
  by_cases atRoot : z = root
  · rw [if_pos atRoot]
    exact iff_of_true (ends_pure () c) fun other => absurd atRoot other
  obtain ⟨zone, found⟩ := has.lookup own
  rw [if_neg atRoot, forall_prop_of_true atRoot, ends_bind_of_ok (zone_at_ok found)]
  have steps : ∀ record ∈ dns.to_text zone.data, ∀ state, Has zs state →
      (Ends (fix_record dns order names z record) state ↔
        RecordSteps (MoveTaken dns Subdomain) names z record state) := by
    intro record line state holds
    apply fix_record_ends rereads line
    intro t member other reads
    exact move_record_ends documented rereads other reads (holds z own) (holds t (zones t member))
  rw [each_ends_iff (fun record _line => fix_record_has zones own) steps c has]
  constructor
  · intro all other same
    rw [← Option.some.inj (found.symm.trans same)]
    exact all
  · exact fun all => all zone found

private theorem write_view_ends (documented : dns.Documented) (rereads : dns.Rereads Subdomain)
    {out : OutputFiles} {clients : HashTable Bytes (List Bytes)} {k : Bytes}
    (zones : ∀ t ∈ zones_of k, t ∈ zs) (has : Has zs c) :
    Ends (write_view dns order out clients k) c ↔
      ViewSteps dns order (MoveTaken dns Subdomain) out clients k c :=
  each_ends_iff (fun z member => fix_zone_has zones (zones z member))
    (fun z member _state holds => fix_zone_ends documented rereads zones (zones z member) holds)
    _ has

/-- The views are written to the end exactly when all moves are taken. -/
theorem write_views_ends (documented : dns.Documented) (rereads : dns.Rereads Subdomain)
    {out : OutputFiles} (zones : ∀ k ∈ views order c, ∀ z ∈ zones_of k, z ∈ c.name2zone) :
    Ends (each (write_view dns order out (views order c)) (order.through (views order c).keys))
        { c with config := [], files := [] } ↔
      DelegationsTaken dns order Subdomain out c := by
  have listed (k : Bytes) (member : k ∈ order.through (views order c).keys) :
      ∀ z ∈ zones_of k, z ∈ c.name2zone.keys := fun z piece =>
    AList.mem_keys.mp (zones k (AList.mem_keys.mp ((order.perm _).subset member)) z piece)
  exact each_ends_iff (fun k member => write_view_has (listed k member))
    (fun k member _state holds => write_view_ends documented rereads (listed k member) holds) _
    fun _z member => AList.mem_keys.mpr member

end steps

end Converter

end LDPlayer
