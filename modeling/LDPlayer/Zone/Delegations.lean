/-
The zones of the delegations of a directory.

`process_dns_message` makes zones for the NS records of the answer and of the
authority section of every message, and for those of the answer again.
-/
import LDPlayer.Zone.Indexes

set_option autoImplicit false

namespace LDPlayer

open Text DomainName Actions HashTable

namespace Converter

variable {Data : Type} {dns : Dnspython Data} {order : Order} {rrs : DNSZone Data}

/-! ### What an action adds -/

/-- The zones and the servers of `next` are those of `c` and these. -/
structure Grows (zones : Bytes → Prop) (served : Bytes → Bytes → Prop)
    (c next : Converter Data) : Prop where
  zones : ∀ z, z ∈ next.name2zone ↔ z ∈ c.name2zone ∨ zones z
  serves : ∀ a z, Serves next a z ↔ Serves c a z ∨ served a z

section grows

variable {zones zones' : Bytes → Prop} {served served' : Bytes → Bytes → Prop}
variable {c middle next : Converter Data}

theorem Grows.refl (c : Converter Data) : Grows (fun _z => False) (fun _a _z => False) c c :=
  ⟨fun _z => (or_iff_left not_false).symm, fun _a _z => (or_iff_left not_false).symm⟩

theorem Grows.trans (first : Grows zones served c middle)
    (second : Grows zones' served' middle next) :
    Grows (fun z => zones z ∨ zones' z) (fun a z => served a z ∨ served' a z) c next where
  zones z := by rw [second.zones, first.zones, or_assoc]
  serves a z := by rw [second.serves, first.serves, or_assoc]

theorem Grows.congr (grows : Grows zones served c next) (same : ∀ z, zones z ↔ zones' z)
    (same' : ∀ a z, served a z ↔ served' a z) : Grows zones' served' c next where
  zones z := by rw [grows.zones, same]
  serves a z := by rw [grows.serves, same']

theorem Grows.each {Item : Type} {body : Item → Action Data Unit} {zones : Item → Bytes → Prop}
    {served : Item → Bytes → Bytes → Prop} {items : List Item}
    (step : ∀ item ∈ items, ∀ c next, body item c = .ok () next →
      Grows (zones item) (served item) c next)
    (ended : Actions.each body items c = .ok () next) :
    Grows (fun z => ∃ item ∈ items, zones item z) (fun a z => ∃ item ∈ items, served item a z)
      c next := by
  induction items generalizing c with
  | nil =>
      cases ended
      exact (Grows.refl next).congr (by simp) (by simp)
  | cons item rest ih =>
      rw [each_cons] at ended
      cases result : body item c with
      | error stop middle =>
          rw [result] at ended
          cases ended
      | ok done middle =>
          rw [result] at ended
          have first := step item List.mem_cons_self c middle result
          have later := ih (fun other member => step other (List.mem_cons_of_mem item member)) ended
          exact (first.trans later).congr (by simp) (by simp)

end grows

theorem ok_of_bind {Value Other : Type} {action : Action Data Value}
    {rest : Value → Action Data Other} {c next : Converter Data} {other : Other}
    (ended : (action >>= rest) c = .ok other next) :
    ∃ value middle, action c = .ok value middle ∧ rest value middle = .ok other next := by
  cases first : action c with
  | ok value middle => exact ⟨value, middle, rfl, (bind_of_ok first).symm.trans ended⟩
  | error stop middle =>
      rw [bind_of_error first] at ended
      cases ended

theorem ok_of_value {Value : Type} {result : Except Stop Value} {given : Value}
    {c next : Converter Data} (ended : value result c = .ok given next) :
    result = .ok given ∧ next = c := by
  unfold value at ended
  cases result with
  | error stop => cases ended
  | ok own =>
      cases ended
      exact ⟨rfl, rfl⟩

section steps

variable {c next : Converter Data}

theorem grows_replace {z : Bytes} {zone own : DNSZone Data}
    (found : c.name2zone.lookup z = some zone) (name : Bytes) :
    name ∈ c.name2zone.insert z own ↔ name ∈ c.name2zone ∨ False := by
  have present : z ∈ c.name2zone := mem_iff_lookup.mpr ⟨zone, found⟩
  rw [AList.mem_insert, or_false]
  exact ⟨fun either => either.elim (fun same => same ▸ present) id, Or.inr⟩

theorem add_record_grows {has_class : Bool} {z l : Bytes}
    (ended : add_record dns has_class z l c = .ok () next) :
    Grows (fun _z => False) (fun _a _z => False) c next := by
  unfold add_record at ended
  cases found : c.name2zone.lookup z with
  | none =>
      simp only [found] at ended
      cases ended
  | some zone =>
      simp only [found] at ended
      cases added : zone.add_record dns has_class l with
      | error stop =>
          simp only [added] at ended
          cases ended
      | ok own =>
          simp only [added] at ended
          cases ended
          constructor
          · exact grows_replace found
          · exact fun _a _z => (or_iff_left not_false).symm

private theorem add_records_grows {has_class : Bool} {z : Bytes} {records : List Bytes}
    (ended : each (add_record dns has_class z) records c = .ok () next) :
    Grows (fun _z => False) (fun _a _z => False) c next :=
  (Grows.each (fun _l _member _c _next => add_record_grows) ended).congr (by simp) (by simp)

private theorem zone_address_grows {z a : Bytes} (ended : zone_address z a c = .ok () next) :
    Grows (fun _z => False) (fun addr name => addr = a ∧ name = lower z) c next := by
  obtain ⟨done, middle, first, second⟩ := ok_of_bind ended
  cases second
  unfold add_address at first
  cases found : c.name2zone.lookup z with
  | none =>
      simp only [found] at first
      cases first
  | some zone =>
      simp only [found] at first
      cases first
      constructor
      · exact grows_replace found
      · exact serves_insert rfl

private theorem add_name2zone_grows {name : Bytes}
    (ended : add_name2zone dns name c = .ok () next) :
    Grows (fun z => z = lower name) (fun _a _z => False) c next := by
  unfold add_name2zone at ended
  by_cases present : lower name ∈ c.name2zone
  · rw [if_pos present] at ended
    cases ended
    constructor
    · exact fun z => ⟨Or.inl, fun either => either.elim id (fun same => same ▸ present)⟩
    · exact fun _a _z => (or_iff_left not_false).symm
  · rw [if_neg present] at ended
    cases made : DNSZone.new dns (lower name) with
    | error stop =>
        simp only [made] at ended
        cases ended
    | ok zone =>
        simp only [made] at ended
        cases ended
        constructor
        · intro z
          rw [AList.mem_insert]
          exact or_comm
        · exact fun _a _z => (or_iff_left not_false).symm

end steps

/-! ### The zone-creation loop -/

def Gives (dns : Dnspython Data) (rrs : DNSZone Data) (rd a : Bytes) : Prop :=
  ∃ rt ∈ [ascii "A", ascii "AAAA"], ∃ records,
    rrs.get_record_rdata dns (lower rd) rt = .ok records ∧ a ∈ records

private theorem addresses_grow {z rt rd : Bytes} {c next : Converter Data} {records : List Bytes}
    (given : rrs.get_record_rdata dns (lower rd) rt = .ok records)
    (ended : each (zone_address (lower z)) (order.through records) c = .ok () next) :
    Grows (fun _z => False) (fun a name => name = lower z ∧
      ∃ records, rrs.get_record_rdata dns (lower rd) rt = .ok records ∧ a ∈ records) c next := by
  have step : ∀ a ∈ order.through records, ∀ c next : Converter Data,
      zone_address (lower z) a c = .ok () next →
        Grows (fun _z => False) (fun addr name => addr = a ∧ name = lower (lower z)) c next :=
    fun _a _member _c _next => zone_address_grows
  refine (Grows.each step ended).congr (by simp) ?_
  intro a name
  rw [given, lower_lower]
  constructor
  · rintro ⟨_, member, rfl, rfl⟩
    exact ⟨rfl, records, rfl, (order.perm records).subset member⟩
  · rintro ⟨same, others, is, member⟩
    rw [← Except.ok.inj is] at member
    exact ⟨a, (order.perm records).symm.subset member, rfl, same⟩

private theorem create_zone_server_grows {name rd : Bytes} {c next : Converter Data}
    (ended : create_zone_server dns order rrs name rd c = .ok () next) :
    Grows (fun z => z = lower name) (fun a z => z = lower name ∧ Gives dns rrs rd a) c next := by
  obtain ⟨_, c1, zone, then1⟩ := ok_of_bind ended
  obtain ⟨a_records, c2, read_a, then2⟩ := ok_of_bind then1
  obtain ⟨given_a, same2⟩ := ok_of_value read_a
  obtain ⟨_, c3, first, then3⟩ := ok_of_bind then2
  obtain ⟨aaaa_records, c4, read_aaaa, then4⟩ := ok_of_bind then3
  obtain ⟨given_aaaa, same4⟩ := ok_of_value read_aaaa
  obtain ⟨_, c5, second, then5⟩ := ok_of_bind then4
  obtain ⟨ns_records, c6, read_ns, then6⟩ := ok_of_bind then5
  obtain ⟨_given_ns, same6⟩ := ok_of_value read_ns
  obtain ⟨_, c7, third, then7⟩ := ok_of_bind then6
  rw [same2] at first
  rw [same4] at second
  rw [same6] at third
  have created := ((add_name2zone_grows zone).trans (addresses_grow given_a first)).trans
    ((addresses_grow given_aaaa second).trans (add_records_grows third))
  have rest : Grows (fun _z => False) (fun _a _z => False) c7 next := by
    split at then7
    · obtain ⟨a_lines, c8, read_lines, then8⟩ := ok_of_bind then7
      obtain ⟨_given, same8⟩ := ok_of_value read_lines
      obtain ⟨_, c9, fourth, then9⟩ := ok_of_bind then8
      obtain ⟨aaaa_lines, c10, read_lines', fifth⟩ := ok_of_bind then9
      obtain ⟨_given', same10⟩ := ok_of_value read_lines'
      rw [same8] at fourth
      rw [same10] at fifth
      exact ((add_records_grows fourth).trans (add_records_grows fifth)).congr (by simp) (by simp)
    · cases then7
      exact Grows.refl next
  refine (created.trans rest).congr ?_ ?_
  · intro z
    simp [lower_lower]
  · intro a z
    simp only [or_false, false_or, Gives, List.exists_mem_cons_iff,
      List.not_mem_nil, false_and, exists_false]
    exact (and_or_left).symm

/-- An NS record set makes the zone of its owner, if it has a record. -/
def Makes (rrset : RRset) (z : Bytes) : Prop :=
  rrset.rdtype = RRset.NS ∧ rrset.rds ≠ [] ∧ z = lower rrset.name

/-- It makes an address of one of its servers serve the zone. -/
def MakesServe (dns : Dnspython Data) (rrs : DNSZone Data) (rrset : RRset) (a z : Bytes) : Prop :=
  rrset.rdtype = RRset.NS ∧ z = lower rrset.name ∧ ∃ rd ∈ rrset.rds, Gives dns rrs rd a

private theorem delegation_grows (rrset : RRset) (c next : Converter Data)
    (ended : (if rrset.rdtype = RRset.NS then
      each (create_zone_server dns order rrs rrset.name) rrset.rds else pure () :
        Action Data Unit) c = .ok () next) :
    Grows (Makes rrset) (MakesServe dns rrs rrset) c next := by
  split at ended
  · rename_i delegates
    have step : ∀ rd ∈ rrset.rds, ∀ c next,
        create_zone_server dns order rrs rrset.name rd c = .ok () next →
          Grows (fun z => z = lower rrset.name)
            (fun a z => z = lower rrset.name ∧ Gives dns rrs rd a) c next :=
      fun _rd _within _c _next => create_zone_server_grows
    refine (Grows.each step ended).congr ?_ ?_
    · intro z
      constructor
      · rintro ⟨rd, within, same⟩
        exact ⟨delegates, List.ne_nil_of_mem within, same⟩
      · rintro ⟨_, some, same⟩
        obtain ⟨rd, within⟩ := List.exists_mem_of_ne_nil _ some
        exact ⟨rd, within, same⟩
    · intro a z
      constructor
      · rintro ⟨rd, within, same, gives⟩
        exact ⟨delegates, same, rd, within, gives⟩
      · rintro ⟨_, same, rd, within, gives⟩
        exact ⟨rd, within, same, gives⟩
  · rename_i other
    cases ended
    exact (Grows.refl c).congr (fun z => ⟨False.elim, fun makes => other makes.1⟩)
      (fun a z => ⟨False.elim, fun makes => other makes.1⟩)

private theorem create_zone_grows {rrsets : List RRset} {c next : Converter Data}
    (ended : create_zone dns order rrs rrsets c = .ok () next) :
    Grows (fun z => ∃ rrset ∈ rrsets, Makes rrset z)
      (fun a z => ∃ rrset ∈ rrsets, MakesServe dns rrs rrset a z) c next :=
  Grows.each (fun rrset _member => delegation_grows rrset) ended

/-- The loop makes the zones of the answer and of the authority sections, and no others. -/
theorem create_zones_grows {dns_msg : List (Bytes × DNSMessage)} {c next : Converter Data}
    (ended : each (fun entry => create_zones dns order rrs entry.2) dns_msg c = .ok () next) :
    Grows
      (fun z => ∃ entry ∈ dns_msg, ∃ rrset ∈ entry.2.answer ++ entry.2.authority, Makes rrset z)
      (fun a z => ∃ entry ∈ dns_msg, ∃ rrset ∈ entry.2.answer ++ entry.2.authority,
        MakesServe dns rrs rrset a z) c next := by
  refine Grows.each ?_ ended
  intro entry _member c next ended
  obtain ⟨_, c1, answer, then1⟩ := ok_of_bind ended
  obtain ⟨_, c2, authority, again⟩ := ok_of_bind then1
  have all := ((create_zone_grows answer).trans (create_zone_grows authority)).trans
    (create_zone_grows again)
  refine all.congr ?_ ?_
  · intro z
    simp only [List.mem_append, or_and_right, exists_or]
    exact or_iff_left_of_imp Or.inl
  · intro a z
    simp only [List.mem_append, or_and_right, exists_or]
    exact or_iff_left_of_imp Or.inl

/-! ### Lost delegations -/

def DNSMessage.rrsets (msg : DNSMessage) : List RRset :=
  msg.answer ++ msg.authority ++ msg.additional

/-- Every NS record set of every section has its zone, and the zone the addresses
that the records give to its servers. -/
def NoneLost (dns : Dnspython Data) (rrs : DNSZone Data) (dns_msg : List (Bytes × DNSMessage))
    (c : Converter Data) : Prop :=
  ∀ entry ∈ dns_msg, ∀ rrset ∈ DNSMessage.rrsets entry.2, rrset.rdtype = RRset.NS →
    lower rrset.name ∈ c.name2zone ∧
      ∀ rd ∈ rrset.rds, ∀ a, Gives dns rrs rd a → Serves c a (lower rrset.name)

/-- The zone and the addresses of a record set are there before, or an NS record set
of an answer or authority section makes them. -/
structure Known (dns : Dnspython Data) (rrs : DNSZone Data) (dns_msg : List (Bytes × DNSMessage))
    (c : Converter Data) (rrset : RRset) : Prop where
  zone : lower rrset.name ∈ c.name2zone ∨
    ∃ entry ∈ dns_msg, ∃ other ∈ entry.2.answer ++ entry.2.authority,
      Makes other (lower rrset.name)
  serves : ∀ rd ∈ rrset.rds, ∀ a, Gives dns rrs rd a → Serves c a (lower rrset.name) ∨
    ∃ entry ∈ dns_msg, ∃ other ∈ entry.2.answer ++ entry.2.authority,
      MakesServe dns rrs other a (lower rrset.name)

/-- After the loop no delegation is lost exactly if those of the additional sections
are known from elsewhere; so must be the owner of a set without a record. -/
theorem none_lost_iff {dns_msg : List (Bytes × DNSMessage)} {c next : Converter Data}
    (ended : each (fun entry => create_zones dns order rrs entry.2) dns_msg c = .ok () next) :
    NoneLost dns rrs dns_msg next ↔
      ∀ entry ∈ dns_msg, ∀ rrset ∈ DNSMessage.rrsets entry.2, rrset.rdtype = RRset.NS →
        rrset ∈ entry.2.additional ∨ rrset.rds = [] → Known dns rrs dns_msg c rrset := by
  have grows := create_zones_grows ended
  have known_iff (rrset : RRset) : (lower rrset.name ∈ next.name2zone ∧
      ∀ rd ∈ rrset.rds, ∀ a, Gives dns rrs rd a → Serves next a (lower rrset.name)) ↔
        Known dns rrs dns_msg c rrset := by
    simp only [grows.zones, grows.serves]
    exact ⟨fun both => ⟨both.1, both.2⟩, fun known => ⟨known.zone, known.serves⟩⟩
  unfold NoneLost
  simp only [known_iff]
  constructor
  · intro all entry member rrset within delegates _elsewhere
    exact all entry member rrset within delegates
  · intro elsewhere entry member rrset within delegates
    by_cases other : rrset ∈ entry.2.additional ∨ rrset.rds = []
    · exact elsewhere entry member rrset within delegates other
    · -- the loop has made the zone of a set of the first two sections
      obtain ⟨not_additional, some⟩ := not_or.mp other
      have first := (List.mem_append.mp within).resolve_right not_additional
      exact {
        zone := Or.inr ⟨entry, member, rrset, first, delegates, some, rfl⟩
        serves := fun rd own a gives =>
          Or.inr ⟨entry, member, rrset, first, delegates, rfl, rd, own, gives⟩ }

def delegating_com (in_additional : Bool) : List (Bytes × DNSMessage) :=
  let ns : List RRset :=
    [{ name := ascii "com.", rdtype := RRset.NS, rds := [ascii "ns.com."], to_text := [] }]
  [(ascii "1",
    { src_ip := ascii "192.0.2.1"
      answer := []
      authority := if in_additional then [] else ns
      additional := if in_additional then ns else [] })]

def com_records : DNSZone Listed where
  data := ⟨root, [(ascii "ns.com.", 1, ascii "192.0.2.2", 60)]⟩

def com_loop (in_additional : Bool) : Action Listed Unit := do
  process_root_hint Listed.dnspython in_order []
  each (fun entry => create_zones Listed.dnspython in_order com_records entry.2)
    (delegating_com in_additional)

theorem none_lost_authority :
    ∃ c next, each (fun entry => create_zones Listed.dnspython in_order com_records entry.2)
        (delegating_com false) c = .ok () next ∧
      (NoneLost Listed.dnspython com_records (delegating_com false) next ↔
        ∀ entry ∈ delegating_com false, ∀ rrset ∈ DNSMessage.rrsets entry.2,
          rrset.rdtype = RRset.NS → rrset ∈ entry.2.additional ∨ rrset.rds = [] →
            Known Listed.dnspython com_records (delegating_com false) c rrset) := by
  have ends : halt (com_loop false {}) = none := by decide +kernel
  obtain ⟨_, c, _hint, ended⟩ := ok_of_bind (Actions.ended ends)
  exact ⟨c, _, ended, none_lost_iff ended⟩

/-- There is no zone for a delegation of an additional section. -/
theorem additional_delegation_lost :
    ∃ c next, process_root_hint Listed.dnspython in_order [] {} = .ok () c ∧
      each (fun entry => create_zones Listed.dnspython in_order com_records entry.2)
        (delegating_com true) c = .ok () next ∧
      ¬ NoneLost Listed.dnspython com_records (delegating_com true) next := by
  have ends : halt (com_loop true {}) = none := by decide +kernel
  have absent : ascii "com." ∉ (left (com_loop true {})).name2zone := by decide +kernel
  obtain ⟨_, c, hint, ended⟩ := ok_of_bind (Actions.ended ends)
  refine ⟨c, _, hint, ended, ?_⟩
  intro none_lost
  exact absent (none_lost _ List.mem_cons_self _ List.mem_cons_self rfl).1

end Converter

end LDPlayer
