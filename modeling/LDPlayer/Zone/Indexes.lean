/-
The two indexes of the converter: the zones of an address and the addresses of a
zone.

Every step keeps the indexes in agreement, so no lookup fails while the indexes
are built.  The views take the names of an address apart at bars again, and
their lookups succeed exactly when what they get are zones.
-/
import LDPlayer.Zone.Converter

set_option autoImplicit false

namespace LDPlayer

open Text DomainName Actions HashTable

/-- Neither a key that is missing nor the exit of `find_zone` for one. -/
structure NoLookup (stop : Stop) : Prop where
  key : ∀ key, stop ≠ .keyError key
  message : ∀ n, stop ≠ .exit (Converter.not_in_name2zone n)

theorem noLookup_exit {message : Bytes} {last : UInt8} (ends : message.getLast? = some last)
    (other : last ≠ 101) (n : Bytes) : Stop.exit message ≠ .exit (Converter.not_in_name2zone n) := by
  intro same
  have letter : (Converter.not_in_name2zone n).getLast? = some 101 := by
    unfold Converter.not_in_name2zone
    rw [List.getLast?_append]
    rfl
  rw [← Stop.exit.inj same, ends] at letter
  exact other (Option.some.inj letter)

theorem DNSZone.Ordinary.noLookup {stop : Stop} (ordinary : DNSZone.Ordinary stop) :
    NoLookup stop where
  key := ordinary.key
  message := by
    intro n same
    have bracket := ordinary.message _ same
    exact noLookup_exit bracket (by decide) n rfl

theorem noLookup_subdomain : NoLookup (.raised .notSubdomain) where
  key := fun _key impossible => by cases impossible
  message := fun _n impossible => by cases impossible

private theorem noLookup_not_in_record (src_ip : Bytes) :
    NoLookup (.exit (Converter.not_in_record src_ip)) where
  key := fun _key impossible => by cases impossible
  message := by
    have letter : (Converter.not_in_record src_ip).getLast? = some 100 := by
      unfold Converter.not_in_record
      rw [List.getLast?_append]
      rfl
    exact noLookup_exit letter (by decide)

namespace Converter

variable {Data : Type}

/-- `z` is in `addr2name[a]`. -/
def Serves (c : Converter Data) (a z : Bytes) : Prop :=
  ∃ names, c.addr2name.lookup a = some names ∧ z ∈ names

/-- `z` is a key of `name2zone`, and `a` one of its addresses. -/
def Lists (c : Converter Data) (a z : Bytes) : Prop :=
  ∃ zone, c.name2zone.lookup z = some zone ∧ a ∈ zone.address

structure Indexed (c : Converter Data) : Prop where
  agree : ∀ a z, Serves c a z ↔ Lists c a z
  lower_key : ∀ z ∈ c.name2zone, lower z = z
  some_name : ∀ a names, c.addr2name.lookup a = some names → names ≠ []

def Has (zs : List Bytes) (c : Converter Data) : Prop := ∀ z ∈ zs, z ∈ c.name2zone

/-- The indexes agree, with at least these zones. -/
structure Built (zs : List Bytes) (c : Converter Data) : Prop where
  indexed : Indexed c
  has : Has zs c

def BuiltStop (zs : List Bytes) (stop : Stop) (c : Converter Data) : Prop :=
  Built zs c ∧ NoLookup stop

section steps

variable {dns : Dnspython Data} {order : Order} {zs : List Bytes} {c : Converter Data}

theorem Has.lookup (has : Has zs c) {z : Bytes} (member : z ∈ zs) :
    ∃ zone, c.name2zone.lookup z = some zone :=
  mem_iff_lookup.mp (has z member)

theorem Has.insert (has : Has zs c) (z : Bytes) (zone : DNSZone Data) {other : Converter Data}
    (tables : other.name2zone = c.name2zone.insert z zone) : Has zs other := by
  intro name member
  rw [tables, AList.mem_insert]
  exact Or.inr (has name member)

theorem Indexed.lower_name (indexed : Indexed c) {a z : Bytes} (serves : Serves c a z) :
    lower z = z := by
  obtain ⟨zone, found, _member⟩ := (indexed.agree a z).mp serves
  exact indexed.lower_key z (mem_iff_lookup.mpr ⟨zone, found⟩)

theorem Built.record (built : Built zs c) {z : Bytes} {zone next : DNSZone Data}
    (found : c.name2zone.lookup z = some zone) (same : next.address = zone.address)
    {other : Converter Data} (tables : other.name2zone = c.name2zone.insert z next)
    (names : other.addr2name = c.addr2name) : Built zs other where
  indexed :=
    { agree := by
        intro a name
        have before := built.indexed.agree a name
        unfold Serves Lists at before ⊢
        rw [names, before, tables]
        by_cases own : name = z
        · subst own
          rw [found, lookup_insert_eq, if_pos rfl]
          constructor
          · intro listed
            obtain ⟨old, is, member⟩ := listed
            obtain rfl := Option.some.inj is
            exact ⟨next, rfl, by rw [same]; exact member⟩
          · intro listed
            obtain ⟨new, is, member⟩ := listed
            obtain rfl := Option.some.inj is
            exact ⟨zone, rfl, by rw [← same]; exact member⟩
        · rw [lookup_insert_eq, if_neg own]
      lower_key := by
        intro name member
        rw [tables, AList.mem_insert] at member
        rcases member with own | other
        · rw [own]
          exact built.indexed.lower_key z (mem_iff_lookup.mpr ⟨zone, found⟩)
        · exact built.indexed.lower_key name other
      some_name := by
        rw [names]
        exact built.indexed.some_name }
  has := built.has.insert z next tables

theorem keeps_value {Value : Type} {invariant : Converter Data → Prop}
    {stopped : Stop → Converter Data → Prop} {result : Except Stop Value}
    (stops : ∀ stop c, invariant c → result = .error stop → stopped stop c) :
    Keeps invariant stopped (value result) :=
  (value_triple stops).weaken (fun _c holds => holds) (fun _given _c both => both.2)
    fun _stop _c halted => halted

theorem keeps_zone_at {invariant : Converter Data → Prop}
    {stopped : Stop → Converter Data → Prop} {z : Bytes}
    (finds : ∀ c, invariant c → ∃ zone, c.name2zone.lookup z = some zone) :
    Keeps invariant stopped (zone_at z) := by
  have zone : Triple invariant (zone_at z)
      (fun zone c => c.name2zone.lookup z = some zone ∧ invariant c) stopped := by
    apply zone_at_triple
    intro c holds absent
    obtain ⟨zone, found⟩ := finds c holds
    rw [found] at absent
    cases absent
  exact zone.weaken (fun _c holds => holds) (fun _zone _c both => both.2)
    fun _stop _c halted => halted

theorem Has.not_missing (has : Has zs c) {z : Bytes} (member : z ∈ zs)
    (absent : c.name2zone.lookup z = none) : False := by
  obtain ⟨zone, found⟩ := has.lookup member
  rw [found] at absent
  cases absent

theorem add_record_built {has_class : Bool} {z l : Bytes} (member : z ∈ zs) :
    Keeps (Built zs) (BuiltStop zs) (add_record dns has_class z l) := by
  apply add_record_triple
  · intro c built absent
    exact (built.has.not_missing member absent).elim
  · intro c zone next built found added
    rcases DNSZone.add_record_ok added with rfl | ⟨same, _inserted⟩
    · exact built.record found rfl rfl rfl
    · exact built.record found same rfl rfl
  · intro c zone stop built found stopped
    refine ⟨⟨⟨built.indexed.agree, built.indexed.lower_key, built.indexed.some_name⟩, built.has⟩, ?_⟩
    rcases DNSZone.add_record_stop stopped with ordinary | ⟨rfl, _foreign⟩
    · exact ordinary.noLookup
    · exact noLookup_subdomain

theorem value_built {Value : Type} {result : Except Stop Value}
    (ordinary : ∀ stop, result = .error stop → DNSZone.Ordinary stop) :
    Keeps (Built zs) (BuiltStop zs) (value result : Action Data Value) :=
  keeps_value fun stop _c built stopped => ⟨built, (ordinary stop stopped).noLookup⟩

theorem zone_at_built {z : Bytes} (member : z ∈ zs) :
    Keeps (Built zs) (BuiltStop zs) (zone_at z : Action Data (DNSZone Data)) :=
  keeps_zone_at fun _c built => built.has.lookup member

theorem serves_insert {other : Converter Data} {addr name : Bytes}
    (tables : other.addr2name =
      c.addr2name.insert addr (((c.addr2name.lookup addr).getD []).insert name)) (a z : Bytes) :
    Serves other a z ↔ Serves c a z ∨ a = addr ∧ z = name := by
  unfold Serves
  rw [tables, lookup_insert_eq]
  by_cases own : a = addr
  · subst own
    rw [if_pos rfl]
    cases found : c.addr2name.lookup a with
    | none =>
        constructor
        · intro serves
          obtain ⟨names, is, member⟩ := serves
          rw [← Option.some.inj is] at member
          exact Or.inr ⟨rfl, (List.mem_insert_iff.mp member).resolve_right List.not_mem_nil⟩
        · intro either
          rcases either with ⟨names, is, _member⟩ | ⟨_same, same⟩
          · cases is
          · exact ⟨_, rfl, List.mem_insert_iff.mpr (Or.inl same)⟩
    | some before =>
        constructor
        · intro serves
          obtain ⟨names, is, member⟩ := serves
          rw [← Option.some.inj is] at member
          rcases List.mem_insert_iff.mp member with same | earlier
          · exact Or.inr ⟨rfl, same⟩
          · exact Or.inl ⟨before, rfl, earlier⟩
        · intro either
          rcases either with ⟨names, is, member⟩ | ⟨_same, same⟩
          · rw [← Option.some.inj is] at member
            exact ⟨_, rfl, List.mem_insert_iff.mpr (Or.inr member)⟩
          · exact ⟨_, rfl, List.mem_insert_iff.mpr (Or.inl same)⟩
  · rw [if_neg own]
    constructor
    · exact Or.inl
    · intro either
      exact either.resolve_right fun both => own both.1

private theorem lists_insert {other : Converter Data} {addr name : Bytes} {zone : DNSZone Data}
    (found : c.name2zone.lookup name = some zone)
    (tables : other.name2zone =
      c.name2zone.insert name { zone with address := zone.address.insert addr }) (a z : Bytes) :
    Lists other a z ↔ Lists c a z ∨ a = addr ∧ z = name := by
  unfold Lists
  rw [tables, lookup_insert_eq]
  by_cases own : z = name
  · subst own
    rw [if_pos rfl, found]
    constructor
    · intro lists
      obtain ⟨new, is, member⟩ := lists
      rw [← Option.some.inj is] at member
      rcases List.mem_insert_iff.mp member with same | earlier
      · exact Or.inr ⟨same, rfl⟩
      · exact Or.inl ⟨zone, rfl, earlier⟩
    · intro either
      rcases either with ⟨old, is, member⟩ | ⟨same, _same⟩
      · rw [← Option.some.inj is] at member
        exact ⟨_, rfl, List.mem_insert_iff.mpr (Or.inr member)⟩
      · exact ⟨_, rfl, List.mem_insert_iff.mpr (Or.inl same)⟩
  · rw [if_neg own]
    constructor
    · exact Or.inl
    · intro either
      exact either.resolve_right fun both => own both.2

theorem Built.address (built : Built zs c) {z a : Bytes} {zone : DNSZone Data}
    (found : c.name2zone.lookup z = some zone) {other : Converter Data}
    (zones : other.name2zone =
      c.name2zone.insert z { zone with address := zone.address.insert a })
    (names : other.addr2name =
      c.addr2name.insert a (((c.addr2name.lookup a).getD []).insert (lower z))) :
    Built zs other where
  indexed :=
    { agree := by
        intro addr name
        have key := built.indexed.lower_key z (mem_iff_lookup.mpr ⟨zone, found⟩)
        rw [key] at names
        rw [serves_insert names, lists_insert found zones, built.indexed.agree]
      lower_key := by
        intro name member
        rw [zones, AList.mem_insert] at member
        rcases member with own | other
        · rw [own]
          exact built.indexed.lower_key z (mem_iff_lookup.mpr ⟨zone, found⟩)
        · exact built.indexed.lower_key name other
      some_name := by
        intro addr listed is
        rw [names, lookup_insert_eq] at is
        split at is
        · intro empty
          rw [empty] at is
          exact List.ne_nil_of_mem List.mem_insert_self (Option.some.inj is)
        · exact built.indexed.some_name addr listed is }
  has := built.has.insert z _ zones

theorem zone_address_built {z a : Bytes} (member : z ∈ zs) :
    Keeps (Built zs) (BuiltStop zs) (zone_address z a : Action Data Unit) := by
  intro c built
  obtain ⟨zone, found⟩ := built.has.lookup member
  have moved : zone_address z a c = .ok () { c with
      name2zone := c.name2zone.insert z { zone with address := zone.address.insert a }
      addr2name := c.addr2name.insert a (((c.addr2name.lookup a).getD []).insert (lower z)) } := by
    change EStateM.bind (add_address z a) (fun _done => add_addr2name a z) c = _
    unfold EStateM.bind add_address
    simp only [found]
    rfl
  constructor
  · intro value next ended
    rw [moved] at ended
    cases ended
    exact built.address found rfl rfl
  · intro stop next stopped
    rw [moved] at stopped
    cases stopped

theorem Built.zone (built : Built zs c) {z : Bytes} {zone : DNSZone Data} (absent : z ∉ c.name2zone)
    (key : lower z = z) (empty : zone.address = []) {other : Converter Data}
    (zones : other.name2zone = c.name2zone.insert z zone) (names : other.addr2name = c.addr2name) :
    Built (z :: zs) other where
  indexed :=
    { agree := by
        intro a name
        have before := built.indexed.agree a name
        unfold Serves Lists at before ⊢
        rw [names, before, zones, lookup_insert_eq]
        by_cases own : name = z
        · subst own
          rw [notMem_iff_lookup.mp absent, if_pos rfl]
          constructor
          · intro listed
            obtain ⟨old, is, _member⟩ := listed
            cases is
          · intro listed
            obtain ⟨new, is, member⟩ := listed
            rw [← Option.some.inj is, empty] at member
            cases member
        · rw [if_neg own]
      lower_key := by
        intro name member
        rw [zones, AList.mem_insert] at member
        rcases member with own | other
        · rw [own, key]
        · exact built.indexed.lower_key name other
      some_name := by
        rw [names]
        exact built.indexed.some_name }
  has := by
    intro name member
    rw [zones, AList.mem_insert]
    rcases List.mem_cons.mp member with own | other
    · exact Or.inl own
    · exact Or.inr (built.has name other)

theorem add_name2zone_built {name : Bytes} (key : lower name = name) :
    Triple (Built zs) (add_name2zone dns name) (fun _done => Built (name :: zs))
      (BuiltStop zs) := by
  intro c built
  unfold add_name2zone
  rw [key]
  by_cases present : name ∈ c.name2zone
  · rw [if_pos present]
    constructor
    · intro value next ended
      cases ended
      refine ⟨built.indexed, ?_⟩
      intro z member
      rcases List.mem_cons.mp member with own | other
      · rw [own]
        exact present
      · exact built.has z other
    · intro stop next impossible
      cases impossible
  · rw [if_neg present]
    cases made : DNSZone.new dns name with
    | error stop =>
        constructor
        · intro value next impossible
          cases impossible
        · intro halt next same
          cases same
          exact ⟨built, (DNSZone.new_stop made).noLookup⟩
    | ok zone =>
        constructor
        · intro value next ended
          cases ended
          exact built.zone present key (DNSZone.new_ok made).1 rfl rfl
        · intro halt next impossible
          cases impossible

/-! ### The root hint file -/

private theorem hint_line_built {l : Bytes} (hasRoot : root ∈ zs)
    (hasServers : root_servers_ns ∈ zs) :
    Keeps (Built zs) (BuiltStop zs) (hint_line dns l) := by
  unfold hint_line
  simp only
  split
  · exact Keeps.pure
  · apply Keeps.bind (add_record_built hasRoot)
    intro _done
    apply Keeps.bind (value_built fun _stop => DNSZone.word_stop)
    intro rt
    split
    · exact add_record_built hasServers
    · exact Keeps.pure

private theorem hint_address_built {a : Bytes} (hasRoot : root ∈ zs)
    (hasServers : root_servers_ns ∈ zs) :
    Keeps (Built zs) (BuiltStop zs) (hint_address a : Action Data Unit) :=
  Keeps.bind (zone_address_built hasRoot) fun _done => zone_address_built hasServers

private theorem hint_server_built {ns : Bytes} (hasRoot : root ∈ zs)
    (hasServers : root_servers_ns ∈ zs) :
    Keeps (Built zs) (BuiltStop zs) (hint_server dns order ns) := by
  have addresses (records : List Bytes) :
      Keeps (Built zs) (BuiltStop zs) (each hint_address records : Action Data Unit) :=
    Keeps.each fun _a _member => hint_address_built hasRoot hasServers
  apply Keeps.bind (zone_at_built hasRoot)
  intro zone
  apply Keeps.bind (value_built fun _stop => DNSZone.get_record_rdata_stop)
  intro a_records
  apply Keeps.bind (addresses _)
  intro _done
  apply Keeps.bind (zone_at_built hasRoot)
  intro zone'
  apply Keeps.bind (value_built fun _stop => DNSZone.get_record_rdata_stop)
  intro aaaa_records
  exact addresses _

private theorem built_empty : Built [] ({} : Converter Data) where
  indexed :=
    { agree := by
        intro a z
        constructor
        · intro serves
          obtain ⟨names, is, _member⟩ := serves
          cases is
        · intro lists
          obtain ⟨zone, is, _member⟩ := lists
          cases is
      lower_key := by
        intro z member
        exact absurd member (AList.notMem_empty z)
      some_name := by
        intro a names is
        cases is }
  has := by
    intro z member
    cases member

def IndexedStop (stop : Stop) (c : Converter Data) : Prop := Indexed c ∧ NoLookup stop

theorem BuiltStop.indexed {stop : Stop} (stopped : BuiltStop zs stop c) : IndexedStop stop c :=
  ⟨stopped.1.indexed, stopped.2⟩

theorem process_root_hint_built (lines : List Bytes) :
    Triple (fun c : Converter Data => c = {}) (process_root_hint dns order lines)
      (fun _done => Built [root]) IndexedStop := by
  have hasRoot : root ∈ [root_servers_ns, root] := List.mem_cons_of_mem _ List.mem_cons_self
  have hasServers : root_servers_ns ∈ [root_servers_ns, root] := List.mem_cons_self
  have rest : Triple (Built []) (do
      add_name2zone dns root
      add_name2zone dns root_servers_ns
      each (hint_line dns) lines
      let zone ← zone_at root
      let ns_records ← value (zone.get_record_rdata dns root (ascii "NS"))
      each (hint_server dns order) (order.through ns_records) : Action Data Unit)
      (fun _done => Built [root]) IndexedStop := by
    apply Triple.bind ((add_name2zone_built (by decide)).weaken (fun _c built => built)
      (fun _done _c built => built) fun _stop _c stopped => stopped.indexed)
    intro _done
    apply Triple.bind ((add_name2zone_built (by decide)).weaken (fun _c built => built)
      (fun _done _c built => built) fun _stop _c stopped => stopped.indexed)
    intro _done
    have loops : Keeps (Built [root_servers_ns, root]) (BuiltStop [root_servers_ns, root]) (do
        each (hint_line dns) lines
        let zone ← zone_at root
        let ns_records ← value (zone.get_record_rdata dns root (ascii "NS"))
        each (hint_server dns order) (order.through ns_records) : Action Data Unit) := by
      apply Keeps.bind (Keeps.each fun _l _member => hint_line_built hasRoot hasServers)
      intro _done
      apply Keeps.bind (zone_at_built hasRoot)
      intro zone
      apply Keeps.bind (value_built fun _stop => DNSZone.get_record_rdata_stop)
      intro ns_records
      exact Keeps.each fun _ns _member => hint_server_built hasRoot hasServers
    refine loops.weaken (fun _c built => built) ?_ fun _stop _c stopped => stopped.indexed
    intro _done c built
    exact ⟨built.indexed, fun z member => built.has z (List.mem_cons_of_mem _ member)⟩
  intro c start
  subst start
  exact rest {} built_empty

/-! ### Messages -/

theorem Built.of_cons {z : Bytes} (built : Built (z :: zs) c) : Built zs c where
  indexed := built.indexed
  has := fun name member => built.has name (List.mem_cons_of_mem z member)

theorem keeps_built_of_cons {Value : Type} {action : Action Data Value} {z : Bytes}
    {before : Converter Data → Prop} (start : ∀ c, before c → Built (z :: zs) c)
    (keeps : Keeps (Built (z :: zs)) (BuiltStop (z :: zs)) action) :
    Triple before action (fun _value => Built zs) (BuiltStop zs) :=
  keeps.weaken start (fun _value _c built => built.of_cons)
    fun _stop _c stopped => ⟨stopped.1.of_cons, stopped.2⟩

private theorem create_zone_server_built {rrs : DNSZone Data} {name rd : Bytes} :
    Keeps (Built zs) (BuiltStop zs) (create_zone_server dns order rrs name rd) := by
  have own : lower name ∈ lower name :: zs := List.mem_cons_self
  have addresses (records : List Bytes) : Keeps (Built (lower name :: zs))
      (BuiltStop (lower name :: zs)) (each (zone_address (lower name)) records : Action Data Unit) :=
    Keeps.each fun _a _member => zone_address_built own
  have added (records : List Bytes) : Keeps (Built (lower name :: zs))
      (BuiltStop (lower name :: zs)) (each (add_record dns true (lower name)) records) :=
    Keeps.each fun _record _member => add_record_built own
  apply Triple.bind (add_name2zone_built (lower_lower name))
  intro _done
  apply keeps_built_of_cons fun _c built => built
  apply Keeps.bind (value_built fun _stop => DNSZone.get_record_rdata_stop)
  intro a_records
  apply Keeps.bind (addresses _)
  intro _done
  apply Keeps.bind (value_built fun _stop => DNSZone.get_record_rdata_stop)
  intro aaaa_records
  apply Keeps.bind (addresses _)
  intro _done
  apply Keeps.bind (value_built fun _stop => DNSZone.get_rrset_str_stop)
  intro ns_records
  apply Keeps.bind (added _)
  intro _done
  split
  · apply Keeps.bind (value_built fun _stop => DNSZone.get_rrset_str_stop)
    intro a_records
    apply Keeps.bind (added _)
    intro _done
    apply Keeps.bind (value_built fun _stop => DNSZone.get_rrset_str_stop)
    intro aaaa_records
    exact added _
  · exact Keeps.pure

theorem create_zone_built {rrs : DNSZone Data} {rrsets : List RRset} :
    Keeps (Built zs) (BuiltStop zs) (create_zone dns order rrs rrsets) := by
  apply Keeps.each
  intro rrset _member
  split
  · exact Keeps.each fun _rd _member => create_zone_server_built
  · exact Keeps.pure

private theorem find_zone_loop_ok {name2zone : HashTable Bytes (DNSZone Data)} (name : Bytes)
    {names : List Bytes} (zones : ∀ n ∈ names, n ∈ name2zone) (zone_name_len : Int)
    {z : Option Bytes} (before : ∀ n, z = some n → n ∈ name2zone) :
    ∃ found, find_zone_loop name2zone name names zone_name_len z = .ok found ∧
      ∀ n, found = some n → n ∈ name2zone := by
  induction names generalizing zone_name_len z with
  | nil => exact ⟨z, rfl, before⟩
  | cons n rest ih =>
      have own := zones n List.mem_cons_self
      have ownOnly : ∀ other, some n = some other → other ∈ name2zone := by
        intro other same
        rw [← Option.some.inj same]
        exact own
      have others := fun other member => zones other (List.mem_cons_of_mem n member)
      unfold find_zone_loop
      by_cases same : name = n
      · rw [if_pos same, if_pos own]
        exact ⟨some n, rfl, ownOnly⟩
      · rw [if_neg same]
        by_cases closer : endswith name n = true ∧ (n.length : Int) > zone_name_len
        · rw [if_pos closer, if_pos own]
          exact ih others _ ownOnly
        · rw [if_neg closer]
          exact ih others _ before

theorem Indexed.find_zone (indexed : Indexed c) (order : Order) (src_ip name : Bytes) :
    (src_ip ∉ c.addr2name ∧
      find_zone order src_ip name c = .error (.exit (not_in_record src_ip)) c) ∨
      ∃ found, Converter.find_zone order src_ip name c = .ok found c ∧
        ∀ n, found = some n → n ∈ c.name2zone := by
  unfold Converter.find_zone
  cases listed : c.addr2name.lookup src_ip with
  | none => exact Or.inl ⟨notMem_iff_lookup.mpr listed, rfl⟩
  | some names =>
      right
      have zones : ∀ n ∈ order.through names, n ∈ c.name2zone := by
        intro n member
        have serves : Serves c src_ip n := ⟨names, listed, (order.perm names).subset member⟩
        obtain ⟨zone, found, _own⟩ := (indexed.agree src_ip n).mp serves
        exact mem_iff_lookup.mpr ⟨zone, found⟩
      have noneYet : ∀ n, none = some n → n ∈ c.name2zone := fun _n impossible => by
        cases impossible
      obtain ⟨found, finds, known⟩ := find_zone_loop_ok (lower name) zones (-1) noneYet
      refine ⟨found, ?_, known⟩
      unfold Converter.value
      simp only [finds]

private theorem find_zone_built {src_ip name : Bytes} :
    Triple (Built zs) (find_zone order src_ip name : Action Data (Option Bytes))
      (fun found c => Built zs c ∧ ∀ n, found = some n → n ∈ c.name2zone) (BuiltStop zs) := by
  intro c built
  rcases built.indexed.find_zone order src_ip name with ⟨_absent, exits⟩ | ⟨found, ends, known⟩
  · constructor
    · intro value next impossible
      rw [exits] at impossible
      cases impossible
    · intro stop next stopped
      rw [exits] at stopped
      cases stopped
      exact ⟨built, noLookup_not_in_record src_ip⟩
  · constructor
    · intro value next ended
      rw [ends] at ended
      cases ended
      exact ⟨built, known⟩
    · intro stop next impossible
      rw [ends] at impossible
      cases impossible

theorem push_record_built {src_ip record : Bytes} :
    Keeps (Built zs) (BuiltStop zs) (push_record dns order src_ip record) := by
  apply Keeps.bind (value_built fun _stop => DNSZone.word_stop)
  intro owner
  refine Triple.bind find_zone_built ?_
  intro found
  cases found with
  | none => exact Triple.pure fun _c both => both.1
  | some n =>
      refine keeps_built_of_cons (z := n) ?_ (add_record_built List.mem_cons_self)
      intro c both
      refine ⟨both.1.indexed, ?_⟩
      intro name member
      rcases List.mem_cons.mp member with own | other
      · rw [own]
        exact both.2 n rfl
      · exact both.1.has name other

private theorem push_zone_built {src_ip : Bytes} {rrsets : List RRset} :
    Keeps (Built zs) (BuiltStop zs) (push_zone dns order src_ip rrsets) :=
  Keeps.each fun _rrset _member => Keeps.each fun _record _line => push_record_built

private theorem mapM_stop {Item Value : Type} {f : Item → Except Stop Value} {items : List Item}
    {stop : Stop} (stopped : items.mapM f = .error stop) : ∃ item, f item = .error stop := by
  induction items with
  | nil => cases stopped
  | cons item rest ih =>
      rw [List.mapM_cons] at stopped
      cases first : f item with
      | error halt =>
          rw [first] at stopped
          rw [← Except.error.inj stopped]
          exact ⟨item, first⟩
      | ok value =>
          rw [first] at stopped
          cases later : rest.mapM f with
          | error halt =>
              rw [later] at stopped
              obtain rfl : halt = stop := Except.error.inj stopped
              exact ih later
          | ok values =>
              rw [later] at stopped
              cases stopped

theorem sort_messages_stop {dns_msg : List (Bytes × DNSMessage)} {stop : Stop}
    (stopped : sort_messages dns_msg = .error stop) : DNSZone.Ordinary stop := by
  unfold sort_messages at stopped
  cases keyed : dns_msg.mapM
      (fun entry => (int entry.1).map (fun key => (key, entry.2))) with
  | error halt =>
      rw [keyed] at stopped
      rw [← Except.error.inj stopped]
      obtain ⟨entry, failed⟩ := mapM_stop keyed
      cases number : int entry.1 with
      | error other =>
          rw [number] at failed
          rw [← Except.error.inj failed]
          exact DNSZone.int_stop number
      | ok key =>
          rw [number] at failed
          cases failed
  | ok entries =>
      rw [keyed] at stopped
      cases stopped

private theorem process_dir_built {d : Directory Data} :
    Keeps (Built zs) (BuiltStop zs) (process_dir dns order d) := by
  have messages : Keeps (Built zs) (BuiltStop zs) (process_dns_message dns order d.dns_msg d.rrs) := by
    apply Keeps.bind
    · apply Keeps.each
      intro entry _member
      apply Keeps.bind create_zone_built
      intro _done
      apply Keeps.bind create_zone_built
      intro _done
      exact create_zone_built
    · intro _done
      apply Keeps.bind (value_built fun _stop => sort_messages_stop)
      intro ks
      apply Keeps.each
      intro entry _member
      apply Keeps.bind push_zone_built
      intro _done
      apply Keeps.bind push_zone_built
      intro _done
      exact push_zone_built
  intro c built
  exact messages _ ⟨⟨built.indexed.agree, built.indexed.lower_key, built.indexed.some_name⟩, built.has⟩

theorem init_built (root_hint : List Bytes) (sub_dir : List (Directory Data)) :
    Triple (fun c : Converter Data => c = {}) (init dns order root_hint sub_dir)
      (fun _done => Built [root]) IndexedStop := by
  apply Triple.bind (process_root_hint_built root_hint)
  intro _done
  have loop : Keeps (Built [root]) (BuiltStop [root]) (each (process_dir dns order) sub_dir) :=
    Keeps.each fun _d _member => process_dir_built
  exact loop.weaken (fun _c built => built) (fun _done _c built => built)
    fun _stop _c stopped => stopped.indexed

/-! ### Views -/

/-- Every piece between the bars of a name that an address serves is a zone. -/
def PiecesAreZones (c : Converter Data) : Prop :=
  ∀ a names, c.addr2name.lookup a = some names → ∀ name ∈ names, ∀ piece ∈ zones_of name,
    piece ∈ c.name2zone

private theorem mem_views_foldl {key : Bytes → Bytes} {k : Bytes} (addresses : List Bytes)
    (collected : HashTable Bytes (List Bytes)) :
    k ∈ addresses.foldl (fun views a =>
        views.insert (key a) (((views.lookup (key a)).getD []).insert a)) collected ↔
      k ∈ collected ∨ ∃ a ∈ addresses, k = key a := by
  induction addresses generalizing collected with
  | nil => simp
  | cons head rest ih =>
      rw [List.foldl_cons, ih, AList.mem_insert]
      constructor
      · intro either
        rcases either with (own | before) | ⟨a, member, same⟩
        · exact Or.inr ⟨head, List.mem_cons_self, own⟩
        · exact Or.inl before
        · exact Or.inr ⟨a, List.mem_cons_of_mem head member, same⟩
      · intro either
        rcases either with before | ⟨a, member, same⟩
        · exact Or.inl (Or.inr before)
        · rcases List.mem_cons.mp member with own | other
          · rw [own] at same
            exact Or.inl (Or.inl same)
          · exact Or.inr ⟨a, other, same⟩

theorem mem_views {k : Bytes} :
    k ∈ views order c ↔ ∃ a names, c.addr2name.lookup a = some names ∧ k = view_key names := by
  unfold views
  simp only
  rw [mem_views_foldl]
  constructor
  · intro either
    rcases either with impossible | ⟨a, member, same⟩
    · exact absurd impossible (AList.notMem_empty k)
    · have key := (order.perm c.addr2name.keys).subset member
      obtain ⟨names, found⟩ := mem_iff_lookup.mp (AList.mem_keys.mp key)
      rw [found] at same
      exact ⟨a, names, found, same⟩
  · intro view
    obtain ⟨a, names, found, same⟩ := view
    have key := AList.mem_keys.mpr (mem_iff_lookup.mpr ⟨names, found⟩)
    refine Or.inr ⟨a, (order.perm c.addr2name.keys).symm.subset key, ?_⟩
    rw [found]
    exact same

theorem mem_zones_of_view_key {names : List Bytes} (some : names ≠ []) {z : Bytes} :
    z ∈ zones_of (view_key names) ↔ ∃ name ∈ names, z ∈ zones_of name := by
  have sorted := List.perm_insertionSort (fun left right => left ≤ right) names
  have someSorted : names.insertionSort (fun left right => left ≤ right) ≠ [] := by
    intro empty
    rw [empty] at sorted
    exact some sorted.symm.eq_nil
  unfold zones_of view_key
  rw [splitOn_join 124 someSorted, List.mem_flatMap]
  constructor
  · intro found
    obtain ⟨name, member, piece⟩ := found
    exact ⟨name, sorted.subset member, piece⟩
  · intro found
    obtain ⟨name, member, piece⟩ := found
    exact ⟨name, sorted.symm.subset member, piece⟩

def NoKeyError (stop : Stop) (_c : Converter Data) : Prop := ∀ key, stop ≠ .keyError key

theorem value_has {Value : Type} {result : Except Stop Value}
    (ordinary : ∀ stop, result = .error stop → DNSZone.Ordinary stop) :
    Keeps (Has zs) NoKeyError (value result : Action Data Value) :=
  keeps_value fun stop _c _has stopped => (ordinary stop stopped).key

theorem zone_at_has {z : Bytes} (member : z ∈ zs) :
    Keeps (Has zs) NoKeyError (zone_at z : Action Data (DNSZone Data)) :=
  keeps_zone_at fun _c has => has.lookup member

theorem add_record_has {has_class : Bool} {z l : Bytes} (member : z ∈ zs) :
    Keeps (Has zs) NoKeyError (add_record dns has_class z l) := by
  apply add_record_triple
  · intro c has absent
    exact (has.not_missing member absent).elim
  · intro c zone next has _found _added
    exact has.insert z next rfl
  · intro c zone stop _has _found stopped
    rcases DNSZone.add_record_stop stopped with ordinary | ⟨rfl, _foreign⟩
    · exact ordinary.key
    · exact noLookup_subdomain.key

private theorem closest_has {names : List Bytes} {z : Bytes} (zones : ∀ t ∈ names, t ∈ zs)
    (own : z ∈ zs) (owner : Bytes) : closest names z owner ∈ zs := by
  rcases (closest_spec names z owner).1 with same | ⟨candidate, _longer⟩
  · rw [same]
    exact own
  · exact zones _ candidate.member

private theorem copy_addresses_has {z tmp_z ns_server rt : Bytes} (own : z ∈ zs)
    (target : tmp_z ∈ zs) :
    Keeps (Has zs) NoKeyError (copy_addresses dns order z tmp_z ns_server rt) := by
  apply Keeps.bind (zone_at_has own)
  intro zone
  apply Keeps.bind (value_has fun _stop => DNSZone.get_rrset_str_stop)
  intro records
  exact Keeps.each fun _record _member => add_record_has target

private theorem move_record_has {z tmp_z record : Bytes} (own : z ∈ zs) (target : tmp_z ∈ zs) :
    Keeps (Has zs) NoKeyError (move_record dns order z tmp_z record) := by
  apply Keeps.bind (zone_at_has own)
  intro zone
  apply Keeps.bind (value_has fun _stop => DNSZone.get_rrset_str_stop)
  intro ns_records
  split
  · exact Keeps.pure
  · apply Keeps.bind (add_record_has target)
    intro _done
    unfold copy_servers
    split
    · apply Keeps.bind (copy_addresses_has own target)
      intro _done
      exact copy_addresses_has own target
    · exact Keeps.pure

theorem fix_record_has {names : List Bytes} {z record : Bytes} (zones : ∀ t ∈ names, t ∈ zs)
    (own : z ∈ zs) : Keeps (Has zs) NoKeyError (fix_record dns order names z record) := by
  unfold fix_record
  simp only
  split
  · exact Keeps.pure
  · apply Keeps.bind (value_has fun _stop => DNSZone.word_stop)
    intro rt
    split
    · exact Keeps.pure
    · apply Keeps.bind (value_has fun _stop => DNSZone.word_stop)
      intro owner
      split
      · exact Keeps.pure
      · exact move_record_has own (closest_has zones own owner)

theorem fix_zone_has {names : List Bytes} {z : Bytes} (zones : ∀ t ∈ names, t ∈ zs)
    (own : z ∈ zs) : Keeps (Has zs) NoKeyError (fix_zone dns order names z) := by
  unfold fix_zone
  split
  · exact Keeps.pure
  · apply Keeps.bind (zone_at_has own)
    intro zone
    exact Keeps.each fun _record _member => fix_record_has zones own

private theorem fix_zone_missing {names : List Bytes} {z : Bytes} (notRoot : z ≠ root)
    (missing : z ∉ c.name2zone) : fix_zone dns order names z c = .error (.keyError z) c := by
  unfold fix_zone
  rw [if_neg notRoot]
  change EStateM.bind (zone_at z) _ c = _
  unfold EStateM.bind zone_at
  simp only [notMem_iff_lookup.mp missing]

theorem write_view_has {out : OutputFiles} {clients : HashTable Bytes (List Bytes)} {k : Bytes}
    (zones : ∀ t ∈ zones_of k, t ∈ zs) :
    Keeps (Has zs) NoKeyError (write_view dns order out clients k) := by
  have fixes : Keeps (Has zs) NoKeyError (fix_delegation dns order (zones_of k)) :=
    Keeps.each fun z member => fix_zone_has zones (zones z member)
  intro c has
  exact fixes _ has

private theorem write_zone_has {out : OutputFiles} {n : Bytes} (member : n ∈ zs) :
    Keeps (Has zs) NoKeyError (write_zone dns out n) := by
  apply Keeps.bind (zone_at_has member)
  intro zone
  apply write_file_triple
  · exact fun _c has => has
  · intro _c _has key impossible
    cases impossible

theorem PiecesAreZones.view (pieces : PiecesAreZones c) (indexed : Indexed c) {k : Bytes}
    (view : k ∈ views order c) : ∀ z ∈ zones_of k, z ∈ c.name2zone := by
  intro z member
  obtain ⟨a, names, found, rfl⟩ := mem_views.mp view
  obtain ⟨name, own, piece⟩ := (mem_zones_of_view_key (indexed.some_name a names found)).mp member
  exact pieces a names found name own z piece

private theorem write_zones_ok {out : OutputFiles} : Triple (fun _c : Converter Data => True)
    (fun c => each (write_zone dns out) (order.through c.name2zone.keys) c) (fun _done _c => True)
    NoKeyError := by
  intro c _start
  have zones : Keeps (Has c.name2zone.keys) NoKeyError
      (each (write_zone dns out) (order.through c.name2zone.keys)) := by
    apply Keeps.each
    intro n member
    exact write_zone_has ((order.perm c.name2zone.keys).subset member)
  obtain ⟨_ends, stops⟩ := zones c fun z member => AList.mem_keys.mp member
  exact ⟨fun _value _next _ended => trivial, stops⟩

private theorem write_to_file_has (out : OutputFiles) (indexed : Indexed c)
    (pieces : PiecesAreZones c)
    {stop : Stop} {other : Converter Data}
    (stopped : write_to_file dns order out c = .error stop other) (key : Bytes) :
    stop ≠ .keyError key := by
  have writes : Triple (Has c.name2zone.keys) (write_views_and_zones dns order out (views order c))
      (fun _done _c => True) NoKeyError := by
    have configures : Keeps (Has c.name2zone.keys) NoKeyError
        (each (write_view dns order out (views order c))
          (order.through (views order c).keys)) := by
      apply Keeps.each
      intro k member
      have view := AList.mem_keys.mp ((order.perm (views order c).keys).subset member)
      exact write_view_has fun z piece => AList.mem_keys.mpr (pieces.view indexed view z piece)
    apply Triple.bind configures
    intro _done
    exact write_zones_ok.weaken (fun _c _has => trivial) (fun _done _c holds => holds)
      fun _stop _c stopped => stopped
  have start : Has c.name2zone.keys { c with config := [], files := [] } :=
    fun z member => AList.mem_keys.mp member
  unfold write_to_file at stopped
  split at stopped
  · exact (writes _ start).2 stop other stopped key
  · cases stopped
    intro impossible
    cases impossible

/-! ### The indexes agree -/

/-- In this state the indexes agree, `find_zone` finds its zones, and no lookup of
`write_to_file` fails, nor one of `fix_delegation` at any zone of a view. -/
structure IndexesAgree (dns : Dnspython Data) (order : Order) (out : OutputFiles)
    (c : Converter Data) : Prop where
  agree : ∀ a z, Serves c a z ↔ Lists c a z
  lower_key : ∀ z ∈ c.name2zone, lower z = z
  lower_name : ∀ a z, Serves c a z → lower z = z
  some_name : ∀ a names, c.addr2name.lookup a = some names → names ≠ []
  find_zone : ∀ src_ip name,
    (src_ip ∉ c.addr2name ∧
      Converter.find_zone order src_ip name c = .error (.exit (not_in_record src_ip)) c) ∨
      ∃ found, Converter.find_zone order src_ip name c = .ok found c ∧
        ∀ n, found = some n → n ∈ c.name2zone
  write_to_file : ∀ stop other, Converter.write_to_file dns order out c = .error stop other →
    ∀ key, stop ≠ .keyError key
  fix_delegation : ∀ k ∈ views order c, ∀ z ∈ zones_of k, ∀ key other,
    fix_zone dns order (zones_of k) z c ≠ .error (.keyError key) other

theorem Built.indexesAgree_iff (built : Built [root] c) (out : OutputFiles) :
    IndexesAgree dns order out c ↔ PiecesAreZones c := by
  have indexed := built.indexed
  constructor
  · intro agrees a names found name member piece within
    by_contra missing
    have notRoot : piece ≠ root := by
      intro same
      rw [same] at missing
      exact missing (built.has root List.mem_cons_self)
    have some := indexed.some_name a names found
    have view : view_key names ∈ views order c := mem_views.mpr ⟨a, names, found, rfl⟩
    have own := (mem_zones_of_view_key some).mpr ⟨name, member, within⟩
    exact agrees.fix_delegation _ view piece own piece c (fix_zone_missing notRoot missing)
  · intro pieces
    exact
      { agree := indexed.agree
        lower_key := indexed.lower_key
        lower_name := fun _a _z serves => indexed.lower_name serves
        some_name := indexed.some_name
        find_zone := indexed.find_zone order
        write_to_file := fun _stop _other stopped =>
          write_to_file_has out indexed pieces stopped
        fix_delegation := by
          intro k view z member key other stopped
          have zones := pieces.view indexed view
          have fixes : Keeps (Has c.name2zone.keys) NoKeyError
              (fix_zone dns order (zones_of k) z) :=
            fix_zone_has (fun t own => AList.mem_keys.mpr (zones t own))
              (AList.mem_keys.mpr (zones z member))
          exact (fixes c fun z member => AList.mem_keys.mp member).2 _ other stopped key rfl }

end steps

variable {Data : Type}

/-- Whatever the root hint file and the directories are, the indexes agree wherever
the constructor is, and no lookup has failed.  At its end all lookups to come
succeed exactly when no bar takes a zone name apart into what is no zone. -/
theorem indexes_agree_iff (dns : Dnspython Data) (order : Order) (root_hint : List Bytes)
    (sub_dir : List (Directory Data)) (out : OutputFiles) :
    (∀ stop c, init dns order root_hint sub_dir {} = .error stop c → Indexed c ∧ NoLookup stop) ∧
      ∀ c, init dns order root_hint sub_dir {} = .ok () c →
        (IndexesAgree dns order out c ↔ PiecesAreZones c) := by
  have built : Triple (fun c : Converter Data => c = {}) (init dns order root_hint sub_dir)
      (fun _done => Built [root]) IndexedStop := init_built root_hint sub_dir
  obtain ⟨ends, stops⟩ := built {} rfl
  exact ⟨stops, fun c ended => (ends () c ended).indexesAgree_iff out⟩

def in_order : Order where
  through := id
  perm := fun items => List.Perm.refl items

/-- An output directory that has no directories in it. -/
def flat : OutputFiles where
  config_file := ascii "named.conf"
  output_dir := ascii "out/"
  zone_path := ascii "/etc/named/zone/"
  opens := fun fn => fn = ascii "named.conf" ||
    ascii "out//" <+: fn && fn.drop 5 ≠ [] && fn.drop 5 ≠ ascii "." && fn.drop 5 ≠ ascii ".." &&
      47 ∉ fn.drop 5 && (fn.drop 5).length ≤ 255
  file := id

def rrset_of (rdtype : Nat) (name : Bytes) (rds : List Bytes) : RRset where
  name := name
  rdtype := rdtype
  rds := rds
  to_text := rds.map (fun rd => Listed.line (name, rdtype, rd, 60))

def servers : Bytes → List Bytes → RRset := rrset_of RRset.NS

/-- A response of the server of `a|b.com.`, with its address. -/
def barred : Directory Listed where
  dns_msg :=
    [(ascii "1",
      { src_ip := ascii "192.0.2.2"
        answer := []
        authority := [servers (ascii "a|b.com.") [ascii "ns.b.com."]]
        additional := [rrset_of 1 (ascii "ns.b.com.") [ascii "192.0.2.2"]] })]
  rrs :=
    { data := ⟨root,
        [(ascii "a|b.com.", 2, ascii "ns.b.com.", 60),
          (ascii "ns.b.com.", 1, ascii "192.0.2.2", 60)]⟩ }

/-- The bar takes the name apart, and there is no zone `a`. -/
theorem barred_name_missing :
    ∃ c, init Listed.dnspython in_order [] [barred] {} = .ok () c ∧
      ¬ IndexesAgree Listed.dnspython in_order flat c ∧
      ∃ other, write_to_file Listed.dnspython in_order flat c =
        .error (.keyError (ascii "a")) other := by
  have ends : halt (init Listed.dnspython in_order [] [barred] {}) = none := by decide +kernel
  have missing : halt (write_to_file Listed.dnspython in_order flat
      (left (init Listed.dnspython in_order [] [barred] {}))) =
        some (.keyError (ascii "a")) := by
    decide +kernel
  have stops := halted missing
  refine ⟨_, ended ends, ?_, _, stops⟩
  intro agrees
  exact agrees.write_to_file _ _ stops (ascii "a") rfl

end Converter

end LDPlayer
