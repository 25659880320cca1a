/-
Only in-zone records are put in a zone.

The calls of `add_record` that build the zones test for a label boundary, and
their records lie in the zone.  `fix_delegation` compares texts only, and its
calls are in-zone exactly when each of its steps meets a condition on the names.
-/
import LDPlayer.Zone.Indexes

set_option autoImplicit false

namespace LDPlayer

open Text DomainName Actions HashTable

structure RRset.Named {Data : Type} (dns : Dnspython Data) (rrset : RRset) : Prop where
  name : dns.Named (lower rrset.name)
  rds : rrset.rdtype = RRset.NS → ∀ rd ∈ rrset.rds, dns.Named (lower rd)
  owners : ∀ line ∈ rrset.to_text, ∀ owner, (words line)[0]? = some owner →
    dns.Named (lower owner)

structure DNSMessage.Named {Data : Type} (dns : Dnspython Data) (msg : DNSMessage) : Prop where
  answer : ∀ rrset ∈ msg.answer, rrset.Named dns
  authority : ∀ rrset ∈ msg.authority, rrset.Named dns
  additional : ∀ rrset ∈ msg.additional, rrset.Named dns

namespace Converter

variable {Data : Type}

def Directory.Named (dns : Dnspython Data) (d : Directory Data) : Prop :=
  ∀ entry ∈ d.dns_msg, entry.2.Named dns

def InZone (call : Bytes × Bytes) : Prop :=
  ∀ owner, (words call.2)[0]? = some owner → Below call.1 (lower owner)

instance (call : Bytes × Bytes) : Decidable (InZone call) :=
  inferInstanceAs (Decidable (∀ owner, owner ∈ (words call.2)[0]? → Below call.1 (lower owner)))

def AllIn (c : Converter Data) : Prop := ∀ call ∈ c.calls, InZone call

def LinesIn (n : Bytes) (lines : List Bytes) : Prop :=
  ∀ line ∈ lines, ∀ owner, (words line)[0]? = some owner → Below n (lower owner)

/-- What every step keeps: the calls so far, zones under their own names, and data
that is in-zone if the calls were. -/
structure Sound (dns : Dnspython Data) (out : OutputFiles) (earlier : List (Bytes × Bytes))
    (c : Converter Data) : Prop where
  calls : earlier <+: c.calls
  origin : ∀ n zone, c.name2zone.lookup n = some zone →
    dns.Named n ∧ lower n = n ∧ dns.origin zone.data = n
  data : AllIn c → ∀ n zone, c.name2zone.lookup n = some zone →
    LinesIn n (dns.to_text zone.data)
  files : AllIn c → ∀ file ∈ c.files, ∃ n, file.1 = zone_fn out n ∧ LinesIn n file.2

/-- The subdomain check stops foreign records only. -/
def SoundStop (dns : Dnspython Data) (out : OutputFiles) (earlier : List (Bytes × Bytes))
    (stop : Stop)
    (c : Converter Data) : Prop :=
  Sound dns out earlier c ∧ (stop = .raised .notSubdomain → ¬ AllIn c)

def PrintedOwner (dns : Dnspython Data) (z l : Bytes) : Prop :=
  ∀ owner, (words l)[0]? = some owner → z = root ∨ dns.printed (lower owner) = lower owner

section steps

variable {dns : Dnspython Data} {order : Order} {out : OutputFiles} {earlier : List (Bytes × Bytes)}
variable {c : Converter Data}

theorem allIn_append {z l : Bytes} {calls : List (Bytes × Bytes)} :
    (∀ call ∈ calls ++ [(z, l)], InZone call) ↔ (∀ call ∈ calls, InZone call) ∧ InZone (z, l) := by
  constructor
  · intro all
    exact ⟨fun call member => all call (List.mem_append_left _ member),
      all (z, l) (List.mem_append_right _ List.mem_cons_self)⟩
  · intro both call member
    rcases List.mem_append.mp member with before | last
    · exact both.1 call before
    · rw [List.mem_singleton.mp last]
      exact both.2

theorem Sound.of_same {other : Converter Data} (sound : Sound dns out earlier c)
    (calls : other.calls = c.calls) (zones : other.name2zone = c.name2zone)
    (files : other.files = c.files) : Sound dns out earlier other where
  calls := by
    rw [calls]
    exact sound.calls
  origin := by
    rw [zones]
    exact sound.origin
  data := by
    intro all
    rw [zones]
    unfold AllIn at all
    rw [calls] at all
    exact sound.data all
  files := by
    intro all
    rw [files]
    unfold AllIn at all
    rw [calls] at all
    exact sound.files all

theorem Sound.called (sound : Sound dns out earlier c) (z l : Bytes) :
    Sound dns out earlier { c with calls := c.calls ++ [(z, l)] } where
  calls := sound.calls.trans (List.prefix_append _ _)
  origin := sound.origin
  data := fun all => sound.data (allIn_append.mp all).1
  files := fun all => sound.files (allIn_append.mp all).1

theorem Sound.zone {z : Bytes} {zone : DNSZone Data} (sound : Sound dns out earlier c)
    (named : dns.Named z ∧ lower z = z ∧ dns.origin zone.data = z)
    (lines : AllIn c → LinesIn z (dns.to_text zone.data)) :
    Sound dns out earlier { c with name2zone := c.name2zone.insert z zone } where
  calls := sound.calls
  origin := by
    intro n other found
    obtain ⟨rfl, rfl⟩ | before := lookup_insert_cases found
    · exact named
    · exact sound.origin n other before
  data := by
    intro all n other found
    obtain ⟨rfl, rfl⟩ | before := lookup_insert_cases found
    · exact lines all
    · exact sound.data all n other before
  files := sound.files

private theorem add_record_lines (documented : dns.Documented) {has_class : Bool} {z l : Bytes}
    {zone next : DNSZone Data} (added : zone.add_record dns has_class l = .ok next)
    (printed : PrintedOwner dns z l) (inZone : InZone (z, l))
    (lines : LinesIn z (dns.to_text zone.data)) : LinesIn z (dns.to_text next.data) := by
  rcases DNSZone.add_record_ok added with
    rfl | ⟨_same, owner, rt, rd, ttl, found, first, finds, adds⟩
  · exact lines
  · intro line member name begins
    rcases documented.lines_add _ _ _ _ _ _ adds line member name begins with
      own | ⟨old, before, begins⟩
    · rcases printed owner first with atRoot | same
      · rw [atRoot]
        exact below_root _
      · rw [own, same, lower_lower]
        exact inZone owner first
    · obtain ⟨older, earliest, begins⟩ := documented.lines_find _ _ _ _ finds old before name begins
      exact lines older earliest name begins

theorem add_record_origin (documented : dns.Documented) {has_class : Bool} {l : Bytes}
    {zone next : DNSZone Data} (added : zone.add_record dns has_class l = .ok next) :
    dns.origin next.data = dns.origin zone.data := by
  rcases DNSZone.add_record_ok added with
    rfl | ⟨_same, owner, rt, rd, ttl, found, _first, finds, adds⟩
  · rfl
  · rw [documented.origin_add _ _ _ _ _ _ adds, documented.origin_find _ _ _ _ finds]

theorem add_record_sound (documented : dns.Documented) {has_class : Bool} {z l : Bytes}
    (printed : PrintedOwner dns z l) :
    Keeps (Sound dns out earlier) (SoundStop dns out earlier) (add_record dns has_class z l) := by
  apply add_record_triple
  · intro c sound _absent
    exact ⟨sound, fun impossible => by cases impossible⟩
  · intro c zone next sound found added
    obtain ⟨named, key, origin⟩ := sound.origin z zone found
    apply (sound.called z l).zone
    · rw [add_record_origin documented added]
      exact ⟨named, key, origin⟩
    · intro all
      obtain ⟨before, inZone⟩ := allIn_append.mp all
      exact add_record_lines documented added printed inZone (sound.data before z zone found)
  · intro c zone stop sound found stopped
    refine ⟨sound.called z l, ?_⟩
    intro raised all
    rcases DNSZone.add_record_stop stopped with ordinary | ⟨_raised, owner, rt, first, foreign⟩
    · exact ordinary.subdomain raised
    · apply documented.subdomain zone.data (lower owner) rt _ foreign
      rw [(sound.origin z zone found).2.2]
      exact (allIn_append.mp all).2 owner first

theorem value_sound {Value : Type} {result : Except Stop Value}
    (ordinary : ∀ stop, result = .error stop → DNSZone.Ordinary stop) :
    Triple (Sound dns out earlier) (value result)
      (fun given c => result = .ok given ∧ Sound dns out earlier c) (SoundStop dns out earlier) :=
  value_triple fun stop _c sound stopped =>
    ⟨sound, fun raised => absurd raised (ordinary stop stopped).subdomain⟩

theorem zone_at_sound {z : Bytes} :
    Keeps (Sound dns out earlier) (SoundStop dns out earlier)
      (zone_at z : Action Data (DNSZone Data)) := by
  have zone : Triple (Sound dns out earlier) (zone_at z)
      (fun zone c => c.name2zone.lookup z = some zone ∧ Sound dns out earlier c)
      (SoundStop dns out earlier) :=
    zone_at_triple fun _c sound _absent => ⟨sound, fun impossible => by cases impossible⟩
  exact zone.weaken (fun _c sound => sound) (fun _zone _c both => both.2)
    fun _stop _c halted => halted

/-! ### Building the zones -/

/-- So far every call was in-zone. -/
structure Good (dns : Dnspython Data) (out : OutputFiles) (earlier : List (Bytes × Bytes))
    (c : Converter Data) : Prop where
  sound : Sound dns out earlier c
  all : AllIn c

def GoodStop (dns : Dnspython Data) (out : OutputFiles) (earlier : List (Bytes × Bytes))
    (stop : Stop)
    (c : Converter Data) : Prop :=
  Good dns out earlier c ∧ stop ≠ .raised .notSubdomain

private theorem keeps_good {Value : Type} {action : Action Data Value}
    (sound : Keeps (Sound dns out earlier) (SoundStop dns out earlier) action)
    (all : ∀ c, AllIn c → AllIn (left (action c))) :
    Keeps (Good dns out earlier) (GoodStop dns out earlier) action := by
  intro c good
  obtain ⟨ends, stops⟩ := sound c good.sound
  have after := all c good.all
  constructor
  · intro given next ended
    rw [ended] at after
    exact ⟨ends given next ended, after⟩
  · intro stop next stopped
    rw [stopped] at after
    obtain ⟨still, foreign⟩ := stops stop next stopped
    exact ⟨⟨still, after⟩, fun raised => foreign raised after⟩

private theorem add_record_left {has_class : Bool} {z l : Bytes} (c : Converter Data) :
    (left (add_record dns has_class z l c)).calls = c.calls ∨
      (left (add_record dns has_class z l c)).calls = c.calls ++ [(z, l)] := by
  unfold add_record
  cases c.name2zone.lookup z with
  | none => exact Or.inl rfl
  | some zone =>
      simp only
      cases zone.add_record dns has_class l with
      | error stop => exact Or.inr rfl
      | ok next => exact Or.inr rfl

theorem add_record_good (documented : dns.Documented) {has_class : Bool} {z l : Bytes}
    (printed : PrintedOwner dns z l) (inZone : InZone (z, l)) :
    Keeps (Good dns out earlier) (GoodStop dns out earlier) (add_record dns has_class z l) := by
  apply keeps_good (add_record_sound documented printed)
  intro c all
  unfold AllIn
  rcases add_record_left c with same | more
  · rw [same]
    exact all
  · rw [more]
    exact allIn_append.mpr ⟨all, inZone⟩

theorem value_good {Value : Type} {result : Except Stop Value}
    (ordinary : ∀ stop, result = .error stop → DNSZone.Ordinary stop) :
    Triple (Good dns out earlier) (value result)
      (fun given c => result = .ok given ∧ Good dns out earlier c) (GoodStop dns out earlier) :=
  value_triple fun stop _c good stopped => ⟨good, (ordinary stop stopped).subdomain⟩

theorem zone_at_good {z : Bytes} :
    Keeps (Good dns out earlier) (GoodStop dns out earlier)
      (zone_at z : Action Data (DNSZone Data)) := by
  have zone : Triple (Good dns out earlier) (zone_at z)
      (fun zone c => c.name2zone.lookup z = some zone ∧ Good dns out earlier c)
      (GoodStop dns out earlier) :=
    zone_at_triple fun _c good _absent => ⟨good, fun impossible => by cases impossible⟩
  exact zone.weaken (fun _c good => good) (fun _zone _c both => both.2) fun _stop _c halted => halted

theorem zone_address_good {z a : Bytes} :
    Keeps (Good dns out earlier) (GoodStop dns out earlier) (zone_address z a : Action Data Unit) := by
  apply Keeps.bind
  · intro c good
    unfold add_address
    cases found : c.name2zone.lookup z with
    | none =>
        constructor
        · intro given next impossible
          cases impossible
        · intro stop next same
          cases same
          exact ⟨good, fun impossible => by cases impossible⟩
    | some zone =>
        constructor
        · intro given next same
          cases same
          refine ⟨good.sound.zone (good.sound.origin z zone found) ?_, good.all⟩
          intro all
          exact good.sound.data all z zone found
        · intro stop next impossible
          cases impossible
  · intro _done c good
    constructor
    · intro given next same
      cases same
      exact ⟨good.sound.of_same rfl rfl rfl, good.all⟩
    · intro stop next impossible
      cases impossible

theorem add_name2zone_good (documented : dns.Documented) {name : Bytes} (named : dns.Named name)
    (key : lower name = name) :
    Keeps (Good dns out earlier) (GoodStop dns out earlier) (add_name2zone dns name) := by
  intro c good
  unfold add_name2zone
  rw [key]
  by_cases present : name ∈ c.name2zone
  · rw [if_pos present]
    constructor
    · intro given next same
      cases same
      exact good
    · intro stop next impossible
      cases impossible
  · rw [if_neg present]
    cases made : DNSZone.new dns name with
    | error stop =>
        constructor
        · intro given next impossible
          cases impossible
        · intro halt next same
          cases same
          exact ⟨good, (DNSZone.new_stop made).subdomain⟩
    | ok zone =>
        constructor
        · intro given next same
          cases same
          have built := (DNSZone.new_ok made).2
          refine ⟨good.sound.zone ⟨named, key, documented.origin_new name _ named built⟩ ?_,
            good.all⟩
          intro _all line member owner begins
          rw [documented.lines_new name _ named built line member owner begins, key]
          exact below_refl name
        · intro halt next impossible
          cases impossible

/-! ### The root hint file -/

private theorem named_root (documented : dns.Documented) : dns.Named root where
  printed := documented.printed_root
  absolute := List.suffix_refl _
  plain := by decide +kernel

private theorem named_root_servers (documented : dns.Documented) : dns.Named root_servers_ns where
  printed := documented.printed_root_servers
  absolute := by decide +kernel
  plain := by decide +kernel

private theorem hint_line_good (documented : dns.Documented) {l : Bytes} :
    Keeps (Good dns out earlier) (GoodStop dns out earlier) (hint_line dns l) := by
  unfold hint_line
  simp only
  split
  · exact Keeps.pure
  · apply Keeps.bind
    · exact add_record_good documented (fun _owner _first => Or.inl rfl)
        fun _owner _first => below_root _
    · intro _done
      apply Triple.bind (value_good fun _stop => DNSZone.word_stop)
      intro rt
      apply Triple.assume
      intro _third
      split
      · -- The owner of the second record is the zone.
        have owner : ∀ owner,
            (words (join [32] ((words (strip l)).set 0 root_servers_ns)))[0]? = some owner →
            owner = root_servers_ns := by
          intro owner first
          rw [words_join, List.getElem?_set_self'] at first
          · cases known : (words (strip l))[0]? with
            | none =>
                rw [known] at first
                cases first
            | some old =>
                rw [known] at first
                exact (Option.some.inj first).symm
          · intro item member
            rcases List.mem_or_eq_of_mem_set member with old | new
            · exact words_isWord old
            · rw [new]
              exact isWord_of_all (by decide +kernel) (by decide +kernel)
        apply add_record_good documented
        · intro name first
          rw [owner name first]
          exact Or.inr documented.printed_root_servers
        · intro name first
          rw [owner name first]
          exact below_refl root_servers_ns
      · exact Keeps.pure

private theorem hint_server_good {ns : Bytes} :
    Keeps (Good dns out earlier) (GoodStop dns out earlier) (hint_server dns order ns) := by
  have addresses (records : List Bytes) :
      Keeps (Good dns out earlier) (GoodStop dns out earlier)
        (each hint_address records : Action Data Unit) :=
    Keeps.each fun _a _member => Keeps.bind zone_address_good fun _done => zone_address_good
  apply Keeps.bind zone_at_good
  intro zone
  apply Triple.bind (value_good fun _stop => DNSZone.get_record_rdata_stop)
  intro a_records
  apply Triple.assume
  intro _is
  apply Keeps.bind (addresses _)
  intro _done
  apply Keeps.bind zone_at_good
  intro zone'
  apply Triple.bind (value_good fun _stop => DNSZone.get_record_rdata_stop)
  intro aaaa_records
  apply Triple.assume
  intro _is
  exact addresses _

private theorem process_root_hint_good (documented : dns.Documented) (lines : List Bytes) :
    Keeps (Good dns out earlier) (GoodStop dns out earlier) (process_root_hint dns order lines) := by
  have rest : Keeps (Good dns out earlier) (GoodStop dns out earlier) (do
      add_name2zone dns root
      add_name2zone dns root_servers_ns
      each (hint_line dns) lines
      let zone ← zone_at root
      let ns_records ← value (zone.get_record_rdata dns root (ascii "NS"))
      each (hint_server dns order) (order.through ns_records) : Action Data Unit) := by
    apply Keeps.bind (add_name2zone_good documented (named_root documented) (by decide))
    intro _done
    apply Keeps.bind (add_name2zone_good documented (named_root_servers documented) (by decide))
    intro _done
    apply Keeps.bind (Keeps.each fun _l _member => hint_line_good documented)
    intro _done
    apply Keeps.bind zone_at_good
    intro zone
    apply Triple.bind (value_good fun _stop => DNSZone.get_record_rdata_stop)
    intro ns_records
    apply Triple.assume
    intro _is
    exact Keeps.each fun _ns _member => hint_server_good
  intro c good
  unfold process_root_hint
  split
  · constructor
    · intro given next impossible
      cases impossible
    · intro stop next same
      cases same
      exact ⟨good, fun impossible => by cases impossible⟩
  · exact rest c good

/-! ### Messages -/

theorem get_rrset_str_owner (documented : dns.Documented) {name rt : Bytes} {zone : DNSZone Data}
    {records : List Bytes} (given : zone.get_rrset_str dns name rt = .ok records) {record : Bytes}
    (member : record ∈ records) : (words record)[0]? = some (dns.printed (lower name)) := by
  unfold DNSZone.get_rrset_str at given
  split at given
  · cases given
  · rename_i rrset found
    rw [← Except.ok.inj given, List.mem_dedup] at member
    cases rrset with
    | none => cases member
    | some lines =>
        exact documented.rrset_owner _ _ _ lines (DNSZone.raising_ok found) record member

private theorem add_records_good (documented : dns.Documented) {rrs : DNSZone Data}
    {z name rt : Bytes}
    (named : dns.Named name) (key : lower name = name) (below : Below z name)
    {records : List Bytes} (given : rrs.get_rrset_str dns name rt = .ok records) :
    Keeps (Good dns out earlier) (GoodStop dns out earlier)
      (each (add_record dns true z) (order.through records)) := by
  apply Keeps.each
  intro record member
  have first := get_rrset_str_owner documented given ((order.perm records).subset member)
  rw [key, named.printed] at first
  apply add_record_good documented
  · intro owner begins
    rw [first] at begins
    rw [← Option.some.inj begins, key]
    exact Or.inr named.printed
  · intro owner begins
    rw [first] at begins
    rw [← Option.some.inj begins, key]
    exact below

/-- The test of `create_zone` and `find_zone` is for a label boundary. -/
theorem below_of_endswith {name n : Bytes} (plain : escapedDot name = false)
    (ends : name = n ∨ endswith name n = true) : Below n name := by
  rcases ends with same | suffix
  · exact below_of_suffix plain (Or.inl same)
  · unfold endswith at suffix
    by_cases atRoot : n = root
    · rw [atRoot]
      exact below_root name
    · rw [if_neg atRoot] at suffix
      exact below_of_suffix plain (Or.inr (List.isSuffixOf_iff_suffix.mp suffix))

private theorem create_zone_server_good (documented : dns.Documented) {rrs : DNSZone Data}
    {name rd : Bytes}
    (named : dns.Named (lower name)) (server : dns.Named (lower rd)) :
    Keeps (Good dns out earlier) (GoodStop dns out earlier)
      (create_zone_server dns order rrs name rd) := by
  have addresses (records : List Bytes) :
      Keeps (Good dns out earlier) (GoodStop dns out earlier)
        (each (zone_address (lower name)) records : Action Data Unit) :=
    Keeps.each fun _a _member => zone_address_good
  apply Keeps.bind (add_name2zone_good documented named (lower_lower name))
  intro _done
  apply Triple.bind (value_good fun _stop => DNSZone.get_record_rdata_stop)
  intro a_records
  apply Triple.assume
  intro _is
  apply Keeps.bind (addresses _)
  intro _done
  apply Triple.bind (value_good fun _stop => DNSZone.get_record_rdata_stop)
  intro aaaa_records
  apply Triple.assume
  intro _is
  apply Keeps.bind (addresses _)
  intro _done
  apply Triple.bind (value_good fun _stop => DNSZone.get_rrset_str_stop)
  intro ns_records
  apply Triple.assume
  intro given
  apply Keeps.bind (add_records_good documented named (lower_lower name) (below_refl _) given)
  intro _done
  split
  · rename_i ends
    have below := below_of_endswith server.plain ends
    apply Triple.bind (value_good fun _stop => DNSZone.get_rrset_str_stop)
    intro a_records
    apply Triple.assume
    intro given
    apply Keeps.bind (add_records_good documented server (lower_lower rd) below given)
    intro _done
    apply Triple.bind (value_good fun _stop => DNSZone.get_rrset_str_stop)
    intro aaaa_records
    apply Triple.assume
    intro given
    exact add_records_good documented server (lower_lower rd) below given
  · exact Keeps.pure

private theorem create_zone_good (documented : dns.Documented) {rrs : DNSZone Data}
    {rrsets : List RRset} (named : ∀ rrset ∈ rrsets, rrset.Named dns) :
    Keeps (Good dns out earlier) (GoodStop dns out earlier) (create_zone dns order rrs rrsets) := by
  apply Keeps.each
  intro rrset member
  split
  · rename_i delegates
    apply Keeps.each
    intro rd within
    exact create_zone_server_good documented (named rrset member).name
      ((named rrset member).rds delegates rd within)
  · exact Keeps.pure

private theorem find_zone_loop_encloses {name2zone : HashTable Bytes (DNSZone Data)} {name : Bytes}
    {names : List Bytes} {zone_name_len : Int} {z found : Option Bytes}
    (before : ∀ n, z = some n → name = n ∨ endswith name n = true)
    (finds : find_zone_loop name2zone name names zone_name_len z = .ok found) :
    ∀ n, found = some n → name = n ∨ endswith name n = true := by
  induction names generalizing zone_name_len z with
  | nil =>
      rw [← Except.ok.inj finds]
      exact before
  | cons head rest ih =>
      unfold find_zone_loop at finds
      split at finds
      · rename_i same
        split at finds
        · rw [← Except.ok.inj finds]
          intro n own
          rw [← Option.some.inj own]
          exact Or.inl same
        · cases finds
      · split at finds
        · rename_i closer
          split at finds
          · apply ih _ finds
            intro n own
            rw [← Option.some.inj own]
            exact Or.inr closer.1
          · cases finds
        · exact ih before finds

private theorem find_zone_loop_stop {name2zone : HashTable Bytes (DNSZone Data)} {name : Bytes}
    {names : List Bytes} {zone_name_len : Int} {z : Option Bytes} {stop : Stop}
    (stopped : find_zone_loop name2zone name names zone_name_len z = .error stop) :
    stop ≠ .raised .notSubdomain := by
  induction names generalizing zone_name_len z with
  | nil => cases stopped
  | cons head rest ih =>
      unfold find_zone_loop at stopped
      split at stopped
      · split at stopped
        · cases stopped
        · rw [← Except.error.inj stopped]
          exact fun impossible => by cases impossible
      · split at stopped
        · split at stopped
          · exact ih stopped
          · rw [← Except.error.inj stopped]
            exact fun impossible => by cases impossible
        · exact ih stopped

private theorem find_zone_good {src_ip name : Bytes} :
    Triple (Good dns out earlier) (find_zone order src_ip name : Action Data (Option Bytes))
      (fun found c => (∀ n, found = some n → lower name = n ∨ endswith (lower name) n = true) ∧
        Good dns out earlier c) (GoodStop dns out earlier) := by
  intro c good
  unfold find_zone
  cases listed : c.addr2name.lookup src_ip with
  | none =>
      constructor
      · intro given next impossible
        cases impossible
      · intro stop next same
        cases same
        exact ⟨good, fun impossible => by cases impossible⟩
  | some names =>
      unfold Converter.value
      simp only
      cases finds : find_zone_loop c.name2zone (lower name) (order.through names) (-1) none with
      | error stop =>
          constructor
          · intro given next impossible
            cases impossible
          · intro halt next same
            cases same
            exact ⟨good, find_zone_loop_stop finds⟩
      | ok found =>
          constructor
          · intro given next same
            cases same
            refine ⟨find_zone_loop_encloses ?_ finds, good⟩
            intro n impossible
            cases impossible
          · intro halt next impossible
            cases impossible

private theorem push_record_good (documented : dns.Documented) {src_ip record : Bytes}
    (named : ∀ owner, (words record)[0]? = some owner → dns.Named (lower owner)) :
    Keeps (Good dns out earlier) (GoodStop dns out earlier) (push_record dns order src_ip record) := by
  apply Triple.bind (value_good fun _stop => DNSZone.word_stop)
  intro owner
  apply Triple.assume
  intro read
  have first := DNSZone.word_ok read
  apply Triple.bind find_zone_good
  intro found
  apply Triple.assume
  intro encloses
  cases found with
  | none => exact Keeps.pure
  | some n =>
      apply add_record_good documented
      · intro name begins
        exact Or.inr (named name begins).printed
      · intro name begins
        rw [first] at begins
        rw [← Option.some.inj begins]
        exact below_of_endswith (named owner first).plain (encloses n rfl)

private theorem push_zone_good (documented : dns.Documented) {src_ip : Bytes} {rrsets : List RRset}
    (named : ∀ rrset ∈ rrsets, rrset.Named dns) :
    Keeps (Good dns out earlier) (GoodStop dns out earlier) (push_zone dns order src_ip rrsets) := by
  apply Keeps.each
  intro rrset member
  apply Keeps.each
  intro record within
  exact push_record_good documented ((named rrset member).owners record within)

theorem mapM_mem {Item Value : Type} {f : Item → Except Stop Value} {items : List Item}
    {values : List Value} (mapped : items.mapM f = .ok values) {value : Value}
    (member : value ∈ values) : ∃ item ∈ items, f item = .ok value := by
  induction items generalizing values with
  | nil =>
      cases mapped
      cases member
  | cons item rest ih =>
      rw [List.mapM_cons] at mapped
      cases first : f item with
      | error halt =>
          rw [first] at mapped
          cases mapped
      | ok own =>
          rw [first] at mapped
          cases later : rest.mapM f with
          | error halt =>
              rw [later] at mapped
              cases mapped
          | ok others =>
              rw [later] at mapped
              cases mapped
              rcases List.mem_cons.mp member with same | other
              · rw [same]
                exact ⟨item, List.mem_cons_self, first⟩
              · obtain ⟨source, within, given⟩ := ih later other
                exact ⟨source, List.mem_cons_of_mem item within, given⟩

theorem sort_messages_mem {dns_msg : List (Bytes × DNSMessage)} {ks : List (Int × DNSMessage)}
    (sorted : sort_messages dns_msg = .ok ks) {entry : Int × DNSMessage} (member : entry ∈ ks) :
    ∃ other ∈ dns_msg, other.2 = entry.2 := by
  unfold sort_messages at sorted
  cases keyed : dns_msg.mapM
      (fun entry => (int entry.1).map (fun key => (key, entry.2))) with
  | error halt =>
      rw [keyed] at sorted
      cases sorted
  | ok entries =>
      rw [keyed] at sorted
      rw [← Except.ok.inj sorted] at member
      have own := (List.perm_insertionSort (fun left right => left.1 ≤ right.1) entries).subset member
      obtain ⟨other, within, given⟩ := mapM_mem keyed own
      cases number : int other.1 with
      | error halt =>
          rw [number] at given
          cases given
      | ok key =>
          rw [number] at given
          rw [← Except.ok.inj given]
          exact ⟨other, within, rfl⟩

private theorem process_dir_good (documented : dns.Documented) {d : Directory Data}
    (named : d.Named dns) :
    Keeps (Good dns out earlier) (GoodStop dns out earlier) (process_dir dns order d) := by
  have messages : Keeps (Good dns out earlier) (GoodStop dns out earlier)
      (process_dns_message dns order d.dns_msg d.rrs) := by
    apply Keeps.bind
    · apply Keeps.each
      intro entry member
      have own := named entry member
      apply Keeps.bind (create_zone_good documented own.answer)
      intro _done
      apply Keeps.bind (create_zone_good documented own.authority)
      intro _done
      exact create_zone_good documented own.answer
    · intro _done
      apply Triple.bind (value_good fun _stop => sort_messages_stop)
      intro ks
      apply Triple.assume
      intro sorted
      apply Keeps.each
      intro entry member
      obtain ⟨other, within, same⟩ := sort_messages_mem sorted member
      have own := named other within
      rw [same] at own
      apply Keeps.bind (push_zone_good documented own.answer)
      intro _done
      apply Keeps.bind (push_zone_good documented own.authority)
      intro _done
      exact push_zone_good documented own.additional
  intro c good
  exact messages _ ⟨good.sound.of_same rfl rfl rfl, good.all⟩

theorem good_empty (dns : Dnspython Data) : Good dns out [] ({} : Converter Data) where
  sound :=
    { calls := List.nil_prefix
      origin := by
        intro n zone impossible
        cases impossible
      data := by
        intro _all n zone impossible
        cases impossible
      files := by
        intro _all file impossible
        cases impossible }
  all := by
    intro call impossible
    cases impossible

theorem init_good (documented : dns.Documented) (root_hint : List Bytes)
    {sub_dir : List (Directory Data)} (named : ∀ d ∈ sub_dir, d.Named dns) :
    Keeps (Good dns out earlier) (GoodStop dns out earlier) (init dns order root_hint sub_dir) := by
  apply Keeps.bind (process_root_hint_good documented root_hint)
  intro _done
  exact Keeps.each fun d member => process_dir_good documented (named d member)

/-! ### Moving records down -/

theorem Sound.here (sound : Sound dns out earlier c) : Sound dns out c.calls c where
  calls := List.prefix_refl _
  origin := sound.origin
  data := sound.data
  files := sound.files

theorem regains_allIn {Value : Type} {action : Action Data Value}
    (keeps : ∀ earlier, Keeps (Sound dns out earlier) (SoundStop dns out earlier) action)
    (sound : Sound dns out earlier c) (after : AllIn (left (action c))) : AllIn c := by
  obtain ⟨ends, stops⟩ := keeps c.calls c sound.here
  have front : c.calls <+: (left (action c)).calls := by
    cases result : action c with
    | ok given next => exact (ends given next result).calls
    | error stop next => exact (stops stop next result).1.calls
  exact fun call member => after call (front.subset member)

theorem copy_addresses_sound (documented : dns.Documented) {z tmp_z ns_server rt : Bytes} :
    Keeps (Sound dns out earlier) (SoundStop dns out earlier)
      (copy_addresses dns order z tmp_z ns_server rt) := by
  apply Keeps.bind zone_at_sound
  intro zone
  apply Triple.bind (value_sound fun _stop => DNSZone.get_rrset_str_stop)
  intro records
  apply Triple.assume
  intro given
  apply Keeps.each
  intro record member
  have first := get_rrset_str_owner documented given ((order.perm records).subset member)
  apply add_record_sound documented
  intro owner begins
  rw [first] at begins
  rw [← Option.some.inj begins]
  exact Or.inr (documented.printed_lower _)

def LineOf (dns : Dnspython Data) (record : Bytes) : Prop := ∃ data, record ∈ dns.to_text data

theorem LineOf.printed (documented : dns.Documented) {record : Bytes} (line : LineOf dns record)
    (z : Bytes) : PrintedOwner dns z (strip record) := by
  obtain ⟨data, member⟩ := line
  intro owner first
  rw [words_strip] at first
  have again := documented.printed_lower owner
  rw [documented.lines_printed data record member owner first] at again
  exact Or.inr again

theorem copy_servers_sound (documented : dns.Documented) {z tmp_z ns_server : Bytes} :
    Keeps (Sound dns out earlier) (SoundStop dns out earlier)
      (copy_servers dns order z tmp_z ns_server) := by
  unfold copy_servers
  split
  · apply Keeps.bind (copy_addresses_sound documented)
    intro _done
    exact copy_addresses_sound documented
  · exact Keeps.pure

private theorem move_record_sound (documented : dns.Documented) {z tmp_z record : Bytes}
    (printed : PrintedOwner dns tmp_z record) :
    Keeps (Sound dns out earlier) (SoundStop dns out earlier)
      (move_record dns order z tmp_z record) := by
  apply Keeps.bind zone_at_sound
  intro zone
  apply Triple.bind (value_sound fun _stop => DNSZone.get_rrset_str_stop)
  intro ns_records
  apply Triple.assume
  intro _given
  split
  · exact Keeps.pure
  · apply Keeps.bind (add_record_sound documented printed)
    intro _done
    exact copy_servers_sound documented

theorem fix_record_sound (documented : dns.Documented) {zs : List Bytes} {z record : Bytes}
    (line : LineOf dns record) :
    Keeps (Sound dns out earlier) (SoundStop dns out earlier) (fix_record dns order zs z record) := by
  unfold fix_record
  simp only
  split
  · exact Keeps.pure
  · apply Triple.bind (value_sound fun _stop => DNSZone.word_stop)
    intro rt
    apply Triple.assume
    intro _fourth
    split
    · exact Keeps.pure
    · apply Triple.bind (value_sound fun _stop => DNSZone.word_stop)
      intro owner
      apply Triple.assume
      intro _first
      split
      · exact Keeps.pure
      · exact move_record_sound documented (line.printed documented _)

def HasAddresses (dns : Dnspython Data) (zone : DNSZone Data) (ns_server : Bytes) : Prop :=
  ∃ a_records, zone.get_rrset_str dns ns_server (ascii "A") = .ok a_records ∧
    (a_records ≠ [] ∨ ∃ aaaa_records,
      zone.get_rrset_str dns ns_server (ascii "AAAA") = .ok aaaa_records ∧ aaaa_records ≠ [])

/-- What the record of a delegation must meet to be moved from `z` to `t` in-zone: if
`z` has a delegation to `t`, the owner is at or below `t`, and so is a name server
whose text ends with `t`, if it has addresses. -/
def MoveInZone (dns : Dnspython Data) (z t record : Bytes) (c : Converter Data) : Prop :=
  ∀ zone ns_records, c.name2zone.lookup z = some zone →
    zone.get_rrset_str dns t (ascii "NS") = .ok ns_records → ns_records ≠ [] → t ∈ c.name2zone →
    InZone (t, record) ∧
      ∀ added, add_record dns true t record c = .ok () added →
        t <:+ (words record).getLastD [] → ∀ zone', added.name2zone.lookup z = some zone' →
        HasAddresses dns zone' ((words record).getLastD []) →
        Below t (lower (dns.printed (lower ((words record).getLastD []))))

theorem add_record_called {has_class : Bool} {z l : Bytes} (present : z ∈ c.name2zone) :
    (left (add_record dns has_class z l c)).calls = c.calls ++ [(z, l)] := by
  obtain ⟨zone, found⟩ := mem_iff_lookup.mp present
  unfold add_record
  simp only [found]
  cases zone.add_record dns has_class l with
  | error stop => rfl
  | ok next => rfl

private theorem inZone_of_bind {has_class : Bool} {z l : Bytes} {rest : Unit → Action Data Unit}
    (documented : dns.Documented) (printed : PrintedOwner dns z l)
    (keeps : ∀ earlier done, Keeps (Sound dns out earlier) (SoundStop dns out earlier) (rest done))
    (sound : Sound dns out earlier c) (present : z ∈ c.name2zone)
    (after : AllIn (left ((add_record dns has_class z l >>= rest) c))) : InZone (z, l) := by
  have first : AllIn (left (add_record dns has_class z l c)) := by
    apply left_bind_regains _ after
    intro done next ends final
    have step : Keeps (Sound dns out earlier) (SoundStop dns out earlier)
        (add_record dns has_class z l) :=
      add_record_sound documented printed
    have kept := (step c sound).1 done next ends
    exact regains_allIn (fun earlier => keeps earlier done) kept final
  unfold AllIn at first
  rw [add_record_called present] at first
  exact (allIn_append.mp first).2

theorem copied_printed (documented : dns.Documented) {t ns_server rt : Bytes} {zone : DNSZone Data}
    {records : List Bytes} (given : zone.get_rrset_str dns ns_server rt = .ok records)
    {record : Bytes} (member : record ∈ order.through records) :
    (words record)[0]? = some (dns.printed (lower ns_server)) ∧ PrintedOwner dns t record := by
  have owner := get_rrset_str_owner documented given ((order.perm records).subset member)
  refine ⟨owner, ?_⟩
  intro name first
  rw [owner] at first
  rw [← Option.some.inj first]
  exact Or.inr (documented.printed_lower _)

theorem copy_addresses_good (documented : dns.Documented) {z t ns_server rt : Bytes}
    (below : Below t (lower (dns.printed (lower ns_server)))) :
    Keeps (Good dns out earlier) (GoodStop dns out earlier)
      (copy_addresses dns order z t ns_server rt) := by
  apply Keeps.bind zone_at_good
  intro zone
  apply Triple.bind (value_good fun _stop => DNSZone.get_rrset_str_stop)
  intro records
  apply Triple.assume
  intro given
  apply Keeps.each
  intro record member
  obtain ⟨owner, printed⟩ := copied_printed documented given member
  apply add_record_good documented printed
  intro name first
  rw [owner] at first
  rw [← Option.some.inj first]
  exact below

theorem copy_addresses_none {z t ns_server rt : Bytes} {zone : DNSZone Data}
    (found : c.name2zone.lookup z = some zone)
    (given : zone.get_rrset_str dns ns_server rt = .ok []) :
    copy_addresses dns order z t ns_server rt c = .ok () c := by
  unfold copy_addresses
  rw [bind_of_ok (zone_at_ok found), bind_of_ok (value_ok given c),
    (order.perm []).eq_nil]
  rfl

/-- Copied addresses are in-zone exactly when their name is, if there are any. -/
theorem copy_addresses_iff (documented : dns.Documented) {z t ns_server rt : Bytes}
    {zone : DNSZone Data} {records : List Bytes} (sound : Sound dns out earlier c) (all : AllIn c)
    (target : t ∈ c.name2zone) (found : c.name2zone.lookup z = some zone)
    (given : zone.get_rrset_str dns ns_server rt = .ok records) :
    AllIn (left (copy_addresses dns order z t ns_server rt c)) ↔
      (records ≠ [] → Below t (lower (dns.printed (lower ns_server)))) := by
  constructor
  · intro after nonempty
    unfold copy_addresses at after
    rw [bind_of_ok (zone_at_ok found), bind_of_ok (value_ok given c)] at after
    have copied : ∀ record ∈ order.through records,
        (words record)[0]? = some (dns.printed (lower ns_server)) ∧ PrintedOwner dns t record :=
      fun _record member => copied_printed documented given member
    cases front : order.through records with
    | nil =>
        have none := order.perm records
        rw [front] at none
        exact absurd none.symm.eq_nil nonempty
    | cons record rest =>
        rw [front] at after copied
        have own := copied record List.mem_cons_self
        have inZone := inZone_of_bind documented own.2
          (fun _earlier _done => Keeps.each fun other member =>
            add_record_sound documented (copied other (List.mem_cons_of_mem record member)).2)
          sound target after
        exact inZone _ own.1
  · intro below
    by_cases none : records = []
    · rw [none] at given
      rw [copy_addresses_none found given]
      exact all
    · exact (copy_addresses_good documented (below none)).left (fun _c good => good.all)
        (fun _stop _c stopped => stopped.1.all) ⟨sound, all⟩

theorem copy_servers_iff (documented : dns.Documented) {z t ns_server : Bytes}
    (sound : Sound dns out earlier c) (all : AllIn c) (target : t ∈ c.name2zone) :
    AllIn (left (copy_servers dns order z t ns_server c)) ↔
      (t <:+ ns_server → ∀ zone, c.name2zone.lookup z = some zone →
        HasAddresses dns zone ns_server →
        Below t (lower (dns.printed (lower ns_server)))) := by
  unfold copy_servers
  by_cases ends : t <:+ ns_server
  · rw [if_pos ends]
    constructor
    · intro after _ends zone found has
      obtain ⟨a_records, given, nonempty⟩ := has
      by_cases none : a_records = []
      · obtain ⟨aaaa_records, given', nonempty⟩ := nonempty.resolve_left (absurd none)
        rw [none] at given
        rw [bind_of_ok (copy_addresses_none found given)] at after
        exact (copy_addresses_iff documented sound all target found given').mp after nonempty
      · have first : AllIn (left (copy_addresses dns order z t ns_server (ascii "A") c)) := by
          apply left_bind_regains _ after
          intro done next ended final
          have step : Keeps (Sound dns out earlier) (SoundStop dns out earlier)
              (copy_addresses dns order z t ns_server (ascii "A")) :=
            copy_addresses_sound documented
          exact regains_allIn (fun _earlier => copy_addresses_sound documented)
            ((step c sound).1 done next ended) final
        exact (copy_addresses_iff documented sound all target found given).mp first none
    · intro condition
      cases found : c.name2zone.lookup z with
      | none =>
          have stops : copy_addresses dns order z t ns_server (ascii "A") c =
              .error (.keyError z) c := bind_of_error (zone_at_error found)
          rw [bind_of_error stops]
          exact all
      | some zone =>
          have below := condition ends zone found
          cases given : zone.get_rrset_str dns ns_server (ascii "A") with
          | error stop =>
              have stops : copy_addresses dns order z t ns_server (ascii "A") c =
                  .error stop c := by
                unfold copy_addresses
                rw [bind_of_ok (zone_at_ok found), bind_of_error (value_error given c)]
              rw [bind_of_error stops]
              exact all
          | ok a_records =>
              by_cases none : a_records = []
              · rw [none] at given
                rw [bind_of_ok (copy_addresses_none found given)]
                cases given' : zone.get_rrset_str dns ns_server (ascii "AAAA") with
                | error stop =>
                    unfold copy_addresses
                    rw [bind_of_ok (zone_at_ok found), bind_of_error (value_error given' c)]
                    exact all
                | ok aaaa_records =>
                    apply (copy_addresses_iff documented sound all target found given').mpr
                    intro nonempty
                    exact below ⟨[], given, Or.inr ⟨aaaa_records, given', nonempty⟩⟩
              · have name := below ⟨a_records, given, Or.inl none⟩
                have copies : Keeps (Good dns out earlier) (GoodStop dns out earlier) (do
                    copy_addresses dns order z t ns_server (ascii "A")
                    copy_addresses dns order z t ns_server (ascii "AAAA")) :=
                  Keeps.bind (copy_addresses_good documented name)
                    fun _done => copy_addresses_good documented name
                exact copies.left (fun _c good => good.all) (fun _stop _c stopped => stopped.1.all)
                  ⟨sound, all⟩
  · rw [if_neg ends]
    exact ⟨fun _all impossible => absurd impossible ends, fun _condition => all⟩

theorem add_and_copy_iff (documented : dns.Documented) {z t record ns_server : Bytes}
    (printed : PrintedOwner dns t record) (sound : Sound dns out earlier c) (all : AllIn c)
    (present : t ∈ c.name2zone) :
    AllIn (left ((add_record dns true t record >>= fun _done =>
        copy_servers dns order z t ns_server) c)) ↔
      InZone (t, record) ∧ ∀ added, add_record dns true t record c = .ok () added →
        t <:+ ns_server → ∀ zone, added.name2zone.lookup z = some zone →
        HasAddresses dns zone ns_server → Below t (lower (dns.printed (lower ns_server))) := by
  have step : Keeps (Sound dns out earlier) (SoundStop dns out earlier) (add_record dns true t record) :=
    add_record_sound documented printed
  have own : t ∈ [t] := List.mem_cons_self
  have keys : Keeps (Has [t]) NoKeyError (add_record dns true t record) := add_record_has own
  have has : Has [t] c := by
    intro z member
    rw [List.mem_singleton.mp member]
    exact present
  have called : (left (add_record dns true t record c)).calls = c.calls ++ [(t, record)] :=
    add_record_called present
  cases result : add_record dns true t record c with
  | error stop next =>
      rw [bind_of_error result]
      rw [result] at called
      unfold AllIn
      change (∀ call ∈ next.calls, InZone call) ↔ _
      rw [show next.calls = c.calls ++ [(t, record)] from called, allIn_append]
      constructor
      · intro both
        refine ⟨both.2, ?_⟩
        intro added impossible
        cases impossible
      · intro both
        exact ⟨all, both.1⟩
  | ok done added =>
      rw [bind_of_ok result]
      rw [result] at called
      have sound' := (step c sound).1 done added result
      have target := (keys c has).1 done added result t own
      have allAdded : AllIn added ↔ InZone (t, record) := by
        unfold AllIn
        rw [show added.calls = c.calls ++ [(t, record)] from called, allIn_append]
        exact ⟨fun both => both.2, fun inZone => ⟨all, inZone⟩⟩
      constructor
      · intro after
        have allIn := regains_allIn (fun _earlier => copy_servers_sound documented) sound' after
        refine ⟨allAdded.mp allIn, ?_⟩
        intro other same
        cases same
        exact (copy_servers_iff documented sound' allIn target).mp after
      · intro both
        apply (copy_servers_iff documented sound' (allAdded.mpr both.1) target).mpr
        exact both.2 added rfl

theorem move_record_iff (documented : dns.Documented) {z t record : Bytes}
    (printed : PrintedOwner dns t record) (sound : Sound dns out earlier c) (all : AllIn c) :
    AllIn (left (move_record dns order z t record c)) ↔ MoveInZone dns z t record c := by
  unfold move_record MoveInZone
  cases found : c.name2zone.lookup z with
  | none =>
      rw [bind_of_error (zone_at_error found)]
      refine ⟨?_, fun _condition => all⟩
      intro _all zone ns_records impossible
      cases impossible
  | some zone =>
      rw [bind_of_ok (zone_at_ok found)]
      cases given : zone.get_rrset_str dns t (ascii "NS") with
      | error stop =>
          rw [bind_of_error (value_error rfl c)]
          refine ⟨?_, fun _condition => all⟩
          intro _all other ns_records same given'
          rw [← Option.some.inj same, given] at given'
          cases given'
      | ok ns_records =>
          rw [bind_of_ok (value_ok rfl c)]
          by_cases none : ns_records = []
          · rw [if_pos none]
            refine ⟨?_, fun _condition => all⟩
            intro _all other records same given' nonempty
            rw [← Option.some.inj same, given] at given'
            rw [← Except.ok.inj given'] at nonempty
            exact absurd none nonempty
          · rw [if_neg none]
            by_cases present : t ∈ c.name2zone
            · rw [add_and_copy_iff documented printed sound all present]
              constructor
              · intro both other records _same _given _nonempty _present
                exact both
              · intro condition
                exact condition zone ns_records rfl given none present
            · have stops : add_record dns true t record c = .error (.keyError t) c := by
                unfold add_record
                rw [notMem_iff_lookup.mp present]
              rw [bind_of_error stops]
              refine ⟨?_, fun _condition => all⟩
              intro _all other records _same _given _nonempty present'
              exact absurd present' present

theorem fix_record_iff (documented : dns.Documented) {zs : List Bytes} {z record : Bytes}
    (line : LineOf dns record) (sound : Sound dns out earlier c) (all : AllIn c) :
    AllIn (left (fix_record dns order zs z record c)) ↔
      RecordSteps (MoveInZone dns) zs z record c := by
  -- Without a fourth word that says NS nothing moves.
  have still (none : ∀ owner rt, (words record)[0]? = some owner →
      (words record)[3]? = some rt → upper rt ≠ ascii "NS") :
      RecordSteps (MoveInZone dns) zs z record c := by
    intro owner rt t first fourth delegates
    exact absurd delegates (none owner rt first fourth)
  unfold fix_record
  simp only
  rw [words_strip]
  by_cases blank : strip record = []
  · rw [if_pos blank]
    refine ⟨fun _all => still ?_, fun _condition => all⟩
    intro owner rt first
    rw [← words_strip, blank] at first
    cases first
  · rw [if_neg blank]
    cases fourth : word (words record) 3 with
    | error stop =>
        rw [bind_of_error (value_error rfl c)]
        refine ⟨fun _all => still ?_, fun _condition => all⟩
        intro owner rt _first is
        unfold word at fourth
        rw [is] at fourth
        cases fourth
    | ok rt =>
        have is := DNSZone.word_ok fourth
        rw [bind_of_ok (value_ok rfl c)]
        by_cases delegates : upper rt = ascii "NS"
        · rw [if_neg (not_not_intro delegates)]
          cases first : word (words record) 0 with
          | error stop =>
              rw [bind_of_error (value_error rfl c)]
              refine ⟨fun _all => still ?_, fun _condition => all⟩
              intro owner rt known
              unfold word at first
              rw [known] at first
              cases first
          | ok owner =>
              have begins := DNSZone.word_ok first
              rw [bind_of_ok (value_ok rfl c)]
              by_cases same : closest zs z owner = z
              · rw [if_pos same]
                refine ⟨?_, fun _condition => all⟩
                intro _all name rt' t begins' _fourth _delegates candidate longer longest
                rw [begins] at begins'
                rw [← Option.some.inj begins'] at candidate longest
                have chosen := closest_of_longest candidate longer longest
                exact absurd (chosen.symm.trans same) candidate.other
              · rw [if_neg same, move_record_iff documented (line.printed documented _) sound all]
                constructor
                · intro moves name rt' t begins' _fourth _delegates candidate longer longest
                  rw [begins] at begins'
                  rw [← Option.some.inj begins'] at candidate longest
                  rw [← closest_of_longest candidate longer longest]
                  exact moves
                · intro condition
                  obtain ⟨result, bound⟩ := closest_spec zs z owner
                  obtain ⟨candidate, longer⟩ := result.resolve_left same
                  exact condition owner rt _ begins is delegates candidate longer bound
        · rw [if_pos delegates]
          refine ⟨fun _all => still ?_, fun _condition => all⟩
          intro owner rt' _first is'
          rw [is] at is'
          rw [← Option.some.inj is']
          exact delegates

def DelegationsInZone (dns : Dnspython Data) (order : Order) (out : OutputFiles)
    (c : Converter Data) : Prop :=
  DelegationSteps dns order (MoveInZone dns) out c

theorem fix_zone_sound (documented : dns.Documented) {zs : List Bytes} {z : Bytes} :
    Keeps (Sound dns out earlier) (SoundStop dns out earlier) (fix_zone dns order zs z) := by
  unfold fix_zone
  split
  · exact Keeps.pure
  · apply Keeps.bind zone_at_sound
    intro zone
    exact Keeps.each fun record member => fix_record_sound documented ⟨zone.data, member⟩

theorem fix_zone_iff (documented : dns.Documented) {zs : List Bytes} {z : Bytes}
    (sound : Sound dns out earlier c) (all : AllIn c) :
    AllIn (left (fix_zone dns order zs z c)) ↔ ZoneSteps dns order (MoveInZone dns) zs z c := by
  unfold fix_zone ZoneSteps
  by_cases atRoot : z = root
  · rw [if_pos atRoot]
    exact ⟨fun _all notRoot => absurd atRoot notRoot, fun _condition => all⟩
  · rw [if_neg atRoot]
    cases found : c.name2zone.lookup z with
    | none =>
        rw [bind_of_error (zone_at_error found)]
        refine ⟨?_, fun _condition => all⟩
        intro _all _notRoot zone impossible
        cases impossible
    | some zone =>
        rw [bind_of_ok (zone_at_ok found)]
        have decides : AllIn (left (each (fix_record dns order zs z) (dns.to_text zone.data) c)) ↔
            EachStep (fix_record dns order zs z) (RecordSteps (MoveInZone dns) zs z)
              (dns.to_text zone.data) c := by
          have sounds : ∀ earlier, ∀ record ∈ dns.to_text zone.data,
              Keeps (Sound dns out earlier) (SoundStop dns out earlier)
                (fix_record dns order zs z record) :=
            fun _earlier record member => fix_record_sound documented ⟨zone.data, member⟩
          refine each_holds_iff (sounds earlier) ?_ ?_ c sound all
          · intro record member state still after
            exact regains_allIn (fun earlier => sounds earlier record member) still after
          · intro record member state still before
            exact fix_record_iff documented ⟨zone.data, member⟩ still before
        rw [decides]
        constructor
        · intro steps _notRoot other same
          rw [← Option.some.inj same]
          exact steps
        · intro steps
          exact steps atRoot zone rfl

theorem Sound.configure (sound : Sound dns out earlier c)
    (clients : HashTable Bytes (List Bytes)) (k : Bytes) :
    Sound dns out earlier (configure order out clients k c) :=
  sound.of_same rfl rfl rfl

theorem write_view_sound (documented : dns.Documented)
    {clients : HashTable Bytes (List Bytes)} {k : Bytes} :
    Keeps (Sound dns out earlier) (SoundStop dns out earlier)
      (write_view dns order out clients k) := by
  have fixes : Keeps (Sound dns out earlier) (SoundStop dns out earlier)
      (fix_delegation dns order (zones_of k)) :=
    Keeps.each fun _z _member => fix_zone_sound documented
  intro c sound
  exact fixes _ (sound.configure clients k)

theorem write_view_iff (documented : dns.Documented)
    {clients : HashTable Bytes (List Bytes)} {k : Bytes} (sound : Sound dns out earlier c)
    (all : AllIn c) :
    AllIn (left (write_view dns order out clients k c)) ↔
      ViewSteps dns order (MoveInZone dns) out clients k c := by
  refine each_holds_iff (fun _z _member => fix_zone_sound documented) ?_ ?_ _
    (sound.configure clients k) all
  · intro z _member state still after
    exact regains_allIn (fun _earlier => fix_zone_sound documented) still after
  · intro z _member state still before
    exact fix_zone_iff documented still before

private theorem write_zone_sound {n : Bytes} :
    Keeps (Sound dns out earlier) (SoundStop dns out earlier) (write_zone dns out n) := by
  have zone : Triple (Sound dns out earlier) (zone_at n)
      (fun zone c => c.name2zone.lookup n = some zone ∧ Sound dns out earlier c)
      (SoundStop dns out earlier) :=
    zone_at_triple fun _c sound _absent => ⟨sound, fun impossible => by cases impossible⟩
  apply Triple.bind zone
  intro zone
  apply write_file_triple
  · intro c both
    obtain ⟨found, sound⟩ := both
    refine ⟨sound.calls, sound.origin, sound.data, ?_⟩
    intro all file member
    rcases List.mem_append.mp member with before | last
    · exact sound.files all file before
    · rw [List.mem_singleton.mp last]
      exact ⟨n, rfl, sound.data all n zone found⟩
  · exact fun _c both => ⟨both.2, fun impossible => by cases impossible⟩

private theorem write_zone_calls (calls : List (Bytes × Bytes)) (n : Bytes) :
    Keeps (fun c : Converter Data => c.calls = calls) (fun _stop c => c.calls = calls)
      (write_zone dns out n) := by
  have zone : Triple (fun c : Converter Data => c.calls = calls) (zone_at n)
      (fun _zone c => c.calls = calls) (fun _stop c => c.calls = calls) :=
    (zone_at_triple fun _c same _absent => same).weaken (fun _c same => same)
      (fun _zone _c both => both.2) fun _stop _c same => same
  apply Triple.bind zone
  intro zone
  exact write_file_triple (fun _c same => same) fun _c same => same

theorem Sound.start (sound : Sound dns out earlier c) :
    Sound dns out earlier { c with config := [], files := [] } :=
  ⟨sound.calls, sound.origin, sound.data, fun _all _file impossible => by cases impossible⟩

private theorem write_to_file_sound (documented : dns.Documented) :
    Keeps (Sound dns out earlier) (SoundStop dns out earlier) (write_to_file dns order out) := by
  intro c sound
  have writes : Keeps (Sound dns out earlier) (SoundStop dns out earlier)
      (write_views_and_zones dns order out (views order c)) := by
    apply Keeps.bind (Keeps.each fun _k _member => write_view_sound documented)
    intro _done c' sound'
    exact Keeps.each (fun _n _member => write_zone_sound) c' sound'
  unfold write_to_file
  split
  · exact writes _ sound.start
  · constructor
    · intro done next impossible
      cases impossible
    · intro stop next same
      cases same
      exact ⟨sound.start, fun impossible => by cases impossible⟩

theorem write_to_file_iff (documented : dns.Documented) (sound : Sound dns out earlier c)
    (all : AllIn c) :
    AllIn (left (write_to_file dns order out c)) ↔
      (out.opens out.config_file → DelegationsInZone dns order out c) := by
  have files (done : Unit) (state : Converter Data) :
      AllIn (left (each (write_zone dns out) (order.through state.name2zone.keys) state)) ↔
        AllIn state := by
    have same : (left (each (write_zone dns out) (order.through state.name2zone.keys) state)).calls =
        state.calls := by
      have keeps : Keeps (fun c : Converter Data => c.calls = state.calls)
          (fun _stop c => c.calls = state.calls)
          (each (write_zone dns out) (order.through state.name2zone.keys)) :=
        Keeps.each fun n _member => write_zone_calls state.calls n
      exact keeps.left (fun _c same => same) (fun _stop _c same => same) rfl
    unfold AllIn
    rw [same]
  unfold write_to_file
  cases opens : out.opens out.config_file with
  | false =>
      rw [if_neg Bool.false_ne_true]
      exact ⟨fun _all impossible => absurd impossible Bool.false_ne_true, fun _condition => all⟩
  | true =>
      rw [if_pos rfl, forall_prop_of_true rfl]
      unfold write_views_and_zones
      rw [left_bind_iff files]
      refine each_holds_iff (fun _k _member => write_view_sound documented) ?_ ?_ _ sound.start all
      · intro k _member state still after
        exact regains_allIn (fun _earlier => write_view_sound documented) still after
      · intro k _member state still before
        exact write_view_iff documented still before

/-! ### The whole program -/

/-- However the program ends: every record it added has its owner in the zone, the
subdomain check did not raise, and zones and zone files have names of the zone only. -/
structure StaysInZone (dns : Dnspython Data) (out : OutputFiles)
    (result : EStateM.Result Stop (Converter Data) Unit) : Prop where
  calls : ∀ call ∈ (left result).calls, InZone call
  raises : halt result ≠ some (.raised .notSubdomain)
  data : ∀ n zone, (left result).name2zone.lookup n = some zone →
    LinesIn n (dns.to_text zone.data)
  files : ∀ file ∈ (left result).files, ∃ n, file.1 = zone_fn out n ∧ LinesIn n file.2

theorem staysInZone_iff {action : Action Data Unit}
    (keeps : Keeps (Sound dns out earlier) (SoundStop dns out earlier) action)
    (sound : Sound dns out earlier c) :
    StaysInZone dns out (action c) ↔ AllIn (left (action c)) := by
  constructor
  · intro stays
    exact stays.calls
  · intro all
    obtain ⟨ends, stops⟩ := keeps c sound
    cases result : action c with
    | ok done next =>
        rw [result] at all
        have still := ends done next result
        exact ⟨all, (fun impossible => by cases impossible), still.data all, still.files all⟩
    | error stop next =>
        rw [result] at all
        obtain ⟨still, foreign⟩ := stops stop next result
        refine ⟨all, ?_, still.data all, still.files all⟩
        intro raised
        exact foreign (Option.some.inj raised) all

end steps

section program

variable {Data : Type} {dns : Dnspython Data} {sub_dir : List (Directory Data)}

/-- The calls decide: a run whose records were all added in-zone stays in-zone. -/
theorem convert_stays_iff (documented : dns.Documented) (order : Order) (root_hint : List Bytes)
    (named : ∀ d ∈ sub_dir, d.Named dns) (out : OutputFiles) :
    StaysInZone dns out (convert dns order root_hint sub_dir out {}) ↔
      AllIn (left (convert dns order root_hint sub_dir out {})) := by
  have builds : Keeps (Good dns out []) (GoodStop dns out []) (init dns order root_hint sub_dir) :=
    init_good documented root_hint named
  obtain ⟨ends, stops⟩ := builds {} (good_empty dns)
  unfold convert
  cases result : init dns order root_hint sub_dir {} with
  | error stop next =>
      rw [bind_of_error result]
      obtain ⟨good, raised⟩ := stops stop next result
      refine ⟨fun stays => stays.calls, ?_⟩
      intro all
      exact ⟨all, fun same => raised (Option.some.inj same), good.sound.data all,
        good.sound.files all⟩
  | ok done built =>
      rw [bind_of_ok result]
      exact staysInZone_iff (write_to_file_sound documented) (ends done built result).sound

/-- For every root hint file and all captured responses with absolute names without
escaped dots: the program stays in-zone exactly when every step of `fix_delegation`,
on the zones that were built, meets its condition on names.  There are no such steps
where the configuration file does not open. -/
theorem zones_stay_in_zone_iff (documented : dns.Documented) (order : Order)
    (root_hint : List Bytes) (named : ∀ d ∈ sub_dir, d.Named dns) (out : OutputFiles) :
    StaysInZone dns out (convert dns order root_hint sub_dir out {}) ↔
      ∀ built, init dns order root_hint sub_dir {} = .ok () built →
        out.opens out.config_file → DelegationsInZone dns order out built := by
  have builds : Keeps (Good dns out []) (GoodStop dns out []) (init dns order root_hint sub_dir) :=
    init_good documented root_hint named
  obtain ⟨ends, stops⟩ := builds {} (good_empty dns)
  rw [convert_stays_iff documented order root_hint named out]
  unfold convert
  cases result : init dns order root_hint sub_dir {} with
  | error stop next =>
      rw [bind_of_error result]
      refine ⟨?_, fun _condition => (stops stop next result).1.all⟩
      intro _all built impossible
      cases impossible
  | ok done built =>
      rw [bind_of_ok result]
      have good := ends done built result
      rw [write_to_file_iff documented good.sound good.all]
      constructor
      · intro fits other same
        cases same
        exact fits
      · intro condition
        exact condition built rfl

end program

/-! ### Delegations below `com.` -/

instance (name : Bytes) : Decidable (Listed.dnspython.Named name) :=
  decidable_of_iff (Listed.printed name = name ∧ [46] <:+ name ∧ escapedDot name = false)
    ⟨fun checks => ⟨checks.1, checks.2.1, checks.2.2⟩,
      fun named => ⟨named.printed, named.absolute, named.plain⟩⟩

private theorem rrset_of_named {rdtype : Nat} {name : Bytes} {rds : List Bytes} (word : IsWord name)
    (named : Listed.dnspython.Named (lower name))
    (targets : rdtype = RRset.NS → ∀ rd ∈ rds, Listed.dnspython.Named (lower rd)) :
    (rrset_of rdtype name rds).Named Listed.dnspython where
  name := named
  rds := targets
  owners := by
    intro line member owner first
    obtain ⟨rd, _own, rfl⟩ := List.mem_map.mp member
    rw [Listed.words_line] at first
    rw [← Option.some.inj first, Listed.printed_of_isWord word]
    exact named

/-- A server of `com.` delegates `b.com.`, to another server of `com.`, and `child`. -/
def delegating (child : Bytes) : Directory Listed where
  dns_msg :=
    [(ascii "1",
      { src_ip := ascii "192.0.2.1"
        answer := []
        authority :=
          [servers (ascii "com.") [ascii "ns1.com.", ascii "ns2.com."],
            servers (ascii "b.com.") [ascii "ns2.com."], servers child [ascii "ns.x."]]
        additional :=
          [rrset_of 1 (ascii "ns1.com.") [ascii "192.0.2.1"],
            rrset_of 1 (ascii "ns2.com.") [ascii "192.0.2.2"]] })]
  rrs :=
    { data := ⟨root,
        [(ascii "com.", 2, ascii "ns1.com.", 60), (ascii "com.", 2, ascii "ns2.com.", 60),
          (ascii "b.com.", 2, ascii "ns2.com.", 60), (child, 2, ascii "ns.x.", 60),
          (ascii "ns1.com.", 1, ascii "192.0.2.1", 60),
          (ascii "ns2.com.", 1, ascii "192.0.2.2", 60)]⟩ }

theorem delegating_named {child : Bytes} (word : IsWord child)
    (named : Listed.dnspython.Named (lower child)) :
    (delegating child).Named Listed.dnspython := by
  have com : (servers (ascii "com.") [ascii "ns1.com.", ascii "ns2.com."]).Named
      Listed.dnspython :=
    rrset_of_named (isWord_of_all (by decide) (by decide +kernel)) (by decide +kernel)
      (by decide +kernel)
  have b : (servers (ascii "b.com.") [ascii "ns2.com."]).Named Listed.dnspython :=
    rrset_of_named (isWord_of_all (by decide) (by decide +kernel)) (by decide +kernel)
      (by decide +kernel)
  have delegated : (servers child [ascii "ns.x."]).Named Listed.dnspython :=
    rrset_of_named word named (by decide +kernel)
  have address (name : Bytes) (addresses : List Bytes) (word : IsWord name)
      (named : Listed.dnspython.Named (lower name)) :
      (rrset_of 1 name addresses).Named Listed.dnspython :=
    rrset_of_named word named fun impossible => by cases impossible
  intro entry member
  rw [List.mem_singleton.mp member]
  refine ⟨(fun _rrset absent => by cases absent), ?_, ?_⟩
  · intro rrset within
    rcases List.mem_cons.mp within with rfl | within
    · exact com
    rcases List.mem_cons.mp within with rfl | within
    · exact b
    rw [List.mem_singleton.mp within]
    exact delegated
  · intro rrset within
    rcases List.mem_cons.mp within with rfl | within
    · exact address _ _ (isWord_of_all (by decide) (by decide +kernel)) (by decide +kernel)
    rw [List.mem_singleton.mp within]
    exact address _ _ (isWord_of_all (by decide) (by decide +kernel)) (by decide +kernel)

/-- The delegation of `a.b.com.` moves down to `b.com.`, in-zone. -/
theorem zones_stay_in_zone_iff_below :
    StaysInZone Listed.dnspython flat
        (convert Listed.dnspython in_order [] [delegating (ascii "a.b.com.")] flat {}) ∧
      ∀ built, init Listed.dnspython in_order [] [delegating (ascii "a.b.com.")] {} = .ok () built →
        flat.opens flat.config_file → DelegationsInZone Listed.dnspython in_order flat built := by
  have named : ∀ d ∈ [delegating (ascii "a.b.com.")], d.Named Listed.dnspython := by
    intro d member
    rw [List.mem_singleton.mp member]
    exact delegating_named (isWord_of_all (by decide) (by decide +kernel))
      (by decide +kernel)
  have stays : StaysInZone Listed.dnspython flat
      (convert Listed.dnspython in_order [] [delegating (ascii "a.b.com.")] flat {}) := by
    apply (convert_stays_iff Listed.documented in_order [] named _).mpr
    unfold AllIn
    decide +kernel
  exact ⟨stays,
    (zones_stay_in_zone_iff Listed.documented in_order [] named flat).mp stays⟩

/-- `ab.com.` ends with `b.com.` but is not below it, and the subdomain check raises. -/
theorem suffix_delegation_raises :
    (delegating (ascii "ab.com.")).Named Listed.dnspython ∧
      halt (convert Listed.dnspython in_order [] [delegating (ascii "ab.com.")] flat {}) =
        some (.raised .notSubdomain) ∧
      ¬ StaysInZone Listed.dnspython flat
        (convert Listed.dnspython in_order [] [delegating (ascii "ab.com.")] flat {}) := by
  have raises : halt (convert Listed.dnspython in_order [] [delegating (ascii "ab.com.")]
      flat {}) = some (.raised .notSubdomain) := by
    decide +kernel
  refine ⟨?_, raises, fun stays => stays.raises raises⟩
  exact delegating_named (isWord_of_all (by decide) (by decide +kernel))
    (by decide +kernel)

end Converter

end LDPlayer
