/-
The views of the configuration file.

A view is named by its zones, sorted and parted by bars; where no name has a bar
the name gives back the zones, and so the views divide the servers by the sets of
zones that they serve, if all of them are written.  They are, and so are the files
of their zones, unless a delegation cannot move or a file does not open.
-/
import LDPlayer.Zone.Moves

set_option autoImplicit false

namespace LDPlayer

open Text DomainName Actions HashTable

namespace Converter

variable {Data : Type} {dns : Dnspython Data} {order : Order}

/-! ### What the actions change -/

section frame

variable {kept : Converter Data → Prop}

def OfZonesFree (kept : Converter Data → Prop) : Prop :=
  ∀ c calls name2zone, kept c → kept { c with calls := calls, name2zone := name2zone }

theorem value_keeps {Value : Type} (result : Except Stop Value) :
    Keeps kept (fun _stop => kept) (value result : Action Data Value) :=
  keeps_value fun _stop _c holds _stopped => holds

theorem zone_at_keeps (z : Bytes) : Keeps kept (fun _stop => kept) (zone_at z) := by
  apply Keeps.of_left
  intro c holds
  unfold zone_at
  split <;> exact holds

theorem add_record_keeps (free : OfZonesFree kept) (has_class : Bool) (z l : Bytes) :
    Keeps kept (fun _stop => kept) (add_record dns has_class z l) := by
  apply add_record_triple
  · intro c holds _absent
    exact holds
  · intro c zone next holds _found _added
    exact free c _ _ holds
  · intro c zone stop holds _found _stopped
    exact free c _ c.name2zone holds

private theorem copy_addresses_keeps (free : OfZonesFree kept) (z tmp_z ns_server rt : Bytes) :
    Keeps kept (fun _stop => kept) (copy_addresses dns order z tmp_z ns_server rt) := by
  apply Keeps.bind (zone_at_keeps z)
  intro zone
  apply Keeps.bind (value_keeps _)
  intro records
  exact Keeps.each fun record _member => add_record_keeps free true tmp_z record

private theorem move_record_keeps (free : OfZonesFree kept) (z tmp_z record : Bytes) :
    Keeps kept (fun _stop => kept) (move_record dns order z tmp_z record) := by
  apply Keeps.bind (zone_at_keeps z)
  intro zone
  apply Keeps.bind (value_keeps _)
  intro ns_records
  split
  · exact Keeps.pure
  · apply Keeps.bind (add_record_keeps free true tmp_z record)
    intro _done
    unfold copy_servers
    split
    · apply Keeps.bind (copy_addresses_keeps free _ _ _ _)
      intro _done
      exact copy_addresses_keeps free _ _ _ _
    · exact Keeps.pure

theorem fix_delegation_keeps (free : OfZonesFree kept) (zs : List Bytes) :
    Keeps kept (fun _stop => kept) (fix_delegation dns order zs) := by
  apply Keeps.each
  intro z _member
  unfold fix_zone
  split
  · exact Keeps.pure
  · apply Keeps.bind (zone_at_keeps z)
    intro zone
    apply Keeps.each
    intro record _line
    unfold fix_record
    simp only
    split
    · exact Keeps.pure
    · apply Keeps.bind (value_keeps _)
      intro rt
      split
      · exact Keeps.pure
      · apply Keeps.bind (value_keeps _)
        intro owner
        split
        · exact Keeps.pure
        · exact move_record_keeps free _ _ _

structure OfInit (kept : Converter Data → Prop) : Prop where
  free : OfZonesFree kept
  serves : ∀ c a z, kept c → kept { c with
    addr2name := c.addr2name.insert a (((c.addr2name.lookup a).getD []).insert z) }
  counts : ∀ c n, kept c → kept { c with total_processed_dir := n }

theorem zone_address_keeps (ofInit : OfInit kept) (z a : Bytes) :
    Keeps kept (fun _stop => kept) (zone_address z a : Action Data Unit) := by
  apply Keeps.bind
  · apply Keeps.of_left
    intro c holds
    unfold add_address
    split
    · exact holds
    · exact ofInit.free c c.calls _ holds
  · intro _done
    exact Keeps.of_left fun c holds => ofInit.serves c a (lower z) holds

theorem add_name2zone_keeps (free : OfZonesFree kept) (name : Bytes) :
    Keeps kept (fun _stop => kept) (add_name2zone dns name) := by
  apply Keeps.of_left
  intro c holds
  unfold add_name2zone
  split
  · exact holds
  · split
    · exact holds
    · exact free c c.calls _ holds

private theorem process_root_hint_keeps (ofInit : OfInit kept) (lines : List Bytes) :
    Keeps kept (fun _stop => kept) (process_root_hint dns order lines) := by
  have addresses (records : List Bytes) :
      Keeps kept (fun _stop => kept) (each hint_address records : Action Data Unit) :=
    Keeps.each fun a _member => Keeps.bind (zone_address_keeps ofInit root a)
      fun _done => zone_address_keeps ofInit root_servers_ns a
  have line (l : Bytes) : Keeps kept (fun _stop => kept) (hint_line dns l) := by
    unfold hint_line
    simp only
    split
    · exact Keeps.pure
    · apply Keeps.bind (add_record_keeps ofInit.free _ _ _)
      intro _done
      apply Keeps.bind (value_keeps _)
      intro rt
      split
      · exact add_record_keeps ofInit.free _ _ _
      · exact Keeps.pure
  have server (ns : Bytes) : Keeps kept (fun _stop => kept) (hint_server dns order ns) := by
    apply Keeps.bind (zone_at_keeps root)
    intro zone
    apply Keeps.bind (value_keeps _)
    intro a_records
    apply Keeps.bind (addresses _)
    intro _done
    apply Keeps.bind (zone_at_keeps root)
    intro zone'
    apply Keeps.bind (value_keeps _)
    intro aaaa_records
    exact addresses _
  have rest : Keeps kept (fun _stop => kept) (do
      add_name2zone dns root
      add_name2zone dns root_servers_ns
      each (hint_line dns) lines
      let zone ← zone_at root
      let ns_records ← value (zone.get_record_rdata dns root (ascii "NS"))
      each (hint_server dns order) (order.through ns_records) : Action Data Unit) := by
    apply Keeps.bind (add_name2zone_keeps ofInit.free root)
    intro _done
    apply Keeps.bind (add_name2zone_keeps ofInit.free root_servers_ns)
    intro _done
    apply Keeps.bind (Keeps.each fun l _member => line l)
    intro _done
    apply Keeps.bind (zone_at_keeps root)
    intro zone
    apply Keeps.bind (value_keeps _)
    intro ns_records
    exact Keeps.each fun ns _member => server ns
  apply Keeps.of_left
  intro c holds
  unfold process_root_hint
  split
  · exact holds
  · exact rest.left (fun _c kept => kept) (fun _stop _c kept => kept) holds

private theorem create_zone_keeps (ofInit : OfInit kept) (rrs : DNSZone Data)
    (rrsets : List RRset) :
    Keeps kept (fun _stop => kept) (create_zone dns order rrs rrsets) := by
  have addresses (z : Bytes) (records : List Bytes) :
      Keeps kept (fun _stop => kept) (each (zone_address z) records : Action Data Unit) :=
    Keeps.each fun a _member => zone_address_keeps ofInit z a
  have added (z : Bytes) (records : List Bytes) :
      Keeps kept (fun _stop => kept) (each (add_record dns true z) records) :=
    Keeps.each fun record _member => add_record_keeps ofInit.free true z record
  apply Keeps.each
  intro rrset _member
  split
  · apply Keeps.each
    intro rd _within
    apply Keeps.bind (add_name2zone_keeps ofInit.free _)
    intro _done
    apply Keeps.bind (value_keeps _)
    intro a_records
    apply Keeps.bind (addresses _ _)
    intro _done
    apply Keeps.bind (value_keeps _)
    intro aaaa_records
    apply Keeps.bind (addresses _ _)
    intro _done
    apply Keeps.bind (value_keeps _)
    intro ns_records
    apply Keeps.bind (added _ _)
    intro _done
    split
    · apply Keeps.bind (value_keeps _)
      intro a_records
      apply Keeps.bind (added _ _)
      intro _done
      apply Keeps.bind (value_keeps _)
      intro aaaa_records
      exact added _ _
    · exact Keeps.pure
  · exact Keeps.pure

private theorem push_zone_keeps (free : OfZonesFree kept) (src_ip : Bytes) (rrsets : List RRset) :
    Keeps kept (fun _stop => kept) (push_zone dns order src_ip rrsets) := by
  apply Keeps.each
  intro rrset _member
  apply Keeps.each
  intro record _line
  apply Keeps.bind (value_keeps _)
  intro owner
  have finds : Keeps kept (fun _stop => kept)
      (find_zone order src_ip owner : Action Data (Option Bytes)) := by
    apply Keeps.of_left
    intro c holds
    unfold find_zone
    split
    · exact holds
    · exact (value_keeps _).left (fun _c kept => kept) (fun _stop _c kept => kept) holds
  apply Keeps.bind finds
  intro found
  cases found with
  | none => exact Keeps.pure
  | some n => exact add_record_keeps free true n record

theorem init_keeps (ofInit : OfInit kept) (root_hint : List Bytes)
    (sub_dir : List (Directory Data)) :
    Keeps kept (fun _stop => kept) (init dns order root_hint sub_dir) := by
  apply Keeps.bind (process_root_hint_keeps ofInit root_hint)
  intro _done
  apply Keeps.each
  intro d _member
  have messages : Keeps kept (fun _stop => kept)
      (process_dns_message dns order d.dns_msg d.rrs) := by
    apply Keeps.bind
    · apply Keeps.each
      intro entry _within
      apply Keeps.bind (create_zone_keeps ofInit _ _)
      intro _done
      apply Keeps.bind (create_zone_keeps ofInit _ _)
      intro _done
      exact create_zone_keeps ofInit _ _
    · intro _done
      apply Keeps.bind (value_keeps _)
      intro ks
      apply Keeps.each
      intro entry _within
      apply Keeps.bind (push_zone_keeps ofInit.free _ _)
      intro _done
      apply Keeps.bind (push_zone_keeps ofInit.free _ _)
      intro _done
      exact push_zone_keeps ofInit.free _ _
  exact Keeps.of_left fun c holds => messages.left (fun _c kept => kept)
    (fun _stop _c kept => kept) (ofInit.counts c _ holds)

def NamesNodup (c : Converter Data) : Prop :=
  ∀ a names, c.addr2name.lookup a = some names → names.Nodup

theorem ofInit_namesNodup : OfInit (NamesNodup : Converter Data → Prop) where
  free := fun _c _calls _name2zone nodup => nodup
  serves := by
    intro c a z nodup addr names found
    rcases lookup_insert_cases found with ⟨_same, stored⟩ | before
    · rw [stored]
      apply List.Nodup.insert
      cases listed : c.addr2name.lookup a with
      | none => exact List.nodup_nil
      | some earlier => exact nodup a earlier listed
    · exact nodup addr names before
  counts := fun _c _n nodup => nodup

end frame

/-! ### The name of a view -/

section names

variable {names others : List Bytes}

theorem zones_of_view_key (some : names ≠ []) (no_bar : ∀ z ∈ names, 124 ∉ z) :
    zones_of (view_key names) = names.insertionSort (fun left right => left ≤ right) := by
  have sorted := List.perm_insertionSort (fun left right => left ≤ right) names
  refine List.splitOn_intercalate 124 ?_ ?_
  · exact fun z member => no_bar z (sorted.subset member)
  · exact fun empty => some (List.eq_nil_of_length_eq_zero (by rw [← sorted.length_eq, empty]; rfl))

/-- Two views have one name exactly if they have the same zones. -/
theorem view_key_eq_iff (some : names ≠ []) (some_others : others ≠ [])
    (no_bar : ∀ z ∈ names, 124 ∉ z) (no_bar_others : ∀ z ∈ others, 124 ∉ z)
    (nodup : names.Nodup) (nodup_others : others.Nodup) :
    view_key names = view_key others ↔ ∀ z, z ∈ names ↔ z ∈ others := by
  rw [← List.perm_ext_iff_of_nodup nodup nodup_others]
  constructor
  · intro same
    have zones := congrArg zones_of same
    rw [zones_of_view_key some no_bar, zones_of_view_key some_others no_bar_others] at zones
    have left := List.perm_insertionSort (fun left right => left ≤ right) names
    have right := List.perm_insertionSort (fun left right => left ≤ right) others
    exact left.symm.trans (zones ▸ right)
  · intro perm
    unfold view_key
    congr 1
    have left := List.perm_insertionSort (fun left right => left ≤ right) names
    have right := List.perm_insertionSort (fun left right => left ≤ right) others
    exact (left.trans (perm.trans right.symm)).eq_of_pairwise'
      (List.pairwise_insertionSort _ names) (List.pairwise_insertionSort _ others)

end names

/-! ### The addresses of a view -/

section clients

variable {key : Bytes → Bytes} {a k : Bytes}

private theorem mem_clients_foldl (addresses : List Bytes)
    (collected : HashTable Bytes (List Bytes)) :
    a ∈ ((addresses.foldl (fun views a =>
        views.insert (key a) (((views.lookup (key a)).getD []).insert a)) collected).lookup k).getD
        [] ↔
      a ∈ (collected.lookup k).getD [] ∨ a ∈ addresses ∧ key a = k := by
  induction addresses generalizing collected with
  | nil => simp
  | cons head rest ih =>
      rw [List.foldl_cons, ih, lookup_insert_eq, List.mem_cons]
      by_cases own : k = key head
      · rw [if_pos own, Option.getD_some, List.mem_insert_iff, ← own]
        constructor
        · rintro ((same | before) | later)
          · exact Or.inr ⟨Or.inl same, by rw [same, own]⟩
          · exact Or.inl before
          · exact Or.inr ⟨Or.inr later.1, later.2⟩
        · rintro (before | ⟨same | later, keyed⟩)
          · exact Or.inl (Or.inr before)
          · exact Or.inl (Or.inl same)
          · exact Or.inr ⟨later, keyed⟩
      · rw [if_neg own]
        constructor
        · rintro (before | later)
          · exact Or.inl before
          · exact Or.inr ⟨Or.inr later.1, later.2⟩
        · rintro (before | ⟨same | later, keyed⟩)
          · exact Or.inl before
          · exact absurd (by rw [← keyed, same]) own
          · exact Or.inr ⟨later, keyed⟩

private theorem nodup_clients_foldl (addresses : List Bytes)
    (collected : HashTable Bytes (List Bytes))
    (nodup : ∀ k, ((collected.lookup k).getD []).Nodup) :
    (((addresses.foldl (fun views a =>
        views.insert (key a) (((views.lookup (key a)).getD []).insert a)) collected).lookup k).getD
        []).Nodup := by
  induction addresses generalizing collected with
  | nil => exact nodup k
  | cons head rest ih =>
      rw [List.foldl_cons]
      apply ih
      intro other
      rw [lookup_insert_eq]
      split
      · exact (nodup _).insert
      · exact nodup other

variable {c : Converter Data}

private theorem mem_clients :
    a ∈ ((views order c).lookup k).getD [] ↔
      ∃ names, c.addr2name.lookup a = some names ∧ view_key names = k := by
  unfold views
  simp only
  rw [mem_clients_foldl]
  constructor
  · rintro (impossible | ⟨member, keyed⟩)
    · cases impossible
    · obtain ⟨names, found⟩ :=
        mem_iff_lookup.mp (AList.mem_keys.mp ((order.perm c.addr2name.keys).subset member))
      rw [found] at keyed
      exact ⟨names, found, keyed⟩
  · rintro ⟨names, found, keyed⟩
    refine Or.inr ⟨(order.perm c.addr2name.keys).symm.subset
      (AList.mem_keys.mpr (mem_iff_lookup.mpr ⟨names, found⟩)), ?_⟩
    rw [found]
    exact keyed

private theorem nodup_clients : (((views order c).lookup k).getD []).Nodup :=
  nodup_clients_foldl _ _ fun _k => List.nodup_nil

end clients

/-! ### The configuration file -/

section writing

variable {out : OutputFiles} {vs : HashTable Bytes (List Bytes)} {c next : Converter Data}

def configured (order : Order) (out : OutputFiles) (vs : HashTable Bytes (List Bytes))
    (entry : Bytes × Nat) : View where
  number := entry.2
  match_clients := order.through ((vs.lookup entry.1).getD [])
  zones := (zones_of entry.1).map (fun z => (z, out.zone_path ++ zone_file z))

def configuration (order : Order) (out : OutputFiles) (c : Converter Data) : List View :=
  ((order.through (views order c).keys).zipIdx 1).map (configured order out (views order c))

/-- The zones whose files a loop writes: it stops at a file that does not open. -/
def zones_written (out : OutputFiles) (ns : List Bytes) : List Bytes :=
  ns.takeWhile (fun n => out.opens (zone_fn out n))

variable (dns order out vs c) in
private theorem write_view_config (k : Bytes) :
    (left (write_view dns order out vs k c)).config =
      c.config ++ [configured order out vs (k, c.config.length + 1)] := by
  have keeps : Keeps
      (fun s : Converter Data => s.config = (configure order out vs k c).config)
      (fun _stop s => s.config = (configure order out vs k c).config)
      (fix_delegation dns order (zones_of k)) :=
    fix_delegation_keeps (fun _c _calls _name2zone same => same) (zones_of k)
  exact keeps.left (fun _s same => same) (fun _stop _s same => same) rfl

theorem write_views_config {ks : List Bytes} {c : Converter Data}
    (ended : each (write_view dns order out vs) ks c = .ok () next) :
    next.config = c.config ++ (ks.zipIdx (c.config.length + 1)).map (configured order out vs) := by
  induction ks generalizing c with
  | nil =>
      cases ended
      exact (List.append_nil _).symm
  | cons k rest ih =>
      have first := write_view_config dns order out vs c k
      rw [each_cons] at ended
      cases result : write_view dns order out vs k c with
      | ok value middle =>
          rw [result] at first ended
          change middle.config = _ at first
          rw [ih ended, first, List.length_append, List.length_singleton, List.append_assoc,
            List.zipIdx_cons, List.map_cons]
          rfl
      | error stop middle =>
          rw [result] at ended
          cases ended

/-- The views write no zone file, also where they stop. -/
theorem write_views_files {ks : List Bytes}
    (written : left (each (write_view dns order out vs) ks c) = next) :
    next.files = c.files := by
  have keeps : Keeps (fun s : Converter Data => s.files = c.files) (fun _stop s => s.files = c.files)
      (each (write_view dns order out vs) ks) := by
    apply Keeps.each
    intro k _member s same
    have free : OfZonesFree (fun s : Converter Data => s.files = c.files) :=
      fun _c _calls _name2zone same => same
    exact fix_delegation_keeps free (zones_of k) _ same
  rw [← written]
  exact keeps.left (fun _s same => same) (fun _stop _s same => same) rfl

variable (dns) in
theorem write_zone_of_opens {n : Bytes} (present : n ∈ c.name2zone)
    (opens : out.opens (zone_fn out n) = true) : ∃ zone, c.name2zone.lookup n = some zone ∧
      write_zone dns out n c = .ok () { c with
        files := c.files ++ [(zone_fn out n, dns.to_text zone.data)] } := by
  obtain ⟨zone, found⟩ := mem_iff_lookup.mp present
  exact ⟨zone, found, (bind_of_ok (zone_at_ok found)).trans (write_file_ok opens _ c)⟩

theorem write_zone_of_fails {n : Bytes} (present : n ∈ c.name2zone)
    (fails : out.opens (zone_fn out n) = false) :
    write_zone dns out n c = .error (.ioError (zone_fn out n)) c := by
  obtain ⟨zone, found⟩ := mem_iff_lookup.mp present
  exact (bind_of_ok (zone_at_ok found)).trans (write_file_error fails _ c)

private theorem zones_written_of_opens {n : Bytes} (opens : out.opens (zone_fn out n) = true)
    (rest : List Bytes) : zones_written out (n :: rest) = n :: zones_written out rest :=
  List.takeWhile_cons_of_pos opens

private theorem zones_written_of_fails {n : Bytes} (fails : out.opens (zone_fn out n) = false)
    (rest : List Bytes) : zones_written out (n :: rest) = [] := by
  unfold zones_written
  rw [List.takeWhile_cons, fails]
  rfl

variable (dns out) in
/-- The zone files up to the first that does not open; the views stay. -/
theorem write_zones_files {ns : List Bytes} (present : ∀ n ∈ ns, n ∈ c.name2zone) :
    (left (each (write_zone dns out) ns c)).config = c.config ∧
      (left (each (write_zone dns out) ns c)).files.map Prod.fst =
        c.files.map Prod.fst ++ (zones_written out ns).map (zone_fn out) := by
  induction ns generalizing c with
  | nil => exact ⟨rfl, (List.append_nil _).symm⟩
  | cons n rest ih =>
      have own := present n List.mem_cons_self
      rw [each_cons]
      cases opens : out.opens (zone_fn out n) with
      | false =>
          rw [write_zone_of_fails own opens, zones_written_of_fails opens]
          exact ⟨rfl, (List.append_nil _).symm⟩
      | true =>
          obtain ⟨zone, _found, writes⟩ := write_zone_of_opens dns own opens
          rw [writes, zones_written_of_opens opens]
          obtain ⟨config, files⟩ := @ih { c with
            files := c.files ++ [(zone_fn out n, dns.to_text zone.data)] }
            fun other member => present other (List.mem_cons_of_mem n member)
          refine ⟨config, files.trans ?_⟩
          rw [List.map_append, List.append_assoc]
          rfl

/-- The views divide the servers of a converter by the zones that they serve. -/
structure Partitions (c : Converter Data) (config : List View) : Prop where
  once : ∀ a ∈ c.addr2name, config.countP (fun view => a ∈ view.match_clients) = 1
  clients : ∀ view ∈ config, view.match_clients ≠ [] ∧ view.match_clients.Nodup ∧
    ∀ a ∈ view.match_clients, a ∈ c.addr2name
  together : ∀ a ∈ c.addr2name, ∀ b ∈ c.addr2name,
    (∃ view ∈ config, a ∈ view.match_clients ∧ b ∈ view.match_clients) ↔
      ∀ z, Serves c a z ↔ Serves c b z
  zones : ∀ view ∈ config, (view.zones.map Prod.fst).Nodup ∧
    ∀ a ∈ view.match_clients, ∀ z, z ∈ view.zones.map Prod.fst ↔ Serves c a z

theorem serves_iff {a : Bytes} {names : List Bytes} (found : c.addr2name.lookup a = some names)
    (z : Bytes) : Serves c a z ↔ z ∈ names := by
  unfold Serves
  rw [found]
  constructor
  · rintro ⟨names', same, member⟩
    rw [Option.some.inj same]
    exact member
  · exact fun member => ⟨names, rfl, member⟩

theorem mem_configured {a k : Bytes} {number : Nat} :
    a ∈ (configured order out (views order c) (k, number)).match_clients ↔
      ∃ names, c.addr2name.lookup a = some names ∧ view_key names = k := by
  unfold configured
  rw [(order.perm _).mem_iff]
  exact mem_clients

theorem exists_of_mem_configuration {view : View}
    (member : view ∈ configuration order out c) :
    ∃ a names number, c.addr2name.lookup a = some names ∧
      view = configured order out (views order c) (view_key names, number) := by
  obtain ⟨⟨k, number⟩, within, rfl⟩ := List.mem_map.mp member
  have key : k ∈ order.through (views order c).keys := List.fst_mem_of_mem_zipIdx within
  obtain ⟨a, names, found, rfl⟩ :=
    mem_views.mp (AList.mem_keys.mp ((order.perm (views order c).keys).subset key))
  exact ⟨a, names, number, found, rfl⟩

variable (order out) in
theorem configured_mem {a : Bytes} {names : List Bytes}
    (found : c.addr2name.lookup a = some names) :
    ∃ number, configured order out (views order c) (view_key names, number) ∈
      configuration order out c := by
  have key : view_key names ∈ order.through (views order c).keys :=
    (order.perm _).symm.subset (AList.mem_keys.mpr (mem_views.mpr ⟨a, names, found, rfl⟩))
  rw [← List.zipIdx_map_fst 1 (order.through (views order c).keys)] at key
  obtain ⟨⟨k, number⟩, within, rfl⟩ := List.mem_map.mp key
  exact ⟨number, List.mem_map_of_mem within⟩

private theorem configuration_once {a : Bytes} {names : List Bytes}
    (found : c.addr2name.lookup a = some names) :
    (configuration order out c).countP (fun view => a ∈ view.match_clients) = 1 := by
  have own (entry : Bytes × Nat) :
      a ∈ (configured order out (views order c) entry).match_clients ↔
        entry.1 = view_key names := by
    rw [mem_configured, found]
    simp [eq_comm]
  have nodup : (order.through (views order c).keys).Nodup :=
    (order.perm _).nodup_iff.mpr (views order c).keys_nodup
  have key : view_key names ∈ order.through (views order c).keys :=
    (order.perm _).symm.subset (AList.mem_keys.mpr (mem_views.mpr ⟨a, names, found, rfl⟩))
  have one := List.count_eq_one_of_mem nodup key
  rw [List.count, ← List.zipIdx_map_fst 1 (order.through (views order c).keys),
    List.countP_map] at one
  unfold configuration
  rw [List.countP_map]
  refine (List.countP_congr fun entry _member => ?_).trans one
  simp [own]

theorem configuration_partitions (indexed : Indexed c) (nodup : NamesNodup c)
    (no_bar : ∀ a z, Serves c a z → 124 ∉ z) :
    Partitions c (configuration order out c) where
  once := by
    intro a present
    obtain ⟨names, found⟩ := mem_iff_lookup.mp present
    exact configuration_once found
  clients := by
    intro view member
    obtain ⟨a, names, number, found, rfl⟩ := exists_of_mem_configuration member
    refine ⟨List.ne_nil_of_mem (mem_configured.mpr ⟨names, found, rfl⟩), ?_, ?_⟩
    · exact (order.perm _).nodup_iff.mpr nodup_clients
    · intro b client
      obtain ⟨others, listed, _same⟩ := mem_configured.mp client
      exact mem_iff_lookup.mpr ⟨others, listed⟩
  together := by
    intro a present b present_b
    obtain ⟨names, found⟩ := mem_iff_lookup.mp present
    obtain ⟨others, listed⟩ := mem_iff_lookup.mp present_b
    have plain := fun z member => no_bar a z ((serves_iff found z).mpr member)
    have plain_others := fun z member => no_bar b z ((serves_iff listed z).mpr member)
    simp only [serves_iff found, serves_iff listed]
    rw [← view_key_eq_iff (indexed.some_name a names found) (indexed.some_name b others listed)
      plain plain_others (nodup a names found) (nodup b others listed)]
    constructor
    · rintro ⟨view, member, client, client_b⟩
      obtain ⟨_, _, number, _, rfl⟩ := exists_of_mem_configuration member
      obtain ⟨names', found', same⟩ := mem_configured.mp client
      obtain ⟨others', listed', same'⟩ := mem_configured.mp client_b
      rw [found] at found'
      rw [listed] at listed'
      rw [Option.some.inj found', same, ← same', Option.some.inj listed']
    · intro same
      obtain ⟨number, member⟩ := configured_mem order out found
      exact ⟨_, member, mem_configured.mpr ⟨names, found, rfl⟩,
        mem_configured.mpr ⟨others, listed, same.symm⟩⟩
  zones := by
    intro view member
    obtain ⟨a, names, number, found, rfl⟩ := exists_of_mem_configuration member
    have plain := fun z member => no_bar a z ((serves_iff found z).mpr member)
    have sorted := List.perm_insertionSort (fun left right => left ≤ right) names
    have listed : (configured order out (views order c)
        (view_key names, number)).zones.map Prod.fst =
          names.insertionSort (fun left right => left ≤ right) := by
      unfold configured
      rw [List.map_map, ← zones_of_view_key (indexed.some_name a names found) plain]
      exact List.map_id _
    rw [listed]
    refine ⟨sorted.nodup_iff.mpr (nodup a names found), ?_⟩
    intro b client z
    obtain ⟨others, found_b, same⟩ := mem_configured.mp client
    have plain_others := fun z member => no_bar b z ((serves_iff found_b z).mpr member)
    rw [sorted.mem_iff, serves_iff found_b]
    exact (view_key_eq_iff (indexed.some_name a names found) (indexed.some_name b others found_b)
      plain plain_others (nodup a names found) (nodup b others found_b)).mp same.symm z

theorem zones_of_views (indexed : Indexed c) (no_bar : ∀ a z, Serves c a z → 124 ∉ z) :
    ∀ k ∈ views order c, ∀ z ∈ zones_of k, z ∈ c.name2zone := by
  intro k view z piece
  obtain ⟨a, names, found, rfl⟩ := mem_views.mp view
  have plain := fun z member => no_bar a z ((serves_iff found z).mpr member)
  rw [zones_of_view_key (indexed.some_name a names found) plain, List.mem_insertionSort] at piece
  obtain ⟨zone, own, _address⟩ := (indexed.agree a z).mp ⟨names, found, piece⟩
  exact mem_iff_lookup.mpr ⟨zone, own⟩

variable (order) in
theorem zones_through (c : Converter Data) :
    ∀ n ∈ order.through c.name2zone.keys, n ∈ c.name2zone :=
  fun _n member => AList.mem_keys.mpr ((order.perm _).subset member)

theorem write_to_file_of_fails (fails : out.opens out.config_file = false) :
    write_to_file dns order out c =
      .error (.ioError out.config_file) { c with config := [], files := [] } := by
  unfold write_to_file
  rw [fails]
  rfl

theorem write_to_file_of_ok {middle : Converter Data}
    (opens : out.opens out.config_file = true)
    (first : each (write_view dns order out (views order c))
      (order.through (views order c).keys) { c with config := [], files := [] } =
        .ok () middle) :
    write_to_file dns order out c =
      each (write_zone dns out) (order.through middle.name2zone.keys) middle := by
  unfold write_to_file
  rw [if_pos opens]
  exact bind_of_ok first

theorem write_to_file_of_error {middle : Converter Data} {stop : Stop}
    (opens : out.opens out.config_file = true)
    (first : each (write_view dns order out (views order c))
      (order.through (views order c).keys) { c with config := [], files := [] } =
        .error stop middle) :
    write_to_file dns order out c = .error stop middle := by
  unfold write_to_file
  rw [if_pos opens]
  exact bind_of_error first

theorem write_to_file_ended (ended : write_to_file dns order out c = .ok () next) :
    ∃ middle, each (write_view dns order out (views order c)) (order.through (views order c).keys)
        { c with config := [], files := [] } = .ok () middle ∧
      each (write_zone dns out) (order.through middle.name2zone.keys) middle = .ok () next ∧
      next.config = configuration order out c := by
  cases opens : out.opens out.config_file with
  | false =>
      rw [write_to_file_of_fails opens] at ended
      cases ended
  | true =>
      cases first : each (write_view dns order out (views order c))
          (order.through (views order c).keys) { c with config := [], files := [] } with
      | error stop middle =>
          rw [write_to_file_of_error opens first] at ended
          cases ended
      | ok _done middle =>
          rw [write_to_file_of_ok opens first] at ended
          have same := (write_zones_files dns out (zones_through order middle)).1
          rw [ended] at same
          exact ⟨middle, rfl, ended, same.trans (write_views_config first)⟩

variable (dns order out) in
private theorem write_to_file_nobody (nobody : ∀ a, a ∉ c.addr2name) :
    (left (write_to_file dns order out c)).config = [] := by
  have none : (views order c).keys = [] := by
    apply List.eq_nil_iff_forall_not_mem.mpr
    intro k key
    obtain ⟨a, names, found, _same⟩ := mem_views.mp (AList.mem_keys.mpr key)
    exact nobody a (mem_iff_lookup.mpr ⟨names, found⟩)
  have through : order.through (views order c).keys = [] := by
    rw [none]
    exact (order.perm []).eq_nil
  cases opens : out.opens out.config_file with
  | false => rw [write_to_file_of_fails opens]; rfl
  | true =>
      have first : each (write_view dns order out (views order c))
          (order.through (views order c).keys) { c with config := [], files := [] } =
            .ok () { c with config := [], files := [] } := by
        rw [through]
        rfl
      rw [write_to_file_of_ok opens first]
      exact (write_zones_files dns out (zones_through order _)).1

/-! ### What the run leaves -/

/-- The views divide the servers by their zones, and each zone of a view has a file. -/
structure ViewsWritten (out : OutputFiles) (c written : Converter Data) : Prop where
  partitions : Partitions c written.config
  files : ∀ view ∈ written.config, ∀ zone ∈ view.zones,
    zone.2 = out.zone_path ++ zone_file zone.1 ∧
      zone_fn out zone.1 ∈ written.files.map Prod.fst

/-- The loop over the zone files, in the state it begins in, gets to every zone that an
address serves: no file that comes before fails to open. -/
def FilesOpen (dns : Dnspython Data) (order : Order) (out : OutputFiles) (c : Converter Data) :
    Prop :=
  ∀ middle, each (write_view dns order out (views order c)) (order.through (views order c).keys)
      { c with config := [], files := [] } = .ok () middle →
    ∀ a z, Serves c a z →
      zone_fn out z ∈ (zones_written out (order.through middle.name2zone.keys)).map (zone_fn out)

theorem ViewsWritten.served {written : Converter Data} (views : ViewsWritten out c written)
    {a z : Bytes} (serves : Serves c a z) :
    written.config ≠ [] ∧ zone_fn out z ∈ written.files.map Prod.fst := by
  obtain ⟨names, found, _member⟩ := id serves
  have one := views.partitions.once a (mem_iff_lookup.mpr ⟨names, found⟩)
  obtain ⟨view, member, lists⟩ := List.countP_pos_iff.mp (one.symm ▸ Nat.one_pos)
  have own := ((views.partitions.zones view member).2 a (of_decide_eq_true lists) z).mpr serves
  obtain ⟨zone, listed, rfl⟩ := List.mem_map.mp own
  exact ⟨List.ne_nil_of_mem member, (views.files view member zone listed).2⟩

private theorem viewsWritten_of_condition {Subdomain : Bytes → Bytes → Prop}
    (documented : dns.Documented)
    (rereads : dns.Rereads Subdomain) (indexed : Indexed c) (nodup : NamesNodup c)
    (no_bar : ∀ a z, Serves c a z → 124 ∉ z) (opens : out.opens out.config_file = true)
    (taken : DelegationsTaken dns order Subdomain out c) (files : FilesOpen dns order out c) :
    ViewsWritten out c (left (write_to_file dns order out c)) := by
  obtain ⟨_done, middle, first⟩ :=
    (write_views_ends documented rereads (zones_of_views indexed no_bar)).mpr taken
  rw [write_to_file_of_ok opens first]
  obtain ⟨config, paths⟩ := write_zones_files dns out (zones_through order middle)
  have views : middle.config = configuration order out c := write_views_config first
  constructor
  · rw [config, views]
    exact configuration_partitions indexed nodup no_bar
  · intro view member zone own
    rw [config, views] at member
    obtain ⟨a, names, number, found, rfl⟩ := exists_of_mem_configuration member
    obtain ⟨z, piece, rfl⟩ := List.mem_map.mp own
    have plain := fun z member => no_bar a z ((serves_iff found z).mpr member)
    rw [zones_of_view_key (indexed.some_name a names found) plain, List.mem_insertionSort] at piece
    refine ⟨rfl, ?_⟩
    rw [paths]
    exact List.mem_append_right _ (files middle first a z ⟨names, found, piece⟩)

private theorem condition_of_viewsWritten {Subdomain : Bytes → Bytes → Prop}
    (documented : dns.Documented)
    (rereads : dns.Rereads Subdomain) (indexed : Indexed c)
    (no_bar : ∀ a z, Serves c a z → 124 ∉ z) {a z : Bytes} (serves : Serves c a z)
    (written : ViewsWritten out c (left (write_to_file dns order out c))) :
    out.opens out.config_file = true ∧ DelegationsTaken dns order Subdomain out c ∧
      FilesOpen dns order out c := by
  cases opens : out.opens out.config_file with
  | false =>
      rw [write_to_file_of_fails opens] at written
      exact absurd rfl (written.served serves).1
  | true =>
      cases first : each (write_view dns order out (views order c))
          (order.through (views order c).keys) { c with config := [], files := [] } with
      | error stop middle =>
          have none : middle.files = [] := write_views_files (congrArg left first)
          rw [write_to_file_of_error opens first] at written
          have some := (written.served serves).2
          change zone_fn out z ∈ middle.files.map Prod.fst at some
          rw [none] at some
          exact absurd some List.not_mem_nil
      | ok _done middle =>
          refine ⟨rfl, ?_, ?_⟩
          · exact (write_views_ends documented rereads (zones_of_views indexed no_bar)).mp
              ⟨_done, middle, first⟩
          · intro other same a' z' serves'
            rw [first] at same
            cases same
            rw [write_to_file_of_ok opens first] at written
            have path := (written.served serves').2
            have none : middle.files = [] := write_views_files (congrArg left first)
            rw [(write_zones_files dns out (zones_through order middle)).2, none] at path
            exact path

end writing

section program

/-- Whatever the root hint file and the directories are, if no zone name has a bar: the
configuration divides the servers by their zones and each file of a view is written,
exactly when the configuration file opens, `fix_delegation` moves what can be moved and
the zone files open.  Without an address there is nothing to divide. -/
theorem views_partition_iff {Subdomain : Bytes → Bytes → Prop} (documented : dns.Documented)
    (rereads : dns.Rereads Subdomain) (order : Order) (root_hint : List Bytes)
    (sub_dir : List (Directory Data)) (out : OutputFiles) {c : Converter Data}
    (built : init dns order root_hint sub_dir {} = .ok () c)
    (no_bar : ∀ a z, Serves c a z → 124 ∉ z) :
    ViewsWritten out c (left (write_to_file dns order out c)) ↔
      ((∃ a z, Serves c a z) → out.opens out.config_file = true ∧
        DelegationsTaken dns order Subdomain out c ∧ FilesOpen dns order out c) := by
  have started : Triple (fun c : Converter Data => c = {}) (init dns order root_hint sub_dir)
      (fun _done => Built [root]) IndexedStop := init_built root_hint sub_dir
  have indexed := ((started {} rfl).1 () c built).indexed
  have noneTwice : NamesNodup ({} : Converter Data) := fun _a _names impossible => by
    cases impossible
  have nodup : NamesNodup c :=
    (init_keeps ofInit_namesNodup root_hint sub_dir {} noneTwice).1 () c built
  constructor
  · rintro written ⟨a, z, serves⟩
    exact condition_of_viewsWritten documented rereads indexed no_bar serves written
  · intro condition
    by_cases somebody : ∃ a z, Serves c a z
    · obtain ⟨opens, taken, files⟩ := condition somebody
      exact viewsWritten_of_condition documented rereads indexed nodup no_bar opens taken files
    · have nobody : ∀ a, a ∉ c.addr2name := by
        intro a present
        obtain ⟨names, found⟩ := mem_iff_lookup.mp present
        obtain ⟨z, member⟩ := List.exists_mem_of_ne_nil names (indexed.some_name a names found)
        exact somebody ⟨a, z, names, found, member⟩
      have none := write_to_file_nobody dns order out nobody
      constructor
      · rw [none]
        exact ⟨fun a present => absurd present (nobody a), nofun,
          fun a present => absurd present (nobody a), nofun⟩
      · rw [none]
        exact nofun

def delegated (child : Bytes) : EStateM.Result Stop (Converter Listed) Unit :=
  init Listed.dnspython in_order [] [delegating child] {}

/-- The delegation of `a.b.com.` moves, and both views and all files are written. -/
theorem views_partition_iff_below :
    ∃ c, delegated (ascii "a.b.com.") = .ok () c ∧ (∀ a z, Serves c a z → 124 ∉ z) ∧
      ((∃ a z, Serves c a z) → flat.opens flat.config_file = true ∧
        DelegationsTaken Listed.dnspython in_order Below flat c ∧
        FilesOpen Listed.dnspython in_order flat c) ∧
      ViewsWritten flat c (left (write_to_file Listed.dnspython in_order flat c)) := by
  have ends : halt (delegated (ascii "a.b.com.")) = none := by decide +kernel
  have built := ended ends
  have plain : ∀ entry ∈ (left (delegated (ascii "a.b.com."))).addr2name.entries,
      ∀ z ∈ entry.2, 124 ∉ z := by
    decide +kernel
  generalize is : left (delegated (ascii "a.b.com.")) = c at built plain
  have no_bar : ∀ a z, Serves c a z → 124 ∉ z := by
    rintro a z ⟨names, found, member⟩
    exact plain ⟨a, names⟩ (AList.mem_lookup_iff.mp found) z member
  have indexed : Indexed c := by
    have started : Triple (fun c : Converter Listed => c = {})
        (init Listed.dnspython in_order [] [delegating (ascii "a.b.com.")])
        (fun _done => Built [root]) IndexedStop := init_built [] _
    exact ((started {} rfl).1 () c built).indexed
  have writes : halt (each (write_view Listed.dnspython in_order flat (views in_order c))
      (in_order.through (views in_order c).keys) { c with config := [], files := [] }) = none := by
    rw [← is]
    decide +kernel
  have opened : ∀ entry ∈ c.addr2name.entries, ∀ z ∈ entry.2, zone_fn flat z ∈
      (zones_written flat (left (each (write_view Listed.dnspython in_order flat (views in_order c))
        (in_order.through (views in_order c).keys)
        { c with config := [], files := [] })).name2zone.keys).map (zone_fn flat) := by
    rw [← is]
    decide +kernel
  have condition : (∃ a z, Serves c a z) → flat.opens flat.config_file = true ∧
      DelegationsTaken Listed.dnspython in_order Below flat c ∧
      FilesOpen Listed.dnspython in_order flat c := by
    intro _somebody
    refine ⟨by decide, ?_, ?_⟩
    · exact (write_views_ends Listed.documented Listed.rereads (zones_of_views indexed no_bar)).mp
        ⟨(), _, ended writes⟩
    · rintro middle same a z ⟨names, found, member⟩
      have last := opened ⟨a, names⟩ (AList.mem_lookup_iff.mp found) z member
      rw [same] at last
      exact last
  exact ⟨c, built, no_bar, condition,
    (views_partition_iff Listed.documented Listed.rereads in_order [] _ flat built no_bar).mpr
      condition⟩

/-- `ab.com.` cannot be moved to `b.com.`, and no zone file is written. -/
theorem foreign_delegation_stops :
    ∃ c, delegated (ascii "ab.com.") = .ok () c ∧ (∀ a z, Serves c a z → 124 ∉ z) ∧
      ¬ ViewsWritten flat c (left (write_to_file Listed.dnspython in_order flat c)) := by
  have ends : halt (delegated (ascii "ab.com.")) = none := by decide +kernel
  have plain : ∀ entry ∈ (left (delegated (ascii "ab.com."))).addr2name.entries,
      ∀ z ∈ entry.2, 124 ∉ z := by
    decide +kernel
  have serves : Serves (left (delegated (ascii "ab.com."))) (ascii "192.0.2.1") (ascii "com.") := by
    have listed : (left (delegated (ascii "ab.com."))).addr2name.lookup (ascii "192.0.2.1") =
        some [ascii "com."] := by
      decide +kernel
    exact ⟨_, listed, List.mem_cons_self⟩
  have none : (left (write_to_file Listed.dnspython in_order flat
      (left (delegated (ascii "ab.com."))))).files.map Prod.fst = [] := by
    decide +kernel
  refine ⟨_, ended ends, ?_, ?_⟩
  · rintro a z ⟨names, found, member⟩
    exact plain ⟨a, names⟩ (AList.mem_lookup_iff.mp found) z member
  · intro written
    have path := (written.served serves).2
    rw [none] at path
    exact List.not_mem_nil path

end program

end Converter

end LDPlayer
