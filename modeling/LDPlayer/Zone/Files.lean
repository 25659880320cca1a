/-
The files that the constructor writes.

A zone is what `add_record` makes of the lines that were added to it, one after the
other: those of the root hint file have no class, and all later ones have one.  So
the calls tell what is in the zone files.  While the views are written, delegations
go down to closer zones of a view; no zone gets the file of another, if the names of
the zones can be names of files.
-/
import LDPlayer.Zone.Routes

set_option autoImplicit false

namespace LDPlayer

open Text DomainName Actions HashTable Folds

namespace Converter

variable {Data : Type} (dns : Dnspython Data) (order : Order)

/-- Lines are added to a zone, one after the other. -/
def add_lines (has_class : Bool) (zone : DNSZone Data) (lines : List Bytes) :
    Except Stop (DNSZone Data) :=
  lines.foldlM (fun zone l => zone.add_record dns has_class l) zone

def lines_of (z : Bytes) (calls : List (Bytes × Bytes)) : List Bytes :=
  (calls.filter (fun call => call.1 = z)).map Prod.snd

/-- A zone from the beginning: with the lines of the root hint file, and then the others. -/
def remade (hints calls : List (Bytes × Bytes)) (z : Bytes) : Except Stop (DNSZone Data) := do
  let zone ← DNSZone.new dns z
  let hinted ← add_lines dns false zone (lines_of z hints)
  add_lines dns true hinted (lines_of z calls)

def convert_files (reader : MessageReader) (capture : Capture) (root_hint sub_dir : List Bytes)
    (out : OutputFiles) : Action Data Unit := do
  init_files dns order reader capture root_hint sub_dir
  write_to_file dns order out

/-- What is in the file of a path: what was written to it last. -/
def content (out : OutputFiles) (c : Converter Data) (fn : Bytes) : Option (List Bytes) :=
  (c.files.reverse.find? (fun written => out.file written.1 = out.file fn)).map Prod.snd

variable {dns order}

/-! ### A zone and its lines -/

section lines

variable {z : Bytes} {calls : List (Bytes × Bytes)}

private theorem add_record_data {has_class : Bool} {l : Bytes} {zone next : DNSZone Data}
    (added : zone.add_record dns has_class l = .ok next) :
    DNSZone.add_record dns has_class l { data := zone.data } = .ok { data := next.data } := by
  have same : DNSZone.fields dns has_class l { data := zone.data } =
      DNSZone.fields dns has_class l zone := rfl
  unfold DNSZone.add_record at added ⊢
  rw [same]
  split at added
  · rename_i passed
    rw [if_pos passed, ← Except.ok.inj added]
  · rename_i not_passed
    rw [if_neg not_passed]
    cases read : DNSZone.fields dns has_class l zone with
    | error stop =>
        rw [read] at added
        cases added
    | ok record =>
        simp only [read] at added ⊢
        split at added
        · rename_i unknown
          rw [if_pos unknown, ← Except.ok.inj added]
        · rename_i known
          rw [if_neg known]
          split at added
          · rename_i foreign
            rw [if_pos foreign, ← Except.ok.inj added]
          · rename_i own
            rw [if_neg own]
            unfold DNSZone.insert at added ⊢
            split at added
            · cases added
            · simp only at added ⊢
              split at added
              · cases added
              · split at added
                · cases added
                · rw [← Except.ok.inj added]

private theorem add_lines_append {has_class : Bool} {start zone next : DNSZone Data}
    {front : List Bytes}
    {l : Bytes} (made : add_lines dns has_class start front = .ok zone)
    (added : zone.add_record dns has_class l = .ok next) :
    add_lines dns has_class start (front ++ [l]) = .ok next := by
  unfold add_lines at made ⊢
  rw [List.foldlM_append, made]
  change (zone.add_record dns has_class l >>= fun zone => pure zone) = _
  rw [added]
  rfl

private theorem lines_of_own (l : Bytes) :
    lines_of z (calls ++ [(z, l)]) = lines_of z calls ++ [l] := by
  unfold lines_of
  simp

private theorem lines_of_other {other : Bytes} (differ : z ≠ other) (l : Bytes) :
    lines_of z (calls ++ [(other, l)]) = lines_of z calls := by
  unfold lines_of
  simp [differ.symm]

private theorem lines_of_none (none : ∀ call ∈ calls, call.1 ≠ z) : lines_of z calls = [] := by
  unfold lines_of
  rw [List.filter_eq_nil_iff.mpr]
  · rfl
  · intro call member
    simp [none call member]

end lines

/-! ### Zones come from their lines -/

/-- The zones are what the calls since `before` make of zones that may come `first`. -/
structure Sourced (dns : Dnspython Data) (has_class : Bool) (before : List (Bytes × Bytes))
    (first : Bytes → DNSZone Data → Prop) (c : Converter Data) : Prop where
  known : ∀ call ∈ c.calls, call.1 ∈ c.name2zone
  zones : ∃ calls, c.calls = before ++ calls ∧ ∀ z zone, c.name2zone.lookup z = some zone →
    ∃ start, first z start ∧
      add_lines dns has_class start (lines_of z calls) = .ok { data := zone.data }

section sourced

variable {has_class : Bool} {before : List (Bytes × Bytes)} {first : Bytes → DNSZone Data → Prop}

theorem add_record_sourced (z l : Bytes) :
    Keeps (Sourced dns has_class before first) (fun _stop _c => True)
      (add_record dns has_class z l) := by
  apply add_record_triple
  · exact fun _c _holds _absent => trivial
  · intro c zone next holds found added
    obtain ⟨calls, same, zones⟩ := holds.zones
    constructor
    · intro call member
      rw [AList.mem_insert]
      rcases List.mem_append.mp member with earlier | own
      · exact Or.inr (holds.known call earlier)
      · rw [List.mem_singleton.mp own]
        exact Or.inl rfl
    · refine ⟨calls ++ [(z, l)], ?_, ?_⟩
      · rw [← List.append_assoc, ← same]
      · intro name stored looked
        rw [lookup_insert_eq] at looked
        by_cases own : name = z
        · rw [if_pos own] at looked
          obtain ⟨start, allowed, made⟩ := zones z zone found
          rw [own, ← Option.some.inj looked, lines_of_own]
          exact ⟨start, allowed, add_lines_append made (add_record_data added)⟩
        · rw [if_neg own] at looked
          rw [lines_of_other own]
          exact zones name stored looked
  · exact fun _c _zone _stop _holds _found _stopped => trivial

theorem zone_address_sourced (z a : Bytes) :
    Keeps (Sourced dns has_class before first) (fun _stop _c => True)
      (zone_address z a : Action Data Unit) := by
  have replaces : ∀ c : Converter Data, Sourced dns has_class before first c →
      Sourced dns has_class before first (left (add_address z a c)) := by
    intro c holds
    unfold add_address
    cases found : c.name2zone.lookup z with
    | none => exact holds
    | some zone =>
        obtain ⟨calls, same, zones⟩ := holds.zones
        constructor
        · exact fun call member => (AList.mem_insert _).mpr (Or.inr (holds.known call member))
        · refine ⟨calls, same, ?_⟩
          intro name stored looked
          rcases lookup_insert_cases looked with ⟨own, is⟩ | earlier
          · rw [own, is]
            exact zones z zone found
          · exact zones name stored earlier
  apply Keeps.bind
  · exact (Keeps.of_left replaces).weaken (fun _c holds => holds)
      (fun _done _c holds => holds) (fun _stop _c _holds => trivial)
  · intro _done
    apply Triple.weaken (Keeps.of_left fun c holds => ?_) (fun _c holds => holds)
      (fun _done _c holds => holds) (fun _stop _c _holds => trivial)
    exact ⟨holds.known, holds.zones⟩

theorem add_name2zone_sourced
    (fresh : ∀ z zone, lines_of z before = [] → DNSZone.new dns z = .ok zone → first z zone)
    (name : Bytes) :
    Keeps (Sourced dns has_class before first) (fun _stop _c => True)
      (add_name2zone dns name) := by
  apply Triple.weaken (Keeps.of_left fun c holds => ?_) (fun _c holds => holds)
    (fun _done _c holds => holds) (fun _stop _c _holds => trivial)
  unfold add_name2zone
  split
  · exact holds
  · rename_i absent
    cases made : DNSZone.new dns (lower name) with
    | error stop => exact holds
    | ok zone =>
        obtain ⟨calls, same, zones⟩ := holds.zones
        have none : ∀ call ∈ c.calls, call.1 ≠ lower name := by
          intro call member own
          exact absent (own ▸ holds.known call member)
        have none_before := lines_of_none fun call member => none call
          (same ▸ List.mem_append_left calls member)
        have none_later := lines_of_none fun call member => none call
          (same ▸ List.mem_append_right before member)
        constructor
        · exact fun call member => (AList.mem_insert _).mpr (Or.inr (holds.known call member))
        · refine ⟨calls, same, ?_⟩
          intro other stored looked
          rcases lookup_insert_cases looked with ⟨own, is⟩ | earlier
          · rw [own, is, none_later]
            refine ⟨zone, fresh _ zone none_before made, ?_⟩
            have plain : zone = { data := zone.data } := by
              cases zone
              exact congrArg (fun address => DNSZone.mk address _) (DNSZone.new_ok made).1
            exact congrArg Except.ok plain
          · exact zones other stored earlier

end sourced

/-! ### What every step keeps -/

section steps

variable {kept : Converter Data → Prop}

theorem keeps_anyhow {Value : Type} {action : Action Data Value}
    (keeps : Keeps kept (fun _stop => kept) action) : Keeps kept (fun _stop _c => True) action :=
  keeps.weaken (fun _c holds => holds) (fun _value _c holds => holds)
    (fun _stop _c _holds => trivial)

theorem value_anyhow {Value : Type} (result : Except Stop Value) :
    Keeps kept (fun _stop _c => True) (value result : Action Data Value) :=
  keeps_anyhow (value_keeps result)

theorem zone_at_anyhow (z : Bytes) : Keeps kept (fun _stop _c => True) (zone_at z) :=
  keeps_anyhow (zone_at_keeps z)

structure OfHint (dns : Dnspython Data) (kept : Converter Data → Prop) : Prop where
  add_record : ∀ z l, Keeps kept (fun _stop _c => True) (add_record dns false z l)
  zone_address : ∀ z a, Keeps kept (fun _stop _c => True) (zone_address z a)
  add_name2zone : ∀ name, lower name = root ∨ lower name = root_servers_ns →
    Keeps kept (fun _stop _c => True) (add_name2zone dns name)

theorem OfHint.process_root_hint (steps : OfHint dns kept) (lines : List Bytes) :
    Keeps kept (fun _stop _c => True) (process_root_hint dns order lines) := by
  have addresses (records : List Bytes) :
      Keeps kept (fun _stop _c => True) (each hint_address records) :=
    Keeps.each fun a _member => Keeps.bind (steps.zone_address root a)
      fun _done => steps.zone_address root_servers_ns a
  have line (l : Bytes) : Keeps kept (fun _stop _c => True) (hint_line dns l) := by
    unfold hint_line
    simp only
    split
    · exact Keeps.pure
    · apply Keeps.bind (steps.add_record _ _)
      intro _done
      apply Keeps.bind (value_anyhow _)
      intro rt
      split
      · exact steps.add_record _ _
      · exact Keeps.pure
  have server (ns : Bytes) : Keeps kept (fun _stop _c => True) (hint_server dns order ns) := by
    apply Keeps.bind (zone_at_anyhow root)
    intro zone
    apply Keeps.bind (value_anyhow _)
    intro a_records
    apply Keeps.bind (addresses _)
    intro _done
    apply Keeps.bind (zone_at_anyhow root)
    intro zone'
    apply Keeps.bind (value_anyhow _)
    intro aaaa_records
    exact addresses _
  intro c holds
  unfold Converter.process_root_hint
  split
  · constructor
    · intro done next impossible
      cases impossible
    · exact fun _stop _next _stopped => trivial
  · have all : Keeps kept (fun _stop _c => True) (do
        Converter.add_name2zone dns root
        Converter.add_name2zone dns root_servers_ns
        each (hint_line dns) lines
        let zone ← zone_at root
        let ns_records ← value (zone.get_record_rdata dns root (ascii "NS"))
        each (hint_server dns order) (order.through ns_records) : Action Data Unit) := by
      apply Keeps.bind (steps.add_name2zone root (Or.inl (by decide)))
      intro _done
      apply Keeps.bind (steps.add_name2zone root_servers_ns (Or.inr (by decide +kernel)))
      intro _done
      apply Keeps.bind (Keeps.each fun l _member => line l)
      intro _done
      apply Keeps.bind (zone_at_anyhow root)
      intro zone
      apply Keeps.bind (value_anyhow _)
      intro ns_records
      exact Keeps.each fun ns _member => server ns
    exact all c holds

structure OfSteps (dns : Dnspython Data) (kept : Converter Data → Prop) : Prop where
  add_record : ∀ z l, Keeps kept (fun _stop _c => True) (add_record dns true z l)
  zone_address : ∀ z a, Keeps kept (fun _stop _c => True) (zone_address z a)
  add_name2zone : ∀ name, Keeps kept (fun _stop _c => True) (add_name2zone dns name)
  counts : ∀ c n, kept c → kept { c with total_processed_dir := n }

theorem OfSteps.create_zone (steps : OfSteps dns kept) (rrs : DNSZone Data)
    (rrsets : List RRset) :
    Keeps kept (fun _stop _c => True) (create_zone dns order rrs rrsets) := by
  have addresses (z : Bytes) (records : List Bytes) :
      Keeps kept (fun _stop _c => True) (each (Converter.zone_address z) records) :=
    Keeps.each fun a _member => steps.zone_address z a
  have added (z : Bytes) (records : List Bytes) :
      Keeps kept (fun _stop _c => True) (each (Converter.add_record dns true z) records) :=
    Keeps.each fun record _member => steps.add_record z record
  apply Keeps.each
  intro rrset _member
  split
  · apply Keeps.each
    intro rd _within
    apply Keeps.bind (steps.add_name2zone _)
    intro _done
    apply Keeps.bind (value_anyhow _)
    intro a_records
    apply Keeps.bind (addresses _ _)
    intro _done
    apply Keeps.bind (value_anyhow _)
    intro aaaa_records
    apply Keeps.bind (addresses _ _)
    intro _done
    apply Keeps.bind (value_anyhow _)
    intro ns_records
    apply Keeps.bind (added _ _)
    intro _done
    split
    · apply Keeps.bind (value_anyhow _)
      intro a_records
      apply Keeps.bind (added _ _)
      intro _done
      apply Keeps.bind (value_anyhow _)
      intro aaaa_records
      exact added _ _
    · exact Keeps.pure
  · exact Keeps.pure

theorem OfSteps.push_zone (steps : OfSteps dns kept) (src_ip : Bytes) (rrsets : List RRset) :
    Keeps kept (fun _stop _c => True) (push_zone dns order src_ip rrsets) := by
  have finds (owner : Bytes) :
      Keeps kept (fun _stop _c => True) (find_zone order src_ip owner : Action Data _) := by
    intro c holds
    unfold find_zone
    split
    · constructor
      · intro found next impossible
        cases impossible
      · exact fun _stop _next _stopped => trivial
    · exact value_anyhow _ c holds
  apply Keeps.each
  intro rrset _member
  apply Keeps.each
  intro record _line
  apply Keeps.bind (value_anyhow _)
  intro owner
  apply Keeps.bind (finds owner)
  intro found
  cases found with
  | none => exact Keeps.pure
  | some n => exact steps.add_record n record

theorem OfSteps.process_dir (steps : OfSteps dns kept) (d : Directory Data) :
    Keeps kept (fun _stop _c => True) (process_dir dns order d) := by
  have messages : Keeps kept (fun _stop _c => True)
      (process_dns_message dns order d.dns_msg d.rrs) := by
    apply Keeps.bind
    · apply Keeps.each
      intro entry _within
      apply Keeps.bind (steps.create_zone _ _)
      intro _done
      apply Keeps.bind (steps.create_zone _ _)
      intro _done
      exact steps.create_zone _ _
    · intro _done
      apply Keeps.bind (value_anyhow _)
      intro ks
      apply Keeps.each
      intro entry _within
      apply Keeps.bind (steps.push_zone _ _)
      intro _done
      apply Keeps.bind (steps.push_zone _ _)
      intro _done
      exact steps.push_zone _ _
  exact fun c holds => messages _ (steps.counts c _ holds)

end steps

/-! ### Delegations that move down -/

/-- A delegation in zone `z` goes to the zone of the view that is closest to its owner,
or an address of its server does. -/
structure Moved (zs : List Bytes) (z record : Bytes) (call : Bytes × Bytes) : Prop where
  within : z ∈ zs
  not_root : z ≠ root
  delegates : ∃ rt, (words record)[3]? = some rt ∧ upper rt = ascii "NS"
  closest : ∃ owner, (words record)[0]? = some owner ∧ closest zs z owner = call.1
  other : call.1 ≠ z
  line : call.2 = record ∨ call.1 <:+ (words record).getLastD []

def Moves (zs : List Bytes) (call : Bytes × Bytes) : Prop :=
  ∃ z record, Moved zs z record call

section delegations

variable {kept : Converter Data → Prop} {zs : List Bytes}

private theorem keeps_value_bind {Value Other : Type} {result : Except Stop Value}
    {rest : Value → Action Data Other}
    (next : ∀ given, result = .ok given → Keeps kept (fun _stop _c => True) (rest given)) :
    Keeps kept (fun _stop _c => True) (value result >>= rest) :=
  Triple.bind (value_triple fun _stop _c _holds _stopped => trivial)
    fun given => Triple.assume (next given)

private theorem copy_addresses_moves {z tmp_z ns_server rt : Bytes}
    (adds : ∀ l, Keeps kept (fun _stop _c => True) (add_record dns true tmp_z l)) :
    Keeps kept (fun _stop _c => True) (copy_addresses dns order z tmp_z ns_server rt) := by
  apply Keeps.bind (zone_at_anyhow z)
  intro zone
  apply Keeps.bind (value_anyhow _)
  intro records
  exact Keeps.each fun record _member => adds record

private theorem move_record_moves {z tmp_z record : Bytes}
    (adds : ∀ l, l = record ∨ tmp_z <:+ (words record).getLastD [] →
      Keeps kept (fun _stop _c => True) (add_record dns true tmp_z l)) :
    Keeps kept (fun _stop _c => True) (move_record dns order z tmp_z record) := by
  apply Keeps.bind (zone_at_anyhow z)
  intro zone
  apply Keeps.bind (value_anyhow _)
  intro ns_records
  split
  · exact Keeps.pure
  · apply Keeps.bind (adds record (Or.inl rfl))
    intro _done
    unfold copy_servers
    split
    · rename_i within
      apply Keeps.bind (copy_addresses_moves fun l => adds l (Or.inr within))
      intro _done
      exact copy_addresses_moves fun l => adds l (Or.inr within)
    · exact Keeps.pure

private theorem fix_record_moves {z record : Bytes} (within : z ∈ zs) (not_root : z ≠ root)
    (adds : ∀ call, Moves zs call →
      Keeps kept (fun _stop _c => True) (add_record dns true call.1 call.2)) :
    Keeps kept (fun _stop _c => True) (fix_record dns order zs z record) := by
  unfold fix_record
  simp only
  split
  · exact Keeps.pure
  · apply keeps_value_bind
    intro rt fourth
    split
    · exact Keeps.pure
    · rename_i delegates
      apply keeps_value_bind
      intro owner first
      split
      · exact Keeps.pure
      · rename_i other
        apply move_record_moves
        intro l line
        exact adds (closest zs z owner, l) ⟨z, strip record, {
          within := within
          not_root := not_root
          delegates := ⟨rt, DNSZone.word_ok fourth, not_not.mp delegates⟩
          closest := ⟨owner, DNSZone.word_ok first, rfl⟩
          other := other
          line := line }⟩

private theorem fix_delegation_moves
    (adds : ∀ call, Moves zs call →
      Keeps kept (fun _stop _c => True) (add_record dns true call.1 call.2)) :
    Keeps kept (fun _stop _c => True) (fix_delegation dns order zs) := by
  apply Keeps.each
  intro z within
  unfold fix_zone
  split
  · exact Keeps.pure
  · rename_i not_root
    apply Keeps.bind (zone_at_anyhow z)
    intro zone
    exact Keeps.each fun record _line => fix_record_moves within not_root adds

private theorem write_views_moves {out : OutputFiles} {vs : HashTable Bytes (List Bytes)}
    {ks : List Bytes} (configures : ∀ c config, kept c → kept { c with config := config })
    (adds : ∀ k ∈ ks, ∀ call, Moves (zones_of k) call →
      Keeps kept (fun _stop _c => True) (add_record dns true call.1 call.2)) :
    Keeps kept (fun _stop _c => True) (each (write_view dns order out vs) ks) := by
  apply Keeps.each
  intro k member c holds
  exact fix_delegation_moves (adds k member) _ (configures c _ holds)

end delegations

/-! ### What is written -/

section written

variable {out : OutputFiles} {c next : Converter Data}

private theorem write_zones_written {ns : List Bytes}
    (ended : each (write_zone dns out) ns c = .ok () next) :
    (∃ written, next.files = c.files ++ written ∧
      List.Forall₂ (fun n file => out.opens (zone_fn out n) = true ∧
        ∃ zone, c.name2zone.lookup n = some zone ∧
          file = (zone_fn out n, dns.to_text zone.data)) ns written) ∧
      next.name2zone = c.name2zone ∧ next.calls = c.calls ∧ next.addr2name = c.addr2name := by
  induction ns generalizing c with
  | nil =>
      cases ended
      exact ⟨⟨[], (List.append_nil _).symm, .nil⟩, rfl, rfl, rfl⟩
  | cons n rest ih =>
      rw [each_cons] at ended
      cases found : c.name2zone.lookup n with
      | none =>
          have stops : write_zone dns out n c = .error (.keyError n) c :=
            bind_of_error (zone_at_error found)
          rw [stops] at ended
          cases ended
      | some zone =>
          have present : n ∈ c.name2zone := mem_iff_lookup.mpr ⟨zone, found⟩
          cases opens : out.opens (zone_fn out n) with
          | false =>
              rw [write_zone_of_fails present opens] at ended
              cases ended
          | true =>
              obtain ⟨same, is, writes⟩ := write_zone_of_opens dns present opens
              obtain rfl := Option.some.inj (found.symm.trans is)
              rw [writes] at ended
              obtain ⟨⟨written, files, all⟩, zones, calls, served⟩ := ih ended
              refine ⟨⟨_ :: written, ?_, .cons ⟨opens, zone, found, rfl⟩ all⟩, zones, calls, served⟩
              rw [files, List.append_assoc]
              rfl

/-- Where no two of the paths lead to one file, each file has the text of its path. -/
theorem content_of_mem {fn : Bytes} {s : List Bytes}
    (distinct : (c.files.map (fun written => out.file written.1)).Nodup)
    (member : (fn, s) ∈ c.files) : content out c fn = some s := by
  unfold content
  cases found : c.files.reverse.find? (fun written => out.file written.1 = out.file fn) with
  | none =>
      have absent := List.find?_eq_none.mp found (fn, s) (List.mem_reverse.mpr member)
      exact absurd (decide_eq_true rfl) absent
  | some last =>
      have within := List.mem_reverse.mp (List.mem_of_find?_eq_some found)
      have same : out.file last.1 = out.file fn := by
        have holds := List.find?_some found
        exact of_decide_eq_true holds
      rw [List.inj_on_of_nodup_map distinct within member same]
      rfl

private theorem paths_of_files {zs : List Bytes} {written : List (Bytes × List Bytes)}
    (named : List.Forall₂ (fun z file => file.1 = zone_fn out z) zs written) :
    written.map Prod.fst = zs.map (zone_fn out) := by
  induction named with
  | nil => rfl
  | cons own _rest ih => rw [List.map_cons, List.map_cons, ih, own]

private theorem zone_file_inj {z other : Bytes} (absolute : Absolute z) (absolute' : Absolute other)
    (same : zone_file z = zone_file other) : z = other := by
  have not_root_zone : ∀ {name : Bytes}, Absolute name → ascii "root_zone" ≠ name := by
    intro name absolute is
    have ends := absolute.ends
    rw [← is] at ends
    revert ends
    decide +kernel
  unfold zone_file at same
  split at same
  · rename_i own
    split at same
    · rename_i own'
      rw [own, own']
    · exact absurd same (not_root_zone absolute')
  · split at same
    · exact absurd same.symm (not_root_zone absolute)
    · exact same

theorem slash_zone_file {z : Bytes} (plain : 47 ∉ z) : 47 ∉ zone_file z := by
  unfold zone_file
  split
  · decide
  · exact plain

private theorem zone_fn_inj (separate : out.Separate) {z other : Bytes}
    (absolute : Absolute z) (absolute' : Absolute other) (plain : 47 ∉ z) (plain' : 47 ∉ other)
    (opens : out.opens (zone_fn out z) = true) (opens' : out.opens (zone_fn out other) = true)
    (same : out.file (zone_fn out z) = out.file (zone_fn out other)) : z = other :=
  zone_file_inj absolute absolute'
    (separate.names _ _ (slash_zone_file plain) (slash_zone_file plain') opens opens' same)

private theorem files_distinct (separate : out.Separate) {zs : List Bytes}
    {written : List (Bytes × List Bytes)}
    (stored : List.Forall₂ (fun z file => out.opens (zone_fn out z) = true ∧
      file.1 = zone_fn out z) zs written)
    (nodup : zs.Nodup) (absolute : ∀ z ∈ zs, Absolute z) (plain : ∀ z ∈ zs, 47 ∉ z) :
    (written.map (fun file => out.file file.1)).Nodup := by
  have opened : ∀ z ∈ zs, out.opens (zone_fn out z) = true := by
    intro z own
    obtain ⟨_file, _member, opens, _path⟩ := Folds.exists_pair stored own
    exact opens
  have paths : written.map (fun file => out.file file.1) =
      zs.map (fun z => out.file (zone_fn out z)) := by
    have both := congrArg (List.map out.file)
      (paths_of_files (stored.imp fun _z _file opensAt => opensAt.2))
    rw [List.map_map, List.map_map] at both
    exact both
  rw [paths]
  apply List.Nodup.map_on _ nodup
  intro z own other own' same
  exact zone_fn_inj separate (absolute z own) (absolute other own') (plain z own)
    (plain other own') (opened z own) (opened other own') same

end written

/-! ### The names of the zones -/

section names

variable {P : Bytes → Prop}

private theorem ofHint_names (first : P root) (second : P root_servers_ns) :
    OfHint dns (fun c => ∀ z ∈ c.name2zone, P z) where
  add_record z l := by
    apply add_record_triple
    · exact fun _c _holds _absent => trivial
    · intro c zone next holds found _added name member
      rcases (AList.mem_insert _).mp member with own | earlier
      · rw [own]
        exact holds z (mem_iff_lookup.mpr ⟨zone, found⟩)
      · exact holds name earlier
    · exact fun _c _zone _stop _holds _found _stopped => trivial
  zone_address z a := by
    apply keeps_anyhow
    apply Keeps.bind
    · apply Keeps.of_left
      intro c holds
      unfold add_address
      cases found : c.name2zone.lookup z with
      | none => exact holds
      | some zone =>
          intro name member
          rcases (AList.mem_insert _).mp member with own | earlier
          · rw [own]
            exact holds z (mem_iff_lookup.mpr ⟨zone, found⟩)
          · exact holds name earlier
    · intro _done
      exact Keeps.of_left fun c holds => holds
  add_name2zone name either := by
    apply keeps_anyhow
    apply Keeps.of_left
    intro c holds
    unfold Converter.add_name2zone
    split
    · exact holds
    · split
      · exact holds
      · intro other member
        rcases (AList.mem_insert _).mp member with own | earlier
        · rw [own]
          rcases either with is | is
          · rw [is]
            exact first
          · rw [is]
            exact second
        · exact holds other earlier

theorem Processes.names {directories : List (Directory Data)} {start last : Converter Data}
    (processes : Processes dns start directories last) (first : ∀ z ∈ start.name2zone, P z)
    (makes : ∀ directory ∈ directories, ∀ entry ∈ directory.dns_msg,
      ∀ rrset ∈ entry.2.answer ++ entry.2.authority, rrset.rdtype = RRset.NS →
        P (lower rrset.name)) : ∀ z ∈ last.name2zone, P z := by
  induction processes with
  | done c => exact first
  | next processed _later ih =>
      refine ih ?_ fun directory member => makes directory (List.mem_cons_of_mem _ member)
      intro z member
      rcases (processed.zones.zones z).mp member with earlier | ⟨entry, own, rrset, within, made⟩
      · exact first z earlier
      · rw [made.2.2]
        exact makes _ List.mem_cons_self entry own rrset within made.1

end names

/-! ### The files of a state -/

section files

variable {out : OutputFiles} {hints : List (Bytes × Bytes)} {c next : Converter Data}

def Hinted (dns : Dnspython Data) (hints : List (Bytes × Bytes)) (z : Bytes)
    (start : DNSZone Data) : Prop :=
  ∃ zone, DNSZone.new dns z = .ok zone ∧ add_lines dns false zone (lines_of z hints) = .ok start

private theorem ofSteps_sourced : OfSteps dns (Sourced dns true hints (Hinted dns hints)) where
  add_record := add_record_sourced
  zone_address := zone_address_sourced
  add_name2zone := by
    apply add_name2zone_sourced
    intro z zone none made
    refine ⟨zone, made, ?_⟩
    rw [none]
    rfl
  counts _c _n holds := ⟨holds.known, holds.zones⟩

private theorem ofHint_sourced :
    OfHint dns (Sourced dns false [] fun z start => DNSZone.new dns z = .ok start) where
  add_record := add_record_sourced
  zone_address := zone_address_sourced
  add_name2zone name _either := add_name2zone_sourced (fun _z _zone _none made => made) name

theorem Sourced.hinted
    (sourced : Sourced dns false [] (fun z start => DNSZone.new dns z = .ok start) c) :
    Sourced dns true c.calls (Hinted dns c.calls) c where
  known := sourced.known
  zones := by
    obtain ⟨calls, same, zones⟩ := sourced.zones
    refine ⟨[], (List.append_nil _).symm, ?_⟩
    intro z zone found
    obtain ⟨start, made, lines⟩ := zones z zone found
    refine ⟨{ data := zone.data }, ⟨start, made, ?_⟩, rfl⟩
    rw [same]
    exact lines

private theorem remade_of_sourced {calls : List (Bytes × Bytes)} {z : Bytes}
    {start zone : DNSZone Data}
    (hinted : Hinted dns hints z start)
    (lines : add_lines dns true start (lines_of z calls) = .ok zone) :
    remade dns hints calls z = .ok zone := by
  obtain ⟨fresh, made, first⟩ := hinted
  unfold remade
  rw [made]
  change (add_lines dns false fresh (lines_of z hints) >>= fun hinted =>
    add_lines dns true hinted (lines_of z calls)) = _
  rw [first]
  exact lines

/-- What the state `c` has in the configuration and in the zone files: views by the
zones of the servers, with the paths of their files; and in the file of each zone the
lines of its calls, those of the root hint file first.  No zone file goes over the
configuration. -/
structure Written (dns : Dnspython Data) (out : OutputFiles) (hints : List (Bytes × Bytes))
    (c next : Converter Data) : Prop where
  views : Partitions c next.config
  paths : ∀ view ∈ next.config, ∀ zone ∈ view.zones,
    zone.2 = out.zone_path ++ zone_file zone.1 ∧ zone.1 ∈ c.name2zone
  moves : ∃ moved, next.calls = c.calls ++ moved ∧
    ∀ call ∈ moved, ∃ view ∈ next.config, Moves (view.zones.map Prod.fst) call
  files : ∃ later, next.calls = hints ++ later ∧
    ∀ z ∈ c.name2zone, ∃ zone, remade dns hints later z = .ok zone ∧
      content out next (zone_fn out z) = some (dns.to_text zone.data)
  only : ∀ file ∈ next.files, out.file file.1 ≠ out.file out.config_file ∧
    ∃ z ∈ c.name2zone, file.1 = zone_fn out z

/-- While the views are written, zones get lines of delegations only. -/
structure ViewsKept (dns : Dnspython Data) (order : Order) (hints : List (Bytes × Bytes))
    (c s : Converter Data) : Prop where
  sourced : Sourced dns true hints (Hinted dns hints) s
  zones : ∀ z, z ∈ s.name2zone ↔ z ∈ c.name2zone
  moves : ∃ moved, s.calls = c.calls ++ moved ∧
    ∀ call ∈ moved, ∃ k ∈ Converter.views order c, Moves (zones_of k) call
  files : s.files = []

private theorem add_record_viewsKept {k : Bytes} {call : Bytes × Bytes}
    (view : k ∈ Converter.views order c)
    (moved : Moves (zones_of k) call) :
    Keeps (ViewsKept dns order hints c) (fun _stop _s => True)
      (add_record dns true call.1 call.2) := by
  intro s holds
  constructor
  · intro done next ended
    obtain ⟨earlier, calls, all⟩ := holds.moves
    refine ⟨(add_record_sourced call.1 call.2 s holds.sourced).1 done next ended, ?_, ?_, ?_⟩
    · intro z
      rw [(add_record_grows ended).zones, or_false, holds.zones]
    · refine ⟨earlier ++ [call], ?_, ?_⟩
      · rw [(add_record_calls ended).1, calls, List.append_assoc]
      · intro other member
        rcases List.mem_append.mp member with before | own
        · exact all other before
        · rw [List.mem_singleton.mp own]
          exact ⟨k, view, moved⟩
    · have free : OfZonesFree (fun s : Converter Data => s.files = []) :=
        fun _c _calls _name2zone none => none
      exact (add_record_keeps free true call.1 call.2 s holds.files).1 done next ended
  · exact fun _stop _next _stopped => trivial

private theorem write_to_file_written (separate : out.Separate) (indexed : Indexed c)
    (nodup : NamesNodup c) (no_bar : ∀ a z, Serves c a z → 124 ∉ z)
    (absolute : ∀ z ∈ c.name2zone, Absolute z) (no_slash : ∀ z ∈ c.name2zone, 47 ∉ z)
    (sourced : Sourced dns true hints (Hinted dns hints) c)
    (ended : write_to_file dns order out c = .ok () next) :
    Written dns out hints c next := by
  have zones : ∀ k ∈ Converter.views order c, ∀ z ∈ zones_of k, z ∈ c.name2zone :=
    zones_of_views indexed no_bar
  obtain ⟨s, views, last, config⟩ := write_to_file_ended ended
  have kept : Keeps (ViewsKept dns order hints c) (fun _stop _s => True)
      (each (write_view dns order out (Converter.views order c))
        (order.through (Converter.views order c).keys)) := by
    apply write_views_moves
    · exact fun s _config holds =>
        ⟨⟨holds.sourced.known, holds.sourced.zones⟩, holds.zones, holds.moves, holds.files⟩
    · intro k member call moves
      exact add_record_viewsKept (AList.mem_keys.mp ((order.perm _).subset member)) moves
  have start : ViewsKept dns order hints c { c with config := [], files := [] } :=
    ⟨⟨sourced.known, sourced.zones⟩, fun _z => Iff.rfl,
      ⟨[], (List.append_nil _).symm, fun _call member => absurd member List.not_mem_nil⟩, rfl⟩
  have holds := (kept _ start).1 _ s views
  obtain ⟨⟨written, files, texts⟩, _same, calls, _served⟩ := write_zones_written last
  rw [holds.files, List.nil_append] at files
  have through := order.perm s.name2zone.keys
  have all : ∀ z, z ∈ order.through s.name2zone.keys ↔ z ∈ c.name2zone := by
    intro z
    rw [through.mem_iff, ← AList.mem_keys, holds.zones]
  have stored : List.Forall₂ (fun z file => out.opens (zone_fn out z) = true ∧
      file.1 = zone_fn out z) (order.through s.name2zone.keys) next.files := by
    rw [files]
    refine texts.imp fun z file is => ?_
    obtain ⟨opens, zone, _found, text⟩ := is
    exact ⟨opens, congrArg Prod.fst text⟩
  have distinct := files_distinct separate stored (through.nodup_iff.mpr s.name2zone.nodupKeys)
    (fun z own => absolute z ((all z).mp own)) (fun z own => no_slash z ((all z).mp own))
  obtain ⟨later, since, sources⟩ := holds.sourced.zones
  obtain ⟨moved, moves, delegations⟩ := holds.moves
  constructor
  · rw [config]
    exact configuration_partitions indexed nodup no_bar
  · intro view member zone own
    rw [config] at member
    obtain ⟨a, names, number, found, rfl⟩ := exists_of_mem_configuration member
    obtain ⟨z, piece, rfl⟩ := List.mem_map.mp own
    exact ⟨rfl, zones _ (mem_views.mpr ⟨a, names, found, rfl⟩) z piece⟩
  · refine ⟨moved, calls.trans moves, ?_⟩
    intro call member
    obtain ⟨k, view, moving⟩ := delegations call member
    obtain ⟨a, names, found, rfl⟩ := mem_views.mp view
    obtain ⟨number, within⟩ := configured_mem order out found
    refine ⟨_, config ▸ within, ?_⟩
    unfold configured
    rw [List.map_map]
    exact (List.map_id _).symm ▸ moving
  · refine ⟨later, calls.trans since, ?_⟩
    intro z known
    obtain ⟨file, stored, _opens, zone, found, rfl⟩ :=
      Folds.exists_pair texts ((all z).mpr known)
    obtain ⟨first, hinted, lines⟩ := sources z zone found
    refine ⟨_, remade_of_sourced hinted lines, content_of_mem distinct ?_⟩
    rw [files]
    exact stored
  · intro file member
    obtain ⟨z, own, opens, same⟩ := Folds.exists_pair stored.flip member
    have known := (all z).mp own
    rw [same]
    exact ⟨separate.config _ (slash_zone_file (no_slash z known)) opens, z, known, rfl⟩

end files

/-! ### From a capture to the files -/

/-- No name that an NS record delegates has a bar or a slash. -/
def Directory.Plain (directory : Directory Data) : Prop :=
  ∀ entry ∈ directory.dns_msg, ∀ rrset ∈ entry.2.answer ++ entry.2.authority,
    rrset.rdtype = RRset.NS → 124 ∉ lower rrset.name ∧ 47 ∉ lower rrset.name

private theorem process_root_hint_names {lines : List Bytes} {c : Converter Data}
    (ended : process_root_hint dns order lines {} = .ok () c) :
    ∀ z ∈ c.name2zone, Absolute z ∧ 124 ∉ z ∧ 47 ∉ z := by
  have steps : OfHint dns (fun c => ∀ z ∈ c.name2zone, Absolute z ∧ 124 ∉ z ∧ 47 ∉ z) :=
    ofHint_names ⟨absolute_root, by decide⟩ ⟨absolute_root_servers, by decide +kernel⟩
  refine (steps.process_root_hint lines {} ?_).1 () c ended
  intro z impossible
  exact absurd impossible (AList.notMem_empty z)

private theorem process_root_hint_sourced {lines : List Bytes} {c : Converter Data}
    (ended : process_root_hint dns order lines {} = .ok () c) :
    Sourced dns true c.calls (Hinted dns c.calls) c := by
  have none : Sourced dns false [] (fun z start => DNSZone.new dns z = .ok start)
      ({} : Converter Data) := by
    refine ⟨fun call impossible => absurd impossible List.not_mem_nil, [], rfl, ?_⟩
    intro z zone impossible
    cases impossible
  exact ((ofHint_sourced.process_root_hint lines {} none).1 () c ended).hinted

theorem convert_files_written {reader : MessageReader} {capture : Capture}
    {root_hint sub_dir : List Bytes} {out : OutputFiles}
    (separate : out.Separate)
    (absolute : ∀ d ∈ sub_dir, ∀ directory,
      read_dir dns order reader capture d = .ok directory → directory.Absolute)
    (plain : ∀ d ∈ sub_dir, ∀ directory,
      read_dir dns order reader capture d = .ok directory → directory.Plain)
    {c : Converter Data}
    (ended : convert_files dns order reader capture root_hint sub_dir out {} = .ok () c) :
    ∃ directories start middle,
      List.Forall₂ (fun d directory => read_dir dns order reader capture d = .ok directory)
        sub_dir directories ∧
      process_root_hint dns order root_hint {} = .ok () start ∧
      Processes dns start directories middle ∧
      Written dns out start.calls middle c := by
  obtain ⟨_, middle, inits, writes⟩ := ok_of_bind ended
  obtain ⟨directories, reads, built⟩ := init_files_ok.mp inits
  obtain ⟨_, start, hint, processes⟩ := ok_of_bind built
  have of_dir : ∀ directory ∈ directories, directory.Absolute ∧ directory.Plain := by
    intro directory member
    obtain ⟨d, own, read⟩ := mapM_mem (mapM_ok_iff.mpr reads) member
    exact ⟨absolute d own directory read, plain d own directory read⟩
  have processed : Processes dns start directories middle :=
    process_dirs_processed (fun directory member => (of_dir directory member).1)
      (process_root_hint_ready hint) processes
  -- every zone is one of the root hint file or has the name of an NS record
  have names : ∀ z ∈ middle.name2zone, Absolute z ∧ 124 ∉ z ∧ 47 ∉ z := by
    refine processed.names (process_root_hint_names hint) ?_
    intro directory member entry own rrset within delegates
    obtain ⟨named, bars⟩ := of_dir directory member
    exact ⟨named.names entry own rrset within delegates, bars entry own rrset within delegates⟩
  have indexed : Indexed middle := by
    have started : Triple (fun c : Converter Data => c = {}) (init dns order root_hint directories)
        (fun _done => Built [root]) IndexedStop := init_built root_hint directories
    exact ((started {} rfl).1 () middle built).indexed
  have nodup : NamesNodup middle := by
    have noneTwice : NamesNodup ({} : Converter Data) := fun _a _names impossible => by
      cases impossible
    exact (init_keeps ofInit_namesNodup root_hint directories {} noneTwice).1 () middle built
  have served : ∀ a z, Serves middle a z → 124 ∉ z := by
    intro a z serves
    obtain ⟨zone, found, _address⟩ := (indexed.agree a z).mp serves
    exact (names z (mem_iff_lookup.mpr ⟨zone, found⟩)).2.1
  have sourced : Sourced dns true start.calls (Hinted dns start.calls) middle := by
    have steps : Keeps (Sourced dns true start.calls (Hinted dns start.calls))
        (fun _stop _c => True) (each (process_dir dns order) directories) :=
      Keeps.each fun directory _member => ofSteps_sourced.process_dir directory
    exact (steps start (process_root_hint_sourced hint)).1 () middle processes
  exact ⟨directories, start, middle, reads, hint, processed,
    write_to_file_written separate indexed nodup served (fun z member => (names z member).1)
      (fun z member => (names z member).2.2) sourced writes⟩

theorem flat_separate : flat.Separate where
  names := by
    intro name other _plain _plain' _opens _opens' same
    exact List.cons_injective (List.append_cancel_left same)
  config := by
    intro name _plain _opens same
    exact absurd (List.cons.inj same).1 (by decide)

def convert_one_capture_files : Action Listed Unit :=
  convert_files Listed.dnspython in_order two_messages one_capture one_root_hint [ascii "d"] flat

theorem plain_of_two_responses {directory : Directory Listed}
    (is : directory.dns_msg = two_responses) : directory.Plain := by
  have bars : ∀ entry ∈ two_responses, ∀ rrset ∈ entry.2.answer ++ entry.2.authority,
      124 ∉ lower rrset.name ∧ 47 ∉ lower rrset.name := by
    decide +kernel
  unfold Directory.Plain
  rw [is]
  exact fun entry own rrset within _delegates => bars entry own rrset within

end Converter

end LDPlayer
