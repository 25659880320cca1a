/-
The zone constructor: converter.py.

A method is an action on the converter, whose state stays when the program
stops.  `calls` is a history of the calls of `add_record` that the source does
not have; a zone is passed around by its key.
-/
import LDPlayer.Foundation.Actions
import LDPlayer.Foundation.HashTable
import LDPlayer.Zone.DNSZone

set_option autoImplicit false

namespace LDPlayer

open Text DomainName Actions

structure View where
  number : Nat
  match_clients : List Bytes
  zones : List (Bytes × Bytes)
  deriving DecidableEq, Repr

/-- Where the constructor writes: its settings, and the file system there.  `opens`
says that `open(fn, 'w')` does not raise, and `file` is the file of a path. -/
structure OutputFiles where
  config_file : Bytes
  output_dir : Bytes
  zone_path : Bytes
  opens : Bytes → Bool
  file : Bytes → Bytes

/-- The names without a slash that open in the output directory are files of their
own, and none of them is the configuration file. -/
structure OutputFiles.Separate (out : OutputFiles) : Prop where
  names : ∀ name other, 47 ∉ name → 47 ∉ other →
    out.opens (out.output_dir ++ 47 :: name) = true →
    out.opens (out.output_dir ++ 47 :: other) = true →
    out.file (out.output_dir ++ 47 :: name) = out.file (out.output_dir ++ 47 :: other) →
    name = other
  config : ∀ name, 47 ∉ name → out.opens (out.output_dir ++ 47 :: name) = true →
    out.file (out.output_dir ++ 47 :: name) ≠ out.file out.config_file

/-- `files` are the calls of `write_file` that succeeded, path and text. -/
structure Converter (Data : Type) where
  name2zone : HashTable Bytes (DNSZone Data) := ∅
  addr2name : HashTable Bytes (List Bytes) := ∅
  total_processed_dir : Nat := 0
  calls : List (Bytes × Bytes) := []
  config : List View := []
  files : List (Bytes × List Bytes) := []

/-- A set of records of a message: `str(name)`, the type, the texts of its data and
the lines of the whole. -/
structure RRset where
  name : Bytes
  rdtype : Nat
  rds : List Bytes
  to_text : List Bytes

/-- The parts of a message that are used, as `dns.message.from_text` has them. -/
structure DNSMessage where
  src_ip : Bytes
  answer : List RRset
  authority : List RRset
  additional : List RRset

namespace RRset

def NS : Nat := 2

end RRset

/-- `name.endswith((n if n == '.' else ('.' + n)))` -/
def endswith (name n : Bytes) : Bool := (if n = root then n else 46 :: n).isSuffixOf name

/-- The order in which Python goes through a set or a dictionary, any one. -/
structure Order where
  through : List Bytes → List Bytes
  perm : ∀ items, (through items).Perm items

namespace Converter

variable {Data : Type} (dns : Dnspython Data) (order : Order)

abbrev Action (Data Value : Type) : Type := EStateM Stop (Converter Data) Value

def value {Value : Type} (result : Except Stop Value) : Action Data Value := fun c =>
  match result with
  | .error stop => .error stop c
  | .ok value => .ok value c

/-- `self.name2zone[name]` -/
def zone_at (name : Bytes) : Action Data (DNSZone Data) := fun c =>
  match c.name2zone.lookup name with
  | none => .error (.keyError name) c
  | some zone => .ok zone c

def add_record (has_class : Bool) (name l : Bytes) : Action Data Unit := fun c =>
  match c.name2zone.lookup name with
  | none => .error (.keyError name) c
  | some zone =>
      let called := { c with calls := c.calls ++ [(name, l)] }
      match zone.add_record dns has_class l with
      | .error stop => .error stop called
      | .ok next => .ok () { called with name2zone := c.name2zone.insert name next }

def add_address (name addr : Bytes) : Action Data Unit := fun c =>
  match c.name2zone.lookup name with
  | none => .error (.keyError name) c
  | some zone =>
      .ok () { c with
        name2zone := c.name2zone.insert name { zone with address := zone.address.insert addr } }

def add_addr2name (addr name : Bytes) : Action Data Unit := fun c =>
  .ok () { c with
    addr2name :=
      c.addr2name.insert addr (((c.addr2name.lookup addr).getD []).insert (lower name)) }

def add_name2zone (name : Bytes) : Action Data Unit := fun c =>
  if lower name ∈ c.name2zone then .ok () c
  else
    match DNSZone.new dns (lower name) with
    | .error stop => .error stop c
    | .ok zone => .ok () { c with name2zone := c.name2zone.insert (lower name) zone }

def zone_address (zone_name a : Bytes) : Action Data Unit := do
  add_address zone_name a
  add_addr2name a zone_name

/-! ### The root hint file -/

def hint_line (l : Bytes) : Action Data Unit :=
  let l := strip l
  if skipped l then pure ()
  else do
    add_record dns false root l
    let w := words l
    let rt ← value (word w 2)
    if upper rt = ascii "NS" then
      add_record dns false root_servers_ns (join [32] (w.set 0 root_servers_ns))
    else pure ()

/-- An address of a root server serves both zones. -/
def hint_address (a : Bytes) : Action Data Unit := do
  zone_address root a
  zone_address root_servers_ns a

def hint_server (ns : Bytes) : Action Data Unit := do
  let zone ← zone_at root
  let a_records ← value (zone.get_record_rdata dns ns (ascii "A"))
  each hint_address (order.through a_records)
  let zone ← zone_at root
  let aaaa_records ← value (zone.get_record_rdata dns ns (ascii "AAAA"))
  each hint_address (order.through aaaa_records)

def process_root_hint (lines : List Bytes) : Action Data Unit := fun c =>
  if root ∈ c.name2zone then .error (.exit (ascii "[error] root zone exist!")) c
  else
    (do
      add_name2zone dns root
      add_name2zone dns root_servers_ns
      each (hint_line dns) lines
      let zone ← zone_at root
      let ns_records ← value (zone.get_record_rdata dns root (ascii "NS"))
      each (hint_server dns order) (order.through ns_records) : Action Data Unit) c

/-! ### Messages -/

def create_zone_server (rrs : DNSZone Data) (name rd : Bytes) : Action Data Unit := do
  let ns := lower rd
  let zone_name := lower name
  add_name2zone dns zone_name
  let a_records ← value (rrs.get_record_rdata dns ns (ascii "A"))
  each (zone_address zone_name) (order.through a_records)
  let aaaa_records ← value (rrs.get_record_rdata dns ns (ascii "AAAA"))
  each (zone_address zone_name) (order.through aaaa_records)
  let ns_records ← value (rrs.get_rrset_str dns zone_name (ascii "NS"))
  each (add_record dns true zone_name) (order.through ns_records)
  if ns = zone_name ∨ endswith ns zone_name then do
    let a_records ← value (rrs.get_rrset_str dns ns (ascii "A"))
    each (add_record dns true zone_name) (order.through a_records)
    let aaaa_records ← value (rrs.get_rrset_str dns ns (ascii "AAAA"))
    each (add_record dns true zone_name) (order.through aaaa_records)
  else pure ()

def create_zone (rrs : DNSZone Data) (rrsets : List RRset) : Action Data Unit :=
  each (fun rrset =>
    if rrset.rdtype = RRset.NS then
      each (create_zone_server dns order rrs rrset.name) rrset.rds
    else pure ()) rrsets

def not_in_record (src_ip : Bytes) :
    Bytes := ascii "[error] " ++ src_ip ++ ascii " is not in record"

def not_in_name2zone (n : Bytes) : Bytes := ascii "[error] " ++ n ++ ascii " is not in name2zone"

/-- The loop of `find_zone` over the zone names of the address; `z` is the key of
the zone found so far. -/
def find_zone_loop (name2zone : HashTable Bytes (DNSZone Data)) (name : Bytes) :
    List Bytes → (zone_name_len : Int) → (z : Option Bytes) → Except Stop (Option Bytes)
  | [], _, z => .ok z
  | n :: rest, zone_name_len, z =>
      if name = n then
        if n ∈ name2zone then .ok (some n) else .error (.keyError n)
      else if endswith name n ∧ (n.length : Int) > zone_name_len then
        if n ∈ name2zone then find_zone_loop name2zone name rest n.length (some n)
        else .error (.exit (not_in_name2zone n))
      else find_zone_loop name2zone name rest zone_name_len z

def find_zone (src_ip name : Bytes) : Action Data (Option Bytes) := fun c =>
  match c.addr2name.lookup src_ip with
  | none => .error (.exit (not_in_record src_ip)) c
  | some names => value (find_zone_loop c.name2zone (lower name) (order.through names) (-1) none) c

def push_record (src_ip record : Bytes) : Action Data Unit := do
  let owner ← value (word (words record) 0)
  let z ← find_zone order src_ip owner
  match z with
  | some n => add_record dns true n record
  | none => pure ()

def push_zone (src_ip : Bytes) (rrsets : List RRset) : Action Data Unit :=
  each (fun rrset => each (push_record dns order src_ip) rrset.to_text) rrsets

def create_zones (rrs : DNSZone Data) (msg : DNSMessage) : Action Data Unit := do
  create_zone dns order rrs msg.answer
  create_zone dns order rrs msg.authority
  create_zone dns order rrs msg.answer

def push_zones (msg : DNSMessage) : Action Data Unit := do
  push_zone dns order msg.src_ip msg.answer
  push_zone dns order msg.src_ip msg.authority
  push_zone dns order msg.src_ip msg.additional

def sort_messages (dns_msg : List (Bytes × DNSMessage)) : Except Stop (List (Int × DNSMessage)) :=
  (dns_msg.mapM (fun entry => (int entry.1).map (fun key => (key, entry.2)))).map
    (fun keyed => keyed.insertionSort (fun left right => left.1 ≤ right.1))

/-- `dns_msg` lists the messages in the order of the dictionary, and `rrs` has all
their records. -/
def process_dns_message (dns_msg : List (Bytes × DNSMessage)) (rrs : DNSZone Data) :
    Action Data Unit := do
  each (fun entry => create_zones dns order rrs entry.2) dns_msg
  let ks ← value (sort_messages dns_msg)
  each (fun entry => push_zones dns order entry.2) ks

structure Directory (Data : Type) where
  dns_msg : List (Bytes × DNSMessage)
  rrs : DNSZone Data

def process_dir (d : Directory Data) : Action Data Unit := fun c =>
  process_dns_message dns order d.dns_msg d.rrs
    { c with total_processed_dir := c.total_processed_dir + 1 }

/-! ### Views -/

def closer (z owner tmp_z t : Bytes) : Bytes :=
  if t ≠ z ∧ t ≠ root ∧ t ≠ owner ∧ t <:+ owner ∧ t.length > tmp_z.length then t else tmp_z

/-- The choice of `tmp_z` for a record of zone `z` with this owner. -/
def closest (zs : List Bytes) (z owner : Bytes) : Bytes := zs.foldl (closer z owner) z

def copy_addresses (z tmp_z ns_server rt : Bytes) : Action Data Unit := do
  let zone ← zone_at z
  let records ← value (zone.get_rrset_str dns ns_server rt)
  each (add_record dns true tmp_z) (order.through records)

/-- The addresses of a name server whose text ends with the zone. -/
def copy_servers (z tmp_z ns_server : Bytes) : Action Data Unit :=
  if tmp_z <:+ ns_server then do
    copy_addresses dns order z tmp_z ns_server (ascii "A")
    copy_addresses dns order z tmp_z ns_server (ascii "AAAA")
  else pure ()

/-- A record of zone `z` is added to `tmp_z`, where `z` has a delegation. -/
def move_record (z tmp_z record : Bytes) : Action Data Unit := do
  let zone ← zone_at z
  let ns_records ← value (zone.get_rrset_str dns tmp_z (ascii "NS"))
  if ns_records = [] then pure ()
  else do
    add_record dns true tmp_z record
    copy_servers dns order z tmp_z ((words record).getLastD [])

def fix_record (zs : List Bytes) (z record : Bytes) : Action Data Unit :=
  let record := strip record
  let w := words record
  if record = [] then pure ()
  else do
    let rt ← value (word w 3)
    if upper rt ≠ ascii "NS" then pure ()
    else do
      let owner ← value (word w 0)
      let tmp_z := closest zs z owner
      if tmp_z = z then pure ()
      else move_record dns order z tmp_z record

/-- The lines of a zone are taken before the first of them is moved. -/
def fix_zone (zs : List Bytes) (z : Bytes) : Action Data Unit :=
  if z = root then pure ()
  else do
    let zone ← zone_at z
    each (fix_record dns order zs z) (dns.to_text zone.data)

def fix_delegation (zs : List Bytes) : Action Data Unit := each (fix_zone dns order zs) zs

/-- The name of a view: its zones, sorted and parted by bars. -/
def view_key (names : List Bytes) : Bytes :=
  join [124] (names.insertionSort (fun left right => left ≤ right))

def views (c : Converter Data) : HashTable Bytes (List Bytes) :=
  (order.through c.addr2name.keys).foldl (fun views a =>
    let k := view_key ((c.addr2name.lookup a).getD [])
    views.insert k (((views.lookup k).getD []).insert a)) ∅

def zone_file (name : Bytes) : Bytes := if name = root then ascii "root_zone" else name

def zones_of (k : Bytes) : List Bytes := k.splitOn 124

def configure (out : OutputFiles) (views : HashTable Bytes (List Bytes)) (k : Bytes)
    (c : Converter Data) : Converter Data :=
  { c with
    config := c.config ++ [{
      number := c.config.length + 1
      match_clients := order.through ((views.lookup k).getD [])
      zones := (zones_of k).map (fun z => (z, out.zone_path ++ zone_file z)) }] }

def write_view (out : OutputFiles) (views : HashTable Bytes (List Bytes)) (k : Bytes) :
    Action Data Unit := fun c =>
  fix_delegation dns order (zones_of k) (configure order out views k c)

def write_file (out : OutputFiles) (fn : Bytes) (s : List Bytes) : Action Data Unit := fun c =>
  if out.opens fn then .ok () { c with files := c.files ++ [(fn, s)] } else .error (.ioError fn) c

def zone_fn (out : OutputFiles) (n : Bytes) : Bytes := out.output_dir ++ 47 :: zone_file n

def write_zone (out : OutputFiles) (n : Bytes) : Action Data Unit := do
  let zone ← zone_at n
  write_file out (zone_fn out n) (dns.to_text zone.data)

def write_views_and_zones (out : OutputFiles) (views : HashTable Bytes (List Bytes)) :
    Action Data Unit := do
  each (write_view dns order out views) (order.through views.keys)
  fun c => each (write_zone dns out) (order.through c.name2zone.keys) c

def write_to_file (out : OutputFiles) : Action Data Unit := fun c =>
  if out.opens out.config_file then
    write_views_and_zones dns order out (views order c) { c with config := [], files := [] }
  else .error (.ioError out.config_file) { c with config := [], files := [] }

def init (root_hint : List Bytes) (sub_dir : List (Directory Data)) : Action Data Unit := do
  process_root_hint dns order root_hint
  each (process_dir dns order) sub_dir

def convert (root_hint : List Bytes) (sub_dir : List (Directory Data)) (out : OutputFiles) :
    Action Data Unit := do
  init dns order root_hint sub_dir
  write_to_file dns order out

/-! ### Steps on the tables -/

section steps

variable {dns : Dnspython Data} {before : Converter Data → Prop}
variable {stopped : Stop → Converter Data → Prop}

theorem value_triple {Value : Type} {result : Except Stop Value}
    (stops : ∀ stop c, before c → result = .error stop → stopped stop c) :
    Triple before (value result) (fun given c => result = .ok given ∧ before c) stopped := by
  intro c holds
  unfold Converter.value
  cases result with
  | error stop =>
      constructor
      · intro given next impossible
        cases impossible
      · intro halt next same
        cases same
        exact stops stop c holds rfl
  | ok value =>
      constructor
      · intro given next same
        cases same
        exact ⟨rfl, holds⟩
      · intro halt next impossible
        cases impossible

theorem value_ok {Value : Type} {result : Except Stop Value} {given : Value}
    (is : result = .ok given) (c : Converter Data) : value result c = .ok given c := by
  rw [is]
  rfl

theorem value_error {Value : Type} {result : Except Stop Value} {stop : Stop}
    (is : result = .error stop) (c : Converter Data) : value result c = .error stop c := by
  rw [is]
  rfl

theorem zone_at_ok {c : Converter Data} {z : Bytes} {zone : DNSZone Data}
    (found : c.name2zone.lookup z = some zone) : zone_at z c = .ok zone c := by
  unfold zone_at
  rw [found]

theorem zone_at_error {c : Converter Data} {z : Bytes} (absent : c.name2zone.lookup z = none) :
    zone_at z c = .error (.keyError z) c := by
  unfold zone_at
  rw [absent]

theorem zone_at_triple {z : Bytes}
    (missing : ∀ c, before c → c.name2zone.lookup z = none → stopped (.keyError z) c) :
    Triple before (zone_at z) (fun zone c => c.name2zone.lookup z = some zone ∧ before c)
      stopped := by
  intro c holds
  unfold zone_at
  cases found : c.name2zone.lookup z with
  | none =>
      constructor
      · intro given next impossible
        cases impossible
      · intro halt next same
        cases same
        exact missing c holds found
  | some zone =>
      constructor
      · intro given next same
        cases same
        exact ⟨found, holds⟩
      · intro halt next impossible
        cases impossible

theorem write_file_ok {out : OutputFiles} {fn : Bytes} (opens : out.opens fn = true)
    (s : List Bytes)
    (c : Converter Data) :
    write_file out fn s c = .ok () { c with files := c.files ++ [(fn, s)] } := by
  unfold write_file
  rw [if_pos opens]

theorem write_file_error {out : OutputFiles} {fn : Bytes} (fails : out.opens fn = false)
    (s : List Bytes) (c : Converter Data) : write_file out fn s c = .error (.ioError fn) c := by
  unfold write_file
  rw [fails]
  rfl

theorem write_file_triple {out : OutputFiles} {fn : Bytes} {s : List Bytes}
    {after : Converter Data → Prop}
    (writes : ∀ c, before c → after { c with files := c.files ++ [(fn, s)] })
    (fails : ∀ c, before c → stopped (.ioError fn) c) :
    Triple before (write_file out fn s) (fun _done => after) stopped := by
  intro c holds
  cases opens : out.opens fn with
  | false =>
      rw [write_file_error opens]
      constructor
      · intro given next impossible
        cases impossible
      · intro halt next same
        cases same
        exact fails c holds
  | true =>
      rw [write_file_ok opens]
      constructor
      · intro given next same
        cases same
        exact writes c holds
      · intro halt next impossible
        cases impossible

theorem add_record_triple {has_class : Bool} {z l : Bytes} {after : Converter Data → Prop}
    (missing : ∀ c, before c → c.name2zone.lookup z = none → stopped (.keyError z) c)
    (adds : ∀ c zone next, before c → c.name2zone.lookup z = some zone →
      zone.add_record dns has_class l = .ok next →
      after { c with
        calls := c.calls ++ [(z, l)]
        name2zone := c.name2zone.insert z next })
    (stops : ∀ c zone stop, before c → c.name2zone.lookup z = some zone →
      zone.add_record dns has_class l = .error stop →
      stopped stop { c with calls := c.calls ++ [(z, l)] }) :
    Triple before (add_record dns has_class z l) (fun _done => after) stopped := by
  intro c holds
  unfold add_record
  cases found : c.name2zone.lookup z with
  | none =>
      constructor
      · intro given next impossible
        cases impossible
      · intro halt next same
        cases same
        exact missing c holds found
  | some zone =>
      simp only
      cases added : zone.add_record dns has_class l with
      | error stop =>
          constructor
          · intro given next impossible
            cases impossible
          · intro halt next same
            cases same
            exact stops c zone stop holds found added
      | ok next =>
          constructor
          · intro given after same
            cases same
            exact adds c zone next holds found added
          · intro halt after impossible
            cases impossible

end steps

/-! ### The choice of a closer zone -/

/-- Another zone of the view whose name ends the text of the owner. -/
structure Candidate (zs : List Bytes) (z owner t : Bytes) : Prop where
  member : t ∈ zs
  other : t ≠ z
  notRoot : t ≠ root
  notOwner : t ≠ owner
  suffix : t <:+ owner

private theorem closer_foldl {zs : List Bytes} {z owner : Bytes} {rest : List Bytes}
    (part : ∀ t ∈ rest, t ∈ zs) (tmp_z : Bytes) :
    (rest.foldl (closer z owner) tmp_z = tmp_z ∨
      Candidate zs z owner (rest.foldl (closer z owner) tmp_z) ∧
        tmp_z.length < (rest.foldl (closer z owner) tmp_z).length) ∧
      ∀ t ∈ rest, Candidate zs z owner t →
        t.length ≤ (rest.foldl (closer z owner) tmp_z).length := by
  induction rest generalizing tmp_z with
  | nil => exact ⟨Or.inl rfl, fun t member => absurd member List.not_mem_nil⟩
  | cons head rest ih =>
      rw [List.foldl_cons]
      obtain ⟨result, longest⟩ := ih (fun t member => part t (List.mem_cons_of_mem head member))
        (closer z owner tmp_z head)
      generalize rest.foldl (closer z owner) (closer z owner tmp_z head) = final at result longest ⊢
      by_cases taken : head ≠ z ∧ head ≠ root ∧ head ≠ owner ∧ head <:+ owner ∧
          head.length > tmp_z.length
      · unfold closer at result
        rw [if_pos taken] at result
        have candidate : Candidate zs z owner head :=
          ⟨part head List.mem_cons_self, taken.1, taken.2.1, taken.2.2.1, taken.2.2.2.1⟩
        have longer := taken.2.2.2.2
        rcases result with rfl | ⟨later, more⟩
        · refine ⟨Or.inr ⟨candidate, longer⟩, ?_⟩
          intro t member own
          rcases List.mem_cons.mp member with same | other
          · rw [same]
          · exact longest t other own
        · refine ⟨Or.inr ⟨later, by omega⟩, ?_⟩
          intro t member own
          rcases List.mem_cons.mp member with same | other
          · rw [same]
            omega
          · exact longest t other own
      · unfold closer at result
        rw [if_neg taken] at result
        refine ⟨result, ?_⟩
        intro t member own
        rcases List.mem_cons.mp member with same | other
        · have bounded : ¬ head.length > tmp_z.length := fun longer =>
            taken ⟨same ▸ own.other, same ▸ own.notRoot, same ▸ own.notOwner, same ▸ own.suffix,
              longer⟩
          rw [same]
          rcases result with rfl | ⟨_later, more⟩
          · omega
          · omega
        · exact longest t other own

/-- The choice is the zone itself or a longer candidate, and no candidate is longer. -/
theorem closest_spec (zs : List Bytes) (z owner : Bytes) :
    (closest zs z owner = z ∨
      Candidate zs z owner (closest zs z owner) ∧ z.length < (closest zs z owner).length) ∧
      ∀ t, Candidate zs z owner t → t.length ≤ (closest zs z owner).length := by
  obtain ⟨result, longest⟩ := closer_foldl (fun t member => member) z
  exact ⟨result, fun t candidate => longest t candidate.member candidate⟩

/-! ### The steps of `fix_delegation` -/

section conditions

variable (good : (z t record : Bytes) → Converter Data → Prop)

/-- A record of `z` moves if it is of type NS and the text of its owner ends with other
zones of the view that are longer than `z`: the move to the longest meets the condition. -/
def RecordSteps (zs : List Bytes) (z record : Bytes) (c : Converter Data) : Prop :=
  ∀ owner rt t, (words record)[0]? = some owner → (words record)[3]? = some rt →
    upper rt = ascii "NS" → Candidate zs z owner t → z.length < t.length →
    (∀ other, Candidate zs z owner other → other.length ≤ t.length) →
    good z t (strip record) c

/-- Every record of zone `z` does, in the state its step begins in. -/
def ZoneSteps (zs : List Bytes) (z : Bytes) (c : Converter Data) : Prop :=
  z ≠ root → ∀ zone, c.name2zone.lookup z = some zone →
    EachStep (fix_record dns order zs z) (RecordSteps good zs z) (dns.to_text zone.data) c

/-- Every zone of view `k` does. -/
def ViewSteps (out : OutputFiles) (clients : HashTable Bytes (List Bytes)) (k : Bytes)
    (c : Converter Data) : Prop :=
  EachStep (fix_zone dns order (zones_of k)) (ZoneSteps dns order good (zones_of k)) (zones_of k)
    (configure order out clients k c)

/-- Every view does, from this state on. -/
def DelegationSteps (out : OutputFiles) (c : Converter Data) : Prop :=
  EachStep (write_view dns order out (views order c))
    (ViewSteps dns order good out (views order c)) (order.through (views order c).keys)
    { c with config := [], files := [] }

end conditions

theorem closest_of_longest {zs : List Bytes} {z owner t : Bytes}
    (candidate : Candidate zs z owner t) (longer : z.length < t.length)
    (longest : ∀ other, Candidate zs z owner other → other.length ≤ t.length) :
    closest zs z owner = t := by
  obtain ⟨result, bound⟩ := closest_spec zs z owner
  have least := bound t candidate
  rcases result with same | ⟨chosen, _more⟩
  · rw [same] at least
    omega
  · have equal := Nat.le_antisymm (longest _ chosen) least
    exact (List.suffix_of_suffix_length_le chosen.suffix candidate.suffix equal.le).eq_of_length equal

end Converter

end LDPlayer
