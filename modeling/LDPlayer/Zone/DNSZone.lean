/-
A zone of the constructor: dns_zone.py, over the zones of dnspython.

dnspython is a parameter with the calls that the programs make; what is assumed
of it is stated where it is used.  Lines and names are byte strings, as in the
source, and a set is a list without repetition.
-/
import LDPlayer.Foundation.DomainName
import LDPlayer.Message

set_option autoImplicit false

namespace LDPlayer

open Text DomainName

/-- What `find_rdataset` raises: the error of the subdomain check, or another one. -/
inductive Raised where
  | notSubdomain
  | other (name : String)
  deriving DecidableEq, Repr

/-- How the constructor stops: `sys.exit` with its text, a name that is not in a
dictionary, a missing word, a word that is no number, a file that does not open, or an
exception of dnspython. -/
inductive Stop where
  | exit (message : Bytes)
  | keyError (key : Bytes)
  | indexError
  | valueError
  | ioError (fn : Bytes)
  | raised (error : Raised)
  deriving DecidableEq, Repr

/-- The calls of dnspython, on a type of zones.  `printed` is a name as it is read
and printed again; lines are those of `to_text(relativize=False)`. -/
structure Dnspython (Data : Type) where
  printed : Bytes → Bytes
  from_text : (soa origin : Bytes) → Except String Data
  origin : Data → Bytes
  rdclass : Data → Nat
  class_from_text : Bytes → Except String Nat
  class_to_text : Nat → Bytes
  type_from_text : Bytes → Except String Nat
  find_rdataset : Data → (owner_name : Bytes) → (rt : Nat) → Except Raised Data
  add : Data → (owner_name : Bytes) → (rt : Nat) → (rd : Bytes) → (ttl : Int) → Except String Data
  get_rdataset : Data → (name rt : Bytes) → Except String (Option (List Bytes))
  get_rrset : Data → (name rt : Bytes) → Except String (Option (List Bytes))
  to_text : Data → List Bytes

def raising {Value : Type} : Except String Value → Except Stop Value
  | .error name => .error (.raised (.other name))
  | .ok value => .ok value

def word (w : List Bytes) (index : Nat) : Except Stop Bytes :=
  match w[index]? with
  | none => .error .indexError
  | some text => .ok text

def int (text : Bytes) : Except Stop Int :=
  let digits := if text.head? = some 43 ∨ text.head? = some 45 then text.tail else text
  if digits ≠ [] ∧ digits.all (fun byte => 48 ≤ byte && byte ≤ 57) then
    let value := digits.foldl (fun (value : Nat) byte => value * 10 + (byte.toNat - 48)) 0
    .ok (if text.head? = some 45 then -(value : Int) else value)
  else .error .valueError

/-- A line without a record: `len(l) == 0 or l.startswith(';') or ...` -/
def skipped (l : Bytes) : Bool :=
  l = [] || l.head? = some 59 || l.head? = some 35 || l = [10]

def root_servers_ns : Bytes := ascii "root-servers.net."

structure DNSZone (Data : Type) where
  address : List Bytes := []
  data : Data

namespace DNSZone

variable {Data : Type} (dns : Dnspython Data)

def soa (zone_name : Bytes) : Bytes :=
  let origin := zone_name
  let zone_name := if zone_name = root then ascii "root." else zone_name
  origin ++ ascii " 60 IN SOA ns." ++ zone_name ++ ascii " dns-admin." ++ zone_name ++
    ascii " 208775588 1800 900 604800 86400"

def new (zone_name : Bytes) : Except Stop (DNSZone Data) :=
  match raising (dns.from_text (soa zone_name) zone_name) with
  | .error stop => .error stop
  | .ok data => .ok { data := data }

structure Fields where
  owner_name : Bytes
  ttl : Int
  rt : Bytes
  rd : Bytes

def check_class (rc : Bytes) (zone : DNSZone Data) : Except Stop Unit :=
  match raising (dns.class_from_text rc) with
  | .error stop => .error stop
  | .ok rdclass =>
      if dns.rdclass zone.data ≠ rdclass then
        .error (.exit (ascii "[error] zone class [" ++ dns.class_to_text (dns.rdclass zone.data) ++
          ascii "] != record class [" ++ rc ++ ascii "]"))
      else .ok ()

/-- The words of a line, with the class between `ttl` and type or without it. -/
def fields (has_class : Bool) (l : Bytes) (zone : DNSZone Data) : Except Stop Fields :=
  let w := words l
  match word w 0, (word w 1).bind int, word w 2 with
  | .error stop, _, _ => .error stop
  | .ok _, .error stop, _ => .error stop
  | .ok _, .ok _, .error stop => .error stop
  | .ok owner_name, .ok ttl, .ok third =>
      if has_class then
        match word w 3 with
        | .error stop => .error stop
        | .ok rt =>
            match check_class dns (upper third) zone with
            | .error stop => .error stop
            | .ok () => .ok ⟨lower owner_name, ttl, upper rt, join [32] (w.drop 4)⟩
      else .ok ⟨lower owner_name, ttl, upper third, join [32] (w.drop 3)⟩

def insert (record : Fields) (zone : DNSZone Data) : Except Stop (DNSZone Data) :=
  match raising (dns.type_from_text record.rt) with
  | .error stop => .error stop
  | .ok rt =>
      match dns.find_rdataset zone.data record.owner_name rt with
      | .error error => .error (.raised error)
      | .ok found =>
          match raising (dns.add found record.owner_name rt record.rd record.ttl) with
          | .error stop => .error stop
          | .ok data => .ok { zone with data := data }

/-- Records that mention `TYPE65534` and foreign SOA records are dropped. -/
def add_record (has_class : Bool) (l : Bytes) (zone : DNSZone Data) :
    Except Stop (DNSZone Data) :=
  if skipped l then .ok zone
  else
    match fields dns has_class l zone with
    | .error stop => .error stop
    | .ok record =>
        if ascii "TYPE65534" <:+: upper record.rd then .ok zone
        else if record.rt = ascii "SOA" ∧ record.owner_name ≠ dns.origin zone.data then .ok zone
        else insert dns record zone

def get_record_rdata (name rt : Bytes) (zone : DNSZone Data) : Except Stop (List Bytes) :=
  match raising (dns.get_rdataset zone.data (lower name) (upper rt)) with
  | .error stop => .error stop
  | .ok records => .ok (records.getD []).dedup

def get_rrset_str (name rt : Bytes) (zone : DNSZone Data) : Except Stop (List Bytes) :=
  match raising (dns.get_rrset zone.data (lower name) (upper rt)) with
  | .error stop => .error stop
  | .ok rrset => .ok (rrset.getD []).dedup

/-! ### What the calls do -/

/-- Not the error of the subdomain check and no missing key; a text ends with a bracket. -/
structure Ordinary (stop : Stop) : Prop where
  key : ∀ key, stop ≠ .keyError key
  subdomain : stop ≠ .raised .notSubdomain
  message : ∀ message, stop = .exit message → message.getLast? = some 93

theorem ordinary_other (name : String) : Ordinary (.raised (.other name)) where
  key := fun _key impossible => by cases impossible
  subdomain := fun impossible => by cases impossible
  message := fun _message impossible => by cases impossible

private theorem ordinary_indexError : Ordinary .indexError where
  key := fun _key impossible => by cases impossible
  subdomain := fun impossible => by cases impossible
  message := fun _message impossible => by cases impossible

private theorem ordinary_valueError : Ordinary .valueError where
  key := fun _key impossible => by cases impossible
  subdomain := fun impossible => by cases impossible
  message := fun _message impossible => by cases impossible

private theorem ordinary_exit (text : Bytes) : Ordinary (.exit (text ++ ascii "]")) where
  key := fun _key impossible => by cases impossible
  subdomain := fun impossible => by cases impossible
  message := by
    intro message same
    rw [← Stop.exit.inj same, List.getLast?_append]
    rfl

theorem raising_stop {Value : Type} {result : Except String Value} {stop : Stop}
    (stopped : raising result = .error stop) : Ordinary stop := by
  cases result with
  | error name =>
      rw [← Except.error.inj stopped]
      exact ordinary_other name
  | ok value => cases stopped

theorem raising_ok {Value : Type} {result : Except String Value} {value : Value}
    (given : raising result = .ok value) : result = .ok value := by
  cases result with
  | error name => cases given
  | ok other => rw [Except.ok.inj given]

theorem word_stop {w : List Bytes} {index : Nat} {stop : Stop}
    (stopped : word w index = .error stop) : Ordinary stop := by
  unfold word at stopped
  split at stopped
  · rw [← Except.error.inj stopped]
    exact ordinary_indexError
  · cases stopped

theorem word_ok {w : List Bytes} {index : Nat} {text : Bytes} (read : word w index = .ok text) :
    w[index]? = some text := by
  unfold word at read
  split at read
  · cases read
  · rename_i found
    rw [found, Except.ok.inj read]

theorem int_stop {text : Bytes} {stop : Stop} (stopped : int text = .error stop) :
    Ordinary stop := by
  unfold int at stopped
  generalize (if text.head? = some 43 ∨ text.head? = some 45 then text.tail else text) = digits
    at stopped
  by_cases number : digits ≠ [] ∧ digits.all (fun byte => 48 ≤ byte && byte ≤ 57) = true
  · simp only [if_pos number] at stopped
    cases stopped
  · simp only [if_neg number] at stopped
    rw [← Except.error.inj stopped]
    exact ordinary_valueError

section calls

variable {dns : Dnspython Data} {zone next : DNSZone Data} {stop : Stop}

theorem new_stop {zone_name : Bytes} (stopped : new dns zone_name = .error stop) :
    Ordinary stop := by
  unfold new at stopped
  split at stopped
  · rename_i raised
    obtain rfl := Except.error.inj stopped
    exact raising_stop raised
  · cases stopped

theorem new_ok {zone_name : Bytes} (made : new dns zone_name = .ok zone) :
    zone.address = [] ∧ dns.from_text (soa zone_name) zone_name = .ok zone.data := by
  unfold new at made
  split at made
  · cases made
  · rename_i data built
    rw [← Except.ok.inj made]
    exact ⟨rfl, raising_ok built⟩

private theorem check_class_stop {rc : Bytes} (stopped : check_class dns rc zone = .error stop) :
    Ordinary stop := by
  unfold check_class at stopped
  split at stopped
  · rename_i raised
    obtain rfl := Except.error.inj stopped
    exact raising_stop raised
  · split at stopped
    · rw [← Except.error.inj stopped]
      exact ordinary_exit _
    · cases stopped

private theorem fields_stop {has_class : Bool} {l : Bytes}
    (stopped : fields dns has_class l zone = .error stop) : Ordinary stop := by
  unfold fields at stopped
  cases first : word (words l) 0 with
  | error halt =>
      simp only [first] at stopped
      rw [← Except.error.inj stopped]
      exact word_stop first
  | ok owner_name =>
      cases second : (word (words l) 1).bind int with
      | error halt =>
          simp only [first, second] at stopped
          rw [← Except.error.inj stopped]
          cases text : word (words l) 1 with
          | error missing =>
              rw [text] at second
              rw [← Except.error.inj second]
              exact word_stop text
          | ok ttl =>
              rw [text] at second
              exact int_stop second
      | ok ttl =>
          cases third : word (words l) 2 with
          | error halt =>
              simp only [first, second, third] at stopped
              rw [← Except.error.inj stopped]
              exact word_stop third
          | ok text =>
              simp only [first, second, third] at stopped
              split at stopped
              · split at stopped
                · rename_i missing
                  rw [← Except.error.inj stopped]
                  exact word_stop missing
                · split at stopped
                  · rename_i foreign
                    rw [← Except.error.inj stopped]
                    exact check_class_stop foreign
                  · cases stopped
              · cases stopped

theorem fields_ok {has_class : Bool} {l : Bytes} {record : Fields}
    (read : fields dns has_class l zone = .ok record) :
    ∃ owner, (words l)[0]? = some owner ∧ record.owner_name = lower owner := by
  unfold fields at read
  simp only at read
  split at read
  · cases read
  · cases read
  · cases read
  · rename_i owner ttl third first _second _third
    refine ⟨owner, word_ok first, ?_⟩
    split at read
    · split at read
      · cases read
      · split at read
        · cases read
        · rw [← Except.ok.inj read]
    · rw [← Except.ok.inj read]

private theorem insert_stop {record : Fields} (stopped : insert dns record zone = .error stop) :
    Ordinary stop ∨ stop = .raised .notSubdomain ∧
      ∃ rt, dns.find_rdataset zone.data record.owner_name rt = .error .notSubdomain := by
  unfold insert at stopped
  split at stopped
  · rename_i raised
    rw [← Except.error.inj stopped]
    exact Or.inl (raising_stop raised)
  · rename_i rt _known
    split at stopped
    · rename_i error raised
      rw [← Except.error.inj stopped]
      cases error with
      | notSubdomain => exact Or.inr ⟨rfl, rt, raised⟩
      | other name => exact Or.inl (ordinary_other name)
    · split at stopped
      · rename_i raised
        rw [← Except.error.inj stopped]
        exact Or.inl (raising_stop raised)
      · cases stopped

private theorem insert_ok {record : Fields} (inserted : insert dns record zone = .ok next) :
    next.address = zone.address ∧ ∃ rt found,
      dns.find_rdataset zone.data record.owner_name rt = .ok found ∧
      dns.add found record.owner_name rt record.rd record.ttl = .ok next.data := by
  unfold insert at inserted
  split at inserted
  · cases inserted
  · rename_i rt _known
    split at inserted
    · cases inserted
    · rename_i found finds
      split at inserted
      · cases inserted
      · rename_i data adds
        rw [← Except.ok.inj inserted]
        exact ⟨rfl, rt, found, finds, raising_ok adds⟩

theorem add_record_stop {has_class : Bool} {l : Bytes}
    (stopped : add_record dns has_class l zone = .error stop) :
    Ordinary stop ∨ stop = .raised .notSubdomain ∧ ∃ owner rt, (words l)[0]? = some owner ∧
      dns.find_rdataset zone.data (lower owner) rt = .error .notSubdomain := by
  unfold add_record at stopped
  split at stopped
  · cases stopped
  · split at stopped
    · rename_i halted
      rw [← Except.error.inj stopped]
      exact Or.inl (fields_stop halted)
    · rename_i record read
      obtain ⟨owner, first, owned⟩ := fields_ok read
      split at stopped
      · cases stopped
      · split at stopped
        · cases stopped
        · rcases insert_stop stopped with ordinary | ⟨raised, rt, foreign⟩
          · exact Or.inl ordinary
          · rw [owned] at foreign
            exact Or.inr ⟨raised, owner, rt, first, foreign⟩

theorem add_record_ok {has_class : Bool} {l : Bytes}
    (added : add_record dns has_class l zone = .ok next) :
    next = zone ∨ next.address = zone.address ∧ ∃ owner rt rd ttl found,
      (words l)[0]? = some owner ∧
      dns.find_rdataset zone.data (lower owner) rt = .ok found ∧
      dns.add found (lower owner) rt rd ttl = .ok next.data := by
  unfold add_record at added
  split at added
  · exact Or.inl (Except.ok.inj added).symm
  · split at added
    · cases added
    · rename_i record read
      obtain ⟨owner, first, owned⟩ := fields_ok read
      split at added
      · exact Or.inl (Except.ok.inj added).symm
      · split at added
        · exact Or.inl (Except.ok.inj added).symm
        · obtain ⟨same, rt, found, finds, adds⟩ := insert_ok added
          rw [owned] at finds adds
          exact Or.inr ⟨same, owner, rt, record.rd, record.ttl, found, first, finds, adds⟩

theorem get_record_rdata_stop {name rt : Bytes}
    (stopped : get_record_rdata dns name rt zone = .error stop) : Ordinary stop := by
  unfold get_record_rdata at stopped
  split at stopped
  · rename_i raised
    rw [← Except.error.inj stopped]
    exact raising_stop raised
  · cases stopped

theorem get_rrset_str_stop {name rt : Bytes}
    (stopped : get_rrset_str dns name rt zone = .error stop) : Ordinary stop := by
  unfold get_rrset_str at stopped
  split at stopped
  · rename_i raised
    rw [← Except.error.inj stopped]
    exact raising_stop raised
  · cases stopped

end calls

end DNSZone

/-! ### What is known of dnspython -/

structure Dnspython.Named {Data : Type} (dns : Dnspython Data) (name : Bytes) : Prop where
  printed : dns.printed name = name
  absolute : [46] <:+ name
  plain : escapedDot name = false

/-- What dnspython is documented to do.  A zone has its origin; `find_rdataset` raises
the error of the subdomain check for foreign names only; a line begins with the name
of its record, printed, and the names in a zone are its origin and those inserted. -/
structure Dnspython.Documented {Data : Type} (dns : Dnspython Data) : Prop where
  printed_root : dns.printed root = root
  printed_root_servers : dns.printed root_servers_ns = root_servers_ns
  printed_lower : ∀ name, dns.printed (lower (dns.printed name)) = lower (dns.printed name)
  origin_new : ∀ n data, dns.Named n → dns.from_text (DNSZone.soa n) n = .ok data →
    dns.origin data = n
  origin_find : ∀ data owner rt found, dns.find_rdataset data owner rt = .ok found →
    dns.origin found = dns.origin data
  origin_add : ∀ data owner rt rd ttl next, dns.add data owner rt rd ttl = .ok next →
    dns.origin next = dns.origin data
  subdomain : ∀ data owner rt, Below (dns.origin data) owner →
    dns.find_rdataset data owner rt ≠ .error .notSubdomain
  lines_new : ∀ n data, dns.Named n → dns.from_text (DNSZone.soa n) n = .ok data →
    ∀ line ∈ dns.to_text data, ∀ owner, (words line)[0]? = some owner → owner = n
  lines_find : ∀ data owner rt found, dns.find_rdataset data owner rt = .ok found →
    ∀ line ∈ dns.to_text found, ∀ first, (words line)[0]? = some first →
      ∃ old ∈ dns.to_text data, (words old)[0]? = some first
  lines_add : ∀ data owner rt rd ttl next, dns.add data owner rt rd ttl = .ok next →
    ∀ line ∈ dns.to_text next, ∀ first, (words line)[0]? = some first →
      first = dns.printed owner ∨ ∃ old ∈ dns.to_text data, (words old)[0]? = some first
  lines_printed : ∀ data, ∀ line ∈ dns.to_text data, ∀ owner, (words line)[0]? = some owner →
    dns.printed owner = owner
  rrset_owner : ∀ data name rt lines, dns.get_rrset data name rt = .ok (some lines) →
    ∀ line ∈ lines, (words line)[0]? = some (dns.printed name)

/-- `add_record` can read the line.  Only where its owner is no subdomain, by dnspython's
own comparison of the names, does a zone refuse it. -/
def Dnspython.Reads {Data : Type} (dns : Dnspython Data) (Subdomain : Bytes → Bytes → Prop)
    (line : Bytes) : Prop :=
  ∃ owner ttl rdclass type rest value rt, words line = owner :: ttl :: rdclass :: type :: rest ∧
    int ttl = .ok value ∧ upper type ≠ ascii "SOA" ∧ dns.type_from_text (upper type) = .ok rt ∧
    ∀ data, dns.class_from_text (upper rdclass) = .ok (dns.rdclass data) ∧
      (Subdomain (dns.origin data) (lower owner) → ∃ found next,
        dns.find_rdataset data (lower owner) rt = .ok found ∧
          dns.add found (lower owner) rt (join [32] rest) value = .ok next) ∧
      (¬ Subdomain (dns.origin data) (lower owner) →
        dns.find_rdataset data (lower owner) rt = .error .notSubdomain)

/-- A zone with this origin takes the line: it drops it, or the owner is a subdomain. -/
def DNSZone.Takes (Subdomain : Bytes → Bytes → Prop) (origin line : Bytes) : Prop :=
  skipped line = true ∨ ascii "TYPE65534" <:+: upper (join [32] ((words line).drop 4)) ∨
    ∀ owner, (words line)[0]? = some owner → Subdomain origin (lower owner)

theorem Dnspython.Reads.add_record_iff {Data : Type} {dns : Dnspython Data}
    {Subdomain : Bytes → Bytes → Prop} {line : Bytes} (reads : dns.Reads Subdomain line)
    (zone : DNSZone Data) :
    (∃ next, zone.add_record dns true line = .ok next) ↔
      DNSZone.Takes Subdomain (dns.origin zone.data) line := by
  obtain ⟨owner, ttl, rdclass, type, rest, value, rt, split, number, notSOA, known, takes⟩ := reads
  obtain ⟨sameClass, inside, outside⟩ := takes zone.data
  have read : DNSZone.fields dns true line zone =
      .ok ⟨lower owner, value, upper type, join [32] rest⟩ := by
    unfold DNSZone.fields DNSZone.check_class
    simp [split, word, number, raising, sameClass, Except.bind]
  unfold DNSZone.add_record DNSZone.Takes
  rw [read, split]
  simp only [List.drop_succ_cons, List.drop_zero, List.getElem?_cons_zero, Option.some.injEq,
    forall_eq']
  by_cases comment : skipped line = true
  · rw [if_pos comment]
    exact iff_of_true ⟨zone, rfl⟩ (Or.inl comment)
  rw [if_neg comment]
  by_cases signed : ascii "TYPE65534" <:+: upper (join [32] rest)
  · rw [if_pos signed]
    exact iff_of_true ⟨zone, rfl⟩ (Or.inr (Or.inl signed))
  rw [if_neg signed, if_neg fun soa => notSOA soa.1]
  unfold DNSZone.insert
  simp only [known, raising]
  by_cases below : Subdomain (dns.origin zone.data) (lower owner)
  · obtain ⟨found, next, finds, adds⟩ := inside below
    rw [finds]
    simp only [adds]
    exact iff_of_true ⟨_, rfl⟩ (Or.inr (Or.inr below))
  · rw [outside below]
    refine iff_of_false ?_ ?_
    · rintro ⟨next, impossible⟩
      cases impossible
    · rintro (skips | drops | within)
      · exact comment skips
      · exact signed drops
      · exact below within

/-- dnspython reads again what it prints, as far as `fix_delegation` goes. -/
structure Dnspython.Rereads {Data : Type} (dns : Dnspython Data)
    (Subdomain : Bytes → Bytes → Prop) : Prop where
  columns : ∀ data, ∀ line ∈ dns.to_text data, strip line ≠ [] → 4 ≤ (words line).length
  delegations : ∀ data, ∀ line ∈ dns.to_text data, ∀ type, (words line)[3]? = some type →
    upper type = ascii "NS" → dns.Reads Subdomain line
  addresses : ∀ data name rt lines, rt = ascii "A" ∨ rt = ascii "AAAA" →
    dns.get_rrset data name rt = .ok (some lines) → ∀ line ∈ lines, dns.Reads Subdomain line

structure Listed where
  name : Bytes
  records : List (Bytes × Nat × Bytes × Int)

namespace Listed

def printed (name : Bytes) : Bytes :=
  if name ≠ [] ∧ name.all (fun byte => isSpace byte == false) then name else ascii "@"

def types : List (Nat × Bytes) :=
  [(1, ascii "A"), (2, ascii "NS"), (6, ascii "SOA"), (28, ascii "AAAA")]

def type_text (rt : Nat) : Bytes := (types.lookup rt).getD (ascii "TYPE")

def line (record : Bytes × Nat × Bytes × Int) : Bytes :=
  printed record.1 ++ 32 :: (signedDecimal record.2.2.2 ++ ascii " IN " ++
    type_text record.2.1 ++ 32 :: record.2.2.1)

def rrset (data : Listed) (name rt : Bytes) : Option (List (Bytes × Nat × Bytes × Int)) :=
  let found := data.records.filter (fun record => record.1 = name ∧ type_text record.2.1 = rt)
  if found = [] then none else some found

def put (data : Listed) (record : Bytes × Nat × Bytes × Int) : Listed :=
  if data.records.any (fun old =>
    old.1 = record.1 ∧ old.2.1 = record.2.1 ∧ old.2.2.1 = record.2.2.1) then data
  else { data with records := data.records ++ [record] }

def dnspython : Dnspython Listed where
  printed := printed
  from_text := fun soa origin =>
    .ok ⟨origin, [(origin, 6, join [32] ((words soa).drop 4), 60)]⟩
  origin := Listed.name
  rdclass := fun _data => 1
  class_from_text := fun text => if text = ascii "IN" then .ok 1 else .error "UnknownRdataclass"
  class_to_text := fun _rdclass => ascii "IN"
  type_from_text := fun text =>
    match types.find? (fun known => known.2 = text) with
    | some known => .ok known.1
    | none => .error "UnknownRdatatype"
  find_rdataset := fun data owner _rt =>
    if Below data.name owner then .ok data else .error .notSubdomain
  add := fun data owner rt rd ttl => .ok (data.put (owner, rt, rd, ttl))
  get_rdataset := fun data name rt =>
    .ok ((data.rrset name rt).map (fun found => found.map (fun record => record.2.2.1)))
  get_rrset := fun data name rt => .ok ((data.rrset name rt).map (fun found => found.map line))
  to_text := fun data => data.records.map line ++ [[]]

theorem printed_isWord (name : Bytes) : IsWord (printed name) := by
  unfold printed
  split
  · rename_i word
    exact isWord_of_all word.1 word.2
  · exact isWord_of_all (by decide) (by decide)

theorem printed_of_isWord {name : Bytes} (word : IsWord name) : printed name = name := by
  unfold printed
  rw [if_pos]
  refine ⟨word.nonempty, List.all_eq_true.mpr ?_⟩
  intro byte member
  exact beq_iff_eq.mpr (word.solid byte member)

theorem words_line (record : Bytes × Nat × Bytes × Int) :
    (words (line record))[0]? = some (printed record.1) := by
  unfold line
  rw [words_append_space (printed_isWord record.1) rfl]
  rfl

private theorem first_word {data : Listed} {text first : Bytes}
    (member : text ∈ dnspython.to_text data)
    (begins : (words text)[0]? = some first) :
    ∃ record ∈ data.records, text = line record ∧ first = printed record.1 := by
  rcases List.mem_append.mp member with own | last
  · obtain ⟨record, within, rfl⟩ := List.mem_map.mp own
    rw [words_line] at begins
    exact ⟨record, within, rfl, (Option.some.inj begins).symm⟩
  · rw [List.mem_singleton.mp last] at begins
    cases begins

private theorem mem_to_text {data : Listed} {record : Bytes × Nat × Bytes × Int}
    (member : record ∈ data.records) : line record ∈ dnspython.to_text data :=
  List.mem_append_left _ (List.mem_map_of_mem member)

theorem rrset_mem {data : Listed} {name rt : Bytes} {found : List (Bytes × Nat × Bytes × Int)}
    (is : data.rrset name rt = some found) :
    ∀ record ∈ found, record.1 = name ∧ type_text record.2.1 = rt := by
  unfold rrset at is
  simp only at is
  split at is
  · cases is
  · intro record member
    rw [← Option.some.inj is] at member
    exact of_decide_eq_true (List.mem_filter.mp member).2

private theorem put_name (data : Listed) (record : Bytes × Nat × Bytes × Int) :
    (data.put record).name = data.name := by
  unfold put
  split
  · rfl
  · rfl

private theorem mem_put {data : Listed} {record other : Bytes × Nat × Bytes × Int}
    (member : other ∈ (data.put record).records) : other = record ∨ other ∈ data.records := by
  unfold put at member
  split at member
  · exact Or.inr member
  · rcases List.mem_append.mp member with before | last
    · exact Or.inr before
    · exact Or.inl (List.mem_singleton.mp last)

theorem documented : dnspython.Documented where
  printed_root := by decide
  printed_root_servers := by decide
  printed_lower := by
    intro name
    apply printed_of_isWord
    exact (printed_isWord name).lower
  origin_new := by
    intro n data _named built
    rw [← Except.ok.inj built]
    rfl
  origin_find := by
    intro data owner rt found finds
    change (if Below data.name owner then Except.ok data else .error Raised.notSubdomain) = _ at finds
    split at finds
    · rw [Except.ok.inj finds]
    · cases finds
  origin_add := by
    intro data owner rt rd ttl next adds
    rw [← Except.ok.inj adds]
    exact put_name data _
  subdomain := by
    intro data owner rt (below : Below data.name owner)
    change (if Below data.name owner then Except.ok data else .error Raised.notSubdomain) ≠ _
    rw [if_pos below]
    intro impossible
    cases impossible
  lines_new := by
    intro n data named built line member owner begins
    obtain ⟨record, within, _same, first⟩ := first_word member begins
    rw [← Except.ok.inj built] at within
    rw [first, List.mem_singleton.mp within]
    exact named.printed
  lines_find := by
    intro data owner rt found finds line member first begins
    change (if Below data.name owner then Except.ok data else .error Raised.notSubdomain) = _ at finds
    split at finds
    · rw [Except.ok.inj finds]
      exact ⟨line, member, begins⟩
    · cases finds
  lines_add := by
    intro data owner rt rd ttl next adds text member first begins
    obtain ⟨record, within, _same, begins⟩ := first_word member begins
    rw [← Except.ok.inj adds] at within
    rcases mem_put within with own | before
    · rw [begins, own]
      exact Or.inl rfl
    · refine Or.inr ⟨line record, mem_to_text before, ?_⟩
      rw [words_line, begins]
  lines_printed := by
    intro data line member owner begins
    obtain ⟨record, _within, _same, first⟩ := first_word member begins
    rw [first]
    exact printed_of_isWord (printed_isWord _)
  rrset_owner := by
    intro data name rt lines finds text member
    have is := Except.ok.inj finds
    cases found : data.rrset name rt with
    | none =>
        rw [found] at is
        cases is
    | some records =>
        rw [found] at is
        rw [← Option.some.inj is] at member
        obtain ⟨record, within, rfl⟩ := List.mem_map.mp member
        rw [words_line, (rrset_mem found record within).1]
        rfl

private theorem int_signedDecimal (ttl : Int) : ∃ value, int (signedDecimal ttl) = .ok value := by
  have digit {byte : UInt8} (member : byte ∈ decimal ttl.natAbs) :
      (48 ≤ byte && byte ≤ 57) = true := by
    obtain ⟨low, high⟩ := mem_decimal member
    rw [Bool.and_eq_true, decide_eq_true_eq, decide_eq_true_eq, UInt8.le_iff_toNat_le,
      UInt8.le_iff_toNat_le]
    exact ⟨low, high⟩
  have number : decimal ttl.natAbs ≠ [] ∧
      (decimal ttl.natAbs).all (fun byte => 48 ≤ byte && byte ≤ 57) = true :=
    ⟨(decimal_isWord _).nonempty, List.all_eq_true.mpr fun byte => digit⟩
  unfold int signedDecimal
  split
  · simp only [List.head?_cons, or_true, if_true, List.tail_cons]
    rw [if_pos number]
    exact ⟨_, rfl⟩
  · have plain : ¬ ((decimal ttl.natAbs).head? = some 43 ∨ (decimal ttl.natAbs).head? = some 45) := by
      rintro (sign | sign)
      · exact absurd (digit (List.mem_of_head? sign)) (by decide)
      · exact absurd (digit (List.mem_of_head? sign)) (by decide)
    simp only [if_neg plain]
    rw [if_pos number]
    exact ⟨_, rfl⟩

private theorem signedDecimal_isWord (ttl : Int) : IsWord (signedDecimal ttl) := by
  have digits := decimal_isWord ttl.natAbs
  unfold signedDecimal
  split
  · refine ⟨List.cons_ne_nil _ _, ?_⟩
    rw [List.forall_mem_cons]
    exact ⟨rfl, digits.solid⟩
  · exact digits

private theorem type_text_isWord (rt : Nat) : IsWord (type_text rt) := by
  have known : ∀ entry ∈ types, entry.2 ≠ [] ∧
      entry.2.all (fun byte => isSpace byte == false) = true := by
    decide
  unfold type_text
  cases found : types.lookup rt with
  | none => exact isWord_of_all (by decide) (by decide)
  | some text =>
      obtain ⟨front, behind, split, _none⟩ := List.lookup_eq_some_iff.mp found
      have member : (rt, text) ∈ types := by
        rw [split]
        exact List.mem_append_right _ List.mem_cons_self
      exact isWord_of_all (known _ member).1 (known _ member).2

theorem all_words_line (record : Bytes × Nat × Bytes × Int) :
    words (line record) = printed record.1 :: signedDecimal record.2.2.2 :: ascii "IN" ::
      type_text record.2.1 :: words record.2.2.1 := by
  have spaced : line record = printed record.1 ++ 32 :: (signedDecimal record.2.2.2 ++
      32 :: (ascii "IN" ++ 32 :: (type_text record.2.1 ++ 32 :: record.2.2.1))) := by
    unfold line
    rw [List.append_assoc, List.append_assoc]
    rfl
  rw [spaced, words_append_space (printed_isWord _) rfl, words_append_space (signedDecimal_isWord _) rfl,
    words_append_space (isWord_of_all (by decide) (by decide)) rfl,
    words_append_space (type_text_isWord _) rfl]

private theorem reads_line {record : Bytes × Nat × Bytes × Int} {known : Nat × Bytes}
    (type : upper (type_text record.2.1) = known.2) (listed : known ∈ types)
    (notSOA : known.2 ≠ ascii "SOA") : dnspython.Reads Below (line record) := by
  obtain ⟨value, number⟩ := int_signedDecimal record.2.2.2
  have parsed : ∀ known ∈ types, dnspython.type_from_text known.2 = .ok known.1 := by decide
  refine ⟨_, _, _, _, _, value, known.1, all_words_line record, number, type ▸ notSOA,
    type ▸ parsed known listed, ?_⟩
  intro data
  refine ⟨rfl, ?_, ?_⟩
  · intro below
    exact ⟨data, _, if_pos below, rfl⟩
  · intro foreign
    exact if_neg foreign

theorem rereads : dnspython.Rereads Below where
  columns := by
    intro data text member some
    rcases List.mem_append.mp member with own | last
    · obtain ⟨record, _within, rfl⟩ := List.mem_map.mp own
      rw [all_words_line]
      simp
    · rw [List.mem_singleton.mp last] at some
      exact absurd rfl some
  delegations := by
    intro data text member type fourth delegates
    rcases List.mem_append.mp member with own | last
    · obtain ⟨record, _within, rfl⟩ := List.mem_map.mp own
      rw [all_words_line] at fourth
      have same : type_text record.2.1 = type := Option.some.inj fourth
      have listed : (2, ascii "NS") ∈ types := by decide
      exact reads_line (by rw [same, delegates]) listed (by decide)
    · rw [List.mem_singleton.mp last] at fourth
      cases fourth
  addresses := by
    intro data name rt lines either finds text member
    have is := Except.ok.inj finds
    cases found : data.rrset name rt with
    | none =>
        rw [found] at is
        cases is
    | some records =>
        rw [found] at is
        rw [← Option.some.inj is] at member
        obtain ⟨record, within, rfl⟩ := List.mem_map.mp member
        have same := (rrset_mem found record within).2
        rcases either with rfl | rfl
        · have listed : (1, ascii "A") ∈ types := by decide
          exact reads_line (by rw [same]; rfl) listed (by decide)
        · have listed : (28, ascii "AAAA") ∈ types := by decide
          exact reads_line (by rw [same]; rfl) listed (by decide)

end Listed

end LDPlayer
