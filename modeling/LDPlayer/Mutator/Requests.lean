/-
From the command line to the map of mutations.

Whatever stands between them, the mutation options fill a map by the number of
their name; the last value of an option stays.  One of them is looked up under
another name than its own and gets the number zero, which the constructor
refuses.
-/
import LDPlayer.Input.TimeStamp
import LDPlayer.Mutator.Main

set_option autoImplicit false

namespace LDPlayer

namespace Mutator

open Text

/-! ### Mutation options -/

inductive MutationOption where
  | dns_opcode
  | dns_aa
  | dns_tc
  | dns_rd
  | dns_ra
  | dns_z
  | dns_ad
  | dns_cd
  | edns_do
  | edns_udp_size
  | edns_extended_rcode
  | edns_version
  | edns_z
  deriving DecidableEq, Repr

namespace MutationOption

def name : MutationOption → Bytes
  | .dns_opcode => ascii "dns-opcode"
  | .dns_aa => ascii "dns-aa"
  | .dns_tc => ascii "dns-tc"
  | .dns_rd => ascii "dns-rd"
  | .dns_ra => ascii "dns-ra"
  | .dns_z => ascii "dns-z"
  | .dns_ad => ascii "dns-ad"
  | .dns_cd => ascii "dns-cd"
  | .edns_do => ascii "edns-do"
  | .edns_udp_size => ascii "edns-udp-size"
  | .edns_extended_rcode => ascii "edns-extended-rcode"
  | .edns_version => ascii "edns-version"
  | .edns_z => ascii "edns-z"

def val : MutationOption → Nat
  | .dns_opcode => OPT_DNS_OPCODE
  | .dns_aa => OPT_DNS_AA
  | .dns_tc => OPT_DNS_TC
  | .dns_rd => OPT_DNS_RD
  | .dns_ra => OPT_DNS_RA
  | .dns_z => OPT_DNS_Z
  | .dns_ad => OPT_DNS_AD
  | .dns_cd => OPT_DNS_CD
  | .edns_do => OPT_EDNS_DO
  | .edns_udp_size => OPT_EDNS_UDP_SIZE
  | .edns_extended_rcode => OPT_EDNS_EXTENDED_RCODE
  | .edns_version => OPT_EDNS_VERSION
  | .edns_z => OPT_EDNS_Z

def part : MutationOption → UInt32
  | .dns_opcode => DNS_OPCODE
  | .dns_aa => DNS_AA
  | .dns_tc => DNS_TC
  | .dns_rd => DNS_RD
  | .dns_ra => DNS_RA
  | .dns_z => DNS_Z
  | .dns_ad => DNS_AD
  | .dns_cd => DNS_CD
  | .edns_do => EDNS_DO
  | .edns_udp_size => EDNS_UDP_SIZE
  | .edns_extended_rcode => EDNS_EXTENDED_RCODE
  | .edns_version => EDNS_VERSION
  | .edns_z => EDNS_Z

/-- The name under which main looks the number up. -/
def looked_up (o : MutationOption) : Bytes :=
  if o = .edns_extended_rcode then ascii "edns-extended-code" else o.name

/-- The number that it finds, or makes. -/
def key (o : MutationOption) : UInt32 := if o = .edns_extended_rcode then 0 else o.part

private theorem key_injective : Function.Injective key := by
  intro left right same
  cases left <;> cases right <;> first | rfl | exact absurd same (by decide)

private theorem key_ne_extended_rcode (o : MutationOption) : o.key ≠ EDNS_EXTENDED_RCODE := by
  cases o <;> decide

theorem key_of_ne {o : MutationOption} (other : o ≠ .edns_extended_rcode) : o.key = o.part :=
  if_neg other

theorem valid_key_iff (o : MutationOption) :
    valid_dns_option o.key = true ↔ o ≠ .edns_extended_rcode := by
  cases o <;> decide

end MutationOption

structure Digits where
  text : Bytes
  some : text ≠ []
  digits : ∀ byte ∈ text, isDigit byte = true
  fits : digitsValue text < 2 ^ 31

structure Percent where
  n : Digits
  x : Digits

def Percent.text (p : Percent) : Bytes := p.n.text ++ 58 :: p.x.text

def Percent.value (p : Percent) : Int × UInt32 :=
  (digitsValue p.n.text, UInt32.ofNat (digitsValue p.x.text))

/-! ### Values -/

theorem Digits.is_number (d : Digits) : is_number d.text true = true := by
  have solid : ∀ byte ∈ d.text, isSpace byte = false :=
    fun byte member => isDigit_solid (d.digits byte member)
  have word : (extract d.text).1 = d.text := by rw [extract_solid solid]
  unfold Mutator.is_number
  rw [is_number_iff, word]
  refine ⟨d.some, ?_⟩
  rw [unsigned_digits d.some d.digits]
  exact d.digits

theorem Digits.stoi (d : Digits) : stoi_or_exit d.text = .ok (digitsValue d.text : Int) := by
  rw [stoi_or_exit_digits d.some d.digits, if_pos d.fits]

private theorem ofInt_natCast (value : Nat) : UInt32.ofInt value = UInt32.ofNat value := by
  apply UInt32.toNat_inj.mp
  unfold UInt32.ofInt
  rw [UInt32.toNat_ofNat', UInt32.toNat_ofNat']
  omega

theorem parse_option_text (p : Percent) : parse_option p.text = .ok p.value := by
  have before : ∀ byte ∈ p.n.text, decide (byte ≠ 58) = true := by
    intro byte member
    apply decide_eq_true
    intro same
    have digit := p.n.digits byte member
    rw [same] at digit
    cases digit
  have parts : str_split_two p.text 58 = .ok (p.n.text, p.x.text) := by
    unfold str_split_two Percent.text
    rw [if_pos (List.mem_append_right _ List.mem_cons_self),
      List.takeWhile_append_of_pos before, List.dropWhile_append_of_pos before]
    simp
  unfold parse_option
  simp only [parts, p.n.is_number, p.x.is_number, not_true_eq_false, if_false, p.n.stoi, p.x.stoi]
  rw [ofInt_natCast]
  rfl

/-! ### The words of the command line -/

/-- Long with the value behind an equals sign, long with the value as the next word, or
short. -/
inductive Form where
  | joined
  | separate
  | short
  deriving DecidableEq, Repr

inductive Arg where
  | mutation (o : MutationOption) (value : Percent) (joined : Bool)
  | input (text : Bytes) (form : Form)
  | output (text : Bytes) (form : Form)
  | loop (long : Bool)
  | verbose (long : Bool)

def long_words (name text : Bytes) (joined : Bool) : List Bytes :=
  if joined then [ascii "--" ++ (name ++ 61 :: text)] else [ascii "--" ++ name, text]

def valued_words (name : Bytes) (letter : UInt8) (text : Bytes) : Form → List Bytes
  | .joined => long_words name text true
  | .separate => long_words name text false
  | .short => [[45, letter], text]

namespace Arg

def words : Arg → List Bytes
  | .mutation o value joined => long_words o.name value.text joined
  | .input text form => valued_words (ascii "input") 105 text form
  | .output text form => valued_words (ascii "output") 111 text form
  | .loop long => if long then [ascii "--loop"] else [ascii "-l"]
  | .verbose long => if long then [ascii "--verbose"] else [ascii "-v"]

def val : Arg → Nat
  | .mutation o _ _ => o.val
  | .input _ _ => 105
  | .output _ _ => 111
  | .loop _ => 108
  | .verbose _ => 118

def optarg : Arg → Option Bytes
  | .mutation _ value _ => some value.text
  | .input text _ => some text
  | .output text _ => some text
  | .loop _ => none
  | .verbose _ => none

end Arg

structure Valued (name : Bytes) (val : Nat) : Prop where
  entry : long_options.find? (fun entry => entry.name = name) = some ⟨name, true, val⟩
  solid : name.all (fun byte => byte ≠ 61) = true
  nonempty : name ≠ []

theorem Valued.before {name : Bytes} {val : Nat} (valued : Valued name val) :
    ∀ byte ∈ name, decide (byte ≠ 61) = true := List.all_eq_true.mp valued.solid

theorem MutationOption.valued (o : MutationOption) : Valued o.name o.val := by
  cases o <;> exact ⟨rfl, rfl, List.cons_ne_nil _ _⟩

private theorem option_word_long {word : Bytes} (nonempty : word ≠ []) (rest : List Bytes) :
    option_word (ascii "--" ++ word) rest = some (long_option word rest) := by
  cases word with
  | nil => exact absurd rfl nonempty
  | cons head tail => rfl

private theorem getopt_long_valued {name : Bytes} {val : Nat} (valued : Valued name val)
    (text : Bytes)
    (joined : Bool) (rest : List Bytes) :
    getopt_long [] (long_words name text joined ++ rest) = .ok (.opt val (some text) [] rest) := by
  cases joined with
  | true =>
      have read : long_option (name ++ 61 :: text) rest = .ok (.opt val (some text) [] rest) := by
        unfold long_option
        rw [List.takeWhile_append_of_pos valued.before, List.dropWhile_append_of_pos valued.before]
        simp [valued.entry]
      change getopt_words ((ascii "--" ++ (name ++ 61 :: text)) :: rest) = _
      unfold getopt_words
      rw [option_word_long (List.append_ne_nil_of_left_ne_nil valued.nonempty _), read]
      rfl
  | false =>
      have whole := List.takeWhile_eq_self_iff.mpr valued.before
      have none := List.dropWhile_eq_nil_iff.mpr valued.before
      have read : long_option name (text :: rest) = .ok (.opt val (some text) [] rest) := by
        unfold long_option
        simp only [whole, none, valued.entry, if_true]
      change getopt_words ((ascii "--" ++ name) :: text :: rest) = _
      unfold getopt_words
      rw [option_word_long valued.nonempty, read]
      rfl

/-- getopt gives every argument back, however it is written. -/
theorem getopt_long_arg (arg : Arg) (rest : List Bytes) :
    getopt_long [] (arg.words ++ rest) = .ok (.opt arg.val arg.optarg [] rest) := by
  cases arg with
  | mutation o value joined => exact getopt_long_valued o.valued value.text joined rest
  | input text form =>
      have valued : Valued (ascii "input") 105 := ⟨rfl, rfl, List.cons_ne_nil _ _⟩
      cases form with
      | joined => exact getopt_long_valued valued text true rest
      | separate => exact getopt_long_valued valued text false rest
      | short => rfl
  | output text form =>
      have valued : Valued (ascii "output") 111 := ⟨rfl, rfl, List.cons_ne_nil _ _⟩
      cases form with
      | joined => exact getopt_long_valued valued text true rest
      | separate => exact getopt_long_valued valued text false rest
      | short => rfl
  | loop long => cases long <;> rfl
  | verbose long => cases long <;> rfl

/-! ### The loop of main -/

def command_line (args : List Arg) : List Bytes := args.flatMap Arg.words

theorem main_loop_step {g : Given} {nextchar : Bytes} {words : List Bytes} {val : Nat}
    {optarg : Option Bytes} {more : Bytes} {rest : List Bytes}
    (got : getopt_long nextchar words = .ok (.opt val optarg more rest)) :
    main_loop g nextchar words =
      main_case g val optarg >>= fun next => main_loop next more rest := by
  rw [main_loop]
  split
  · rename_i none
    rw [got] at none
    cases none
  · rename_i none
    rw [got] at none
    cases none
  · rename_i one
    rw [got] at one
    cases one
    cases main_case g val optarg <;> rfl

theorem main_loop_args (args : List Arg) (g : Given) :
    main_loop g [] (command_line args) =
      args.foldlM (fun g arg => main_case g arg.val arg.optarg) g := by
  induction args generalizing g with
  | nil =>
      rw [main_loop]
      split
      · rename_i none
        cases none
      · rfl
      · rename_i one
        cases one
  | cons arg rest ih =>
      have words : command_line (arg :: rest) = arg.words ++ command_line rest :=
        List.flatMap_cons
      rw [words, main_loop_step (getopt_long_arg arg _), List.foldlM_cons]
      congr 1
      funext next
      exact ih next

def Arg.isOther : Arg → Bool
  | .mutation _ _ _ => false
  | _ => true

def Arg.store (m : HashTable UInt32 Bytes) : Arg → HashTable UInt32 Bytes
  | .mutation o value _ => m.insert o.key value.text
  | _ => m

def Given.with_maps (g : Given) (m : HashTable UInt32 Bytes) (names : HashTable Bytes UInt32) :
    Given :=
  { g with m := m, dns_opt_map := names }

/-- A table of names in which main finds what it looks for. -/
def Named (names : HashTable Bytes UInt32) : Prop :=
  ∀ o : MutationOption, names.lookup o.looked_up = some o.key ∨
    o = .edns_extended_rcode ∧ names.lookup o.looked_up = none

theorem named_initial : Named DNS_OPT_MAP := by
  intro o
  cases o <;> first | exact Or.inl rfl | exact Or.inr ⟨rfl, rfl⟩

theorem Named.subscript {names : HashTable Bytes UInt32} (named : Named names)
    (o : MutationOption) :
    (names.subscript 0 o.looked_up).1 = o.key ∧ Named (names.subscript 0 o.looked_up).2 := by
  unfold HashTable.subscript
  rcases named o with found | ⟨rfl, missing⟩
  · rw [found]
    exact ⟨rfl, named⟩
  · rw [missing]
    refine ⟨rfl, ?_⟩
    intro other
    rw [HashTable.lookup_insert_eq]
    by_cases same : other.looked_up = MutationOption.edns_extended_rcode.looked_up
    · have own : other = .edns_extended_rcode := by
        revert same
        cases other <;> decide +kernel
      rw [own, if_pos rfl]
      exact Or.inl rfl
    · rw [if_neg same]
      exact named other

private theorem main_case_mutation (g : Given) (o : MutationOption) (value : Percent)
    (joined : Bool) :
    main_case g (Arg.mutation o value joined).val (Arg.mutation o value joined).optarg =
      .ok (g.assign o.looked_up value.text) := by
  cases o <;> rfl

private theorem main_case_other {arg : Arg} (other : arg.isOther = true) (g : Given)
    (m : HashTable UInt32 Bytes) (names : HashTable Bytes UInt32) :
    main_case (g.with_maps m names) arg.val arg.optarg =
      (main_case g arg.val arg.optarg).map (fun next => next.with_maps m names) := by
  cases arg with
  | mutation o value joined => cases other
  | input text form =>
      change (str_split_two text 58).map _ = ((str_split_two text 58).map _).map _
      cases str_split_two text 58 <;> rfl
  | output text form =>
      change (str_split_two text 58).map _ = ((str_split_two text 58).map _).map _
      cases str_split_two text 58 <;> rfl
  | loop long => rfl
  | verbose long => rfl

/-- The loop fills the map and does else what it does without the mutations. -/
theorem foldlM_args (args : List Arg) {g final : Given} {m : HashTable UInt32 Bytes}
    {names : HashTable Bytes UInt32} (named : Named names)
    (others : (args.filter Arg.isOther).foldlM
      (fun g arg => main_case g arg.val arg.optarg) g = .ok final) :
    ∃ names', args.foldlM (fun g arg => main_case g arg.val arg.optarg) (g.with_maps m names) =
      .ok (final.with_maps (args.foldl Arg.store m) names') := by
  induction args generalizing g m names with
  | nil =>
      obtain rfl : g = final := Except.ok.inj others
      exact ⟨names, rfl⟩
  | cons arg rest ih =>
      rw [List.foldlM_cons, List.foldl_cons]
      cases other : arg.isOther with
      | true =>
          rw [List.filter_cons_of_pos other, List.foldlM_cons] at others
          obtain ⟨next, first, tail⟩ := of_bind_eq_ok others
          have same : Arg.store m arg = m := by
            cases arg <;> first | rfl | cases other
          rw [main_case_other other, first, same]
          exact ih named tail
      | false =>
          rw [List.filter_cons_of_neg (by rw [other]; exact Bool.false_ne_true)] at others
          cases arg with
          | mutation o value joined =>
              obtain ⟨found, still⟩ := named.subscript o
              rw [main_case_mutation]
              have assigned : (g.with_maps m names).assign o.looked_up value.text =
                  g.with_maps (m.insert o.key value.text)
                    (names.subscript 0 o.looked_up).2 := by
                rw [← found]
                rfl
              rw [assigned]
              exact ih still others
          | input text form => cases other
          | output text form => cases other
          | loop long => cases other
          | verbose long => cases other

def Arg.value (o : MutationOption) : Arg → Option Percent
  | .mutation other value _ => if other = o then some value else none
  | _ => none

def asked (o : MutationOption) (args : List Arg) : Option Percent :=
  (args.filterMap (Arg.value o)).getLast?

private theorem asked_append (o : MutationOption) (args : List Arg) (arg : Arg) :
    asked o (args ++ [arg]) = (arg.value o).or (asked o args) := by
  unfold asked
  rw [List.filterMap_append, List.getLast?_append, List.filterMap_cons, List.filterMap_nil]
  cases arg.value o <;> rfl

private theorem asked_eq_none {o : MutationOption} {args : List Arg} :
    asked o args = none ↔ ∀ value joined, Arg.mutation o value joined ∉ args := by
  unfold asked
  rw [List.getLast?_eq_none_iff, List.filterMap_eq_nil_iff]
  constructor
  · intro none value joined member
    have own := none _ member
    rw [Arg.value, if_pos rfl] at own
    cases own
  · intro absent arg member
    cases arg with
    | mutation other value joined =>
        by_cases same : other = o
        · subst same
          exact absurd member (absent value joined)
        · exact if_neg same
    | input text form => rfl
    | output text form => rfl
    | loop long => rfl
    | verbose long => rfl

def stored (args : List Arg) : HashTable UInt32 Bytes := args.foldl Arg.store ∅

theorem stored_append (args : List Arg) (arg : Arg) :
    stored (args ++ [arg]) = Arg.store (stored args) arg := by
  unfold stored
  rw [List.foldl_append, List.foldl_cons, List.foldl_nil]

theorem stored_lookup (args : List Arg) (o : MutationOption) :
    (stored args).lookup o.key = (asked o args).map Percent.text := by
  induction args using List.reverseRecOn with
  | nil => rfl
  | append_singleton args arg ih =>
      rw [stored_append, asked_append]
      cases arg with
      | mutation other value joined =>
          rw [Arg.store, Arg.value, HashTable.lookup_insert_eq]
          by_cases same : other = o
          · subst same
            rw [if_pos rfl, if_pos rfl]
            rfl
          · have different : o.key ≠ other.key :=
              fun keys => same (MutationOption.key_injective keys.symm)
            rw [if_neg different, if_neg same, Option.none_or]
            exact ih
      | input text form => exact ih
      | output text form => exact ih
      | loop long => exact ih
      | verbose long => exact ih

theorem stored_key {args : List Arg} {code : UInt32} (given : code ∈ stored args) :
    ∃ o : MutationOption, o.key = code := by
  induction args using List.reverseRecOn with
  | nil => cases given
  | append_singleton args arg ih =>
      rw [stored_append] at given
      cases arg with
      | mutation o value joined =>
          rcases (AList.mem_insert _).mp given with same | before
          · exact ⟨o, same.symm⟩
          · exact ih before
      | input text form => exact ih given
      | output text form => exact ih given
      | loop long => exact ih given
      | verbose long => exact ih given

/-! ### The constructor -/

/-- Each option that is given has an entry of its last value, and there is no other. -/
structure Requested (args : List Arg) (opt : HashTable UInt32 (Int × UInt32)) : Prop where
  entries : ∀ o : MutationOption, opt.lookup o.part = (asked o args).map Percent.value
  only : ∀ code ∈ opt, ∃ o : MutationOption, o.part = code

theorem stored_entry {args : List Arg} {order : HashTable.Order UInt32 Bytes}
    {it : Sigma fun _ : UInt32 => Bytes} (member : it ∈ order.through (stored args)) :
    ∃ o value, it = ⟨o.key, Percent.text value⟩ ∧ asked o args = some value := by
  have found : (stored args).lookup it.1 = some it.2 := HashTable.Order.mem_through.mp member
  obtain ⟨o, same⟩ := stored_key (HashTable.mem_iff_lookup.mpr ⟨it.2, found⟩)
  rw [← same, stored_lookup] at found
  obtain ⟨value, asked, text⟩ := Option.map_eq_some_iff.mp found
  refine ⟨o, value, ?_, asked⟩
  rw [same, text]

theorem add_option_entry (tmp : HashTable UInt32 (Int × UInt32)) (o : MutationOption)
    (value : Percent) :
    add_option tmp ⟨o.key, value.text⟩ =
      if o = .edns_extended_rcode then .error (.exit "invalid dns option [0]")
      else .ok (tmp.insert o.part value.value) := by
  unfold add_option
  by_cases extended : o = .edns_extended_rcode
  · subst extended
    have refused : ¬ valid_dns_option MutationOption.edns_extended_rcode.key := by
      rw [MutationOption.valid_key_iff]
      exact fun other => other rfl
    have text : "invalid dns option [" ++ toString (0 : Nat) ++ "]" = "invalid dns option [0]" := by
      decide +kernel
    rw [if_pos refused, if_pos rfl, ← text]
    rfl
  · rw [if_neg extended, if_neg (not_not.mpr ((MutationOption.valid_key_iff o).mpr extended)),
      parse_option_text, MutationOption.key_of_ne extended]
    rfl

def option_added (tmp : HashTable UInt32 (Int × UInt32)) (it : Sigma fun _ : UInt32 => Bytes) :
    HashTable UInt32 (Int × UInt32) :=
  match parse_option it.2 with
  | .error _ => tmp
  | .ok parsed => tmp.insert it.1 parsed

theorem option_added_entry (tmp : HashTable UInt32 (Int × UInt32)) (code : UInt32)
    (value : Percent) : option_added tmp ⟨code, value.text⟩ = tmp.insert code value.value := by
  unfold option_added
  rw [parse_option_text]

section construction

variable (order : HashTable.Order UInt32 Bytes) {args : List Arg}

private theorem options_added_lookup (tmp : HashTable UInt32 (Int × UInt32)) (code : UInt32) :
    ((order.through (stored args)).foldl option_added tmp).lookup code =
      ((stored args).lookup code).elim (tmp.lookup code) (fun text =>
        (parse_option text).toOption.or (tmp.lookup code)) := by
  apply HashTable.Order.view_foldl
    (fun tmp : HashTable UInt32 (Int × UInt32) => tmp.lookup code)
    (fun text old => (parse_option text).toOption.or old) order (stored args)
  · intro tmp it member other
    obtain ⟨o, value, rfl, _given⟩ := stored_entry member
    rw [option_added_entry]
    exact HashTable.lookup_insert_eq.trans (if_neg (Ne.symm other))
  · intro tmp text
    unfold option_added
    cases parse_option text with
    | error fault => rfl
    | ok parsed => exact HashTable.lookup_insert_eq.trans (if_pos rfl)

private theorem stored_not_extended (args : List Arg) :
    (stored args).lookup EDNS_EXTENDED_RCODE = none := by
  rw [← HashTable.notMem_iff_lookup]
  intro given
  obtain ⟨o, same⟩ := stored_key given
  exact o.key_ne_extended_rcode same

private theorem options_added_requested (absent : asked .edns_extended_rcode args = none) :
    Requested args ((order.through (stored args)).foldl option_added ∅) where
  entries := by
    intro o
    rw [options_added_lookup]
    by_cases extended : o = .edns_extended_rcode
    · subst extended
      rw [absent]
      exact congrArg (fun found : Option Bytes => found.elim none _) (stored_not_extended args)
    · rw [← MutationOption.key_of_ne extended, stored_lookup]
      cases asked o args with
      | none => rfl
      | some value =>
          change (parse_option value.text).toOption.or none = some value.value
          rw [parse_option_text]
          rfl
  only := by
    intro code given
    obtain ⟨parsed, found⟩ := HashTable.mem_iff_lookup.mp given
    rw [options_added_lookup] at found
    cases text : (stored args).lookup code with
    | none =>
        rw [text] at found
        cases found
    | some value =>
        obtain ⟨o, rfl⟩ := stored_key (HashTable.mem_iff_lookup.mpr ⟨value, text⟩)
        rw [stored_lookup] at text
        have other : o ≠ .edns_extended_rcode := by
          intro same
          rw [same, absent] at text
          cases text
        exact ⟨o, (MutationOption.key_of_ne other).symm⟩

private theorem options_ok (absent : asked .edns_extended_rcode args = none) :
    (order.through (stored args)).foldlM add_option ∅ =
      .ok ((order.through (stored args)).foldl option_added ∅) := by
  apply HashTable.foldlM_ok option_added (fun _tmp => True)
  · intro tmp it _any
    trivial
  · intro tmp _any it member
    obtain ⟨o, value, rfl, given⟩ := stored_entry member
    have other : o ≠ .edns_extended_rcode := by
      intro same
      rw [same, absent] at given
      cases given
    rw [add_option_entry, if_neg other, option_added_entry, MutationOption.key_of_ne other]
  · trivial

/-- The entry under zero stops the constructor in whatever order. -/
theorem options_refused {value : Percent} (given : asked .edns_extended_rcode args = some value) :
    (order.through (stored args)).foldlM add_option ∅ =
      .error (.exit "invalid dns option [0]") := by
  have found : (stored args).lookup 0 = some value.text := by
    have own := stored_lookup args .edns_extended_rcode
    rw [given] at own
    exact own
  apply HashTable.foldlM_error option_added (fun _tmp => True)
    (HashTable.Order.mem_through.mpr found)
  · intro tmp it _any
    trivial
  · intro tmp _any it member
    obtain ⟨o, value, rfl, _given⟩ := stored_entry member
    rw [add_option_entry]
    by_cases extended : o = .edns_extended_rcode
    · exact Or.inr (if_pos extended)
    · rw [if_neg extended, option_added_entry, MutationOption.key_of_ne extended]
      exact Or.inl rfl
  · intro tmp _any
    exact (add_option_entry tmp .edns_extended_rcode value).trans (if_pos rfl)
  · trivial

end construction

/-! ### main -/

section main

variable (streams : Streams) (order : HashTable.Order UInt32 Bytes)

private theorem init_opt {ifn ift ofn oft : Bytes} {f : Bool} {m : HashTable UInt32 (Int × UInt32)}
    {base : Mutator} (built : init streams ifn ift ofn oft f m = .ok base)
    (m' : HashTable UInt32 (Int × UInt32)) :
    init streams ifn ift ofn oft f m' = .ok { base with opt := m' } := by
  unfold init at built ⊢
  dsimp only at built ⊢
  split_ifs at built ⊢ with format output input
  cases opened : streams.input_stream ifn ift with
  | error fault =>
      rw [opened] at built
      cases built
  | ok opened' =>
      rw [opened] at built
      obtain rfl := Except.ok.inj built
      rfl

/-- Where main goes on to the constructor, it does so for any map. -/
theorem check_input_started {g : Given} {base : Mutator}
    (started : check_input streams order g = .ok (.started base)) :
    construct streams order g = .ok base ∧ ∀ m names,
      check_input streams order (g.with_maps m names) =
        (construct streams order (g.with_maps m names)).map .started := by
  have built {m : Except Fault Mutator} (made : m.map Outcome.started = .ok (.started base)) :
      m = .ok base := by
    obtain ⟨inner, built, same⟩ := of_map_eq_ok made
    exact built.trans (congrArg _ (Outcome.started.inj same))
  unfold check_input at started
  split_ifs at started with input output raw same text same
  · cases started
  · refine ⟨built started, ?_⟩
    intro m names
    exact (if_neg input).trans ((if_neg output).trans ((if_pos raw).trans (if_neg same)))
  · cases started
  · refine ⟨built started, ?_⟩
    intro m names
    exact (if_neg input).trans ((if_neg output).trans ((if_neg raw).trans
      ((if_pos text).trans (if_neg same))))

theorem main_eq {args : List Arg} {g : Given} (some : command_line args ≠ [])
    (read : args.foldlM (fun g arg => main_case g arg.val arg.optarg) {} = .ok g) :
    main streams order (command_line args) = check_input streams order g := by
  unfold main
  rw [if_neg some, main_loop_args, read]

private theorem main_args {argv : List Bytes} {base : Mutator}
    (started : main streams order argv = .ok (.started base)) :
    argv ≠ [] ∧ ∃ g, main_loop {} [] argv = .ok g ∧
      check_input streams order g = .ok (.started base) := by
  unfold main at started
  by_cases empty : argv = []
  · rw [if_pos empty] at started
    cases started
  · rw [if_neg empty] at started
    refine ⟨empty, ?_⟩
    cases read : main_loop {} [] argv with
    | error fault =>
        rw [read] at started
        cases started
    | ok g =>
        rw [read] at started
        exact ⟨g, rfl, started⟩

private theorem others_empty {args : List Arg} {g : Given}
    (read : (args.filter Arg.isOther).foldlM (fun g arg => main_case g arg.val arg.optarg) {} =
      .ok g) : g.m = ∅ := by
  have again : ((args.filter Arg.isOther).filter Arg.isOther).foldlM
      (fun g arg => main_case g arg.val arg.optarg) {} = .ok g := by
    rw [List.filter_filter]
    simp only [Bool.and_self]
    exact read
  obtain ⟨names, all⟩ := foldlM_args (args.filter Arg.isOther) (m := ∅) named_initial again
  have start : ({} : Given).with_maps ∅ DNS_OPT_MAP = {} := rfl
  rw [start, read] at all
  have none : (args.filter Arg.isOther).foldl Arg.store ∅ = ∅ := by
    apply List.foldlRecOn (motive := fun m : HashTable UInt32 Bytes => m = ∅)
    · rfl
    · intro m empty arg member
      have other := (List.mem_filter.mp member).2
      cases arg <;> first | exact empty | cases other
  rw [Except.ok.inj all]
  exact none

theorem main_mutations {args : List Arg} {base : Mutator}
    (accepted : main streams order (command_line (args.filter Arg.isOther)) =
      .ok (.started base)) :
    main streams order (command_line args) =
      ((order.through (stored args)).foldlM add_option ∅).map
        (fun opt => .started { base with opt := opt }) := by
  obtain ⟨some, g, read, checked⟩ := main_args streams order accepted
  rw [main_loop_args] at read
  obtain ⟨built, same⟩ := check_input_started streams order checked
  have nonempty : command_line args ≠ [] := by
    intro none
    apply some
    rw [command_line, List.flatMap_eq_nil_iff] at none ⊢
    intro arg member
    exact none arg (List.mem_filter.mp member).1
  obtain ⟨names, all⟩ := foldlM_args args (m := ∅) named_initial read
  have start : ({} : Given).with_maps ∅ DNS_OPT_MAP = {} := rfl
  rw [start] at all
  have opened : init streams g.input_file g.input_format g.output_file g.output_format g.loop ∅ =
      .ok base := by
    have none : order.through ∅ = [] := (order.perm ∅).eq_nil
    unfold construct new at built
    rw [others_empty read, none] at built
    exact built
  rw [main_eq streams order nonempty all, same]
  change (new streams order g.input_file g.input_format g.output_file g.output_format g.loop
    (stored args)).map _ = _
  unfold new
  cases (order.through (stored args)).foldlM add_option ∅ with
  | error fault => rfl
  | ok opt =>
      simp only [init_opt streams opened opt]
      rfl

end main

/-- The mutations on the command line become the map of the constructor, under their own
numbers and with their last values, exactly when the extended response code is not among
them; whatever other options stand between them, if these alone are accepted. -/
theorem main_requested_iff (streams : Streams) (order : HashTable.Order UInt32 Bytes)
    (args : List Arg) (base : Mutator)
    (accepted : main streams order (command_line (args.filter Arg.isOther)) =
      .ok (.started base)) :
    (∃ mutator, main streams order (command_line args) = .ok (.started mutator) ∧
      Requested args mutator.opt) ↔
      ∀ value joined, Arg.mutation .edns_extended_rcode value joined ∉ args := by
  rw [← asked_eq_none, main_mutations streams order accepted]
  cases given : asked .edns_extended_rcode args with
  | none =>
      rw [options_ok order given]
      exact iff_of_true ⟨_, rfl, options_added_requested order given⟩ rfl
  | some value =>
      rw [options_refused order given]
      apply iff_of_false
      · intro mutated
        obtain ⟨mutator, started, _requested⟩ := mutated
        cases started
      · exact Option.some_ne_none value

def all_open : Streams := ⟨fun _file => true, fun _file => true, fun _file _format => .ok ()⟩

def Digits.one : Digits := ⟨ascii "1", List.cons_ne_nil _ _, by simp [ascii, isDigit], by decide⟩

def Digits.hundred : Digits :=
  ⟨ascii "100", List.cons_ne_nil _ _, by simp [ascii, isDigit], by decide⟩

def text_to_raw (mutations : List Arg) : List Arg :=
  [.input (ascii "text:-") .short] ++ mutations ++ [.output (ascii "raw:-") .separate]

def raw_writer : Mutator where
  input_file := ascii "-"
  input_format := ascii "text"
  output_file := ascii "-"
  output_format := OUTPUT_FORMAT_RAW
  is_stdout := true
  infinite := false
  opt := ∅

theorem text_to_raw_accepted :
    main all_open .stored (command_line (text_to_raw [])) = .ok (.started raw_writer) := by
  have read : (text_to_raw []).foldlM (fun g arg => main_case g arg.val arg.optarg) {} =
      .ok
        { input_file := ascii "-"
          input_format := ascii "text"
          output_file := ascii "-"
          output_format := ascii "raw" } := rfl
  have some : command_line (text_to_raw []) ≠ [] := by
    intro none
    cases none
  rw [main_eq all_open .stored some read]
  rfl

def authoritative_twice : List Arg :=
  text_to_raw [.mutation .dns_aa ⟨.hundred, .one⟩ false, .mutation .dns_aa ⟨.one, .hundred⟩ true]

theorem main_requested_twice :
    ∃ mutator, main all_open .stored (command_line authoritative_twice) = .ok (.started mutator) ∧
      Requested authoritative_twice mutator.opt := by
  apply (main_requested_iff all_open .stored authoritative_twice raw_writer
    text_to_raw_accepted).mpr
  intro value joined given
  simp [authoritative_twice, text_to_raw] at given

def extended_rcode : List Arg :=
  text_to_raw [.mutation .edns_extended_rcode ⟨.hundred, .one⟩ false]

/-- With the extended response code there is no object. -/
theorem main_extended_rcode :
    ¬ ∃ mutator, main all_open .stored (command_line extended_rcode) = .ok (.started mutator) ∧
        Requested extended_rcode mutator.opt := by
  have given : asked .edns_extended_rcode extended_rcode = some ⟨.hundred, .one⟩ := rfl
  have accepted : main all_open .stored (command_line (extended_rcode.filter Arg.isOther)) =
      .ok (.started raw_writer) := text_to_raw_accepted
  rw [main_mutations all_open .stored accepted, options_refused .stored given]
  intro mutated
  obtain ⟨mutator, started, _requested⟩ := mutated
  cases started

end Mutator

end LDPlayer
