/-
The command line of the mutator: getopt_long on its options, the loop of main
over what that yields, and the constructor that reads the mutations.

Each mutation option is stored under the number that a table gives for a name;
the subscript operator makes an entry where the name is missing.
-/
import LDPlayer.Input.TextLine
import LDPlayer.Mutator.DNSUtil

set_option autoImplicit false

namespace LDPlayer

open Text

structure Mutator where
  input_file : Bytes
  input_format : Bytes
  output_file : Bytes
  output_format : UInt32
  is_stdout : Bool
  infinite : Bool
  opt : HashTable UInt32 (Int × UInt32)
  deriving DecidableEq

namespace Mutator

/-- The copy in str_util.cc is the same. -/
def is_number (s : Bytes) (positive : Bool) : Bool := LDPlayer.is_number s positive

/-! ### Construction -/

def OUTPUT_FORMAT_NONE : UInt32 := 0x0
def OUTPUT_FORMAT_TEXT : UInt32 := 0x1
def OUTPUT_FORMAT_RAW : UInt32 := 0x2

def OUTPUT_FORMAT_MAP : HashTable Bytes UInt32 :=
  (AList.insert (ascii "text") OUTPUT_FORMAT_TEXT ∅).insert (ascii "raw") OUTPUT_FORMAT_RAW

def valid_dns_option (p : UInt32) : Bool := valid_option p DNS_OPCODE EDNS_Z

def valid_output_format (p : UInt32) : Bool :=
  valid_option p OUTPUT_FORMAT_TEXT OUTPUT_FORMAT_RAW

/-- The files that are opened: whether the output can be, whether a path is one of a
file, and the constructor of the input stream. -/
structure Streams where
  open_output : Bytes → Bool
  check_path : Bytes → Bool
  input_stream : Bytes → Bytes → Except Fault Unit

def init (streams : Streams) (ifn ift ofn oft : Bytes) (f : Bool)
    (m : HashTable UInt32 (Int × UInt32)) : Except Fault Mutator :=
  let output_format := (OUTPUT_FORMAT_MAP.subscript OUTPUT_FORMAT_NONE oft).1
  let is_stdout := ofn = ascii "-"
  if ¬ valid_output_format output_format then .error (.exit "unknown output format")
  else if ¬ is_stdout ∧ ¬ streams.open_output ofn then .error (.exit "cannot open output file")
  else if ifn ≠ ascii "-" ∧ ¬ streams.check_path ifn then .error (.exit "input file is invalid!")
  else
    match streams.input_stream ifn ift with
    | .error fault => .error fault
    | .ok () =>
        .ok
          { input_file := ifn
            input_format := ift
            output_file := ofn
            output_format := output_format
            is_stdout := is_stdout
            infinite := f
            opt := m }

def parse_option (text : Bytes) : Except Fault (Int × UInt32) :=
  match str_split_two text 58 with
  | .error fault => .error fault
  | .ok (s1, s2) =>
      if ¬ is_number s1 true then
        .error (.exit ("Mutator::Mutator(): [" ++ shown s1 ++ "] is not positive number"))
      else if ¬ is_number s2 true then
        .error (.exit ("Mutator::Mutator(): [" ++ shown s2 ++ "] is not positive number"))
      else
        match stoi_or_exit s1, stoi_or_exit s2 with
        | .error fault, _ => .error fault
        | _, .error fault => .error fault
        | .ok percent, .ok number => .ok (percent, UInt32.ofInt number)

def add_option (tmp : HashTable UInt32 (Int × UInt32)) (it : Sigma fun _ : UInt32 => Bytes) :
    Except Fault (HashTable UInt32 (Int × UInt32)) :=
  if ¬ valid_dns_option it.1 then
    .error (.exit ("invalid dns option [" ++ toString it.1.toNat ++ "]"))
  else (parse_option it.2).map (fun parsed => tmp.insert it.1 parsed)

def new (streams : Streams) (order : HashTable.Order UInt32 Bytes) (ifn ift ofn oft : Bytes)
    (f : Bool) (m : HashTable UInt32 Bytes) : Except Fault Mutator :=
  match (order.through m).foldlM add_option ∅ with
  | .error fault => .error fault
  | .ok tmp => init streams ifn ift ofn oft f tmp

/-! ### Options of the command line -/

def OPT_DNS_OPCODE : Nat := 1000
def OPT_DNS_AA : Nat := 1001
def OPT_DNS_TC : Nat := 1002
def OPT_DNS_RD : Nat := 1003
def OPT_DNS_RA : Nat := 1004
def OPT_DNS_Z : Nat := 1005
def OPT_DNS_AD : Nat := 1006
def OPT_DNS_CD : Nat := 1007
def OPT_EDNS_DO : Nat := 1008
def OPT_EDNS_UDP_SIZE : Nat := 1009
def OPT_EDNS_EXTENDED_RCODE : Nat := 1010
def OPT_EDNS_VERSION : Nat := 1011
def OPT_EDNS_Z : Nat := 1012

structure LongOption where
  name : Bytes
  has_arg : Bool
  val : Nat

def long_options : List LongOption :=
  [⟨ascii "help", false, 104⟩,
    ⟨ascii "input", true, 105⟩,
    ⟨ascii "loop", false, 108⟩,
    ⟨ascii "output", true, 111⟩,
    ⟨ascii "verbose", false, 118⟩,
    ⟨ascii "version", false, 86⟩,
    ⟨ascii "dns-opcode", true, OPT_DNS_OPCODE⟩,
    ⟨ascii "dns-aa", true, OPT_DNS_AA⟩,
    ⟨ascii "dns-tc", true, OPT_DNS_TC⟩,
    ⟨ascii "dns-rd", true, OPT_DNS_RD⟩,
    ⟨ascii "dns-ra", true, OPT_DNS_RA⟩,
    ⟨ascii "dns-z", true, OPT_DNS_Z⟩,
    ⟨ascii "dns-ad", true, OPT_DNS_AD⟩,
    ⟨ascii "dns-cd", true, OPT_DNS_CD⟩,
    ⟨ascii "edns-do", true, OPT_EDNS_DO⟩,
    ⟨ascii "edns-udp-size", true, OPT_EDNS_UDP_SIZE⟩,
    ⟨ascii "edns-extended-rcode", true, OPT_EDNS_EXTENDED_RCODE⟩,
    ⟨ascii "edns-version", true, OPT_EDNS_VERSION⟩,
    ⟨ascii "edns-z", true, OPT_EDNS_Z⟩]

/-- What a call of getopt yields: the end, or an option with its argument, the rest of a
cluster of short options, and the words behind it. -/
inductive Next where
  | eof
  | opt (val : Nat) (optarg : Option Bytes) (nextchar : Bytes) (rest : List Bytes)

/-- A word behind two dashes.  No entry of zeros ends the table, so that the search for
another name, or for one that is cut short, reads behind it. -/
def long_option (word : Bytes) (rest : List Bytes) : Except Fault Next :=
  let name := word.takeWhile (fun byte => byte ≠ 61)
  let joined := word.dropWhile (fun byte => byte ≠ 61)
  match long_options.find? (fun entry => entry.name = name) with
  | none => .error .outOfBounds
  | some entry =>
      if entry.has_arg then
        match joined, rest with
        | _ :: value, _ => .ok (.opt entry.val (some value) [] rest)
        | [], value :: others => .ok (.opt entry.val (some value) [] others)
        | [], [] => .ok (.opt 63 none [] [])
      else if joined = [] then .ok (.opt entry.val none [] rest)
      else .ok (.opt 63 none [] rest)

/-- One letter of `i:o:hlvV`, or a question mark. -/
def short_option (letter : UInt8) (more : Bytes) (rest : List Bytes) : Next :=
  if letter = 105 ∨ letter = 111 then
    match more, rest with
    | [], [] => .opt 63 none [] []
    | [], value :: others => .opt letter.toNat (some value) [] others
    | value, _ => .opt letter.toNat (some value) [] rest
  else if letter = 104 ∨ letter = 108 ∨ letter = 118 ∨ letter = 86 then
    .opt letter.toNat none more rest
  else .opt 63 none more rest

/-- A word of the command line; nothing where it is no option. -/
def option_word (word : Bytes) (rest : List Bytes) : Option (Except Fault Next) :=
  match word with
  | [45, 45] => some (.ok .eof)
  | 45 :: 45 :: name => some (long_option name rest)
  | 45 :: letter :: more => some (.ok (short_option letter more rest))
  | _ => none

/-- Words that are no options are passed over. -/
def getopt_words : List Bytes → Except Fault Next
  | [] => .ok .eof
  | word :: rest => (option_word word rest).getD (getopt_words rest)

def getopt_long (nextchar : Bytes) (words : List Bytes) : Except Fault Next :=
  match nextchar with
  | letter :: more => .ok (short_option letter more words)
  | [] => getopt_words words

def left (nextchar : Bytes) (words : List Bytes) : Nat :=
  nextchar.length + (words.map (fun word => word.length + 1)).sum

theorem short_option_left {letter : UInt8} {more : Bytes} {rest : List Bytes} {val : Nat}
    {optarg : Option Bytes} {nextchar : Bytes} {others : List Bytes}
    (got : short_option letter more rest = .opt val optarg nextchar others) :
    left nextchar others ≤ left more rest := by
  unfold short_option at got
  split at got
  · split at got <;> cases got <;> simp [left]
  · split at got <;> cases got <;> exact Nat.le_refl _

private theorem long_option_left {word : Bytes} {rest : List Bytes} {val : Nat}
    {optarg : Option Bytes}
    {nextchar : Bytes} {others : List Bytes}
    (got : long_option word rest = .ok (.opt val optarg nextchar others)) :
    left nextchar others ≤ left [] rest := by
  unfold long_option at got
  dsimp only at got
  split at got
  · cases got
  · split at got
    · split at got <;> cases got <;> simp [left]
    · split at got <;> cases got <;> exact Nat.le_refl _

private theorem option_word_left {word : Bytes} {words : List Bytes} {val : Nat}
    {optarg : Option Bytes} {more : Bytes} {rest : List Bytes}
    (got : option_word word words = some (.ok (.opt val optarg more rest))) :
    left more rest < left [] (word :: words) := by
  unfold option_word at got
  split at got
  · cases got
  · have shorter := long_option_left (Option.some.inj got)
    simp only [left, List.length_nil, List.map_cons, List.sum_cons, List.length_cons] at shorter ⊢
    omega
  · have shorter := short_option_left (Except.ok.inj (Option.some.inj got))
    simp only [left, List.length_nil, List.map_cons, List.sum_cons, List.length_cons] at shorter ⊢
    omega
  · cases got

private theorem getopt_words_left {words : List Bytes} {val : Nat} {optarg : Option Bytes}
    {more : Bytes}
    {rest : List Bytes} (got : getopt_words words = .ok (.opt val optarg more rest)) :
    left more rest < left [] words := by
  induction words with
  | nil => cases got
  | cons word words ih =>
      unfold getopt_words at got
      cases read : option_word word words with
      | some next =>
          rw [read, Option.getD_some] at got
          exact option_word_left (read.trans (congrArg some got))
      | none =>
          rw [read, Option.getD_none] at got
          have shorter := ih got
          simp only [left, List.map_cons, List.sum_cons] at shorter ⊢
          omega

private theorem getopt_long_left {nextchar : Bytes} {words : List Bytes} {val : Nat}
    {optarg : Option Bytes} {more : Bytes} {rest : List Bytes}
    (got : getopt_long nextchar words = .ok (.opt val optarg more rest)) :
    left more rest < left nextchar words := by
  cases nextchar with
  | nil => exact getopt_words_left got
  | cons letter cluster =>
      have shorter := short_option_left (Except.ok.inj got)
      simp only [left, List.length_cons] at shorter ⊢
      omega

/-! ### main -/

def DNS_OPT_MAP : HashTable Bytes UInt32 :=
  [(ascii "dns-opcode", DNS_OPCODE),
    (ascii "dns-aa", DNS_AA),
    (ascii "dns-tc", DNS_TC),
    (ascii "dns-rd", DNS_RD),
    (ascii "dns-ra", DNS_RA),
    (ascii "dns-z", DNS_Z),
    (ascii "dns-ad", DNS_AD),
    (ascii "dns-cd", DNS_CD),
    (ascii "edns-do", EDNS_DO),
    (ascii "edns-udp-size", EDNS_UDP_SIZE),
    (ascii "edns-extended-rcode", EDNS_EXTENDED_RCODE),
    (ascii "edns-version", EDNS_VERSION),
    (ascii "edns-z", EDNS_Z)].foldl (fun table entry => table.insert entry.1 entry.2) ∅

/-- The variables of main, and the table that its subscripts may extend. -/
structure Given where
  input_file : Bytes := []
  input_format : Bytes := []
  output_file : Bytes := []
  output_format : Bytes := []
  loop : Bool := false
  verbose_log : Bool := false
  m : HashTable UInt32 Bytes := ∅
  dns_opt_map : HashTable Bytes UInt32 := DNS_OPT_MAP

/-- `m[DNS_OPT_MAP[name]] = tmp` -/
def Given.assign (g : Given) (name tmp : Bytes) : Given :=
  let found := g.dns_opt_map.subscript 0 name
  { g with m := g.m.insert found.1 tmp, dns_opt_map := found.2 }

def usage : Fault := .exit "Usage"

def VERSION : String := "1.0"

def main_case (g : Given) (opt : Nat) (optarg : Option Bytes) : Except Fault Given :=
  let tmp := optarg.getD []
  if opt = 105 then
    (str_split_two tmp 58).map fun s => { g with input_format := s.1, input_file := s.2 }
  else if opt = 108 then .ok { g with loop := true }
  else if opt = 111 then
    (str_split_two tmp 58).map fun s => { g with output_format := s.1, output_file := s.2 }
  else if opt = 118 then .ok { g with verbose_log := true }
  else if opt = 86 then .error (.exit VERSION)
  else if opt = OPT_DNS_OPCODE then .ok (g.assign (ascii "dns-opcode") tmp)
  else if opt = OPT_DNS_AA then .ok (g.assign (ascii "dns-aa") tmp)
  else if opt = OPT_DNS_TC then .ok (g.assign (ascii "dns-tc") tmp)
  else if opt = OPT_DNS_RD then .ok (g.assign (ascii "dns-rd") tmp)
  else if opt = OPT_DNS_RA then .ok (g.assign (ascii "dns-ra") tmp)
  else if opt = OPT_DNS_Z then .ok (g.assign (ascii "dns-z") tmp)
  else if opt = OPT_DNS_AD then .ok (g.assign (ascii "dns-ad") tmp)
  else if opt = OPT_DNS_CD then .ok (g.assign (ascii "dns-cd") tmp)
  else if opt = OPT_EDNS_DO then .ok (g.assign (ascii "edns-do") tmp)
  else if opt = OPT_EDNS_UDP_SIZE then .ok (g.assign (ascii "edns-udp-size") tmp)
  else if opt = OPT_EDNS_EXTENDED_RCODE then .ok (g.assign (ascii "edns-extended-code") tmp)
  else if opt = OPT_EDNS_VERSION then .ok (g.assign (ascii "edns-version") tmp)
  else if opt = OPT_EDNS_Z then .ok (g.assign (ascii "edns-z") tmp)
  else .error usage

def main_loop (g : Given) (nextchar : Bytes) (words : List Bytes) : Except Fault Given :=
  match _got : getopt_long nextchar words with
  | .error fault => .error fault
  | .ok .eof => .ok g
  | .ok (.opt val optarg more rest) =>
      match main_case g val optarg with
      | .error fault => .error fault
      | .ok g => main_loop g more rest
termination_by left nextchar words
decreasing_by exact getopt_long_left _got

def construct (streams : Streams) (order : HashTable.Order UInt32 Bytes) (g : Given) :
    Except Fault Mutator :=
  new streams order g.input_file g.input_format g.output_file g.output_format g.loop g.m

/-- How main goes on: it returns at once, or has an object to start. -/
inductive Outcome where
  | returned (code : Int)
  | started (mutator : Mutator)

def check_input (streams : Streams) (order : HashTable.Order UInt32 Bytes) (g : Given) :
    Except Fault Outcome :=
  if g.input_format = [] ∨ g.input_file = [] ∨
      g.input_format ∉ [ascii "trace", ascii "text", ascii "raw"] then
    .error (.exit "input is invalid")
  else if g.output_format = [] ∨ g.output_file = [] ∨
      g.output_format ∉ [ascii "text", ascii "raw"] then
    .error (.exit "output is invalid")
  else if g.output_format = ascii "raw" then
    if g.input_format = ascii "raw" then .ok (.returned 0)
    else (construct streams order g).map .started
  else if g.output_format = ascii "text" then
    if g.input_format ∈ [ascii "text", ascii "trace"] then .ok (.returned 0)
    else (construct streams order g).map .started
  else .error (.exit "output format is invalid")

def main (streams : Streams) (order : HashTable.Order UInt32 Bytes) (argv : List Bytes) :
    Except Fault Outcome :=
  if argv = [] then .error usage
  else
    match main_loop {} [] argv with
    | .error fault => .error fault
    | .ok g => check_input streams order g

end Mutator

end LDPlayer
