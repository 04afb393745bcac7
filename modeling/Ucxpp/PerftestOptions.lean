import Ucxpp.Lib.Decimal

/-!
# PerftestOptions — the arguments of perftest

`main` goes through its arguments once. An option that needs a value takes the next
argument, whatever that looks like; an argument that is no option is the address of the
server. Numbers are read by `std::stoul` and `std::stoi`, which look at the beginning of
the text only, and a negative number wraps.

* `parse` — the loop: the context, or why it stops. Where the last argument is an option
  that needs a value, it reads one behind the end of the vector;
* `Setting`, `Spells` — what arguments mean, written down without the loop: each setting
  is one or two arguments, and the last one for a member counts (`Assigned`).
-/

namespace Ucxpp.PerftestOptions

/-- `std::string`. -/
abbrev Str := List Char

/-- `test_category`. -/
inductive TestCategory where
  | tag
  | stream
  | rma
deriving DecidableEq, Repr

/-- `test_type`. -/
inductive TestType where
  | bw
  | lat
deriving DecidableEq, Repr

/-- `perf_context`. -/
structure PerfContext where
  test : TestCategory × TestType := (.tag, .bw)
  concurrency : UInt64 := 1
  iterations : UInt64 := 10000000
  messageSize : UInt64 := 8
  warmupIterations : UInt64 := 10000
  epoll : Bool := false
  serverAddress : Str := []
  serverPort : UInt16 := 8888
  core : Option UInt64 := none
deriving DecidableEq, Repr

/-! ## Numbers -/

/-- The exceptions of `std::stoul` and `std::stoi`. -/
inductive Thrown where
  | invalidArgument
  | outOfRange
deriving DecidableEq, Repr

/-- `std::stoul`: a minus negates in `unsigned long`. -/
def stoul (text : Str) : Except Thrown UInt64 :=
  match Decimal.read text with
  | none => .error .invalidArgument
  | some n =>
    if n.magnitude < UInt64.size then
      .ok (if n.negative then -UInt64.ofNat n.magnitude else UInt64.ofNat n.magnitude)
    else
      .error .outOfRange

/-- The value of a number with its sign. -/
def value (n : Decimal.Number) : Int :=
  if n.negative then -n.magnitude else n.magnitude

/-- `std::stoi`. -/
def stoi (text : Str) : Except Thrown Int32 :=
  match Decimal.read text with
  | none => .error .invalidArgument
  | some n =>
    if Int32.minValue.toInt ≤ value n ∧ value n ≤ Int32.maxValue.toInt then
      .ok (Int32.ofInt (value n))
    else
      .error .outOfRange

/-! ## The loop -/

/-- The options that need a value. -/
inductive Opt where
  | test
  | core
  | concurrency
  | messageSize
  | iterations
  | warmup
  | port
deriving DecidableEq, Repr

/-- What `main` takes an argument for. -/
inductive Arg where
  | help
  | opt (o : Opt)
  | epoll
  | unknown
  | address
deriving DecidableEq, Repr

/-- The comparisons of the loop. The first character of an empty argument is a NUL. -/
def classify (arg : Str) : Arg :=
  if arg = ['-', 'h'] then .help
  else if arg = ['-', 't'] then .opt .test
  else if arg = ['-', 'c'] then .opt .core
  else if arg = ['-', 'o'] then .opt .concurrency
  else if arg = ['-', 's'] then .opt .messageSize
  else if arg = ['-', 'n'] then .opt .iterations
  else if arg = ['-', 'w'] then .opt .warmup
  else if arg = ['-', 'e'] then .epoll
  else if arg = ['-', 'p'] then .opt .port
  else if arg.head? = some '-' then .unknown
  else .address

/-- Why the loop stops before its end: it prints and returns, a number cannot be read, or
`args[++i]` is behind the end. -/
inductive Stop where
  | usage
  | unknownTest (value : Str)
  | unknownOption (arg : Str)
  | thrown (e : Thrown)
  | outOfBounds
deriving DecidableEq, Repr

/-- A number that is read for a member. -/
def reading {α : Type} (number : Except Thrown α) (f : α → PerfContext) :
    Except Stop PerfContext :=
  match number with
  | .ok n => .ok (f n)
  | .error e => .error (.thrown e)

/-- The branch of an option with its value. -/
def assign (perf : PerfContext) (text : Str) : Opt → Except Stop PerfContext
  | .test =>
    if text = ['t', 'a', 'g'] then
      .ok { perf with test := (.tag, perf.test.2) }
    else if text = ['s', 't', 'r', 'e', 'a', 'm'] then
      .ok { perf with test := (.stream, perf.test.2) }
    else
      .error (.unknownTest text)
  | .core =>
    -- an `int` becomes a `size_t`
    reading (stoi text) fun n => { perf with core := some n.toInt64.toUInt64 }
  | .concurrency => reading (stoul text) fun n => { perf with concurrency := n }
  | .messageSize => reading (stoul text) fun n => { perf with messageSize := n }
  | .iterations => reading (stoul text) fun n => { perf with iterations := n }
  | .warmup => reading (stoul text) fun n => { perf with warmupIterations := n }
  | .port =>
    -- an `unsigned long` becomes a `uint16_t`
    reading (stoul text) fun n => { perf with serverPort := n.toUInt16 }

/-- The loop of `main` over `args`. -/
def parse (perf : PerfContext) : List Str → Except Stop PerfContext
  | [] => .ok perf
  | arg :: rest =>
    match classify arg with
    | .help => .error .usage
    | .opt o =>
      match rest with
      | [] => .error .outOfBounds
      | text :: rest =>
        match assign perf text o with
        | .ok perf => parse perf rest
        | .error e => .error e
    | .epoll => parse { perf with epoll := true } rest
    | .unknown => .error (.unknownOption arg)
    | .address => parse { perf with serverAddress := arg } rest

/-! ## What arguments mean -/

/-- One thing that the arguments ask for. -/
inductive Setting where
  | test (stream : Bool)
  | core (n : Int32)
  | concurrency (n : UInt64)
  | messageSize (n : UInt64)
  | iterations (n : UInt64)
  | warmup (n : UInt64)
  | port (n : UInt64)
  | epoll
  | address (text : Str)

/-- The arguments say it. -/
inductive Says : List Str → Setting → Prop
  | tag : Says [['-', 't'], ['t', 'a', 'g']] (.test false)
  | stream : Says [['-', 't'], ['s', 't', 'r', 'e', 'a', 'm']] (.test true)
  | core {text n} (h : stoi text = .ok n) : Says [['-', 'c'], text] (.core n)
  | concurrency {text n} (h : stoul text = .ok n) : Says [['-', 'o'], text] (.concurrency n)
  | messageSize {text n} (h : stoul text = .ok n) : Says [['-', 's'], text] (.messageSize n)
  | iterations {text n} (h : stoul text = .ok n) : Says [['-', 'n'], text] (.iterations n)
  | warmup {text n} (h : stoul text = .ok n) : Says [['-', 'w'], text] (.warmup n)
  | port {text n} (h : stoul text = .ok n) : Says [['-', 'p'], text] (.port n)
  | epoll : Says [['-', 'e']] .epoll
  | address {text} (h : text.head? ≠ some '-') : Says [text] (.address text)

/-- The arguments say the settings, one after the other. -/
inductive Spells : List Str → List Setting → Prop
  | nil : Spells [] []
  | cons {args rest s settings} (h : Says args s) (hrest : Spells rest settings) :
      Spells (args ++ rest) (s :: settings)

def Setting.category? : Setting → Option TestCategory
  | .test stream => some (if stream then .stream else .tag)
  | _ => none

def Setting.core? : Setting → Option UInt64
  | .core n => some n.toInt64.toUInt64
  | _ => none

def Setting.concurrency? : Setting → Option UInt64
  | .concurrency n => some n
  | _ => none

def Setting.messageSize? : Setting → Option UInt64
  | .messageSize n => some n
  | _ => none

def Setting.iterations? : Setting → Option UInt64
  | .iterations n => some n
  | _ => none

def Setting.warmup? : Setting → Option UInt64
  | .warmup n => some n
  | _ => none

/-- The port is what the low 16 bits are. -/
def Setting.port? : Setting → Option UInt16
  | .port n => some n.toUInt16
  | _ => none

def Setting.epoll? : Setting → Option Bool
  | .epoll => some true
  | _ => none

def Setting.address? : Setting → Option Str
  | .address text => some text
  | _ => none

/-- The last setting for a member, or what the member was. -/
def last {α : Type} (member? : Setting → Option α) (settings : List Setting) (before : α) : α :=
  (settings.filterMap member?).getLastD before

/-- Every member is what the last setting for it says. -/
structure Assigned (settings : List Setting) (perf perf' : PerfContext) : Prop where
  test : perf'.test = (last Setting.category? settings perf.test.1, perf.test.2)
  concurrency : perf'.concurrency = last Setting.concurrency? settings perf.concurrency
  iterations : perf'.iterations = last Setting.iterations? settings perf.iterations
  messageSize : perf'.messageSize = last Setting.messageSize? settings perf.messageSize
  warmup : perf'.warmupIterations = last Setting.warmup? settings perf.warmupIterations
  epoll : perf'.epoll = last Setting.epoll? settings perf.epoll
  serverAddress : perf'.serverAddress = last Setting.address? settings perf.serverAddress
  serverPort : perf'.serverPort = last Setting.port? settings perf.serverPort
  core : perf'.core = last (fun s => s.core?.map some) settings perf.core

/-- The options that need a value are `-t`, and those with a number. -/
def counts : List Str :=
  [['-', 'o'], ['-', 's'], ['-', 'n'], ['-', 'w'], ['-', 'p']]

/-- The loop stops at the first of these arguments, or at its value. -/
inductive Blames : List Str → Stop → Prop
  | usage {rest} : Blames (['-', 'h'] :: rest) .usage
  | unknownTest {text rest} (htag : text ≠ ['t', 'a', 'g'])
      (hstream : text ≠ ['s', 't', 'r', 'e', 'a', 'm']) :
      Blames (['-', 't'] :: text :: rest) (.unknownTest text)
  | unknownOption {arg rest} (hminus : arg.head? = some '-')
      (hnot : arg ∉ ['-', 'h'] :: ['-', 't'] :: ['-', 'c'] :: ['-', 'e'] :: counts) :
      Blames (arg :: rest) (.unknownOption arg)
  | core {text e rest} (h : stoi text = .error e) : Blames (['-', 'c'] :: text :: rest) (.thrown e)
  | count {arg text e rest} (harg : arg ∈ counts) (h : stoul text = .error e) :
      Blames (arg :: text :: rest) (.thrown e)
  | outOfBounds {arg} (harg : arg ∈ ['-', 't'] :: ['-', 'c'] :: counts) : Blames [arg] .outOfBounds

/-- A decimal number. -/
def digits (n : Nat) : Str :=
  Nat.toDigits 10 n

/-- The arguments that a user writes for a setting. -/
def Setting.render : Setting → List Str
  | .test stream => [['-', 't'], if stream then ['s', 't', 'r', 'e', 'a', 'm'] else ['t', 'a', 'g']]
  | .core n =>
    [['-', 'c'], if n.toInt < 0 then '-' :: digits n.toInt.natAbs else digits n.toInt.natAbs]
  | .concurrency n => [['-', 'o'], digits n.toNat]
  | .messageSize n => [['-', 's'], digits n.toNat]
  | .iterations n => [['-', 'n'], digits n.toNat]
  | .warmup n => [['-', 'w'], digits n.toNat]
  | .port n => [['-', 'p'], digits n.toNat]
  | .epoll => [['-', 'e']]
  | .address text => [text]

/-- An address does not look like an option. -/
def Setting.Plain : Setting → Prop
  | .address text => text.head? ≠ some '-'
  | _ => True

end Ucxpp.PerftestOptions
