import VeriCross.Library.Numerals
import VeriCross.Sim.Machine

/-!
# The command line

`checkarg` goes over the options that `getopt_long` returns and fills in the arguments of the
program. The number of instructions may have a suffix that scales it: it is read by `strtoll` and
multiplied as a `long long`. A string is the list of its characters before the terminating NUL.
-/

namespace VeriCross

/-- `long long`: a value out of its range cannot be built. -/
@[ext]
structure LongLong where
  val : ℤ
  low : -2 ^ 63 ≤ val
  high : val ≤ 2 ^ 63 - 1

/-- The nearest value in range. -/
def LongLong.saturate (x : ℤ) : LongLong :=
  if low : x < -2 ^ 63 then ⟨-2 ^ 63, by decide, by decide⟩
  else if high : 2 ^ 63 - 1 < x then ⟨2 ^ 63 - 1, by decide, by decide⟩
  else ⟨x, not_lt.mp low, not_lt.mp high⟩

/-- A product; an overflow is undefined. -/
def LongLong.mul? (a : LongLong) (b : ℤ) : Option LongLong :=
  if h : -2 ^ 63 ≤ a.val * b ∧ a.val * b ≤ 2 ^ 63 - 1 then some ⟨a.val * b, h.1, h.2⟩ else none

/-- White space in the C locale. -/
def isspace (c : Char) : Bool := c ∈ [' ', '\t', '\n', '\x0b', '\x0c', '\r']

/-- `strtoll` in base 10: the value, saturated, and the end pointer, which is the start of the
string when there is no number. -/
def strtoll (str : List Char) : LongLong × List Char :=
  match Numerals.scan isspace str with
  | some (value, endptr) => (LongLong.saturate value, endptr)
  | none => (LongLong.saturate 0, str)

/-- Multiply by the scale of the suffix, if there is one, and step over it. -/
def scaleBySuffix (val : LongLong) (endptr : List Char) : Option LongLong × List Char :=
  if endptr.head? = some 'k' ∨ endptr.head? = some 'K' then (val.mul? 1000, endptr.tail)
  else if endptr.head? = some 'm' ∨ endptr.head? = some 'M' then (val.mul? 1000000, endptr.tail)
  else if endptr.head? = some 'g' ∨ endptr.head? = some 'G' then (val.mul? 1000000000, endptr.tail)
  else (some val, endptr)

/-- Parse a number with an optional suffix: whether it is accepted, and `result` afterwards. There
is no outcome when the product overflows. -/
def parseScaledNumber (str : List Char) (result : Counter) : Option (Bool × Counter) :=
  let (val, endptr) := strtoll str
  if endptr = str ∨ val.val < 0 then some (false, result)
  else
    let (val, endptr) := scaleBySuffix val endptr
    val.map fun val : LongLong =>
      -- reject other trailing characters
      if endptr ≠ [] then (false, result) else (true, BitVec.ofInt 64 val.val)

/-- The known processor core models. -/
def knownCores : List String := ["kronos", "kronos_faulty", "rvcorep"]

/-- The command line arguments. -/
structure Args where
  dumpLog : Bool
  procOnly : Bool
  maxInsts : Counter
  mismatchInsts : Word
  coreType : String
  baseDir : String
  binFile : String
  dumpFile : String
  spFile : String
  logFile : String

/-- The return values of `checkarg`. -/
inductive ArgResult
  | success
  | failed
  | infoPrinted
  deriving DecidableEq

/-- What `getopt_long` returns for one option: its letter, or NUL for a long option without one, the
index of a long option, and the argument. -/
structure GetoptResult where
  c : Char
  longIndex : ℕ
  optarg : String

/-- The arguments so far, and the lines printed to the two streams. -/
structure ArgState where
  args : Args
  out : List String
  err : List String

namespace ArgState

/-- Replace the arguments. -/
def setArgs (s : ArgState) (args : Args) : ArgState := { s with args := args }

/-- `printf`. -/
def print (s : ArgState) (lines : List String) : ArgState := { s with out := s.out ++ lines }

/-- `fprintf` to `stderr`. -/
def complain (s : ArgState) (line : String) : ArgState := { s with err := s.err ++ [line] }

end ArgState

/-- `atoi`: the conversion to `long`, which has 64 bits, is cut to an `int`. -/
def atoi (str : List Char) : Word := BitVec.ofInt 32 (strtoll str).1.val

/-- One iteration of the loop over the options, and the return value if it returns. -/
def checkOption (s : ArgState) (o : GetoptResult) : Option (ArgState × Option ArgResult) :=
  match o.c with
  | '\x00' =>
    if o.longIndex = 1 then
      some (s.setArgs { s.args with dumpLog := true, logFile := o.optarg }, none)
    else if o.longIndex = 3 then
      some (s.print ("Available core models:" :: knownCores.map ("  " ++ ·)), some .infoPrinted)
    else some (s, none)
  | 'c' =>
    let s := s.setArgs { s.args with coreType := o.optarg }
    if o.optarg ∈ knownCores then some (s, none)
    else some (s.complain s!"!! Unknown core model: {o.optarg}", some .failed)
  | 'l' => some (s.setArgs { s.args with dumpLog := true }, none)
  | 'p' => some (s.setArgs { s.args with procOnly := true }, none)
  | 'i' =>
    (parseScaledNumber o.optarg.toList s.args.maxInsts).map fun (accepted, maxInsts) =>
      let s := s.setArgs { s.args with maxInsts := maxInsts }
      if accepted then (s, none)
      else (s.complain s!"!! Invalid instruction count: {o.optarg}", some .failed)
  | 'm' =>
    let s := s.setArgs { s.args with mismatchInsts := atoi o.optarg.toList }
    if s.args.mismatchInsts.slt 1 then
      some (s.complain s!"!! Invalid mismatch count: {o.optarg}", some .failed)
    else some (s, none)
  | 'v' =>
    some (s.print ["## VeriCross: A Rapid Cross-Verification Platform for Soft Processors",
      "##1.0.0"], some .infoPrinted)
  | _ => some (s, some .failed)

/-- The loop over the options. -/
def checkOptions (s : ArgState) : List GetoptResult → Option (ArgState × Option ArgResult)
  | [] => some (s, none)
  | o :: rest =>
    match checkOption s o with
    | some (s, none) => checkOptions s rest
    | done => done

/-- The arguments before the first option; the strings are empty. -/
def Args.default : Args := ⟨false, false, 10000000, 0, "", "", "", "", "", ""⟩

/-- `checkarg`, on the options and on the operands that `getopt_long` leaves. -/
def checkarg (options : List GetoptResult) (operands : List String) :
    Option (ArgState × ArgResult) :=
  match checkOptions ⟨.default, [], []⟩ options with
  | none => none
  | some (s, some result) => some (s, result)
  | some (s, none) =>
    match operands with
    | [baseDir, binary, stack] =>
      if s.args.procOnly ∧ s.args.coreType = "" then
        some (s.complain "!! core model must be specified in -p mode", .failed)
      else
        some (s.setArgs { s.args with
          baseDir := baseDir, binFile := s!"{binary}.bin", dumpFile := s!"{binary}.objdump",
          spFile := s!"{stack}_sp.txt" }, .success)
    | _ => some (s, .failed)

/-- What `main` gives to the main loops; `log` is open if a trace is asked for. -/
def Args.simArgs (args : Args) : SimArgs :=
  { maxInsts := args.maxInsts
    mismatchInsts := args.mismatchInsts
    log := decide (args.logFile ≠ "") || args.dumpLog }

end VeriCross
