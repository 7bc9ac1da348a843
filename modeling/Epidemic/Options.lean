import Epidemic.Binary32.Decimal
import Epidemic.Peer

namespace Epidemic

structure Options where
  bind : String := "0.0.0.0"
  port : UInt16 := 7946
  seeds : List Endpoint := []
  fanout : UInt32 := 3
  version : Option String := none
  intervalMs : Nat := 1000
  callTimeoutMs : Nat := 2000
  roundTimeoutMs : Nat := 10000
  isolateFailures : Bool := false
  secretKey : Option String := none
  dataDir : Option String := none
  publicIp : Ip := .v4 ⟨127, 0, 0, 1⟩
  position : Position := {}
  deriving DecidableEq, Repr

namespace Options

inductive Fault where
  | helpWanted
  | unknownWord
  | missingValue
  | surplusValue
  | badValue
  | repeated
  | noSeed
  deriving DecidableEq, Repr

def usage : String :=
  "Usage: gossipd [OPTIONS] --seed <ADDRESS>..."

def Fault.message : Fault → String
  | .helpWanted => usage
  | .unknownWord => "unexpected argument"
  | .missingValue => "an option lacks its value"
  | .surplusValue => "a flag takes no value"
  | .badValue => "the value of an option cannot be read"
  | .repeated => "an option is given twice"
  | .noSeed => "at least one seed is required"

inductive Slot where
  | bind
  | port
  | seed
  | fanout
  | version
  | interval
  | callTimeout
  | roundTimeout
  | secretKey
  | dataDir
  | publicIp
  | lat
  | lon
  deriving DecidableEq, Repr

inductive Switch where
  | isolateFailures
  | help
  deriving DecidableEq, Repr

inductive Name where
  | slot (s : Slot)
  | switch (s : Switch)
  deriving DecidableEq, Repr

def names : List (String × Name) :=
  [("bind", .slot .bind), ("port", .slot .port), ("seed", .slot .seed),
    ("p2p-factor", .slot .fanout), ("node-version", .slot .version),
    ("interval-ms", .slot .interval), ("call-timeout-ms", .slot .callTimeout),
    ("round-timeout-ms", .slot .roundTimeout), ("isolate-failures", .switch .isolateFailures),
    ("secret-key", .slot .secretKey), ("data-dir", .slot .dataDir),
    ("public-ip", .slot .publicIp), ("lat", .slot .lat), ("lon", .slot .lon),
    ("help", .switch .help)]

def name? (cs : List Char) : Option Name :=
  names.lookup (String.ofList cs)

def wholly? (bound : Nat) (cs : List Char) : Option Nat :=
  match Numeral.span 10 cs with
  | (d :: ds, []) =>
      let n := Numeral.value 10 (d :: ds)
      if n < bound then some n else none
  | _ => none

def natural? (bound : Nat) : List Char → Option Nat
  | '+' :: cs => wholly? bound cs
  | cs => wholly? bound cs

def integer? (bound : Nat) : List Char → Option Nat
  | '-' :: cs => wholly? 1 cs
  | cs => natural? bound cs

def assign? (o : Options) (slot : Slot) (value : String) : Option Options :=
  let cs := value.toList
  match slot with
  | .bind => some { o with bind := value }
  | .port => (integer? 0x10000 cs).map fun n => { o with port := UInt16.ofNat n }
  | .seed => (Endpoint.ofText? value).map fun a => { o with seeds := o.seeds ++ [a] }
  | .fanout => (integer? 0x100000000 cs).map fun n => { o with fanout := UInt32.ofNat n }
  | .version => some { o with version := some value }
  | .interval => (natural? 0x10000000000000000 cs).map fun n => { o with intervalMs := n }
  | .callTimeout => (natural? 0x10000000000000000 cs).map fun n => { o with callTimeoutMs := n }
  | .roundTimeout => (natural? 0x10000000000000000 cs).map fun n => { o with roundTimeoutMs := n }
  | .secretKey => some { o with secretKey := some value }
  | .dataDir => some { o with dataDir := some value }
  | .publicIp => (Ip.ofText? cs).map fun ip => { o with publicIp := ip }
  | .lat => (Binary32.ofText? cs).map fun x => { o with position := { o.position with lat := x } }
  | .lon => (Binary32.ofText? cs).map fun x => { o with position := { o.position with lon := x } }

def assign (o : Options) (slot : Slot) (value : String) : Except Fault Options :=
  if slot = .dataDir ∧ value = "" then .error .missingValue
  else
    match o.assign? slot value with
    | some o => .ok o
    | none => .error .badValue

inductive Word where
  | mark
  | long (name : List Char) (value : Option String)
  | short (letter : Char)
  | plain
  deriving DecidableEq, Repr

def splitValue : List Char → List Char × Option String
  | [] => ([], none)
  | '=' :: cs => ([], some (String.ofList cs))
  | c :: cs => (c :: (splitValue cs).1, (splitValue cs).2)

def Word.ofText (word : String) : Word :=
  match word.toList with
  | ['-', '-'] => .mark
  | '-' :: '-' :: cs => .long (splitValue cs).1 (splitValue cs).2
  | '-' :: c :: _ => .short c
  | _ => .plain

structure Reading where
  options : Options := {}
  given : List Slot := []
  pending : Option (Slot × Option String) := none
  closed : Bool := false
  deriving DecidableEq, Repr

namespace Reading

def set (r : Reading) (slot : Slot) (value : String) : Except Fault Reading :=
  if slot ≠ .seed ∧ slot ∈ r.given then .error .repeated
  else (r.options.assign slot value).map fun o => { r with options := o, given := slot :: r.given }

def turnOn (r : Reading) : Switch → Except Fault Reading
  | .help => .error .helpWanted
  | .isolateFailures =>
      if r.options.isolateFailures then .error .repeated
      else .ok { r with options := { r.options with isolateFailures := true } }

def settle (r : Reading) : Except Fault Reading :=
  match r.pending with
  | none => .ok r
  | some (_, none) => .error .missingValue
  | some (slot, some value) => { r with pending := none }.set slot value

def named (r : Reading) : Name → Option String → Except Fault Reading
  | .switch _, some _ => .error .surplusValue
  | .switch s, none => do (← r.settle).turnOn s
  | .slot s, some value => do (← r.settle).set s value
  | .slot s, none => do .ok { ← r.settle with pending := some (s, none) }

def value (r : Reading) (word : String) : Except Fault Reading :=
  match r.pending with
  | some (slot, none) => .ok { r with pending := some (slot, some word) }
  | _ => .error .unknownWord

def next (r : Reading) (word : String) : Except Fault Reading :=
  if r.closed then .error .unknownWord
  else
    match Word.ofText word with
    | .mark => .ok { r with closed := true }
    | .long cs value =>
        match name? cs with
        | some name => r.named name value
        | none => .error .unknownWord
    | .short c => if c = 'h' then r.named (.switch .help) none else .error .unknownWord
    | .plain => r.value word

def finish (r : Reading) : Except Fault Options := do
  let o := (← r.settle).options
  if o.seeds.isEmpty then .error .noSeed else .ok o

end Reading

def read (words : List String) : Except Fault Options := do
  (← words.foldlM Reading.next {}).finish

end Options

end Epidemic
