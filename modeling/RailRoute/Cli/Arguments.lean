import RailRoute.Scalar
import RailRoute.Source.Number
import RailRoute.Text.Encoding

/-!
# Arguments of the command line

Options have long names and some have short ones. A value is the next argument, unless that looks
like an option itself, or follows the name directly; short options without values may be joined. An
option whose value is missing stands for its default value, if it has one. All that is not an option
or its value names the route, which must be given exactly once, as every option may be given at most
once, except the one for more messages.
-/

namespace RailRoute.Cli

/-- What can be asked for. -/
inductive Switch where
  | verbose | rw | preview | corrections | lineEndings
  | encoding | objects | sounds | train | signalSet | seed | json | walk
  deriving DecidableEq, Repr

namespace Switch

/-- The switch with a long name. -/
def ofLong? (name : String) : Option Switch :=
  [("verbose", verbose), ("rw", rw), ("encoding", encoding), ("objects", objects),
    ("sounds", sounds), ("train", train), ("signal-set", signalSet), ("preview", preview),
    ("hacks", corrections), ("line-ending-fix", lineEndings), ("seed", seed), ("json", json),
    ("walk", walk)].lookup name

/-- The switch with a short name. -/
def ofShort? (name : Char) : Option Switch :=
  [('v', verbose), ('e', encoding), ('s', seed), ('j', json), ('w', walk)].lookup name

/-- Whether the switch is followed by a value. -/
def takesValue : Switch → Bool
  | verbose | rw | preview | corrections | lineEndings => false
  | _ => true

/-- Whether there is a value that stands in for a missing one. -/
def hasDefault : Switch → Bool
  | encoding | seed => true
  | _ => false

end Switch

/-- One thing found on the command line. -/
inductive Found where
  /-- A switch; its value is absent if it takes none or if the value is missing. -/
  | switch (s : Switch) (value : Option String)
  | route (path : String)
  deriving DecidableEq, Repr

/-- Whether a value is missing and nothing stands in for it. -/
def Found.isIncomplete : Found → Bool
  | .switch s none => s.takesValue && !s.hasDefault
  | _ => false

/-! ## Scanning -/

/-- Whether an argument looks like an option. -/
def looksLikeOption (a : List Char) : Bool :=
  match a with
  | '-' :: _ :: _ => true
  | _ => false

/-- A value written directly behind its option, with or without equals signs. -/
def attachedValue (cs : List Char) : String := String.ofList (cs.dropWhile (· = '='))

/-- The switches in joined short options, the last of which may have a value attached or may still
wait for its value. -/
def scanShort : List Char → Option (List Found × Option Switch)
  | [] => some ([], none)
  | c :: r =>
    match Switch.ofShort? c with
    | none => none
    | some s =>
      if s.takesValue then
        if r.isEmpty then some ([], some s)
        else some ([.switch s (some (attachedValue r))], none)
      else (scanShort r).map fun x => (.switch s none :: x.1, x.2)

/-- The switch of a long option, which may have a value attached or may still wait for it. What is
attached to a switch without a value does not count. -/
def scanLong (cs : List Char) : Option (List Found × Option Switch) :=
  let name := cs.takeWhile (· ≠ '=')
  let attached := cs.dropWhile (· ≠ '=')
  match Switch.ofLong? (String.ofList name) with
  | none => none
  | some s =>
    if !s.takesValue then some ([.switch s none], none)
    else if attached.isEmpty then some ([], some s)
    else some ([.switch s (some (attachedValue attached))], none)

/-- What an argument that looks like an option stands for. -/
def scanOption (a : List Char) : Option (List Found × Option Switch) :=
  match a with
  | '-' :: '-' :: r => scanLong (r.dropWhile (· = '-'))
  | _ => scanShort (a.dropWhile (· = '-'))

/-- Finds everything on the command line; the switch is the one whose value comes next. All that
follows two dashes alone names routes. There is no result if an option is unknown. -/
def scan : Option Switch → List String → Option (List Found)
  | waiting, [] => some (waiting.toList.map (.switch · none))
  | waiting, a :: rest =>
    let missed : List Found := waiting.toList.map (.switch · none)
    if a = "--" then some (missed ++ rest.map .route)
    else if looksLikeOption a.toList then
      match scanOption a.toList with
      | none => none
      | some (found, next) => (scan next rest).map fun more => missed ++ found ++ more
    else
      match waiting with
      | some s => (scan none rest).map (.switch s (some a) :: ·)
      | none => (scan none rest).map (.route a :: ·)

/-! ## Values -/

/-- Reads digits, with an optional plus sign, as a number of 64 bits. -/
def parseSeed? (s : String) : Option UInt64 :=
  let digits := match s.toList with
    | '+' :: r => r
    | r => r
  if digits.isEmpty || !digits.all Source.isDigit then none
  else
    let n := Source.digitsValue digits
    if n < UInt64.size then some (UInt64.ofNat n) else none

/-- Reads a number, which may be infinite or undefined. -/
def parseFloat? (s : String) : Option Float :=
  let signed := Source.takeSign s.toList
  let word := String.ofList (Text.lower signed.2)
  if word = "inf" ∨ word = "infinity" then
    some (if signed.1 then -1.0 / 0.0 else 1.0 / 0.0)
  else if word = "nan" then some (0.0 / 0.0)
  else match Source.takeNumber s.toList with
    | some (d, []) => some d.toFloat
    | _ => none

/-- What the command line asks for. -/
structure Invocation where
  route : String
  /-- How many messages are asked for, counted in one byte. -/
  verbose : UInt8
  rw : Bool
  encoding : Encoding
  objects : Option String
  sounds : Option String
  train : Option String
  signalSet : Option String
  preview : Bool
  corrections : Bool
  lineEndings : Bool
  seed : UInt64
  json : Option String
  walk : Option Float

/-- How often a switch was found. -/
def occurrences (found : List Found) (s : Switch) : Nat :=
  found.countP fun
    | .switch t _ => t = s
    | .route _ => false

/-- The value of a switch, if one was found. -/
def valueOf? (found : List Found) (s : Switch) : Option String :=
  found.findSome? fun
    | .switch t value => if t = s then value else none
    | .route _ => none

/-- The value of a switch read by a parser, or a default without one. There is no result if the
value cannot be read. -/
def readValue {α : Type} (found : List Found) (s : Switch) (parse : String → Option α)
    (default : α) : Option α :=
  match valueOf? found s with
  | none => some default
  | some value => parse value

/-- The switches that may be given once. -/
def singleSwitches : List Switch :=
  [.rw, .preview, .corrections, .lineEndings, .encoding, .objects, .sounds, .train, .signalSet,
    .seed, .json, .walk]

/-- Reads the command line. There is no result if it makes no sense. -/
def parse (args : List String) : Option Invocation := do
  let found ← scan none args
  let routes := found.filterMap fun
    | .route path => some path
    | .switch _ _ => none
  if found.any Found.isIncomplete then none
  if singleSwitches.any fun s => 1 < occurrences found s then none
  match routes with
  | [route] =>
    let encoding ← readValue found .encoding (fun s => (Encoding.ofName s).toOption) .utf8
    let seed ← readValue found .seed parseSeed? 0
    let walk ← readValue found .walk (fun s => (parseFloat? s).map some) none
    some {
      route := route
      verbose := UInt8.ofNat (occurrences found .verbose)
      rw := 0 < occurrences found .rw
      encoding := encoding
      objects := valueOf? found .objects
      sounds := valueOf? found .sounds
      train := valueOf? found .train
      signalSet := valueOf? found .signalSet
      preview := 0 < occurrences found .preview
      corrections := 0 < occurrences found .corrections
      lineEndings := 0 < occurrences found .lineEndings
      seed := seed
      json := valueOf? found .json
      walk := walk }
  | _ => none

end RailRoute.Cli
