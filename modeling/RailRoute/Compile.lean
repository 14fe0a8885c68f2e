import RailRoute.Source.Expand
import RailRoute.Source.Order
import RailRoute.Block.Reading
import RailRoute.Track.Assembly

/-!
# Compiling a route

A route is split into expressions, its directives are expanded, its options are read ahead, and the
expressions of each section are sorted by track position. One pass then fills the tables, a second
lays the line, and at last the track is assembled.

All that the host sees of this is a log of calls in order: whether a route is being loaded, how far
the compilation has come, and the messages. The host may set a token during one of the reports of
progress; both passes look at it every so many expressions and stop if it is set.
-/

namespace RailRoute

/-- How a route is to be compiled. -/
structure Settings where
  dialect : Dialect
  encoding : Encoding
  trainPath : String
  objectPath : String
  soundPath : String
  compatibilitySignalSet : Option String
  /-- Only options and metadata are wanted. -/
  preview : Bool
  correctsKnownMistakes : Bool
  /-- An underscore at the end of an expression is dropped in the second pass. -/
  fixesLineEndings : Bool
  seed : UInt64

/-- Settings for a CSV route that lies in the working folder. -/
def Settings.initial : Settings :=
  ⟨.csv, .utf8, "", "", "", none, false, false, false, 0⟩

/-- The program that a compilation runs in. -/
structure Host where
  assets : Assets
  files : FileStore
  /-- The report of progress, counted from one, during which the token is set. -/
  cancelAt : Option Nat

/-- What the compiler tells its host. -/
inductive HostCall (R : Type) where
  | loading (on : Bool)
  | progress (fraction : R)
  | message (message : Message)

/-- Why there is no compiled route. -/
inductive CompileError where
  | unreadable (path : String) (reason : FileError)
  | broken (error : Source.StructureError)
  | cancelled
  deriving DecidableEq, Repr

/-- The wording of a failure. -/
def CompileError.text : CompileError → String
  | .unreadable path reason => s!"could not read {path}: {reason.message}"
  | .broken error => error.text
  | .cancelled => "compilation was cancelled"

/-- A compiled route. -/
structure CompiledRoute (R : Type) where
  tables : Tables R
  line : Line R
  track : Track R

/-! ## The log -/

/-- The calls made so far, and how many of them reported progress. -/
structure CallLog (R : Type) where
  calls : Array (HostCall R)
  reports : Nat

namespace CallLog

variable {R : Type}

/-- The log before the first call. -/
def empty : CallLog R := ⟨#[], 0⟩

/-- Tells the host that loading begins or ends. -/
def loading (l : CallLog R) (on : Bool) : CallLog R :=
  { l with calls := l.calls.push (.loading on) }

/-- Reports progress. -/
def progress (l : CallLog R) (fraction : R) : CallLog R :=
  ⟨l.calls.push (.progress fraction), l.reports + 1⟩

/-- Hands on messages. -/
def messages (l : CallLog R) (ms : List Message) : CallLog R :=
  { l with calls := l.calls ++ (ms.map HostCall.message).toArray }

/-- Hands on the problems with an expression. -/
def problems (l : CallLog R) (e : Source.Expression) (ps : List Problem) : CallLog R :=
  l.messages (e.location.messages ps)

end CallLog

/-- Whether the host has set the token by the time that so many reports were made. There is no
report number zero. -/
def Host.hasCancelled (h : Host) (reports : Nat) : Bool :=
  match h.cancelAt with
  | some k => decide (0 < k ∧ k ≤ reports)
  | none => false

namespace Compile

variable {R : Type} [Scalar R]

/-- What both passes work with. -/
structure Job where
  settings : Settings
  host : Host
  folders : Folders

/-- The job for a route with a given path. -/
def Job.ofPath (settings : Settings) (host : Host) (path : String) : Job :=
  ⟨settings, host, ⟨Path.parent path, settings.objectPath, settings.soundPath, settings.trainPath⟩⟩

/-- How many expressions pass between two looks at the token. -/
def cancelInterval : Nat := 256

/-- Whether a pass stops before its expression number `j`. -/
def stopsAt (job : Job) (j reports : Nat) : Bool :=
  j % cancelInterval = 0 && job.host.hasCancelled reports

/-- The share of the expressions of a pass that come before number `j`, in a third of the whole. -/
def passFraction (count j : Nat) : R :=
  Scalar.ofNat j / Scalar.ofNat (Nat.max count 1) / Scalar.ofNat 3

/-! ## The first pass -/

/-- What the first pass carries from one expression to the next. Expressions are handed on to the
second pass as they were interpreted. -/
structure Gathering (R : Type) where
  tables : Tables R
  scope : Scope
  interpreted : Array Source.Expression

/-- The part of the tables that the first pass applies a command to. A preview fills the metadata
only. -/
def targetPart? (preview : Bool) (c : Command) : Option Tables.Part :=
  match Tables.Part.ofRoot? c.root with
  | some .info => some .info
  | part? => if preview then none else part?

/-- Gathers one expression, and returns the problems with it. -/
def gatherOne (job : Job) (g : Gathering R) (e : Source.Expression) :
    Gathering R × List Problem :=
  let e := e.normalized R job.settings.dialect g.scope
  let meaning := interpret job.settings.dialect g.tables.options.unitOfLength g.scope e
  let g := { g with scope := g.scope.after meaning, interpreted := g.interpreted.push e }
  match meaning with
  | .error p => (g, [p])
  | .ok (.command c) =>
    match targetPart? job.settings.preview c with
    | none => (g, [])
    | some part =>
      let update := g.tables.update job.host.assets job.folders part c
      ({ g with tables := update.value?.getD g.tables }, update.problems)
  | .ok _ => (g, [])

/-- Gathers the expressions from number `j` of `count` on. There is no result if the token is
found set. -/
def gatherFrom (job : Job) (count : Nat) :
    Nat → List Source.Expression → Gathering R → CallLog R → Option (Gathering R) × CallLog R
  | _, [], g, log => (some g, log)
  | j, e :: es, g, log =>
    let log := log.progress (passFraction count j)
    if stopsAt job j log.reports then (none, log)
    else
      let next := gatherOne job g e
      gatherFrom job count (j + 1) es next.1 (log.problems e next.2)

/-- Fills the tables from a list of expressions. -/
def gather (job : Job) (tables : Tables R) (es : List Source.Expression) (log : CallLog R) :
    Option (Gathering R) × CallLog R :=
  let structures := if job.settings.preview then tables.structures
    else tables.structures.withDefaultPoles job.host.assets job.folders
  gatherFrom job es.length 0 es ⟨{ tables with structures }, Scope.initial, #[]⟩ log

/-! ## The second pass -/

/-- What the second pass carries from one expression to the next. -/
structure Building (R : Type) where
  laying : Laying R
  scope : Scope

/-- The position of a published route that was written wrongly, and what it should be. -/
def mistakenPosition : R := Scalar.ofNat 4535545100

/-- The position that was meant. -/
def intendedPosition : R := Scalar.ofNat 45355

/-- Drops an underscore at the end of an expression, if line endings are to be fixed. -/
def fixEnding (fixes : Bool) (e : Source.Expression) : Source.Expression :=
  if fixes then
    match Text.beforeTail? ['_'] e.text.toList with
    | some cs => { e with text := String.ofList (Text.trim cs) }
    | none => e
  else e

/-- Goes to a track position, unless it is written with arguments or is negative. -/
def acceptPosition (job : Job) (t : Tables R) (l : Laying R) (value : R) (hasArguments : Bool) :
    Laying R × List Problem :=
  if hasArguments then (l, [.positionWithArguments])
  else if value < 0 then (l, [.negativePosition])
  else if t.options.correctsKnownMistakes && job.settings.dialect = .rw
      && value == mistakenPosition then
    (l.moveTo intendedPosition, [])
  else (l.moveTo value, [])

/-- Whether commands of a namespace were dealt with before the second pass. -/
def isSettledRoot (root : String) : Bool :=
  root ∈ ["options", "route", "train", "structure", "texture", "", "cycle"]

/-- Carries out a command in the second pass. -/
def layCommand (job : Job) (t : Tables R) (l : Laying R) (c : Command) : Laying R × List Problem :=
  if c.root = "track" then Site.perform ⟨t, job.host.assets, job.folders, l⟩ c
  else if isSettledRoot c.root then (l, [])
  else (l, [.unsupportedCommand c.qualifiedName])

/-- Lays one expression, and returns the problems with it. -/
def layOne (job : Job) (t : Tables R) (b : Building R) (e : Source.Expression) :
    Building R × List Problem :=
  let e := fixEnding job.settings.fixesLineEndings e
  let meaning := interpret job.settings.dialect t.options.unitOfLength b.scope e
  match meaning with
  | .ok (.position value hasArguments) =>
    let next := acceptPosition job t b.laying value hasArguments
    ({ b with laying := next.1 }, next.2)
  | .ok (.command c) =>
    let next := layCommand job t b.laying c
    ({ b with laying := next.1 }, next.2)
  | _ => ({ b with scope := b.scope.after meaning }, [])

/-- Lays the expressions from number `j` of `count` on. There is no result if the token is found
set. -/
def layFrom (job : Job) (t : Tables R) (count : Nat) :
    Nat → List Source.Expression → Building R → CallLog R → Option (Building R) × CallLog R
  | _, [], b, log => (some b, log)
  | j, e :: es, b, log =>
    let log := log.progress (1 / Scalar.ofNat 3 + passFraction count j)
    if stopsAt job j log.reports then (none, log)
    else
      let next := layOne job t b e
      layFrom job t count (j + 1) es next.1 (log.problems e next.2)

/-- The height at which a line starts. -/
def initialHeight : Dialect → R
  | .csv => 0
  | .rw => Scalar.fixed 3 1

/-- Lays the line from a list of expressions. -/
def lay (job : Job) (t : Tables R) (es : List Source.Expression) (log : CallLog R) :
    Option (Building R) × CallLog R :=
  let start := Laying.initial t.options.blockInterval (initialHeight job.settings.dialect)
  layFrom job t es.length 0 es ⟨start, Scope.initial⟩ log

/-! ## The whole -/

/-- Assembles the track, with a report of progress for each block. -/
def assemble (t : Tables R) (l : Line R) (log : CallLog R) : CompiledRoute R × CallLog R :=
  let log := (Assembly.progress l.blocks.size).foldl (fun log f =>
    log.progress (Scalar.two / Scalar.ofNat 3 + f / Scalar.ofNat 3)) log
  (⟨t, l, Assembly.assemble l t⟩, log)

/-- A route that was only previewed: it has no blocks and no track. -/
def previewed (t : Tables R) : CompiledRoute R :=
  ⟨t, { Line.initial t.options.blockInterval 0 with blocks := #[] }, ⟨#[]⟩⟩

/-- The tables that the first pass starts from. -/
def startTables (settings : Settings) (options : Options R) : Tables R :=
  { Tables.initial with
    options := { options with
      correctsKnownMistakes := options.correctsKnownMistakes || settings.correctsKnownMistakes }
    compatibilitySignalSet := settings.compatibilitySignalSet }

/-- Runs both passes over expanded expressions, and assembles the track. -/
def runPasses (job : Job) (es : List Source.Expression) (log : CallLog R) :
    Except CompileError (CompiledRoute R) × CallLog R :=
  let reading := Options.readAhead job.settings.dialect es
  let log := log.messages reading.messages.toList
  let sorted := Source.sortByPosition reading.options.unitOfLength job.settings.dialect es
  match gather job (startTables job.settings reading.options) sorted log with
  | (none, log) => (.error .cancelled, log)
  | (some g, log) =>
    if job.settings.preview then (.ok (previewed g.tables), log)
    else
      match lay job g.tables g.interpreted.toList log with
      | (none, log) => (.error .cancelled, log)
      | (some b, log) =>
        let compiled := assemble g.tables b.laying.line log
        (.ok compiled.1, compiled.2)

/-- Expands the directives of a route and runs both passes. -/
def run (job : Job) (path : String) (lines : List (List Char)) (log : CallLog R) :
    Except CompileError (CompiledRoute R) × CallLog R :=
  let es := Source.splitLines path job.settings.dialect lines
  let expanded := Source.expand R ⟨job.settings.dialect, job.settings.encoding, job.host.files⟩
    job.settings.seed es
  let log := log.messages expanded.messages
  match expanded.result with
  | .error e => (.error (.broken e), log)
  | .ok es => runPasses job es log

end Compile

/-- The outcome of a compilation: the calls that the host has seen, and the compiled route or why
there is none. -/
structure Compilation (R : Type) where
  log : CallLog R
  result : Except CompileError (CompiledRoute R)

variable {R : Type} [Scalar R]

/-- Compiles the lines of a route. The path names the route in messages and is where included files
are looked for. -/
def compileLines (R : Type) [Scalar R] (settings : Settings) (host : Host) (path : String)
    (lines : List (List Char)) : Compilation R :=
  let ran := Compile.run (Compile.Job.ofPath settings host path) path lines
    (CallLog.empty.loading true)
  ⟨ran.2.loading false, ran.1⟩

/-- Compiles a route file. -/
def compileFile (R : Type) [Scalar R] (settings : Settings) (host : Host) (path : String) :
    Compilation R :=
  match host.files.read path with
  | .error reason => ⟨CallLog.empty, .error (.unreadable path reason)⟩
  | .ok bytes =>
    compileLines R settings host path (Text.lines (Text.decode settings.encoding bytes))

namespace Compilation

/-- The messages that the host was given. -/
def messages (c : Compilation R) : List Message :=
  c.log.calls.toList.filterMap fun
    | .message m => some m
    | _ => none

/-- The fractions that were reported as progress. -/
def progress (c : Compilation R) : List R :=
  c.log.calls.toList.filterMap fun
    | .progress x => some x
    | _ => none

/-- What the host was told about loading. -/
def loading (c : Compilation R) : List Bool :=
  c.log.calls.toList.filterMap fun
    | .loading on => some on
    | _ => none

/-- How many of the messages have a severity. -/
def count (c : Compilation R) (severity : Severity) : Nat :=
  c.messages.countP (·.severity = severity)

end Compilation

end RailRoute
