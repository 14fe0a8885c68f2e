import RailRoute.Cli.Arguments
import RailRoute.Cli.Crossings
import RailRoute.Document
import RailRoute.Track.Follower

/-!
# What the program prints

The program compiles a route, prints its messages and a summary, writes the document of the route if
that is asked for, and walks a train along the track if that is asked for. What it does is computed
first, as a `Report`; carrying the report out is a matter of printing, and of writing one file.
-/

namespace RailRoute.Cli

/-- What a run of the program prints and writes. -/
structure Report where
  /-- Lines printed first. -/
  summary : List String
  /-- The path and the text of the document, if it is written. -/
  document : Option (String × String)
  /-- Lines printed after the document was written. -/
  walk : List String
  /-- Whether the run ends well. -/
  succeeds : Bool

/-- The settings that the command line asks for. Assets lie in the folder of the route unless other
folders are given. -/
def Invocation.settings (i : Invocation) : Settings :=
  let folder := Path.parent i.route
  { dialect := if i.rw then .rw else .csv
    encoding := i.encoding
    trainPath := i.train.getD folder
    objectPath := i.objects.getD folder
    soundPath := i.sounds.getD folder
    compatibilitySignalSet := i.signalSet
    preview := i.preview
    correctsKnownMistakes := i.corrections
    fixesLineEndings := i.lineEndings
    seed := i.seed }

/-- The lines printed for a failure. -/
def failureLines (text : String) : List String := ["Error:", text]

/-- Whether a message is printed. -/
def isShown (verbose : UInt8) (m : Message) : Bool := m.severity ≠ .information || 1 ≤ verbose

/-- The lines about stations. -/
def stationLines (stations : List (Station Float)) : List String :=
  s!"  stations: {stations.length}" ::
    stations.map fun s => "    - " ++ s.name ++ " at " ++ Document.number s.position

/-- The summary of a compiled route. -/
def summaryLines (c : Compilation Float) (route : CompiledRoute Float) : List String :=
  let comment := route.tables.info.comment
  let blocks := toString route.line.blocks.size
  let firstUsed := optionText route.line.firstUsedBlock
  let errors := toString (c.count .error)
  let warnings := toString (c.count .warning)
  ["# Route"] ++ (if comment.isEmpty then [] else ["  " ++ comment]) ++
    [s!"  blocks: {blocks} (first used: {firstUsed})",
      s!"  track elements: {route.track.elements.size}"] ++
    stationLines route.line.stations.toList ++
    [s!"  sections: {route.line.sections.size}", s!"  errors: {errors}, warnings: {warnings}"]

/-- The player's train, whose front axle walks along the track. -/
def walker : Crosser := ⟨.frontCarFrontAxle, some ⟨0, 0, true⟩⟩

/-- The lines of a walk along the track. -/
def walkLines (track : Track Float) (step : Float) : List String :=
  "# Walk" :: ((Follower.initial walker).walk track step).crossings.toList.map crossingLine

/-- Compiles the route that the command line names. Every asset counts as loaded. -/
def Invocation.compile (i : Invocation) (files : FileStore) : Compilation Float :=
  compileFile Float i.settings ⟨⟨fun _ _ => none⟩, files, none⟩ i.route

/-- What a run with the given arguments prints and writes. A command line that makes no sense prints
nothing. -/
def report (files : FileStore) (args : List String) : Report :=
  match parse args with
  | none => ⟨[], none, [], false⟩
  | some i =>
    let compilation := i.compile files
    match compilation.result with
    | .error e => ⟨failureLines e.text, none, [], false⟩
    | .ok route =>
      let shown := compilation.messages.filter (isShown i.verbose)
      { summary := shown.map Message.line ++ summaryLines compilation route
        document := i.json.map fun path => (path, Document.render route)
        walk := match i.walk with
          | some step => walkLines route.track step
          | none => []
        succeeds := true }

/-- The file that a problem says could not be included. -/
def unreadableFile? : Problem → Option String
  | .unreadableInclude file _ => some file
  | _ => none

/-- The route file, and the files that it wants to include and the store cannot read. A store that
is extended by them again and again comes to hold all that a run reads. -/
def filesWanted (files : FileStore) (args : List String) : List String :=
  match parse args with
  | none => []
  | some i => i.route :: (i.compile files).messages.filterMap fun m => unreadableFile? m.problem

/-- Lines of text as they are printed. -/
def printed (lines : List String) : String := String.join (lines.map (· ++ "\n"))

/-- What is left of a run over files in memory: the exit code, what was printed, and the files. -/
structure Performed where
  code : Nat
  output : String
  files : FileTree

/-- Carries a report out over files in memory. If the document cannot be written, the run ends
there. -/
def Report.perform (r : Report) (files : FileTree) : Performed :=
  let code := if r.succeeds then 0 else 1
  match r.document with
  | none => ⟨code, printed (r.summary ++ r.walk), files⟩
  | some (path, text) =>
    match files.write path text.toUTF8.toList with
    | .ok files => ⟨code, printed (r.summary ++ r.walk), files⟩
    | .error e => ⟨1, printed (r.summary ++ failureLines e.message), files⟩

end RailRoute.Cli
