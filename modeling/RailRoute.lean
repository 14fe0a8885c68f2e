import RailRoute.Text.Quoted
import RailRoute.Decimal.Layout
import RailRoute.Source.Expand
import RailRoute.Source.Order
import RailRoute.Tables.Basic
import RailRoute.Geometry.Frame
import RailRoute.Geometry.Irregularity
import RailRoute.Block.Reading
import RailRoute.Track.Assembly
import RailRoute.Track.Follower
import RailRoute.Compile
import RailRoute.Cli.Report
import RailRoute.Main
import RailRoute.Proofs.Arithmetic
import RailRoute.Proofs.Check
import RailRoute.Proofs.Comparison
import RailRoute.Proofs.Source.Separation
import RailRoute.Proofs.Source.Sorting
import RailRoute.Proofs.Source.Insertion
import RailRoute.Proofs.Source.Expansion
import RailRoute.Proofs.Source.Numeral
import RailRoute.Proofs.Block.CarryForward
import RailRoute.Proofs.Block.Rails
import RailRoute.Proofs.Block.Integrity
import RailRoute.Proofs.Block.Bounds
import RailRoute.Proofs.Block.Lining
import RailRoute.Proofs.Block.Placement
import RailRoute.Proofs.Track.Triggering
import RailRoute.Proofs.Track.Crossing
import RailRoute.Proofs.Track.Distribution
import RailRoute.Proofs.Track.Collection
import RailRoute.Proofs.Track.Walking
import RailRoute.Proofs.Track.Search
import RailRoute.Proofs.Track.Repetition
import RailRoute.Proofs.Track.Alternation
import RailRoute.Proofs.Compile.FirstPass
import RailRoute.Proofs.Compile.SecondPass
import RailRoute.Proofs.Compile.Positions
import RailRoute.Proofs.Compile.Invariants
import RailRoute.Proofs.Compile.Outcome
import RailRoute.Proofs.Compile.Events
import RailRoute.Proofs.Compile.Rejection
import RailRoute.Proofs.Compile.Walks
import RailRoute.Proofs.Compile.EventOrder
import RailRoute.Proofs.Compile.Scopes
import RailRoute.Proofs.Compile.Meaning
import RailRoute.Proofs.Compile.Preview
import RailRoute.Proofs.Compile.Passes
import RailRoute.Proofs.Compile.Protocol
import RailRoute.Proofs.Source.Nesting
import RailRoute.Proofs.Source.Likeness
import RailRoute.Proofs.Source.Inclusion
import RailRoute.Proofs.Source.Pieces
import RailRoute.Proofs.Source.Units
import RailRoute.Proofs.Source.Template
import RailRoute.Proofs.Source.Verbatim
import RailRoute.Proofs.Command.Rows
import RailRoute.Proofs.Command.Suffixes
import RailRoute.Proofs.Command.Lengths
import RailRoute.Proofs.Command.Idle
import RailRoute.Proofs.Tables.Units
import RailRoute.Proofs.Block.Units
import RailRoute.Proofs.Compile.Division
import RailRoute.Proofs.Compile.Units
import RailRoute.Proofs.Compile.Quiet
import RailRoute.Proofs.Compile.Endings
import RailRoute.Proofs.Document.Json
import RailRoute.Proofs.Document.Numerals
import RailRoute.Proofs.Document.Render
import RailRoute.Proofs.Rounding
import RailRoute.Proofs.Source.Arguments
import RailRoute.Proofs.Source.Grammar
import RailRoute.Proofs.Compile.Divisors
import RailRoute.Proofs.Source.Substitution
import RailRoute.Proofs.Block.Ranges
import RailRoute.Proofs.Compile.Ranges
import RailRoute.Proofs.Track.Latching
import RailRoute.Proofs.Track.Shape
import RailRoute.Proofs.Track.Cant
import RailRoute.Proofs.Geometry.Arithmetic
import RailRoute.Proofs.Geometry.Heading
import RailRoute.Proofs.Track.Frames
import RailRoute.Proofs.Text.Encoding
import RailRoute.Proofs.Text.Lines
import RailRoute.Proofs.Document.Escaping
import RailRoute.Proofs.Source.Choice
