import GoFront.Main
import GoFront.Session
import GoFront.Tree.Access
import GoFront.Tree.Walk
import GoFront.Proofs.Lexing.Semicolons
import GoFront.Proofs.Reading.Survival
import GoFront.Proofs.Progress.Steps
import GoFront.Proofs.Progress.Rules
import GoFront.Proofs.Progress.Runs
import GoFront.Proofs.Progress.Order
import GoFront.Proofs.Progress.Limits
import GoFront.Proofs.Places.Layout
import GoFront.Proofs.Reading.FollowOn
import GoFront.Proofs.Forms.WellFormed
import GoFront.Proofs.Forms.Headers
import GoFront.Proofs.Forms.Plain
import GoFront.Proofs.Forms.Yields
import GoFront.Proofs.Forms.Types
import GoFront.Proofs.Forms.Expressions
import GoFront.Proofs.Forms.Declarations
import GoFront.Proofs.Forms.Statements
import GoFront.Proofs.Forms.Files
import GoFront.Proofs.Forms.TypeQueries
import GoFront.Proofs.Lexing.Concatenation
import GoFront.Proofs.Lexing.Isolation
import GoFront.Proofs.Lexing.Printing
import GoFront.Proofs.Reading.Terminators
import GoFront.Proofs.Reading.Blocks
import GoFront.Proofs.Reading.Bodies
import GoFront.Proofs.Reading.Locality
import GoFront.Proofs.Reading.Nesting
import GoFront.Proofs.Reading.Parses
import GoFront.Proofs.Reading.ParsedTypes
import GoFront.Proofs.Reading.TypesAsExprs
import GoFront.Proofs.Answers.Diagnostics
import GoFront.Proofs.Answers.Sessions
import GoFront.Proofs.Shape.OwnPlaces
import GoFront.Proofs.Answers.Dumps
import GoFront.Proofs.Reading.EntryPoints
import GoFront.Proofs.Shape.Height
import GoFront.Proofs.Shape.Layers
import GoFront.Proofs.Shape.Grouping
import GoFront.Proofs.Shape.Graded
import GoFront.Proofs.Shape.Builds
import GoFront.Proofs.Shape.Types
import GoFront.Proofs.Shape.Expressions
import GoFront.Proofs.Shape.Declarations
import GoFront.Proofs.Shape.Statements
import GoFront.Proofs.Shape.Files
import GoFront.Proofs.Shape.Climbing
import GoFront.Proofs.Shape.Depth
import GoFront.Proofs.Lexing.Numerals
import GoFront.Proofs.Lexing.QuotedLiterals
import GoFront.Proofs.Lexing.Munch
import GoFront.Proofs.Lexing.Delimiters
import GoFront.Proofs.Lexing.ByteMasks
import GoFront.Proofs.Lexing.ByteSafety
import GoFront.Proofs.Reading.Parameters
import GoFront.Proofs.Reading.Fields
import GoFront.Proofs.Reading.LoopHeaders
import GoFront.Proofs.Reading.ArrayTexts
import GoFront.Proofs.Thinning.Files
import GoFront.Proofs.Forms.Closers
import GoFront.Proofs.Forms.Literals
import GoFront.Proofs.Forms.Variadics
import GoFront.Proofs.Forms.Communications
import GoFront.Proofs.Scans.Recovery
import GoFront.Proofs.Scans.Lookahead
