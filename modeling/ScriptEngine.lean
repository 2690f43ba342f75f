import ScriptEngine.Diagnostic.Record
import ScriptEngine.Host.Handles
import ScriptEngine.Host.Session
import ScriptEngine.Value.Equality
import ScriptEngine.Proofs.Reading.ExprLossless
import ScriptEngine.Proofs.Reading.StmtLossless
import ScriptEngine.Proofs.Reading.Lossless
import ScriptEngine.Proofs.Reading.Ahead
import ScriptEngine.Proofs.Reading.Grammar
import ScriptEngine.Proofs.Reading.ClosedExpr
import ScriptEngine.Proofs.Reading.ExprComplete
import ScriptEngine.Proofs.Reading.StmtComplete
import ScriptEngine.Proofs.Reading.Complete
import ScriptEngine.Proofs.Reading.Layout
import ScriptEngine.Proofs.Reading.Spelling
import ScriptEngine.Proofs.Reading.RoundTrip
import ScriptEngine.Proofs.Reading.Lexeme
import ScriptEngine.Proofs.Reading.Tiling
import ScriptEngine.Proofs.Reading.ErrorBudget
import ScriptEngine.Proofs.Reading.Outline
import ScriptEngine.Proofs.Reading.Composition
import ScriptEngine.Proofs.Reading.SourceOrder
import ScriptEngine.Proofs.Reading.Spans
import ScriptEngine.Proofs.Reading.Fuel
import ScriptEngine.Proofs.Reading.Progress
import ScriptEngine.Proofs.Reading.Proper
import ScriptEngine.Proofs.Reading.Levels
import ScriptEngine.Proofs.Reading.WellFormed
import ScriptEngine.Proofs.Reading.Alongside
import ScriptEngine.Proofs.Reading.Chunks
import ScriptEngine.Proofs.Reading.EarlyStop
import ScriptEngine.Proofs.Reading.Lines
import ScriptEngine.Proofs.Reading.Grounds
import ScriptEngine.Proofs.Reading.LineBreaks
import ScriptEngine.Proofs.Reading.Quoting
import ScriptEngine.Proofs.Reading.Pointing
import ScriptEngine.Proofs.Running.Code
import ScriptEngine.Proofs.Running.Frames
import ScriptEngine.Proofs.Running.Realm
import ScriptEngine.Proofs.Running.Keeping
import ScriptEngine.Proofs.Running.Evaluation
import ScriptEngine.Proofs.Running.Moments
import ScriptEngine.Proofs.Running.Layers
import ScriptEngine.Proofs.Running.Supply
import ScriptEngine.Proofs.Running.Printing
import ScriptEngine.Proofs.Running.SecondClass
import ScriptEngine.Proofs.Running.Nesting
import ScriptEngine.Proofs.Running.Origin
import ScriptEngine.Proofs.Running.Steps
import ScriptEngine.Proofs.Running.Composition
import ScriptEngine.Proofs.Running.FailedCalls
import ScriptEngine.Proofs.Running.Stranded
import ScriptEngine.Proofs.Running.Placement
import ScriptEngine.Proofs.Running.Discipline
import ScriptEngine.Proofs.Running.Lookup
import ScriptEngine.Proofs.Running.Names
import ScriptEngine.Proofs.Running.CallDepth
import ScriptEngine.Proofs.Running.Places
import ScriptEngine.Proofs.Running.Renaming
import ScriptEngine.Proofs.Running.Image
import ScriptEngine.Proofs.Running.Mirroring
import ScriptEngine.Proofs.Running.Opening
import ScriptEngine.Proofs.Running.Rest
import ScriptEngine.Proofs.Running.Spared
import ScriptEngine.Proofs.Running.Splitting
import ScriptEngine.Proofs.Running.Catching
import ScriptEngine.Proofs.Running.Layout
import ScriptEngine.Proofs.Running.Writers
import ScriptEngine.Proofs.Running.Refusals
import ScriptEngine.Proofs.Running.Series
import ScriptEngine.Proofs.Running.Ancestry
import ScriptEngine.Proofs.Running.Fuel
import ScriptEngine.Proofs.Running.Course
import ScriptEngine.Proofs.Running.Aggregates
import ScriptEngine.Proofs.Running.Territory
import ScriptEngine.Proofs.Running.Matching
import ScriptEngine.Proofs.Running.Likeness
import ScriptEngine.Proofs.Running.Parallel
import ScriptEngine.Proofs.Running.Abreast
import ScriptEngine.Proofs.Running.Beside
import ScriptEngine.Proofs.Running.Isolation
import ScriptEngine.Proofs.Running.Intact
import ScriptEngine.Proofs.Running.Inert
import ScriptEngine.Proofs.Running.Nodes
import ScriptEngine.Proofs.Running.Interruptions
import ScriptEngine.Proofs.Running.Raising
import ScriptEngine.Proofs.Running.Located
import ScriptEngine.Proofs.Running.FieldNames
import ScriptEngine.Proofs.Running.Characters
import ScriptEngine.Proofs.Running.Heap
import ScriptEngine.Proofs.Hosting.Handles
import ScriptEngine.Proofs.Hosting.Sessions
import ScriptEngine.Proofs.Hosting.Soundness
import ScriptEngine.Proofs.Hosting.Closures
import ScriptEngine.Proofs.Hosting.History
import ScriptEngine.Proofs.Hosting.LexicalScope
import ScriptEngine.Proofs.Hosting.CallBudget
import ScriptEngine.Proofs.Hosting.Comparison
import ScriptEngine.Proofs.Hosting.Contents
import ScriptEngine.Proofs.Hosting.TextLines
import ScriptEngine.Proofs.Hosting.Copies
import ScriptEngine.Proofs.Hosting.Upkeep
import ScriptEngine.Proofs.Hosting.Lifetime
import ScriptEngine.Proofs.Hosting.ScopeLaws
import ScriptEngine.Proofs.Numbers.Literals
import ScriptEngine.Proofs.Numbers.Rounding
import ScriptEngine.Proofs.Numbers.Shortest
import ScriptEngine.Proofs.Numbers.Notation
import ScriptEngine.Proofs.Numbers.Division
import ScriptEngine.Proofs.Numbers.Order
