import DelaySynth.Text.Blank
import DelaySynth.Text.Lines
import DelaySynth.Text.Numeral
import DelaySynth.Text.Word
import DelaySynth.Resource
import DelaySynth.Code.Basic
import DelaySynth.Code.Listing
import DelaySynth.Catalog.Basic
import DelaySynth.Catalog.Table
import DelaySynth.Target.Basic
import DelaySynth.Target.I8085
import DelaySynth.Target.Registry
import DelaySynth.Machine
import DelaySynth.Reach.Basic
import DelaySynth.Reach.Memo
import DelaySynth.Build
import DelaySynth.CommandLine.Options
import DelaySynth.CommandLine.Run
import DelaySynth.Main
import DelaySynth.Proofs.Code
import DelaySynth.Proofs.Reach.Marks
import DelaySynth.Proofs.Runs
import DelaySynth.Proofs.Reach.Kept
import DelaySynth.Proofs.Machine
import DelaySynth.Proofs.ResourceSet
import DelaySynth.Proofs.Search.Found
import DelaySynth.Proofs.Spill.Resources
import DelaySynth.Proofs.Build
import DelaySynth.Proofs.Timing
import DelaySynth.Proofs.Grant
import DelaySynth.Proofs.Withheld
import DelaySynth.Proofs.Spill.Saving
import DelaySynth.Proofs.Execution.Step
import DelaySynth.Proofs.Execution.Passing
import DelaySynth.Proofs.Execution.Rounds
import DelaySynth.Proofs.Execution.Routine
import DelaySynth.Proofs.Reach.Exact
import DelaySynth.Proofs.Rows
import DelaySynth.Proofs.Reach.Lookup
import DelaySynth.Proofs.Reach.Durations
import DelaySynth.Proofs.Reach.Moments
import DelaySynth.Proofs.Reach.Answered
import DelaySynth.Proofs.StraightLine
import DelaySynth.Proofs.Budget
import DelaySynth.Proofs.Spill.Slots
import DelaySynth.Proofs.Spill.Channel
import DelaySynth.Proofs.Spill.Progress
import DelaySynth.Proofs.Spill.Gained
import DelaySynth.Proofs.Operands
import DelaySynth.Proofs.Search.Candidates
import DelaySynth.Proofs.Search.Nest
import DelaySynth.Proofs.Search.SingleLoop
import DelaySynth.Proofs.Search.Widening
import DelaySynth.Proofs.SideBySide
import DelaySynth.Proofs.StepLimit
import DelaySynth.Proofs.Tally
import DelaySynth.Proofs.Length
import DelaySynth.Proofs.FlatFirst
import DelaySynth.Proofs.Reach.Query
import DelaySynth.Proofs.Memo.Operations
import DelaySynth.Proofs.Memo.Transparent
import DelaySynth.Proofs.Text
import DelaySynth.Proofs.Listing
import DelaySynth.Proofs.Catalog.Row
import DelaySynth.Proofs.Catalog.Table
import DelaySynth.Proofs.Substitution
import DelaySynth.Proofs.LongRows
import DelaySynth.Proofs.Ledger
import DelaySynth.Proofs.Spill.Sign
import DelaySynth.Proofs.Checked.Words
import DelaySynth.Proofs.Checked.Tables
import DelaySynth.Proofs.Checked.Sessions
import DelaySynth.Proofs.Checked.Search
import DelaySynth.Proofs.Checked.Frames
import DelaySynth.Proofs.Checked.Build
import DelaySynth.Proofs.Overflow
