import SlotQuery.Cli.Arguments
import SlotQuery.Cli.Run
import SlotQuery.Cli.Usage
import SlotQuery.Decimal.Binary64
import SlotQuery.Decimal.Numeral
import SlotQuery.Decimal.Real64
import SlotQuery.Decimal.Shortest
import SlotQuery.Duration
import SlotQuery.Fleet.Address
import SlotQuery.Fleet.Candidate
import SlotQuery.Fleet.Error
import SlotQuery.Fleet.Filter
import SlotQuery.Fleet.IpVersion
import SlotQuery.Fleet.Record
import SlotQuery.Fleet.RecordJson
import SlotQuery.Fleet.Snapshot
import SlotQuery.Json.Basic
import SlotQuery.Json.Parser
import SlotQuery.Json.Printer
import SlotQuery.Main
import SlotQuery.Proofs.Decimal.Grammar
import SlotQuery.Proofs.Decimal.Positional
import SlotQuery.Proofs.Decimal.ReadingBack
import SlotQuery.Proofs.Decimal.Rounding
import SlotQuery.Proofs.Decimal.Seconds
import SlotQuery.Proofs.Fleet.AddressChoice
import SlotQuery.Proofs.Fleet.AddressForms
import SlotQuery.Proofs.Fleet.Candidates
import SlotQuery.Proofs.Fleet.CapabilityWords
import SlotQuery.Proofs.Fleet.MalformedAddresses
import SlotQuery.Proofs.Fleet.MatchedSlots
import SlotQuery.Proofs.Fleet.RecordRoundTrip
import SlotQuery.Proofs.Fleet.TagFields
import SlotQuery.Proofs.Fleet.Vocabulary
import SlotQuery.Proofs.Query.Calls
import SlotQuery.Proofs.Query.Canonical
import SlotQuery.Proofs.Query.Chains
import SlotQuery.Proofs.Query.Comparison
import SlotQuery.Proofs.Query.Continuation
import SlotQuery.Proofs.Query.Derivation
import SlotQuery.Proofs.Query.EarliestError
import SlotQuery.Proofs.Query.FirstComparison
import SlotQuery.Proofs.Query.FirstFit
import SlotQuery.Proofs.Query.Joints
import SlotQuery.Proofs.Query.Juxtaposition
import SlotQuery.Proofs.Query.LeftOver
import SlotQuery.Proofs.Query.Lexing
import SlotQuery.Proofs.Query.Matching
import SlotQuery.Proofs.Query.MentionedFields
import SlotQuery.Proofs.Query.Nameless
import SlotQuery.Proofs.Query.Recognition
import SlotQuery.Proofs.Query.Refinement
import SlotQuery.Proofs.Query.RoundTrip
import SlotQuery.Proofs.Query.Spacing
import SlotQuery.Proofs.Query.Split
import SlotQuery.Proofs.Query.Terminator
import SlotQuery.Proofs.Query.Words
import SlotQuery.Proofs.Regex.Preference
import SlotQuery.Proofs.Regex.Quotation
import SlotQuery.Proofs.Regex.Search
import SlotQuery.Proofs.Regex.Span
import SlotQuery.Proofs.Settings.ByKey
import SlotQuery.Proofs.Settings.Keys
import SlotQuery.Proofs.Settings.Values
import SlotQuery.Proofs.Text.CaseChanges
import SlotQuery.Proofs.Toml.Keys
import SlotQuery.Proofs.Wait.OwnPasses
import SlotQuery.Proofs.Wait.Passes
import SlotQuery.Proofs.Wait.PendingSlots
import SlotQuery.Proofs.Wait.SharedLimit
import SlotQuery.Proofs.Wait.SlotPasses
import SlotQuery.Proofs.Wait.SpentLimit
import SlotQuery.Proofs.Wait.TimeoutText
import SlotQuery.Proofs.Wait.Vacancy
import SlotQuery.Query.Assignment
import SlotQuery.Query.Boundary
import SlotQuery.Query.Condition
import SlotQuery.Query.Error
import SlotQuery.Query.FieldSet
import SlotQuery.Query.Grammar
import SlotQuery.Query.Lexer
import SlotQuery.Query.Operator
import SlotQuery.Query.Parser
import SlotQuery.Query.Selector
import SlotQuery.Query.SelectorSet
import SlotQuery.Query.Token
import SlotQuery.Regex.Basic
import SlotQuery.Regex.CharSet
import SlotQuery.Regex.Match
import SlotQuery.Regex.Parser
import SlotQuery.Settings.Basic
import SlotQuery.Settings.Layers
import SlotQuery.Settings.Logging
import SlotQuery.Settings.Tree
import SlotQuery.Settings.Value
import SlotQuery.Text.Blank
import SlotQuery.Text.Case
import SlotQuery.Text.CaseTable
import SlotQuery.Text.Digit
import SlotQuery.Text.SigmaTable
import SlotQuery.Text.Word
import SlotQuery.Text.WordTable
import SlotQuery.TextMap
import SlotQuery.Toml.Basic
import SlotQuery.Toml.Moment
import SlotQuery.Toml.Parser
import SlotQuery.Toml.Quoted
import SlotQuery.Toml.Scalar
import SlotQuery.Toml.Tree
import SlotQuery.Wait.Json
import SlotQuery.Wait.Options
import SlotQuery.Wait.Own
import SlotQuery.Wait.Phases
import SlotQuery.Wait.Polling
import SlotQuery.Wait.Slots
import SlotQuery.Wait.Timeout
import SlotQuery.Yaml.Printer
import SlotQuery.Yaml.Scalar
