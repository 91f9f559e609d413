import TreeSelector.Grammar.Selector
import TreeSelector.Matching
import TreeSelector.Typing
import TreeSelector.Reading.Remembering
import TreeSelector.Config.Codec
import TreeSelector.Notification.Queue
import TreeSelector.Notification.Throttle
import TreeSelector.Identity.Tracker
import TreeSelector.Identity.Memory
import TreeSelector.Rule.RuleSet
import TreeSelector.Engine.Basic
import TreeSelector.Engine.Codec
import TreeSelector.Scheduler.Worker
import TreeSelector.Scheduler.World
import TreeSelector.Main
import TreeSelector.Scheduler.Codec
import TreeSelector.Eval.Codec
import TreeSelector.Proofs.Reading.Follows
import TreeSelector.Proofs.Reading.Transfer
import TreeSelector.Proofs.Reading.Candidates
import TreeSelector.Proofs.Reading.Direct
import TreeSelector.Proofs.Matching.IndexKeys
import TreeSelector.Proofs.Matching.Searched
import TreeSelector.Proofs.Matching.FastPath
import TreeSelector.Proofs.Matching.Trails
import TreeSelector.Proofs.Rule.Status
import TreeSelector.Proofs.Engine.Visits
import TreeSelector.Proofs.Matching.Results
import TreeSelector.Proofs.Engine.Ledger
import TreeSelector.Proofs.Grammar.Reads
import TreeSelector.Proofs.Text.Numerals
import TreeSelector.Proofs.Grammar.Tokens
import TreeSelector.Proofs.Grammar.Canonical
import TreeSelector.Proofs.Grammar.Operands
import TreeSelector.Proofs.Grammar.Predicates
import TreeSelector.Proofs.Grammar.Segments
import TreeSelector.Proofs.Language.Unplaced
import TreeSelector.Proofs.Grammar.Selectors
import TreeSelector.Proofs.Cache.Knowledge
import TreeSelector.Proofs.Reading.Remembering
import TreeSelector.Proofs.Tree.Family
import TreeSelector.Proofs.Reading.Saves
import TreeSelector.Proofs.Reading.Coherence
import TreeSelector.Proofs.Language.Names
import TreeSelector.Proofs.Reading.Scope
import TreeSelector.Proofs.Matching.Transparency
import TreeSelector.Proofs.Typing.Checked
import TreeSelector.Proofs.Typing.Signatures
import TreeSelector.Proofs.Typing.Soundness
import TreeSelector.Proofs.Engine.Waits
import TreeSelector.Proofs.Engine.Tokens
import TreeSelector.Proofs.Engine.Applicability
import TreeSelector.Proofs.Engine.WakeUps
import TreeSelector.Proofs.Engine.Dispatches
import TreeSelector.Proofs.Engine.Restarts
import TreeSelector.Proofs.Engine.Rechecks
import TreeSelector.Proofs.Scheduler.Unattended
import TreeSelector.Proofs.Eval.Resemblance
import TreeSelector.Proofs.Reading.Blindness
import TreeSelector.Proofs.Tree.Subtrees
import TreeSelector.Proofs.Matching.Attachment
import TreeSelector.Proofs.Engine.Queue
import TreeSelector.Proofs.Engine.Discipline
import TreeSelector.Proofs.Engine.Eligibility
import TreeSelector.Proofs.Scheduler.Turns
import TreeSelector.Proofs.Scheduler.Serial
import TreeSelector.Proofs.Scheduler.Accounts
import TreeSelector.Proofs.Scheduler.Timers
import TreeSelector.Proofs.Reading.Exploration
import TreeSelector.Proofs.Language.Structural
import TreeSelector.Proofs.Matching.Caching
import TreeSelector.Proofs.Matching.Descents
import TreeSelector.Proofs.Reading.Converses
import TreeSelector.Proofs.Engine.Narrowing
import TreeSelector.Proofs.Typing.Masking
import TreeSelector.Proofs.Tree.Flattening
import TreeSelector.Proofs.Matching.Parallels
import TreeSelector.Proofs.Reading.Kinship
import TreeSelector.Proofs.Matching.Anchoring
import TreeSelector.Proofs.Grammar.Wordings
import TreeSelector.Proofs.Grammar.Lexemes
import TreeSelector.Proofs.Grammar.Respacing
import TreeSelector.Proofs.Grammar.Twins
import TreeSelector.Proofs.Grammar.Layout
import TreeSelector.Proofs.Grammar.Parentheses
import TreeSelector.Proofs.Grammar.Steady
import TreeSelector.Proofs.Grammar.Pieces
import TreeSelector.Proofs.Grammar.SteadyPredicates
import TreeSelector.Proofs.Grammar.SteadySelectors
import TreeSelector.Proofs.Grammar.Faults
import TreeSelector.Proofs.Text.Escapes
import TreeSelector.Proofs.Grammar.Spans
import TreeSelector.Proofs.Grammar.OperandSpans
import TreeSelector.Proofs.Grammar.SelectorSpans
import TreeSelector.Proofs.Typing.Labels
import TreeSelector.Proofs.Notification.Bursts
import TreeSelector.Proofs.Identity.Tracking
import TreeSelector.Proofs.Text.Sigmas
import TreeSelector.Proofs.Language.Patterns
import TreeSelector.Proofs.Json.Scalars
import TreeSelector.Proofs.Json.Texts
import TreeSelector.Proofs.Json.Records
import TreeSelector.Proofs.Config.RoundTrip
import TreeSelector.Proofs.Engine.Reports
import TreeSelector.Proofs.Tree.Preorder
import TreeSelector.Proofs.Reading.Lookups
import TreeSelector.Proofs.Text.Denotations
import TreeSelector.Proofs.Eval.Conversions
import TreeSelector.Proofs.Eval.Strings
