import Bulletin.Core.DisjointSet
import Bulletin.Core.GuardedMerge
import Bulletin.Core.Claim
import Bulletin.Core.Run
import Bulletin.Core.Buckets
import Bulletin.Common.Types
import Bulletin.Common.Entity
import Bulletin.Common.Score
import Bulletin.Link.Model
import Bulletin.Link.Scoring
import Bulletin.Link.Components
import Bulletin.Link.Forwarding
import Bulletin.Link.LinkWith
import Bulletin.Link.Identity
import Bulletin.Link.Placement
import Bulletin.Link.FixedPoint
import Bulletin.Link.Equivariance
import Bulletin.Link.OrderIndependence
import Bulletin.Link.Store
import Bulletin.Link.Recompute
import Bulletin.Cluster.Model
import Bulletin.Digest.Model
import Bulletin.Digest.Store
import Bulletin.Summarize.Sweep
import Bulletin.System.Db
import Bulletin.System.Partition
import Bulletin.System.Redirect
import Bulletin.System.MergeGuard
import Bulletin.Digest.Render
import Bulletin.System.Rendered
import Bulletin.Digest.Select
import Bulletin.Digest.LastShown
import Bulletin.Digest.Fire
import Bulletin.System.Resurface
import Bulletin.Core.JobQueue
import Bulletin.Digest.Generate
import Bulletin.System.Flow
import Bulletin.System.Due
import Bulletin.System.History
import Bulletin.System.Watermark
import Bulletin.System.DecisionLog
import Bulletin.System.Abandoned
import Bulletin.System.Mail
import Bulletin.System.FrozenItems
import Bulletin.Cluster.Rollup
import Bulletin.Cluster.Build
import Bulletin.System.Content
import Bulletin.System.Builds
import Bulletin.System.NothingLost
import Bulletin.System.RowsMatch
import Bulletin.Link.Candidates
import Bulletin.System.Summaries
import Bulletin.System.NoChangeLost
import Bulletin.System.CandidateSummaries
import Bulletin.System.QueueProgress
import Bulletin.System.Syntheses
import Bulletin.System.StoryStaleness
import Bulletin.System.Pipeline
import Bulletin.System.Withheld
import Bulletin.Thread.Maintain
import Bulletin.Thread.Store
import Bulletin.System.CareOnce
import Bulletin.System.Engagement
import Bulletin.Core.Json
import Bulletin.Ingest.Builder
import Bulletin.Ingest.Github.EventMap
import Bulletin.Ingest.Github.Intakes
import Bulletin.Ingest.Github.Distinct
import Bulletin.Ingest.Github.Visibility
import Bulletin.System.Backstop
import Bulletin.Core.Unwinding
import Bulletin.Link.Foreign
import Bulletin.System.Hidden
import Bulletin.System.Tenants
import Bulletin.Ingest.Connection
import Bulletin.System.Intake
import Bulletin.Common.LinkSafety
import Bulletin.Common.Inert
import Bulletin.Summarize.Prose
import Bulletin.Digest.Prose
import Bulletin.Digest.Html
import Bulletin.Digest.Lead
import Bulletin.Digest.Plain
import Bulletin.Summarize.Numbers
import Bulletin.Summarize.Gate
import Bulletin.Summarize.Budget
import Bulletin.Summarize.Client
import Bulletin.System.StrictSummary
import Bulletin.Ingest.Rss
import Bulletin.System.Subscribed
import Bulletin.Identity.Corrections
import Bulletin.Thread.Weights
import Bulletin.System.DontCare
import Bulletin.Thread.Stable
import Bulletin.Ingest.Fetch
import Bulletin.Thread.Conserved
import Bulletin.Thread.Absorb
import Bulletin.Thread.Aliases
import Bulletin.Core.SpanningForest
import Bulletin.Identity.Spanning
import Bulletin.Core.Greedy
import Bulletin.Digest.Ranking
import Bulletin.Digest.Contract
import Bulletin.System.Oscillation
import Bulletin.Link.Pairwise
import Bulletin.Link.Reasons
import Bulletin.Link.Constraints
import Bulletin.Common.Refang
import Bulletin.Common.HostRuns
import Bulletin.Core.Scan
import Bulletin.Summarize.HouseVoice
import Bulletin.Core.Utf8
import Bulletin.Common.Ascii
import Bulletin.Ingest.Cves
import Bulletin.Ingest.Links
import Bulletin.Core.Layout
import Bulletin.Digest.Lines
import Bulletin.Digest.Runs
import Bulletin.Core.Sweep
import Bulletin.Thread.Communities
import Bulletin.Common.Marks
import Bulletin.Summarize.Shippable
import Bulletin.Core.Lookup
import Bulletin.Thread.Pass
import Bulletin.Thread.Assign
import Bulletin.System.SpineLookup
import Bulletin.Ingest.Embedded
import Bulletin.Ingest.Github.Conversations
import Bulletin.Link.UnionFind
import Bulletin.Core.Phrases
import Bulletin.Enrich.Ground
import Bulletin.Core.Framing
import Bulletin.Summarize.Signatures
import Bulletin.Common.Secret
import Bulletin.Core.DiscountedGain
import Bulletin.Digest.Eval
import Bulletin.Core.AsciiSearch
import Bulletin.Ingest.HtmlText
import Bulletin.Core.WallClock
import Bulletin.Digest.Schedule
import Bulletin.Core.Markup
import Bulletin.System.ThreadLabels
import Bulletin.System.Explain
import Bulletin.Core.Matched
import Bulletin.Link.Minting
import Bulletin.System.Lifecycle
import Bulletin.Summarize.Grounding
import Bulletin.Summarize.Sidecar
import Bulletin.Core.Octets
import Bulletin.Ingest.Github.Webhook
import Bulletin.System.Deliveries
import Bulletin.System.DeliveredOnce
import Bulletin.System.Attested
import Bulletin.System.Tick
