import PriceOracle.Consensus.Equivocation
import PriceOracle.Submissions.Acceptance
import PriceOracle.Aggregation.Versions
import PriceOracle.Aggregation.ManualTrigger
import PriceOracle.Governance.Quorum
import PriceOracle.Governance.Threshold
import PriceOracle.Proposals.Lifecycle
import PriceOracle.Proposals.Staleness
import PriceOracle.CommitReveal.Binding
import PriceOracle.Submissions.Ordering
import PriceOracle.Consensus.Confirmation
import PriceOracle.Finality.Retraction
import PriceOracle.Timelock.Delays
import PriceOracle.Configuration.Bounds
import PriceOracle.Configuration.FlagWriters
import PriceOracle.Migration.Cursor
import PriceOracle.Custody.Challenges
import PriceOracle.FeeMarket.Queue
import PriceOracle.Audit.Tampering
import PriceOracle.Recovery.Minority
import PriceOracle.Sources.Admission
import PriceOracle.Sources.Identity
import PriceOracle.Sources.Rotation
import PriceOracle.Defaults.Refinement
import PriceOracle.Dependencies.Statuses
import PriceOracle.AutoRenewal.Bounds
import PriceOracle.DeadMan.Outage
import PriceOracle.Archive.Downgrades
import PriceOracle.Challenges.Settlement
import PriceOracle.Blackout.Windows
import PriceOracle.Breakers.Rearming
import PriceOracle.Channels.Replay
import PriceOracle.Subscriptions.Accounts
import PriceOracle.Corrections.Chains
import PriceOracle.Pricing.CoreSelection
import PriceOracle.Pricing.FaultTolerance
import PriceOracle.Ingest.Delivery
import PriceOracle.TxReview.Approval
import PriceOracle.Indexer.Convergence
import PriceOracle.Submissions.Preview
import PriceOracle.Aggregation.Tethers
import PriceOracle.Pricing.Dispersion
import PriceOracle.Pricing.VolumeWeighted
import PriceOracle.AdaptiveQuorum.Returns
import PriceOracle.Amm.Guardrail
import PriceOracle.AutoRenewal.Totality
import PriceOracle.Lattice.Suspensions
import PriceOracle.Exotic.Distribution
import PriceOracle.Pricing.Outliers
import PriceOracle.Pricing.WeightedMedian
import PriceOracle.Archive.Pages
import PriceOracle.Archive.Compaction
import PriceOracle.Archive.Interpolation
import PriceOracle.Archive.Watermark
import PriceOracle.Baskets.Valuation
import PriceOracle.Pricing.Incremental
import PriceOracle.Aggregation.Sampling
import PriceOracle.Archive.Shards
import PriceOracle.DerivedFeeds.Rounding
import PriceOracle.Relay.EventProofs
import PriceOracle.Bridge.Scales
import PriceOracle.Timelock.Simulation
import PriceOracle.Scorecards.Samples
import PriceOracle.Pricing.GeometricMean
