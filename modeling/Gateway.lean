import Gateway.AffinitySpec
import Gateway.Auth
import Gateway.Autoscale.ClosedLoop
import Gateway.Autoscale.Endpoint
import Gateway.Autoscale.Planner
import Gateway.Autoscale.Queueing
import Gateway.Cluster.AntiEntropy
import Gateway.Cluster.Convergence
import Gateway.Cluster.FleetLoad
import Gateway.Cluster.FleetView
import Gateway.Cluster.Gossip
import Gateway.Cluster.Isolation
import Gateway.Cluster.Members
import Gateway.Cluster.Prefixes
import Gateway.Cluster.Reconcile
import Gateway.Cluster.RedisBus
import Gateway.Cluster.Restart
import Gateway.Cluster.TypedGossip
import Gateway.Cluster.Wire
import Gateway.Dag.Graph
import Gateway.Dag.Makespan
import Gateway.Dag.Scheduler
import Gateway.DisaggSpec
import Gateway.FairQueue.Fairness
import Gateway.FairQueue.Service
import Gateway.FairQueue.Starvation
import Gateway.FairSched.Waiting
import Gateway.Guardrails
import Gateway.HashingSpec
import Gateway.Lib.Bucket
import Gateway.Lib.Control
import Gateway.Lib.Erlang
import Gateway.Lib.Eviction
import Gateway.Lib.Exposition
import Gateway.Lib.Occurrences
import Gateway.Lib.Ranking
import Gateway.Lib.Recency
import Gateway.Lib.Utf8
import Gateway.Metrics.Exposition
import Gateway.MockBackend
import Gateway.Quota
import Gateway.Race
import Gateway.RadixTree.Belief
import Gateway.RadixTree.HolderModel
import Gateway.RadixTree.Match
import Gateway.RadixTree.Memory
import Gateway.RadixTree.Naive
import Gateway.RadixTree.Queries
import Gateway.RadixTree.Survival
import Gateway.RateBound
import Gateway.Registry
import Gateway.RetryAfter
import Gateway.RouterSpec
import Gateway.Rust.Body
import Gateway.Rust.Choice
import Gateway.Rust.Hashing
import Gateway.Rust.Metrics
import Gateway.Rust.RadixTree
import Gateway.Rust.Registry
import Gateway.Rust.Router
import Gateway.Rust.Server
import Gateway.Rust.Twins
import Gateway.SemanticCache
import Gateway.SemanticRecency
import Gateway.Server.Accounting
import Gateway.Server.Agreement
import Gateway.Server.Body
import Gateway.Server.Charges
import Gateway.Server.Eligibility
import Gateway.Server.Failover
import Gateway.Server.FailoverLoop
import Gateway.Server.Forgetting
import Gateway.Server.Framing
import Gateway.Server.Modalities
import Gateway.Server.PrefixLookup
import Gateway.Server.Probe
import Gateway.Server.Races
import Gateway.Server.RagPrompt
import Gateway.Server.SemanticRuns
import Gateway.SessionHistory
