import Spakky.Effect
import Spakky.Saga.Flow
import Spakky.Saga.Engine
import Spakky.Saga.Forward
import Spakky.Saga.Parallel
import Spakky.Saga.Recovery
import Spakky.Saga.Untimed
import Spakky.Saga.Clock
import Spakky.Saga.Timeout
import Spakky.Saga.Expiry
import Spakky.DepthFirst.Basic
import Spakky.DepthFirst.Lockstep
import Spakky.DepthFirst.Reentry
import Spakky.DepthFirst.Divergence
import Spakky.DepthFirst.Buildable
import Spakky.Simulation
import Spakky.Container.Registry
import Spakky.Container.Resolution
import Spakky.Container.Construction
import Spakky.Container.Walk
import Spakky.Container.Detection
import Spakky.Container.Aspects
import Spakky.Container.Startup
import Spakky.Container.Capture
import Spakky.Container.Order
import Spakky.Agent.Redaction
import Spakky.Agent.Chunking
import Spakky.Agent.Guarding
import Spakky.Agent.Schema
import Spakky.Agent.Exposure
import Spakky.Agent.Recovery
import Spakky.Agent.Lifecycle
import Spakky.Agent.Resume
import Spakky.Agent.Storage
import Spakky.Machine
import Spakky.Agent.EvidenceLog
import Spakky.Agent.Signals
import Spakky.Agent.Delivery
import Spakky.Auth.Types
import Spakky.DenyOverrides
import Spakky.Policy.Document
import Spakky.Policy.Evaluator
import Spakky.Policy.Conditions
import Spakky.Policy.Verdict
import Spakky.Policy.Soundness
import Spakky.OpenFga.Provider
import Spakky.Sql.Interleaving
import Spakky.Data.Transaction
import Spakky.Sql.Transaction
import Spakky.Sql.Nesting
import Spakky.Aop.Weaving
import Spakky.Event.CommitOrder
import Spakky.Event.Snapshots
import Spakky.Event.Contexts
import Spakky.Outbox.Relay
import Spakky.Outbox.Delivery
import Spakky.KeyValue
import Spakky.Redis.Cache
import Spakky.Glob
import Spakky.Redis.KeySpaces
import Spakky.Leasing
import Spakky.Redis.Locking
import Spakky.Redis.Stampede
import Spakky.Redis.Tagging
import Spakky.Cache.Aspect
import Spakky.Cache.Transparency
import Spakky.Vllm.Model
import Spakky.Vllm.Answer
import Spakky.Vllm.Agreement
import Spakky.Logging.Aspect
import Spakky.Logging.Interference
import Spakky.Auth.Enforcement
import Spakky.Auth.Caching
import Spakky.Celery.Authorization
import Spakky.Auth.Startup
import Spakky.Common.Annotation
import Spakky.Context.Isolation
import Spakky.Container.Precedence
import Spakky.Container.Threads
import Spakky.Container.Uniqueness
import Spakky.Container.Progress
import Spakky.Lifecycle.Context
import Spakky.Lifecycle.Rollback
import Spakky.Lifecycle.Services
import Spakky.Policy.References
import Spakky.Policy.Loader
import Spakky.ShortCircuit
import Spakky.Policy.Termination
import Spakky.Celery.Crontab
import Spakky.Agent.Approval
import Spakky.Application.Discovery
import Spakky.Saga.History
import Spakky.Agent.Binding
import Spakky.Outbox.Rounds
import Spakky.Sql.Repository
import Spakky.Container.Lookup
import Spakky.Container.Tags
import Spakky.Agent.Persistence
import Spakky.Agent.Framing
