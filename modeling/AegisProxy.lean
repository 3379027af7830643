import AegisProxy.Lib.Runs
import AegisProxy.Lib.SortedMap
import AegisProxy.Lib.Around
import AegisProxy.Lib.TokenBucket
import AegisProxy.Lib.WordMix
import AegisProxy.Lib.Readers
import AegisProxy.CircuitBreaker
import AegisProxy.BreakerCounters
import AegisProxy.BreakerCallers
import AegisProxy.HashKey
import AegisProxy.Text
import AegisProxy.RateLimiter
import AegisProxy.RateLimiterLaw
import AegisProxy.LimiterShards
import AegisProxy.LimiterReaping
import AegisProxy.HashRing
import AegisProxy.RingLookup
import AegisProxy.RingCollisions
import AegisProxy.ConnectionPool
import AegisProxy.PoolUsers
import AegisProxy.Metrics
import AegisProxy.Relay
import AegisProxy.Session
import AegisProxy.Streams
import AegisProxy.CommitFlag
import AegisProxy.Effects
import AegisProxy.FailureAttribution
import AegisProxy.ResponseDelivery
import AegisProxy.Pieces
import AegisProxy.SessionEnds
import AegisProxy.Tracer
import AegisProxy.SessionLog
import AegisProxy.Responses
import AegisProxy.Exposition
import AegisProxy.AttemptLoop
import AegisProxy.Proxy
import AegisProxy.ProxyBreakers
import AegisProxy.CallersRefinement
import AegisProxy.SessionRuns
import AegisProxy.PoolSessions
import AegisProxy.Ledger
import AegisProxy.Gauges
import AegisProxy.IdleGauge
import AegisProxy.Failover
import AegisProxy.Outage
import AegisProxy.SessionBounds
import AegisProxy.Server
import AegisProxy.Scrapes
import AegisProxy.ServerLog
import AegisProxy.Admission
import AegisProxy.LimiterMemory
