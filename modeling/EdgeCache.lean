import EdgeCache.Foundations.Run
import EdgeCache.Foundations.Pool
import EdgeCache.Foundations.PyFloat
import EdgeCache.Breaker.Machine
import EdgeCache.Breaker.Invariant
import EdgeCache.Breaker.Calls
import EdgeCache.Breaker.Probe
import EdgeCache.Breaker.Window
import EdgeCache.Breaker.HalfOpen
import EdgeCache.Breaker.Stall
import EdgeCache.Cache.Guard
import EdgeCache.Cache.Health
import EdgeCache.Cache.Segment
import EdgeCache.Cache.MemoryStore
import EdgeCache.Cache.Fleet
import EdgeCache.Cache.Replica
import EdgeCache.Cache.Transparency
import EdgeCache.Cache.Outcome
import EdgeCache.Service.Metrics
import EdgeCache.Foundations.Script
import EdgeCache.Service.Chaos
import EdgeCache.Service.Handler
import EdgeCache.Service.Counters
import EdgeCache.Foundations.Hold
import EdgeCache.Alerts.HitRatio
import EdgeCache.Cache.Gauge
import EdgeCache.Cache.Skipped
import EdgeCache.Foundations.PartialUpdate
import EdgeCache.Foundations.PartialUpdateRuns
import EdgeCache.Service.ChaosUpdates
import EdgeCache.Cache.Absent
import EdgeCache.Service.ChaosAdmin
import EdgeCache.Service.Flush
import EdgeCache.Foundations.Transcript
import EdgeCache.Foundations.TtlMap
import EdgeCache.Cache.StandIn
import EdgeCache.Cache.LazyExpiry
import EdgeCache.Cache.Sequential
import EdgeCache.Cache.Alone
import EdgeCache.Foundations.Crossing
import EdgeCache.Capacity.Forecast
import EdgeCache.Capacity.Summary
import EdgeCache.Foundations.Hex
import EdgeCache.Service.Tracing
import EdgeCache.Service.Server
import EdgeCache.Service.Answers
import EdgeCache.Service.Progress
import EdgeCache.Service.Traffic
import EdgeCache.Service.Exemplars
import EdgeCache.Service.Drill
import EdgeCache.Service.Endpoint
import EdgeCache.Foundations.Timed
import EdgeCache.Foundations.Blocks
import EdgeCache.Service.Outage
import EdgeCache.Foundations.PromQL
import EdgeCache.Alerts.BurnRate
import EdgeCache.Service.Faults
import EdgeCache.Alerts.Availability
import EdgeCache.Cache.Reports
import EdgeCache.Service.RedisDown
import EdgeCache.Cache.Startup
import EdgeCache.Service.Modes
import EdgeCache.Service.Saturation
import EdgeCache.Service.Recovery
import EdgeCache.Service.Bypass
import EdgeCache.Service.Slowness
import EdgeCache.Service.WarmCache
import EdgeCache.Service.Stall
