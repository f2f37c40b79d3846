import TimedCache.Numeric.Word
import TimedCache.Numeric.Binary64
import TimedCache.Time.Duration
import TimedCache.Time.Clock
import TimedCache.Time.Calendar
import TimedCache.Text.Unprintable
import TimedCache.Text.Quoted
import TimedCache.Text.Blank
import TimedCache.Text.Numeral
import TimedCache.Text.Percent
import TimedCache.Net.Address
import TimedCache.Net.AddressPrinter
import TimedCache.Net.AddressReader
import TimedCache.Net.Link
import TimedCache.Json.Writer
import TimedCache.Fault
import TimedCache.Invalidation.Datagram
import TimedCache.Invalidation.Channel
import TimedCache.Hook
import TimedCache.Stats
import TimedCache.Holder
import TimedCache.Owners
import TimedCache.Entry
import TimedCache.Store.Basic
import TimedCache.Store.Operations
import TimedCache.Settings
import TimedCache.Cache.Notice
import TimedCache.Cache.Sweeper
import TimedCache.Cache.Command
import TimedCache.Lru.Slab
import TimedCache.Lru.Basic
import TimedCache.Lru.Command
import TimedCache.Lru.Recency
import TimedCache.Json.Scanner
import TimedCache.Json.RecordReader
import TimedCache.Admin.MediaType
import TimedCache.Admin.Submission
import TimedCache.Admin.Outcome
import TimedCache.Admin.Route
import TimedCache.Admin.Http
import TimedCache.Admin.App
import TimedCache.Proofs.KeyedList
import TimedCache.Proofs.Returned
import TimedCache.Proofs.Counters
import TimedCache.Proofs.Moments
import TimedCache.Proofs.Ownership
import TimedCache.Proofs.Lru.Links
import TimedCache.Proofs.Lru.Slots
import TimedCache.Proofs.Lru.Consistency
import TimedCache.Proofs.Lru.Invariant
import TimedCache.Proofs.Lru.Relinking
import TimedCache.Proofs.Lru.Listing
import TimedCache.Proofs.Lru.Refinement
import TimedCache.Proofs.Store.Calm
import TimedCache.Proofs.Store.Effects
import TimedCache.Proofs.Store.History
import TimedCache.Proofs.Store.Standing
import TimedCache.Proofs.Store.Trailing
import TimedCache.Proofs.Store.TrailingSteps
import TimedCache.Proofs.Session.Script
import TimedCache.Proofs.Session.Plain
import TimedCache.Proofs.Session.Lookup
import TimedCache.Proofs.Session.Lasting
import TimedCache.Proofs.Session.Independence
import TimedCache.Proofs.Session.Twin
import TimedCache.Proofs.Session.Abreast
import TimedCache.Proofs.Session.Sweeping
import TimedCache.Proofs.Store.Moves
import TimedCache.Proofs.Store.Ledger
import TimedCache.Proofs.Session.Registry
import TimedCache.Proofs.Session.Hooks
import TimedCache.Proofs.Store.InStep
import TimedCache.Proofs.Store.Muted
import TimedCache.Proofs.Store.Tally
import TimedCache.Proofs.Session.Conservation
import TimedCache.Proofs.Session.Staleness
import TimedCache.Proofs.Invalidation.Codec
import TimedCache.Proofs.Store.Patterns
import TimedCache.Proofs.Store.Regardless
import TimedCache.Proofs.Session.Watermark
import TimedCache.Proofs.Session.Datagrams
import TimedCache.Proofs.Session.Waking
import TimedCache.Proofs.Session.LifeCycle
import TimedCache.Proofs.Session.Retirement
import TimedCache.Proofs.Lru.Inclusion
import TimedCache.Proofs.Lru.Recency
import TimedCache.Proofs.Lru.Stack
import TimedCache.Proofs.Lru.Policy
import TimedCache.Proofs.Session.Rhythm
import TimedCache.Proofs.Session.Beats
import TimedCache.Proofs.Store.Calls
import TimedCache.Proofs.Store.Shares
import TimedCache.Proofs.Store.Clients
import TimedCache.Proofs.Session.Evolution
import TimedCache.Proofs.Session.Holders
import TimedCache.Proofs.Admin.Effects
import TimedCache.Proofs.Session.Enduring
import TimedCache.Proofs.Admin.Turns
import TimedCache.Proofs.Admin.Answers
import TimedCache.Proofs.Lru.Entries
import TimedCache.Proofs.Lru.Course
import TimedCache.Proofs.Lru.Rounds
import TimedCache.Proofs.Lru.Capacity
import TimedCache.Proofs.Lru.Pairing
import TimedCache.Proofs.Lru.Events
import TimedCache.Proofs.Session.Listening
import TimedCache.Proofs.Durations
import TimedCache.Proofs.Admin.Lifetimes
import TimedCache.Proofs.Session.Patience
import TimedCache.Proofs.Session.Verdicts
import TimedCache.Proofs.Store.Interrupted
