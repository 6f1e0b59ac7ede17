import RxRust.Core.Chunks
import RxRust.Core.Interact
import RxRust.Core.Outcome
import RxRust.Core.Refine
import RxRust.Core.RoundUp
import RxRust.Core.Runs
import RxRust.Core.Signed
import RxRust.Core.Transducer
import RxRust.Core.Words
import RxRust.Allocator.MappedRegion
import RxRust.Allocator.Disjoint
import RxRust.Allocator.Bounds
import RxRust.Allocator.Linear
import RxRust.Allocator.Memory
import RxRust.Allocator.Cursor
import RxRust.Allocator.Loading
import RxRust.Allocator.Resources
import RxRust.Reactor.Buffers
import RxRust.Reactor.Connection
import RxRust.Reactor.Engine
import RxRust.Reactor.Moves
import RxRust.Reactor.Outbound
import RxRust.Reactor.Listening
import RxRust.Reactor.Delivery
import RxRust.Reactor.ReadBuffer
import RxRust.Reactor.Reassembly
import RxRust.Reactor.Stranded
import RxRust.Reactor.Isolation
import RxRust.Reactor.Atomicity
import RxRust.Reactor.Views
import RxRust.Reactor.ZeroCopy
import RxRust.Reactor.HangUp
import RxRust.Reactor.Loops
import RxRust.Reactor.Pipe
import RxRust.Reactor.Routing
import RxRust.Reactor.Tokens
import RxRust.Reactor.Panics
import RxRust.Reactor.Codec
import RxRust.Reactor.EndToEnd
import RxRust.Scheduler.FixedLoop
import RxRust.Scheduler.Rate
import RxRust.Stream.Subscriber
import RxRust.Stream.Processors
import RxRust.Stream.Publishers
import RxRust.Stream.Chain
import RxRust.Stream.PipelineRun
import RxRust.Stream.TakeAlgebra
import RxRust.Stream.Consumption
import RxRust.Stream.Observers
import RxRust.Stream.Fusion
import RxRust.Stream.Pulls
import RxRust.Stream.Dangling
import RxRust.Stream.Denotation
import RxRust.Stream.Grammar
import RxRust.Stream.Stop
import RxRust.Stream.Split
import RxRust.Stream.EventQueue
import RxRust.Reactor.Posting
import RxRust.Reactor.Remote
import RxRust.Reactor.Ring
import RxRust.Reactor.SyncChannels
import RxRust.Reactor.Backpressure
import RxRust.Reactor.Stalls
