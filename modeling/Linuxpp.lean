import Linuxpp.Foundations.Machine
import Linuxpp.Foundations.Simulation
import Linuxpp.Foundations.Lock
import Linuxpp.Foundations.Loop
import Linuxpp.Foundations.Slots
import Linuxpp.Foundations.SortedInsert
import Linuxpp.Foundations.SortOrder
import Linuxpp.Foundations.DueWalk
import Linuxpp.Foundations.Keyed
import Linuxpp.Foundations.DeferredRemoval
import Linuxpp.Foundations.Alarms
import Linuxpp.Foundations.BigEndian
import Linuxpp.Foundations.Custody
import Linuxpp.Foundations.DescriptorTable
import Linuxpp.Foundations.Durations
import Linuxpp.Foundations.Redirections
import Linuxpp.Foundations.References
import Linuxpp.Kernel.Errno
import Linuxpp.Descriptor.UniqueFd
import Linuxpp.Descriptor.Proofs.UniqueFdProofs
import Linuxpp.Descriptor.PipeIo
import Linuxpp.Descriptor.Proofs.PipeIoProofs
import Linuxpp.Descriptor.TypedPipe
import Linuxpp.Descriptor.Proofs.TypedPipeProofs
import Linuxpp.Net.Accept
import Linuxpp.Net.Proofs.AcceptProofs
import Linuxpp.Ioloop.MonotonicTimerfd
import Linuxpp.Ioloop.Oneshot
import Linuxpp.Ioloop.Proofs.OneshotProofs
import Linuxpp.Ioloop.Timeouts
import Linuxpp.Ioloop.TimeoutPasses
import Linuxpp.Ioloop.Proofs.TimeoutsProofs
import Linuxpp.Ioloop.Proofs.TimeoutRunsProofs
import Linuxpp.Ioloop.Proofs.TimeoutPassProofs
import Linuxpp.Ioloop.Proofs.TimeoutGuaranteesProofs
import Linuxpp.Ioloop.PeriodicTimeouts
import Linuxpp.Ioloop.Proofs.PeriodicTimeoutsProofs
import Linuxpp.Ioloop.Proofs.PeriodicPassProofs
import Linuxpp.Ioloop.Proofs.PeriodicGuaranteesProofs
import Linuxpp.Ioloop.TimerLoop
import Linuxpp.Ioloop.Proofs.TimerQueuesProofs
import Linuxpp.Ioloop.Proofs.TimerLoopProofs
import Linuxpp.Ioloop.Proofs.TimerGuaranteesProofs
import Linuxpp.Ioloop.Callbacks
import Linuxpp.Ioloop.Proofs.CallbacksProofs
import Linuxpp.Ioloop.ThrowingCallbacks
import Linuxpp.Ioloop.StartStop
import Linuxpp.Ioloop.Proofs.StartStopProofs
import Linuxpp.Ioloop.TimeoutHandles
import Linuxpp.Ioloop.Epoll
import Linuxpp.Ioloop.Handlers
import Linuxpp.Ioloop.Proofs.HandlersProofs
import Linuxpp.Ioloop.Proofs.HandlerRunsProofs
import Linuxpp.Ioloop.Proofs.RemovedHandlersProofs
import Linuxpp.Ioloop.Dispatch
import Linuxpp.Ioloop.Proofs.DispatchProofs
import Linuxpp.Ioloop.HandlerLifetimes
import Linuxpp.Ioloop.Proofs.HandlerLifetimesProofs
import Linuxpp.Ioloop.Registrations
import Linuxpp.Ioloop.Proofs.RegistrationsProofs
import Linuxpp.Ioloop.Proofs.TimeoutHandlesProofs
import Linuxpp.Ioloop.Proofs.PeriodicHandlesProofs
import Linuxpp.Ioloop.Proofs.ThrowingCallbacksProofs
import Linuxpp.Ioloop.EventLoop
import Linuxpp.Ioloop.Proofs.OwnHandlersProofs
import Linuxpp.Ioloop.Proofs.EventLoopProofs
import Linuxpp.Ioloop.Proofs.EventLoopViewsProofs
import Linuxpp.Ioloop.Proofs.EventLoopRefinementProofs
import Linuxpp.Ioloop.Proofs.EventLoopGuaranteesProofs
import Linuxpp.Ioloop.Proofs.EventLoopTurnsProofs
import Linuxpp.Ioloop.Proofs.EventLoopProgressProofs
import Linuxpp.Ioloop.Proofs.EventLoopWaitsProofs
import Linuxpp.Ioloop.Proofs.EventLoopStopProofs
import Linuxpp.Message.Iovec
import Linuxpp.Message.LengthPrefixedMessage
import Linuxpp.Message.TcpDatagramSocket
import Linuxpp.Message.Proofs.IovecProofs
import Linuxpp.Message.Proofs.LengthPrefixedMessageProofs
import Linuxpp.Message.Proofs.TcpDatagramSocketProofs
import Linuxpp.Message.Proofs.SendProofs
import Linuxpp.Message.FailingSocket
import Linuxpp.Message.Proofs.FailingSocketProofs
import Linuxpp.Message.MessageObjects
import Linuxpp.Message.Proofs.MessageObjectsProofs
import Linuxpp.Message.ClosedStream
import Linuxpp.Message.Proofs.ClosedStreamProofs
import Linuxpp.Subprocess.Streams
import Linuxpp.Subprocess.Popen
import Linuxpp.Subprocess.StandardStreams
import Linuxpp.Subprocess.ChildFate
import Linuxpp.Subprocess.PopenObjects
import Linuxpp.Subprocess.Constructions
import Linuxpp.Subprocess.PopenSystem
import Linuxpp.Subprocess.Proofs.StreamsProofs
import Linuxpp.Subprocess.Proofs.ChildStreamsProofs
import Linuxpp.Subprocess.Proofs.ForeignDescriptorsProofs
import Linuxpp.Subprocess.Proofs.PopenFailureProofs
import Linuxpp.Subprocess.Proofs.ChildFateProofs
import Linuxpp.Subprocess.Proofs.ConstructionsProofs
import Linuxpp.Subprocess.Proofs.PopenObjectsProofs
import Linuxpp.Subprocess.Proofs.ReapedPidsProofs
import Linuxpp.Subprocess.Proofs.PipeEndsProofs
import Linuxpp.Subprocess.Proofs.PipeChannelsProofs
import Linuxpp.Subprocess.Proofs.StreamOwnersProofs
import Linuxpp.Message.Reception
import Linuxpp.Message.Proofs.ReceptionProofs
import Linuxpp.Ioloop.Proofs.DueTimeoutsProofs
import Linuxpp.Ioloop.Proofs.EventLoopTimeoutsProofs
import Linuxpp.Foundations.Construction
import Linuxpp.Descriptor.Constructors
import Linuxpp.Net.Sockets
import Linuxpp.Net.Proofs.SocketsProofs
import Linuxpp.Ioloop.Constructor
import Linuxpp.Ioloop.Proofs.ConstructorProofs
