import CppPlayground.ArcPointer.HappensBefore
import CppPlayground.ArcPointer.NullBlocks
import CppPlayground.ArcPointer.Owned
import CppPlayground.BoundedBlockingQueue.Exceptions
import CppPlayground.BoundedBlockingQueue.Rest
import CppPlayground.BoundedBlockingQueue.Sections
import CppPlayground.CharStringBuffer.Copies
import CppPlayground.CharStringBuffer.Ownership
import CppPlayground.CompileTimeGcd.Correct
import CppPlayground.Fibonacci.Signed
import CppPlayground.FixedCapacityQueue.Noexcept
import CppPlayground.FixedCapacityVector.Noexcept
import CppPlayground.Functional.Termination
import CppPlayground.LFSPSCQueue.Capacity
import CppPlayground.LFSPSCQueue.Lifetime
import CppPlayground.LFSPSCQueue.Liveness
import CppPlayground.LRUCache.Competitive
import CppPlayground.LRUCache.Copies
import CppPlayground.LRUCache.Inclusion
import CppPlayground.LRUCache.Lifetimes
import CppPlayground.MatrixView.Bounds
import CppPlayground.MatrixView.Offsets
import CppPlayground.MatrixView.Strides
import CppPlayground.MatrixView.Windows
import CppPlayground.MemoryPool.Failures
import CppPlayground.Optional.Variables
import CppPlayground.OwningPointer.Deleters
import CppPlayground.OwningPointer.Throwing
import CppPlayground.PThreadsMutex.Clients
import CppPlayground.ThreadLocalLifetimeTracker.Counts
import CppPlayground.ThreadRacer.Scoreboard
