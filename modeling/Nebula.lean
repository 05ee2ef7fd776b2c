import Nebula.Async.Mirrored
import Nebula.Async.Registration
import Nebula.Async.Revisits
import Nebula.Async.Timers
import Nebula.AsyncIo.Listening
import Nebula.AsyncIo.Sessions
import Nebula.Endian.Conversions
import Nebula.FileSystem.Traversal
import Nebula.HardwareInfo.Processors
import Nebula.Histogram.Average
import Nebula.Histogram.Clear
import Nebula.Histogram.Zones
import Nebula.Logging.Delivery
import Nebula.Logging.FilePaths
import Nebula.Logging.LogHandle
import Nebula.Logging.Published
import Nebula.Logging.Resources
import Nebula.Logging.ServerMessages
import Nebula.Logging.Serving
import Nebula.ProducerAndConsumer.Batches
import Nebula.ProducerAndConsumer.Queue
import Nebula.ProducerAndConsumer.Quiescence
import Nebula.ProducerAndConsumer.Reports
import Nebula.ProducerAndConsumer.Routine
import Nebula.Random.Prng
import Nebula.Strings.Concatenation
import Nebula.Strings.Numbers
import Nebula.TextFile.Failures
import Nebula.TextFile.Reuse
import Nebula.TextFile.RoundTrip
import Nebula.Thread.StopFlag
import Nebula.Time.StopWatch
