import OsaBase.Lib.Runs
import OsaBase.Lib.Monitor
import OsaBase.Lib.Ring
import OsaBase.Osa
import OsaBase.Que
import OsaBase.Fifo
import OsaBase.QueRuns
import OsaBase.Sem
import OsaBase.WakeUps
import OsaBase.Event
import OsaBase.EventRuns
import OsaBase.Lib.Bytes
import OsaBase.Lib.Framing
import OsaBase.Socket
import OsaBase.Communication.Head
import OsaBase.Communication.SendMsg
import OsaBase.Communication.Receive
import OsaBase.Communication.RoundTrip
import OsaBase.Communication.BadHead
import OsaBase.Communication.CutSend
import OsaBase.Lib.Writers
import OsaBase.Communication.Senders
import OsaBase.Communication.WholeFrames
import OsaBase.Buf
import OsaBase.Lib.Pool
import OsaBase.Communication.StreamSlot
import OsaBase.Communication.StreamRuns
import OsaBase.Lib.Ledger
import OsaBase.Mailbox.Invariant
import OsaBase.Mailbox.Memory
import OsaBase.Mailbox.Moves
import OsaBase.Mailbox.Acks
import OsaBase.Mailbox.Ledger
import OsaBase.BufRuns
import OsaBase.Lib.Chain
import OsaBase.OsaList
import OsaBase.Server.Model
import OsaBase.Server.Steps
import OsaBase.Server.Invariant
import OsaBase.Server.Limit
import OsaBase.Server.Descriptors
import OsaBase.Server.Stop
import OsaBase.Server.Leaks
import OsaBase.Server.Broadcast
import OsaBase.Server.Lifetime
import OsaBase.Server.Shutdown
import OsaBase.Client.Model
import OsaBase.Client.Steps
import OsaBase.Client.Stop
import OsaBase.Client.Lifetime
import OsaBase.OsaListRuns
import OsaBase.Client.Heart
import OsaBase.Server.SendBuf
import OsaBase.Server.FrameLength
import OsaBase.Client.Session
import OsaBase.Client.Buffers
import OsaBase.Server.SetUp
import OsaBase.Server.PrintInfo
import OsaBase.Mailbox.QueueLog
import OsaBase.Mailbox.Broadcast
import OsaBase.Communication.StreamCopies
import OsaBase.Communication.StreamFrees
import OsaBase.Communication.StreamLost
import OsaBase.OsaListOps
import OsaBase.EventFlags
import OsaBase.Lib.Loops
import OsaBase.SendRetries
import OsaBase.File
import OsaBase.Lib.Descriptors
import OsaBase.Pipe
import OsaBase.PipeCounts
import OsaBase.Prf
import OsaBase.Wait
import OsaBase.Mailbox.Flush
import OsaBase.Transfers
import OsaBase.Json.RoundTrip
import OsaBase.Json.Buffered
import OsaBase.Json.PrintMinify
import OsaBase.Json.Memory
import OsaBase.Json.Clients
