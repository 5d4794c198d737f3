import Jos.TcpStream
import Jos.TcpAtomic
import Jos.TcpPeer
import Jos.TcpAck
import Jos.StaleMemory
import Jos.TxRing
import Jos.RxRing
import Jos.Buddy
import Jos.MemTypes
import Jos.KernTables
import Jos.FaultGuard
import Jos.UdpEcho
import Jos.TcpPayload
import Jos.TcpWindow
import Jos.Pipe
import Jos.PipeRefs
import Jos.HttpGrammar
import Jos.HttpReply
import Jos.ArpReply
import Jos.PoolRefill
import Jos.PageCalls
import Jos.TableFill
import Jos.RegionRefs
import Jos.IpcRegion
import Jos.ExoforkFail
import Jos.LoadIcode
import Jos.MapSegment
import Jos.Console
import Jos.RunCmd
import Jos.PgFault
import Jos.FileIds
import Jos.Pci
import Jos.InitStack
import Jos.SchedOrder
import Jos.FsFailure
import Jos.PmTimer
import Jos.Strlcat
import Jos.Leb128
import Jos.Strtol
