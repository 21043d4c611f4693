import HalOS.Mm.PageMap
import HalOS.Mm.VmmFailure
import HalOS.Mm.VmmWindow
import HalOS.Mm.LiballocHook
import HalOS.Mm.LiballocPages
import HalOS.Mm.VmmLive
import HalOS.Mm.VmmDma
import HalOS.Drivers.VesaBuffer
import HalOS.Mm.PmmComplete
import HalOS.Net.TcpKeys
import HalOS.Net.TcpBuffer
import HalOS.Net.TcpRetransmit
import HalOS.Net.TcpOldest
import HalOS.Net.TcpRelease
import HalOS.Net.TcpTranslate
import HalOS.Net.TcpStale
import HalOS.Net.TcpStream
import HalOS.Net.TcpTimers
import HalOS.Net.TcpHandshake
import HalOS.Net.TcpClosing
import HalOS.Net.NetworkBounds
import HalOS.Net.HttpServer
import HalOS.Net.Icmp
import HalOS.Net.TcpOptions
import HalOS.Net.TcpChecksum
import HalOS.Net.ArpRetry
import HalOS.Net.InetAddr
import HalOS.Shell.TelnetSafe
import HalOS.Shell.TelnetDrain
import HalOS.Shell.TelnetFilter
import HalOS.Shell.Snake
import HalOS.Shell.ResolvePath
import HalOS.Nic.Rtl8139Buffers
import HalOS.Nic.Rtl8139Ends
import HalOS.Cpu.Interrupts
import HalOS.Cpu.Pic
import HalOS.Cpu.Entry
import HalOS.Drivers.PciScan
import HalOS.Drivers.IdeTaskFile
import HalOS.Drivers.Keyboard
import HalOS.Drivers.ConsoleFormat
import HalOS.Drivers.ConsoleBuffers
import HalOS.Fs.FatInit
import HalOS.Fs.FatName
import HalOS.Fs.FatDir
import HalOS.Fs.FatPath
import HalOS.Fs.FatRead
import HalOS.Fs.FatTermination
import HalOS.Fs.FatShortName
import HalOS.Fs.FatBuffers
import HalOS.Libs.Memmove
import HalOS.Drivers.ConsoleCursor
import HalOS.Libs.Itoa
import HalOS.Libs.PrintfAppend
import HalOS.Libs.PrintfReadBack
import HalOS.Drivers.Serial
import HalOS.Libs.StrtokRuns
import HalOS.Shell.SnakeTurns
import HalOS.Drivers.IdeStore
