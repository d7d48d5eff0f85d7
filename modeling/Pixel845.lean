import Pixel845.Lemmas.UsbService
import Pixel845.Lemmas.UsbRun
import Pixel845.Theorems.UsbStatus
import Pixel845.Lemmas.UsbStop
import Pixel845.Theorems.UsbCallback
import Pixel845.Theorems.UsbRequests
import Pixel845.Theorems.UsbPullUp
import Pixel845.Datatop.DataPoint
import Pixel845.Datatop.Dev
import Pixel845.Datatop.DualLine
import Pixel845.Datatop.Stat
import Pixel845.Lemmas.DatatopDev
import Pixel845.Lemmas.DatatopLookup
import Pixel845.Lemmas.DatatopNames
import Pixel845.Lemmas.DatatopStat
import Pixel845.Lemmas.RmnetFill
import Pixel845.Lemmas.RmnetLink
import Pixel845.Lemmas.RmnetReply
import Pixel845.Lib.Exchange
import Pixel845.Rmnet.Legacy
import Pixel845.Theorems.DatatopCsv
import Pixel845.Theorems.DatatopDev
import Pixel845.Theorems.DatatopLines
import Pixel845.Theorems.DatatopNames
import Pixel845.Theorems.DatatopSnapshot
import Pixel845.Theorems.DatatopStat
import Pixel845.Theorems.DatatopStatPoll
import Pixel845.Theorems.RmnetCapacity
import Pixel845.Theorems.RmnetGetters
import Pixel845.Theorems.RmnetReplies
import Pixel845.Theorems.RmnetRoundTrip
import Pixel845.Lemmas.DatatopDual
import Pixel845.Theorems.DatatopDual
import Pixel845.Datatop.Gen
import Pixel845.Theorems.DatatopComplete
import Pixel845.Rmnet.Handle
import Pixel845.Theorems.RmnetPairing
import Pixel845.Light.Light
import Pixel845.Theorems.LightPriority
import Pixel845.Theorems.LightBrightness
import Pixel845.Lemmas.RmnetCall
import Pixel845.Lemmas.RmnetLegacy
import Pixel845.Theorems.RmnetCodes
import Pixel845.Theorems.RmnetSent
import Pixel845.Theorems.RmnetNames
import Pixel845.Theorems.RmnetCommands
import Pixel845.Theorems.RmnetDecode
import Pixel845.Lib.Numeral
import Pixel845.Rmnet.Cli
import Pixel845.Lemmas.RmnetCli
import Pixel845.Theorems.CliHandle
import Pixel845.Theorems.CliArguments
import Pixel845.Theorems.CliNumbers
import Pixel845.Datatop.ValueOnly
import Pixel845.Theorems.DatatopValues
import Pixel845.Theorems.DatatopStale
import Pixel845.Theorems.DatatopUnparsed
import Pixel845.Theorems.DatatopSign
import Pixel845.Theorems.DatatopMeminfo
import Pixel845.Lib.Timeval
import Pixel845.Datatop.Opt
import Pixel845.Datatop.Periodic
import Pixel845.Theorems.DatatopPeriodic
import Pixel845.Theorems.DatatopOptions
import Pixel845.Datatop.Search
import Pixel845.Theorems.DatatopScan
import Pixel845.Datatop.Tokens
import Pixel845.Lemmas.DatatopTokens
import Pixel845.Theorems.DatatopColumns
import Pixel845.Theorems.DatatopMemLine
import Pixel845.Theorems.DatatopReadLine
import Pixel845.Theorems.DatatopStatLine
import Pixel845.Theorems.LightBlink
import Pixel845.Lib.Stateful
import Pixel845.Theorems.DatatopPair
import Pixel845.Theorems.RmnetTable
import Pixel845.Theorems.DatatopBounds
import Pixel845.Theorems.DatatopFields
import Pixel845.Lib.Words
import Pixel845.Lib.Subst
import Pixel845.Board.Utils
import Pixel845.Theorems.BoardMatch
import Pixel845.Theorems.JsonStore
import Pixel845.Theorems.JsonPrintbuf
import Pixel845.Theorems.JsonRoundTrip
import Pixel845.Theorems.JsonAccepted
import Pixel845.Theorems.JsonParse
import Pixel845.Theorems.JsonEscapes
import Pixel845.Theorems.JsonRefs
import Pixel845.Theorems.JsonArrays
import Pixel845.Theorems.JsonFiles
