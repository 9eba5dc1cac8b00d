import Audd.CLib
import Audd.Client
import Audd.Http
import Audd.Json
import Audd.Request
import Audd.Retry
import Audd.Lib.Alloc
import Audd.Lib.Loop
import Audd.Metered
import Audd.Decode
import Audd.Lib.Keyed
import Audd.Recognize
import Audd.Streams
import Audd.Callback
import Audd.Longpoll
import Audd.LongpollRuns
import Audd.LongpollEvents
import Audd.Advanced
import Audd.CustomCatalog
import Audd.Calls
import Audd.CallHistory
import Audd.Rotation
import Audd.Double
import Audd.JsonPrint
import Audd.Recognition
import Audd.Offset
import Audd.Enterprise
import Audd.RecognizeFields
import Audd.OutOfMemory
import Audd.CallbackOutcome
import Audd.Lib.Md5
import Audd.Md5
import Audd.Md5Streams
import Audd.Category
import Audd.Lib.Refusal
import Audd.Refused
import Audd.IntegerText
import Audd.Lib.History
import Audd.Accessors
import Audd.Extras
import Audd.Backoff
import Audd.BlockExtras
import Audd.ScalarText
import Audd.Narrowing
import Audd.CallbackUrl
import Audd.Hostname
import Audd.StreamingUrl
import Audd.Links
import Audd.Positions
import Audd.Lib.Traced
import Audd.Conversions
import Audd.RecognitionConversions
import Audd.ResponseConversions
import Audd.Builders
import Audd.Coercion
import Audd.Allocator
import Audd.ResponseBuffer
import Audd.Release
import Audd.JsonParse
import Audd.Lib.JsonText
import Audd.JsonGrammar
import Audd.JsonPrinted
import Audd.JsonRoundTrip
import Audd.JsonMemory
import Audd.Lib.Ownership
import Audd.Lib.Transition
import Audd.ClientThreads
import Audd.ClientRaces
import Audd.ClientAtomic
import Audd.Lib.Footprint
import Audd.JsonItems
import Audd.JsonEdits
import Audd.JsonStrip
import Audd.JsonStringItems
import Audd.JsonParseItems
import Audd.JsonReads
