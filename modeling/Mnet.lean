import Mnet.KeepAliveFraming
import Mnet.DeliveryIndependence
import Mnet.RequestDeadline
import Mnet.ParamNames
import Mnet.RouteMeaning
import Mnet.ClientReads
import Mnet.ClientRequest
import Mnet.JsonfHardening
import Mnet.JsonfRendering
import Mnet.ConnectionAccounting
import Mnet.HeaderTokenizer
import Mnet.QueryLimits
import Mnet.RouteSelection
import Mnet.ZeroResponse
import Mnet.BodyTerminator
import Mnet.DeclaredLength
import Mnet.HeadLimit
import Mnet.CookieRoundTrip
import Mnet.JsonfPrecision
import Mnet.JsonfWidths
import Mnet.JsonEscaping
import Mnet.UrlDecodeBuffer
import Mnet.UrlParsing
import Mnet.ClientCompleteness
import Mnet.UrlDecodeInPlace
import Mnet.BufferRange
import Mnet.AtomicRegistration
import Mnet.ShortWrites
import Mnet.PoolLiveness
import Mnet.AppLifetime
import Mnet.ConnectionMemory
import Mnet.ConnectionWire
import Mnet.CallRoundTrip
import Mnet.JsonTemplate
import Mnet.ClientResources
import Mnet.StaticSite
import Mnet.HandlerView
import Mnet.Configuration
import Mnet.JsonfMemory
