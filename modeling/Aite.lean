import Aite.Lib.StopMachine
import Aite.Http.Beast
import Aite.Http.RequestParser
import Aite.Http.RequestGrammar
import Aite.Http.ParserRun
import Aite.Http.ParserVerdict
import Aite.Http.ChunkedParse
import Aite.Routing.AbsolutePath
import Aite.Routing.RootNames
import Aite.Routing.RequestHandler
import Aite.Http.RequestHead
import Aite.Http.FieldList
import Aite.Lib.SeparatedWords
import Aite.Http.FoldedHeaders
import Aite.Http.VersionNumbers
import Aite.Numerals
import Aite.Session.Session
import Aite.Session.Exchange
import Aite.Session.KeepAlive
import Aite.Session.BodyFraming
import Aite.Session.ContentLength
import Aite.Session.Pipelining
import Aite.Lib.BlockBuilder
import Aite.Lib.BlockDeviation
import Aite.Config.Parse
import Aite.Config.Lexemes
import Aite.Config.CarriageReturns
import Aite.Config.Tokens
import Aite.Config.Scan
import Aite.Config.BlockStack
import Aite.Config.ParseRun
import Aite.Config.Validity
import Aite.Config.ParseTree
import Aite.Config.OpeningQuotes
import Aite.Config.Layout
import Aite.Config.RoundTrip
import Aite.Config.Lookup
import Aite.Config.Requote
import Aite.Handlers.Construct
import Aite.Handlers.Echo
import Aite.Handlers.WrittenRequest
import Aite.Session.Callbacks
import Aite.Session.DeclaredBodies
import Aite.Session.ForwardedRequest
import Aite.Lib.KeyedList
import Aite.Lib.LongestPrefix
import Aite.Routing.Table
import Aite.Routing.LongestLocation
import Aite.Routing.HandlerList
import Aite.Routing.QuotedArguments
import Aite.Handlers.StaticFile
import Aite.Handlers.StaticPaths
import Aite.Handlers.Multipart
import Aite.Handlers.MemeHandler
import Aite.Handlers.MultipartForm
import Aite.Handlers.MemeUpload
import Aite.Handlers.MultipartRoundTrip
import Aite.Handlers.Gallery
import Aite.Handlers.FailedUpload
import Aite.Lib.Insertion
import Aite.Handlers.BodyRewriting
import Aite.Handlers.Redirects
import Aite.Handlers.ForwardedTarget
import Aite.Session.UpstreamFailure
import Aite.Session.RequestCounts
import Aite.Session.Metrics
import Aite.Session.PeerReset
import Aite.Handlers.FormBoundary
import Aite.Config.QuoteKinds
import Aite.Config.QuotedSpellings
import Aite.Lib.BlockPath
import Aite.Config.FieldLookup
import Aite.Config.PortNumber
import Aite.Config.Termination
import Aite.Lib.OwnerTree
import Aite.Config.LivePath
import Aite.Http.MemorySafety
import Aite.Handlers.PartSplit
import Aite.Lib.BlockWords
import Aite.Routing.SafeStartup
import Aite.Lib.Histogram
import Aite.Lib.SharedStore
import Aite.Server.StatusPage
import Aite.Server.Site
import Aite.Server.Projection
import Aite.Server.Separation
import Aite.Server.Accounts
import Aite.Server.History
import Aite.Session.Aborts
import Aite.Server.ConfiguredHandlers
import Aite.Server.Failures
import Aite.Server.StoredImages
import Aite.Server.KeptUploads
import Aite.Routing.Teardown
import Aite.Lib.Reinsertion
import Aite.Handlers.ChainedProxies
import Aite.Lib.PrefixCode
import Aite.Server.ResponseStream
