import Gpd.Text.Search
import Gpd.Text.Decimal
import Gpd.Cxx.String
import Gpd.Cxx.Numeral
import Gpd.Machine.Fallible
import Gpd.Machine.Action
import Gpd.Machine.Recording
import Gpd.Connection.Basic
import Gpd.Machine.Handover
import Gpd.Connection.Handlers
import Gpd.Connection.Stream
import Gpd.Connection.Accounting
import Gpd.Connection.Request
import Gpd.Connection.Reassembly
import Gpd.Connection.Completion
import Gpd.Connection.HeaderCuts
import Gpd.Connection.Offsets
import Gpd.Http.Message
import Gpd.Connection.LengthField
import Gpd.Connection.Framing
import Gpd.Machine.Transition
import Gpd.Machine.Pool
import Gpd.Connection.Link
import Gpd.Connection.SingleReader
import Gpd.Connection.OneAnswer
import Gpd.Connection.Responses
import Gpd.Connection.Rejection
import Gpd.Cxx.Json
import Gpd.Ogdf.NodeTable
import Gpd.Ogdf.Graph
import Gpd.Layout.Basic
import Gpd.Arcs.Insertion
import Gpd.Arcs.Multiplicity
import Gpd.Arcs.Order
import Gpd.Layout.Loading
import Gpd.Layout.Reply
import Gpd.Layout.Precondition
import Gpd.Layout.Ids
import Gpd.Layout.Connections
import Gpd.Layout.Undeclared
import Gpd.Layout.Identity
import Gpd.Connection.Failures
import Gpd.Server.Basic
import Gpd.Server.Isolation
import Gpd.Jsonparser.Lexer
import Gpd.Text.Utf8
import Gpd.Cxx.Map
import Gpd.Jsonparser.Acceptance
import Gpd.Jsonparser.Dump
import Gpd.Jsonparser.Numtostr
import Gpd.Jsonparser.OneLine
import Gpd.Jsonparser.Elements
import Gpd.Jsonparser.RoundTrip
import Gpd.Layout.Texts
import Gpd.Server.Exchange
