import Spinny.Lib.Bytes
import Spinny.Lib.Machine
import Spinny.Lib.Proc
import Spinny.Boost.Strings
import Spinny.Boost.Regex
import Spinny.Sqlite.Connection
import Spinny.Sqlite.Buffer
import Spinny.User
import Spinny.Ews.Request
import Spinny.Ews.RequestParser
import Spinny.Ews.Decode
import Spinny.Ews.Body
import Spinny.Ews.Lines
import Spinny.Ews.HeaderBlock
import Spinny.Ews.RoundTrip
import Spinny.Ews.Accepted
import Spinny.Ews.Raises
import Spinny.Lib.Table
import Spinny.Sqlite.Values
import Spinny.Database
import Spinny.Ews.Reply
import Spinny.Session
import Spinny.Library
import Spinny.PlayList
import Spinny.Accounts
import Spinny.Ews.RequestHandler
import Spinny.Handlers.Access
import Spinny.Handlers.Streams
import Spinny.Handlers.Browse
import Spinny.Handlers.Pl
import Spinny.Handlers.LinkUp
import Spinny.Handlers.NullUser
import Spinny.Frame
import Spinny.Orderings
import Spinny.Handlers.Reorder
import Spinny.AllSongs
import Spinny.Handlers.Failures
import Spinny.Sqlite.Lexer
import Spinny.Sqlite.Statements
import Spinny.Sqlite.Store
import Spinny.Boost.PosixTime
import Spinny.RowClasses
import Spinny.Ews.Cookies
import Spinny.Ews.Lifecycle
import Spinny.Ews.Stopping
import Spinny.Lib.Hoare
import Spinny.Tags
import Spinny.Destroy
import Spinny.Inserts
import Spinny.Rescans
import Spinny.Answers
import Spinny.Handlers.Expansion
import Spinny.Handlers.Drops
import Spinny.Lib.Js.Documents
import Spinny.Handlers.Documents
import Spinny.Lib.Xml
import Spinny.Handlers.Tracks
import Spinny.Ews.Urls
import Spinny.Ews.Forms
import Spinny.Lib.Sql
import Spinny.Sqlite.Quoting
import Spinny.Removals
import Spinny.Merges
import Spinny.Listings
import Spinny.NumberOrders
import Spinny.Handlers.AddSongs
import Spinny.Handlers.TrackLists
import Spinny.SortValues
import Spinny.Ews.Escapes
import Spinny.Ews.Versions
import Spinny.Boost.Path
import Spinny.Handlers.Confinement
import Spinny.Ews.Dispatch
import Spinny.Handlers.StatusLines
import Spinny.Handlers.Validate
import Spinny.Lib.Pages
import Spinny.Paging
import Spinny.Search
import Spinny.StartingChars
import Spinny.Discography
import Spinny.Sqlite.CheckTables
import Spinny.Sqlite.Iteration
import Spinny.Settings
import Spinny.Survivors
import Spinny.Lib.Lists
import Spinny.Reconciling
import Spinny.Handlers.Footprints
import Spinny.Handlers.Sessions
import Spinny.Entries
import Spinny.Mirroring
import Spinny.Mirrored
import Spinny.Ews.Reads
