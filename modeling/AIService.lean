import AIService.Accounts.Password
import AIService.Accounts.Registration
import AIService.Accounts.StoredFormat
import AIService.Accounts.Upgrade
import AIService.Accounts.Users
import AIService.Action
import AIService.Basic
import AIService.Chat.Atomicity
import AIService.Chat.Browser
import AIService.Chat.Codec
import AIService.Chat.Creation
import AIService.Chat.Exchange
import AIService.Chat.Helper
import AIService.Chat.History
import AIService.Chat.Ownership
import AIService.Chat.Restart
import AIService.Chat.Restore
import AIService.Chat.Server
import AIService.Chat.Snapshot
import AIService.Chat.Streaming
import AIService.Chat.Upstream
import AIService.Data.Base64Texts
import AIService.Data.Binary64
import AIService.Data.Crc
import AIService.Data.Decimal
import AIService.Data.Digits
import AIService.Data.FlatJson
import AIService.Data.Json
import AIService.Data.JsonText
import AIService.Data.Regex
import AIService.Data.Replace
import AIService.Data.Search
import AIService.Data.SortedMap
import AIService.Data.Text
import AIService.Data.Trim
import AIService.Data.View
import AIService.Db.ConnectionPool
import AIService.Db.PoolAccounting
import AIService.Http.Context
import AIService.Http.Cors
import AIService.Http.Delivery
import AIService.Http.DynamicRoutes
import AIService.Http.Framing
import AIService.Http.Grammar
import AIService.Http.Persistence
import AIService.Http.Points
import AIService.Http.Protocol
import AIService.Http.Reader
import AIService.Http.Request
import AIService.Http.RequestLog
import AIService.Http.Response
import AIService.Http.RoundTrip
import AIService.Http.Router
import AIService.Http.Server
import AIService.Http.Ssl
import AIService.Http.SslPath
import AIService.Http.Turns
import AIService.Image.Bounds
import AIService.Image.Geometry
import AIService.Image.Jobs
import AIService.Image.Jpeg
import AIService.Image.Png
import AIService.Image.Settings
import AIService.Image.Unread
import AIService.Image.Upload
import AIService.Inference.Budget
import AIService.Inference.Calls
import AIService.Inference.Context
import AIService.Inference.Generate
import AIService.Inference.Lru
import AIService.Inference.Replay
import AIService.Ledger
import AIService.MQ.Accounting
import AIService.MQ.Carriers
import AIService.MQ.Connections
import AIService.MQ.Durability
import AIService.MQ.Handler
import AIService.MQ.Publishing
import AIService.MQ.Reasons
import AIService.MQ.Recovery
import AIService.MQ.Retries
import AIService.MQ.Settlement
import AIService.Run
import AIService.Sessions.Admission
import AIService.Sessions.Cookie
import AIService.Sessions.Identity
import AIService.Sessions.Lifetime
import AIService.Sessions.Login
import AIService.Sessions.Logout
import AIService.Sessions.Manager
import AIService.Sessions.Resolution
import AIService.Sessions.Serial
import AIService.Sessions.Snapshots
import AIService.Sessions.Storage
import AIService.Settle
import AIService.Tools.Prompt
import AIService.Tools.Response
import AIService.Data.Handles
import AIService.Speech.Processor
import AIService.Chat.Pipeline
import AIService.Chat.Relay
