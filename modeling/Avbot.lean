import Avbot.Lib.EventMachine
import Avbot.Lib.PropertyTree
import Avbot.Lib.SegmentedInput
import Avbot.Lib.Words
import Avbot.Lib.Pattern
import Avbot.Lib.Scanner
import Avbot.Lib.Base64
import Avbot.Lib.Markup
import Avbot.Lib.Rows
import Avbot.Lib.Lexer
import Avbot.Lib.Sqlite
import Avbot.Lib.DoWhile
import Avbot.Lib.Utf16
import Avbot.Lib.Template
import Avbot.Lib.Fallible
import Avbot.Lib.Bisection
import Avbot.Lib.Wildcard
import Avbot.Lib.Chain
import Avbot.Lib.Occurrences
import Avbot.Lib.Recent
import Avbot.Base.ErrorCode
import Avbot.Base.Text
import Avbot.Base.MachineInt
import Avbot.Base.Ptree
import Avbot.Base.StringAlgo
import Avbot.Queue.AsyncCoroQueue
import Avbot.Queue.History
import Avbot.Webqq.Types
import Avbot.Webqq.BuddyMgr
import Avbot.Webqq.GroupMembers
import Avbot.Webqq.GroupTable
import Avbot.Webqq.GroupList
import Avbot.Webqq.GroupNumbers
import Avbot.Webqq.Login
import Avbot.Webqq.PollMessage
import Avbot.Webqq.GroupPictures
import Avbot.Webqq.MainLoop
import Avbot.Webqq.VerifyCodes
import Avbot.Webqq.GroupRefresh
import Avbot.Webqq.Hash
import Avbot.Webqq.Uin
import Avbot.Webqq.Unescape
import Avbot.Webqq.GroupMessageSender
import Avbot.Irc.Client
import Avbot.Irc.Requests
import Avbot.Irc.Loops
import Avbot.Irc.Reconnect
import Avbot.Mail.Pop3
import Avbot.Mail.ListAnswer
import Avbot.Mail.SmtpReply
import Avbot.Mail.Smtp
import Avbot.Mail.SmtpSession
import Avbot.Mail.Base64
import Avbot.Mail.Base64Standard
import Avbot.Mail.Imf
import Avbot.Mail.ImfLines
import Avbot.Mail.EncodedWord
import Avbot.Mail.ImfRoundTrip
import Avbot.Mail.EncodedWordLoop
import Avbot.Mail.Mime
import Avbot.Mail.ImfTermination
import Avbot.Mail.Folding
import Avbot.Mail.SelectContent
import Avbot.Bot.Channels
import Avbot.Bot.Callbacks
import Avbot.Bot.Preamble
import Avbot.Bot.Forward
import Avbot.Bot.Mail
import Avbot.Bot.Log
import Avbot.Bot.Html
import Avbot.Bot.Lecture
import Avbot.Bot.Accounts
import Avbot.Bot.FeedInput
import Avbot.Httpd.Options
import Avbot.Httpd.WriteResponse
import Avbot.Httpd.ReadRequest
import Avbot.Httpd.RequestHead
import Avbot.Rpc.Server
import Avbot.Rpc.Search
import Avbot.Http.Parsers
import Avbot.Http.HeaderFields
import Avbot.Http.ResponseHead
import Avbot.Http.Chunked
import Avbot.Http.Hex
import Avbot.Http.Percent
import Avbot.Http.Url
import Avbot.Http.Cookie
import Avbot.Http.Request
import Avbot.Http.Open
import Avbot.Http.Rangefield
import Avbot.Http.Bencode
import Avbot.Http.Bitfield
import Avbot.Http.FreeSpace
import Avbot.Http.AllocateRange
import Avbot.Http.FileUpload
import Avbot.Http.CookieMerge
import Avbot.Http.CookieFile
import Avbot.Http.ContentLength
import Avbot.Webqq.CookieStore
import Avbot.Http.Answer
import Avbot.Http.AsyncOpen
import Avbot.Http.AsyncRead
import Avbot.Http.Interim
import Avbot.Http.OpenAlike
import Avbot.Http.Reuse
import Avbot.Webqq.SaveCookies
import Avbot.Webqq.CookieConditions
import Avbot.Http.CookieDomain
import Avbot.Http.CookieJar
import Avbot.Http.SetCookie
import Avbot.Http.StatusLine
import Avbot.Http.Location
import Avbot.Http.RequestLines
import Avbot.Http.BasicAuth
import Avbot.Http.ContentDisposition
import Avbot.Qqwry.Ipdb
import Avbot.Qqwry.FindRecord
import Avbot.Qqwry.MatchExp
import Avbot.Qqwry.MatchArrays
import Avbot.Qqwry.MatchRecord
import Avbot.Qqwry.Redirects
import Avbot.Bot.UrlScan
import Avbot.Bot.UrlList
import Avbot.Bot.Bulletin
import Avbot.Http.Rangefields
import Avbot.Http.Pieces
import Avbot.Http.FetchData
import Avbot.Http.StartDownload
import Avbot.Lib.Calendar
import Avbot.Http.ShortTm
import Avbot.Http.BencodeCount
import Avbot.Http.BencodeSyntax
import Avbot.Mail.LineLimit
import Avbot.Lib.Dialogue
import Avbot.Http.Socks
