import QNXStuff.Library.Memory
import QNXStuff.Library.LinkedList
import QNXStuff.Library.Execution
import QNXStuff.Library.Faults
import QNXStuff.Library.Holding
import QNXStuff.Library.Ownership
import QNXStuff.Library.SearchTree
import QNXStuff.Library.Grouping
import QNXStuff.Library.Splitting
import QNXStuff.Library.Lifetimes
import QNXStuff.Library.SineTable
import QNXStuff.Library.Digests
import QNXStuff.Library.Fuel
import QNXStuff.Library.Reassembly
import QNXStuff.Library.SharedLock
import QNXStuff.Library.Conversation
import QNXStuff.Library.DotStuffing
import QNXStuff.Library.Registry
import QNXStuff.QXBase.PagePool
import QNXStuff.QXBase.PoolInvariant
import QNXStuff.QXBase.Locking
import QNXStuff.QXBase.Handlers
import QNXStuff.QXBase.Rows
import QNXStuff.QXBase.FlatTable
import QNXStuff.QXBase.Scan
import QNXStuff.QXBase.PageLoops
import QNXStuff.QXBase.Writes
import QNXStuff.QXBase.Lifecycle
import QNXStuff.QXBase.Refinement
import QNXStuff.QXBase.PassInvariants
import QNXStuff.QXBase.FailedInsert
import QNXStuff.QXBase.CountedRuns
import QNXStuff.QXBase.DiskRuns
import QNXStuff.QXBase.Reloading
import QNXStuff.QXBase.ClientCalls
import QNXStuff.QXBase.Fetch
import QNXStuff.QXBase.FetchChange
import QNXStuff.QXBase.RowInvariants
import QNXStuff.QXBase.Keys
import QNXStuff.QXBase.Seek
import QNXStuff.QXBase.TableList
import QNXStuff.QXBase.TableRuns
import QNXStuff.QXBase.TableNames
import QNXStuff.QXBase.Selecting
import QNXStuff.QXBase.CurrentRow
import QNXStuff.QXBase.Records
import QNXStuff.QXDns.Buffers
import QNXStuff.QXDns.Server
import QNXStuff.QXDns.Moves
import QNXStuff.QXDns.Queue
import QNXStuff.QXDns.Responses
import QNXStuff.QXDns.Relays
import QNXStuff.QXDns.Expiry
import QNXStuff.QXDns.Cache
import QNXStuff.QXDns.CacheSlots
import QNXStuff.QXDns.ReceivePass
import QNXStuff.QXDns.Questions
import QNXStuff.QXDns.CacheAnswers
import QNXStuff.QXDns.MasterNames
import QNXStuff.QXDns.NameMatches
import QNXStuff.QXDns.Master
import QNXStuff.QXDns.MasterReplies
import QNXStuff.QXDns.Replies
import QNXStuff.QXDns.Configuration
import QNXStuff.QXDns.MasterAnswers
import QNXStuff.QXBilling.Rules
import QNXStuff.QXBilling.RuleRounds
import QNXStuff.QXBilling.Logging
import QNXStuff.QXBilling.LogPeriods
import QNXStuff.QXBilling.Billing
import QNXStuff.QXBilling.BilledPackets
import QNXStuff.QXBilling.Sessions
import QNXStuff.QXBilling.Parsing
import QNXStuff.QXBilling.Mirror
import QNXStuff.QXBilling.Charging
import QNXStuff.QXBilling.Consistency
import QNXStuff.QXMail.Sockets
import QNXStuff.QXMail.Lines
import QNXStuff.QXMail.MailText
import QNXStuff.QXMail.Text
import QNXStuff.QXMail.Md5
import QNXStuff.QXMail.Hashes
import QNXStuff.QXMail.Smtp
import QNXStuff.QXMail.Challenges
import QNXStuff.QXMail.Base64
import QNXStuff.QXMail.MxNames
import QNXStuff.QXMail.MxQuestions
import QNXStuff.QXMail.MxAnswers
import QNXStuff.QXMail.Delivery
import QNXStuff.QXMail.DeliverySockets
import QNXStuff.QXMail.Recipients
import QNXStuff.QXMail.SmtpMoves
import QNXStuff.QXMail.SmtpSessions
import QNXStuff.QXMail.Relaying
import QNXStuff.QXMail.AcceptQueue
import QNXStuff.NfmNtc.AllowList
import QNXStuff.NfmNtc.PacketQueue
import QNXStuff.NfmNtc.Decisions
import QNXStuff.NfmNtc.Interfaces
import QNXStuff.NfmNtc.InterfaceRuns
import QNXStuff.NfmNtc.InterfacePackets
import QNXStuff.QXMail.Pop
import QNXStuff.QXMail.PopLocks
import QNXStuff.QXMail.PopMessages
import QNXStuff.QXMail.PopListing
import QNXStuff.GetConf.Tokens
import QNXStuff.GetConf.Reading
import QNXStuff.GetConf.ConfRuns
import QNXStuff.GetConf.Scripts
import QNXStuff.GetConf.Realms
import QNXStuff.QXBase.UpdateRules
import QNXStuff.QXBase.RuleRuns
import QNXStuff.QXBase.Resize
import QNXStuff.QXBase.ResizedRows
import QNXStuff.QXBase.FieldSets
import QNXStuff.QXBase.Requests
import QNXStuff.QXBase.Breaches
import QNXStuff.QXBase.SafeScans
import QNXStuff.QXBase.SafeRequests
import QNXStuff.QXBilling.EndOfDay
import QNXStuff.QXBilling.Loading
import QNXStuff.QXVpn.Calls
import QNXStuff.QXVpn.Gre
import QNXStuff.QXVpn.ControlBytes
import QNXStuff.DevnSer.Sending
import QNXStuff.DevnSer.Receiving
import QNXStuff.QXBase.Comparisons
import QNXStuff.QXBase.Offsets
import QNXStuff.QXBase.PoolShape
import QNXStuff.QXBase.AnyDisk
import QNXStuff.QXBase.PoolRuns
import QNXStuff.QXBase.FetchInserted
import QNXStuff.QXAvird.Engines
import QNXStuff.QXAvird.Reloads
import QNXStuff.QXAvird.Accounts
import QNXStuff.QXAvird.Counters
import QNXStuff.QXMail.Spool
import QNXStuff.QXMail.SpoolMoves
import QNXStuff.QXMail.SpoolRuns
import QNXStuff.QXMail.SpoolDelivery
import QNXStuff.QXMail.TextCuts
import QNXStuff.QXMail.Handover
import QNXStuff.QXMail.HandoverTurns
import QNXStuff.QXMail.HandoverRuns
import QNXStuff.QXMail.TextRoundTrip
import QNXStuff.QXDns.Setup
import QNXStuff.QXDns.SetupAnswers
import QNXStuff.QXMail.Setup
import QNXStuff.QXBilling.Settings
