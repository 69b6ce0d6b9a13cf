import Dmtap.Lib.Reader
import Dmtap.Lib.Sorting
import Dmtap.Cbor.Value
import Dmtap.Cbor.Decode
import Dmtap.Cbor.Canonical
import Dmtap.Cbor.RoundTrip
import Dmtap.Id
import Dmtap.Kt.Tree
import Dmtap.Suite
import Dmtap.Kt.Log
import Dmtap.Kt.Inclusion
import Dmtap.Kt.Consistency
import Dmtap.Cbor.Fields
import Dmtap.Cbor.Lossless
import Dmtap.Mote.Envelope
import Dmtap.Identity.Objects
import Dmtap.Kt.Wire
import Dmtap.Capability
import Dmtap.Pub.Objects
import Dmtap.Cbor.Rewrites
import Dmtap.Objects
import Dmtap.Mote.Payload
import Dmtap.Identity.Recovery
import Dmtap.Lib.Segment
import Dmtap.Pub.Feed
import Dmtap.Identity.Keys
import Dmtap.Delegation
import Dmtap.Identity.RecoveryGuard
import Dmtap.Cbor.Restores
import Dmtap.Mote.Restores
import Dmtap.Mote.Preimage
import Dmtap.Mote.Validate
import Dmtap.Mote.Build
import Dmtap.Mote.Pinned
import Dmtap.Identity.Rotation
import Dmtap.Lib.HighWater
import Dmtap.Location
import Dmtap.Mixnet
import Dmtap.Trackers
import Dmtap.Pub.Merkle
import Dmtap.Pub.Topics
import Dmtap.Lib.Search
import Dmtap.Lib.Ledger
import Dmtap.Mail.Text
import Dmtap.Mail.Base64
import Dmtap.Mail.Store
import Dmtap.Mail.Journal
import Dmtap.Mail.Imap.Sequence
import Dmtap.Mail.Imap.Command
import Dmtap.Mail.Imap.Parser
import Dmtap.Mail.Auth
import Dmtap.Mail.Imap.Reply
import Dmtap.Mail.Imap.Session
import Dmtap.Mail.Md5
import Dmtap.Mail.Mime
import Dmtap.Mail.Pop3
import Dmtap.Mail.Changes
import Dmtap.Mail.Jmap
import Dmtap.Mail.JsonPointer
import Dmtap.Mail.Smtp
import Dmtap.Mail.Operations
import Dmtap.Mail.Imap.Login
import Dmtap.Mail.Invariant
import Dmtap.Mail.Resync
import Dmtap.Mail.Refresh
import Dmtap.Mail.Reuse
import Dmtap.Mail.Cleartext
import Dmtap.Mail.Imap.Fuel
import Dmtap.Lib.Positions
import Dmtap.Mail.Imap.States
import Dmtap.Mail.Imap.Targets
import Dmtap.Mail.Imap.Copy
import Dmtap.Mail.Imap.Expunge
import Dmtap.Mail.Imap.Examine
import Dmtap.Mail.Imap.SearchGrammar
import Dmtap.Mail.Transactions
import Dmtap.Lib.BufReader
import Dmtap.Mail.Net
import Dmtap.Mail.Imap.Tokens
import Dmtap.Mail.Ascii
import Dmtap.Mail.Imap.Framing
import Dmtap.Mail.HeaderBlock
import Dmtap.Mail.HeaderValues
import Dmtap.Mail.Rfc5322
import Dmtap.Mail.Compose
import Dmtap.Mail.Carriage
import Dmtap.Mail.TrustBoundary
import Dmtap.Identity.Keyname
import Dmtap.Mail.Dates
import Dmtap.Mail.EncodedWords
import Dmtap.Mail.Fields
import Dmtap.Mail.Maildrop
import Dmtap.Identity.Verify
import Dmtap.Pub.History
import Dmtap.Lib.Overflow
import Dmtap.Pub.SeqRange
import Dmtap.Cad.Bom
import Dmtap.Mote.Tiers
import Dmtap.Cad.Bills
import Dmtap.Cad.Unknown
import Dmtap.Lib.Word
import Dmtap.Rtc.Sdp
import Dmtap.Rtc.Sections
import Dmtap.Rtc.Capacity
import Dmtap.Rtc.Admission
import Dmtap.Rtc.Published
import Dmtap.Rtc.Wire
import Dmtap.Lib.Windows
import Dmtap.Pub.Hints
import Dmtap.Lib.Inet
import Dmtap.Lib.InetParse
import Dmtap.Identity.Avatar
import Dmtap.Identity.AvatarTargets
import Dmtap.Identity.AvatarUrls
import Dmtap.Mail.Imap.Vanished
import Dmtap.Mail.Imap.SearchRes
import Dmtap.Mail.Imap.Conditional
import Dmtap.Lib.UnionFind
import Dmtap.Lib.Buckets
import Dmtap.Mail.Imap.Threads
import Dmtap.Mail.Addresses
import Dmtap.Mail.Imap.Envelope
import Dmtap.Mail.EmailGet
import Dmtap.Mail.Keywords
import Dmtap.Lib.Marks
import Dmtap.Mail.Snippets
import Dmtap.Mail.Dialogue
import Dmtap.Lib.Calendar
import Dmtap.Lib.Signed
import Dmtap.Mail.InternalDate
import Dmtap.Mail.DateTimes
import Dmtap.Mail.Imap.SequenceGrammar
import Dmtap.Mail.Imap.Listed
import Dmtap.Mail.Multipart
import Dmtap.Mail.TransferEncoding
import Dmtap.Mail.DotStuffing
import Dmtap.Lib.Globs
import Dmtap.Mail.Imap.Wildcards
import Dmtap.Mail.Imap.SequenceText
import Dmtap.Lib.OnceOnly
import Dmtap.Push
import Dmtap.Policy
import Dmtap.Negotiation
import Dmtap.Mote.Spool
import Dmtap.Cbor.Transport
import Dmtap.Identity.Transport
import Dmtap.Pub.Transport
import Dmtap.Pub.Fetch
import Dmtap.Pub.Subscription
import Dmtap.Kt.Monitor
import Dmtap.Lib.Layout
import Dmtap.Sphinx
import Dmtap.Lib.Conversation
import Dmtap.Mail.Served
import Dmtap.Mail.BodyStructure
import Dmtap.Lib.Nested
import Dmtap.Mail.Imap.Printing
import Dmtap.Mail.Imap.FetchReply
import Dmtap.Mail.Imap.CatchUp
import Dmtap.Lib.Criteria
import Dmtap.Mail.Imap.Sort
import Dmtap.Mail.Rendered
import Dmtap.Mail.Imap.SearchText
import Dmtap.Mail.JmapMethods
import Dmtap.Mail.Dsn
