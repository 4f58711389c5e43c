import SmtpClient.Proof.InFlight
import SmtpClient.Proof.Keywords
import SmtpClient.Proof.ProtocolOrder
import SmtpClient.Proof.LogText
import SmtpClient.Proof.PeerClose
import SmtpClient.Proof.Wire
import SmtpClient.Proof.Stranded
import SmtpClient.Proof.EhloReply
import SmtpClient.Proof.Injection
import SmtpClient.Proof.Hostname
import SmtpClient.Proof.Accounting
import SmtpClient.Proof.ReplyGrammar
import SmtpClient.Proof.EndOfData
import SmtpClient.Proof.Mailbox
import SmtpClient.Proof.SharedCaps
import SmtpClient.Proof.Deadlines
import SmtpClient.Proof.Segments
import SmtpClient.Proof.OneShot
import SmtpClient.Proof.LatePackets
import SmtpClient.Proof.Releases
import SmtpClient.Proof.CertInfo
import SmtpClient.Proof.Verdicts
import SmtpClient.Proof.EhloLines
import SmtpClient.Proof.UnknownStore
import SmtpClient.Proof.SizeLimit
import SmtpClient.Proof.AuthMechs
import SmtpClient.Proof.LengthLimits
import SmtpClient.Proof.Backends
import SmtpClient.Proof.ZeroDecrypt
import SmtpClient.Proof.CommandSafe
import SmtpClient.Proof.FoldedValue
import SmtpClient.Proof.WireReady
import SmtpClient.Proof.PollTimeouts
import SmtpClient.Proof.Completion
import SmtpClient.Proof.Accumulation
import SmtpClient.HexDump
import SmtpClient.Proof.Dumps
import SmtpClient.SummaryBuffer
import SmtpClient.Proof.Summary
import SmtpClient.Proof.Stopping
import SmtpClient.Proof.Submissions
import SmtpClient.KqueueSession
import SmtpClient.Proof.KqueueOneShot
import SmtpClient.Proof.Contract
import SmtpClient.Proof.Node
import SmtpClient.Base.Interleaved
import SmtpClient.Base.Ensures
import SmtpClient.LogFile
import SmtpClient.Proof.LogLines
import SmtpClient.Proof.LoggedTexts
import SmtpClient.Chronicle
import SmtpClient.Proof.Chronicle
import SmtpClient.Proof.Conversation
import SmtpClient.Proof.Vetting
import SmtpClient.Proof.Certified
import SmtpClient.Proof.Ciphertext
