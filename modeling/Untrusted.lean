import Untrusted.Display.Report
import Untrusted.Inquiry
import Untrusted.Json.Parse
import Untrusted.Json.Print
import Untrusted.Json.Report
import Untrusted.Program.Names
import Untrusted.Proofs.Backtrace
import Untrusted.Proofs.Consistent
import Untrusted.Proofs.Course
import Untrusted.Proofs.DebugLog
import Untrusted.Proofs.Decoding
import Untrusted.Proofs.Display.Colors
import Untrusted.Proofs.Display.Failures
import Untrusted.Proofs.Display.ReadBack
import Untrusted.Proofs.Entries
import Untrusted.Proofs.FixedWidth.Reads
import Untrusted.Proofs.Lossless
import Untrusted.Proofs.Pattern.Texts
import Untrusted.Proofs.Regex.Offsets
import Untrusted.Proofs.Relocation.Programs
import Untrusted.Proofs.Restoring
import Untrusted.Proofs.Scopes.Programs
import Untrusted.Proofs.Session
import Untrusted.Proofs.Settings.Numbers
import Untrusted.Proofs.Siblings
import Untrusted.Proofs.Streaming
import Untrusted.Proofs.Utf8.Surrogates
import Untrusted.Proofs.View.Places
import Untrusted.Proofs.View.Tokens
import Untrusted.Regex.Parse
import Untrusted.Settings.Import
