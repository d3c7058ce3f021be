import CommandShell.Text
import CommandShell.Text.Space
import CommandShell.Text.Utf8
import CommandShell.Text.Decimal
import CommandShell.Text.Grapheme.Class
import CommandShell.Text.Grapheme
import CommandShell.Bindings
import CommandShell.Chain
import CommandShell.Line
import CommandShell.Line.Cursor
import CommandShell.Variable
import CommandShell.Alias
import CommandShell.Alias.Definition
import CommandShell.Environment
import CommandShell.Path
import CommandShell.Fault
import CommandShell.Platform
import CommandShell.History.Record
import CommandShell.History
import CommandShell.Failure
import CommandShell.Output
import CommandShell.Arguments
import CommandShell.Builtin
import CommandShell.Session
import CommandShell.Builtin.Run
import CommandShell.Lookup
import CommandShell.Child
import CommandShell.Session.Dispatch
import CommandShell.Shell
import CommandShell.Host.FileSystem
import CommandShell.Host.Echo
import CommandShell.Host.Script
import CommandShell.Host.Launch
import CommandShell.Host.Terminal
import CommandShell.Host
import CommandShell.Settings
import CommandShell.Invocation
import CommandShell.Main
import CommandShell.Proofs.Text.Words
import CommandShell.Proofs.Text.Utf8
import CommandShell.Proofs.Line.Accepted
import CommandShell.Proofs.Chain.Concatenation
import CommandShell.Proofs.Chain.Rendering
import CommandShell.Proofs.Environment.Children
import CommandShell.Proofs.Shell.Queue
import CommandShell.Proofs.Shell.Composition
import CommandShell.Proofs.Shell.Literal
import CommandShell.Proofs.Shell.Termination
import CommandShell.Proofs.Session.Effect
import CommandShell.Proofs.Session.Frame
import CommandShell.Proofs.History.Records
import CommandShell.Proofs.History.Window
import CommandShell.Proofs.History.File
import CommandShell.Proofs.Shell.Recording
import CommandShell.Proofs.Host.RootFile
import CommandShell.Proofs.History.Sessions
import CommandShell.Proofs.History.Tail
import CommandShell.Proofs.History.Pushing
import CommandShell.Proofs.History.Appending
import CommandShell.Proofs.History.OneFile
import CommandShell.Proofs.History.Shared
import CommandShell.Proofs.History.Operation
import CommandShell.Proofs.History.Extending
import CommandShell.Proofs.Builtin.Failing
import CommandShell.Proofs.Shell.Commands
import CommandShell.Proofs.Shell.Leaving
import CommandShell.Proofs.Line.Cutting
import CommandShell.Proofs.Line.Reading
import CommandShell.Proofs.Session.Alike
import CommandShell.Proofs.Shell.Alike
import CommandShell.Proofs.Shell.Unseen
import CommandShell.Proofs.Shell.Drivers
import CommandShell.Proofs.History.Regular
import CommandShell.Proofs.History.Loading
import CommandShell.Proofs.Shell.Reaching
import CommandShell.Proofs.Builtin.Requests
import CommandShell.Proofs.Host.Canonical
import CommandShell.Proofs.Builtin.Moving
import CommandShell.Proofs.Line.Origin
import CommandShell.Proofs.Environment.Blocks
import CommandShell.Proofs.Shell.Directory
import CommandShell.Proofs.Shell.Receivable
import CommandShell.Proofs.Variable.Tokens
import CommandShell.Proofs.Line.Replaying
import CommandShell.Proofs.History.Rewriting
import CommandShell.Proofs.History.Returning
import CommandShell.Proofs.Lookup.Order
import CommandShell.Proofs.Bindings.Order
import CommandShell.Proofs.Alias.Listing
import CommandShell.Proofs.Text.Spacing
import CommandShell.Proofs.Alias.Defining
import CommandShell.Proofs.Shell.Back
import CommandShell.Proofs.Environment.Ordering
import CommandShell.Proofs.Builtin.Operands
import CommandShell.Proofs.Shell.Exiting
import CommandShell.Proofs.Alias.Parsing
