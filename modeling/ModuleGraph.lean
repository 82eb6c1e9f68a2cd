import ModuleGraph.Braces
import ModuleGraph.CommandLine.Arguments
import ModuleGraph.CommandLine.Outside
import ModuleGraph.CommandLine.Report
import ModuleGraph.CommandLine.Run
import ModuleGraph.Diagnostic
import ModuleGraph.Digest
import ModuleGraph.Directive
import ModuleGraph.Editor
import ModuleGraph.Event.Basic
import ModuleGraph.Event.Log
import ModuleGraph.Event.Record
import ModuleGraph.Fault
import ModuleGraph.Fault.Raised
import ModuleGraph.Fetch.Cache
import ModuleGraph.Fetch.Charset
import ModuleGraph.Fetch.Directory
import ModuleGraph.Fetch.Entry
import ModuleGraph.Fetch.Reply
import ModuleGraph.Fetch.RequestUrl
import ModuleGraph.Fetch.Source
import ModuleGraph.Fetch.World
import ModuleGraph.FilePath
import ModuleGraph.FileTree.Basic
import ModuleGraph.FileTree.Glob
import ModuleGraph.FileTree.Update
import ModuleGraph.FileTree.Wildcard
import ModuleGraph.Host
import ModuleGraph.ImportMap
import ModuleGraph.ImportMap.Record
import ModuleGraph.Json.Basic
import ModuleGraph.Json.Reader
import ModuleGraph.Json.Writer
import ModuleGraph.Library
import ModuleGraph.Loading.Schedule
import ModuleGraph.Loading.Step
import ModuleGraph.Loading.Task
import ModuleGraph.Log.Setup
import ModuleGraph.Log.Template
import ModuleGraph.Main
import ModuleGraph.ModuleStore
import ModuleGraph.Moment
import ModuleGraph.Project.Build
import ModuleGraph.Project.Config
import ModuleGraph.Project.Load
import ModuleGraph.Project.Options
import ModuleGraph.Project.Program
import ModuleGraph.Rewrite
import ModuleGraph.Schema
import ModuleGraph.SizeLabel
import ModuleGraph.SourceFile
import ModuleGraph.Syntax.Grammar
import ModuleGraph.Syntax.Lexeme
import ModuleGraph.Syntax.Peg
import ModuleGraph.Syntax.Script
import ModuleGraph.Syntax.Tree
import ModuleGraph.Table
import ModuleGraph.Text.Affix
import ModuleGraph.Text.Case
import ModuleGraph.Text.Hex
import ModuleGraph.Text.Markup
import ModuleGraph.Text.Printable
import ModuleGraph.Text.Quoted
import ModuleGraph.Text.Shown
import ModuleGraph.Text.Utf8
import ModuleGraph.Url.Address
import ModuleGraph.Url.Join
import ModuleGraph.Url.Percent
import ModuleGraph.Url.Punycode
import ModuleGraph.Url.Split
import ModuleGraph.VirtualPath
import ModuleGraph.Proofs.Action
import ModuleGraph.Proofs.Fetch.History
import ModuleGraph.Proofs.Loading.Containment
import ModuleGraph.Proofs.Loading.Termination
import ModuleGraph.Proofs.Loading.Libraries
import ModuleGraph.Proofs.Loading.Together
import ModuleGraph.Proofs.VirtualPath
import ModuleGraph.Proofs.Project.Build
import ModuleGraph.Proofs.FileTree
import ModuleGraph.Proofs.Fetch.Request
import ModuleGraph.Proofs.FilePath
import ModuleGraph.Proofs.Digest
import ModuleGraph.Proofs.Fetch.Cache
import ModuleGraph.Proofs.Json.Writer
import ModuleGraph.Proofs.Text.Affix
import ModuleGraph.Proofs.Text.Case
import ModuleGraph.Proofs.Host
import ModuleGraph.Proofs.Host.Stored
import ModuleGraph.Proofs.Syntax.Tree
import ModuleGraph.Proofs.Syntax.Peg
import ModuleGraph.Proofs.Syntax.Script
import ModuleGraph.Proofs.Rewrite.Answer
import ModuleGraph.Proofs.Rewrite.Order
import ModuleGraph.Proofs.Directive.Parts
import ModuleGraph.Proofs.Rewrite.Framed
import ModuleGraph.Proofs.Rewrite.ReadBack
import ModuleGraph.Proofs.Project.Libraries
import ModuleGraph.Proofs.Url.Join
import ModuleGraph.Proofs.Url.Percent
import ModuleGraph.Proofs.Library
import ModuleGraph.Proofs.Host.Library
import ModuleGraph.Proofs.Loading.Mirror
import ModuleGraph.Proofs.Fetch.Replay
import ModuleGraph.Proofs.Project.Rounds
import ModuleGraph.Proofs.Project.Course
import ModuleGraph.Proofs.Project.Rebuild
import ModuleGraph.Proofs.ImportMap
import ModuleGraph.Proofs.Json.Reader
import ModuleGraph.Proofs.Project.Configuration
import ModuleGraph.Proofs.Fetch.Escape
import ModuleGraph.Proofs.Loading.Search
import ModuleGraph.Proofs.Project.Fallback
import ModuleGraph.Proofs.Fetch.Beside
import ModuleGraph.Proofs.Loading.Alike
import ModuleGraph.Proofs.Project.Supply
import ModuleGraph.Proofs.Url.Absolute
import ModuleGraph.Proofs.ImportMap.Unmapped
import ModuleGraph.Proofs.Editor.Calls
import ModuleGraph.Proofs.Editor.Splice
import ModuleGraph.Proofs.ModuleStore.Calls
import ModuleGraph.Proofs.Fetch.Dispatch
import ModuleGraph.Proofs.Url.Longer
import ModuleGraph.Proofs.Url.Ending
import ModuleGraph.Proofs.ImportMap.Layered
import ModuleGraph.Proofs.Url.Below
import ModuleGraph.Proofs.Project.Directory
import ModuleGraph.Proofs.Url.Escaped
import ModuleGraph.Proofs.FilePath.Normal
import ModuleGraph.Proofs.Project.Entries
import ModuleGraph.Proofs.Braces
import ModuleGraph.Proofs.Diagnostic
import ModuleGraph.Proofs.Syntax.Walk
import ModuleGraph.Proofs.Syntax.Overwrite
import ModuleGraph.Proofs.Fault
