import RubyInfer.Cache.Basic
import RubyInfer.Cache.Entry
import RubyInfer.Cli.Args
import RubyInfer.Cli.Run
import RubyInfer.Diagnostic
import RubyInfer.Digest
import RubyInfer.Double
import RubyInfer.Dumper
import RubyInfer.Error
import RubyInfer.FileTree
import RubyInfer.Json.Basic
import RubyInfer.Json.Document
import RubyInfer.Json.Pretty
import RubyInfer.Main
import RubyInfer.Options.Basic
import RubyInfer.Options.Read
import RubyInfer.Path.Basic
import RubyInfer.Path.Table
import RubyInfer.Program.Condition
import RubyInfer.Program.Format
import RubyInfer.Program.Integer
import RubyInfer.Program.Pattern
import RubyInfer.Program.Running
import RubyInfer.Program.Script
import RubyInfer.Program.Shell
import RubyInfer.Program.Stream
import RubyInfer.Program.Sum
import RubyInfer.Program.Utility
import RubyInfer.Proofs.Diagnostic
import RubyInfer.Proofs.Path.Table
import RubyInfer.Proofs.Session.Application
import RubyInfer.Proofs.Session.Coherence
import RubyInfer.Proofs.Session.Does
import RubyInfer.Proofs.Session.Effects
import RubyInfer.Proofs.Session.Growth
import RubyInfer.Proofs.Session.Guards
import RubyInfer.Proofs.Session.Inference
import RubyInfer.Proofs.Session.Reachable
import RubyInfer.Proofs.Session.Runs
import RubyInfer.Proofs.Session.Sound
import RubyInfer.Proofs.Store.Erasure
import RubyInfer.Proofs.Store.Index
import RubyInfer.Proofs.Store.Linked
import RubyInfer.Proofs.Store.Registry
import RubyInfer.Proofs.Store.Renumber
import RubyInfer.Proofs.Store.Scopes
import RubyInfer.Proofs.Store.Trimmed
import RubyInfer.Proofs.Ty.Union
import RubyInfer.Session.Apply
import RubyInfer.Session.Basic
import RubyInfer.Session.Call
import RubyInfer.Session.Define
import RubyInfer.Session.Finish
import RubyInfer.Session.Infer
import RubyInfer.Session.Load
import RubyInfer.Session.Member
import RubyInfer.Session.Project
import RubyInfer.Session.Resolve
import RubyInfer.Session.Summary
import RubyInfer.Session.Target
import RubyInfer.Store.Binding
import RubyInfer.Store.Registry
import RubyInfer.Store.Scopes
import RubyInfer.Syntax.Arena
import RubyInfer.Syntax.Codec
import RubyInfer.Syntax.Dump
import RubyInfer.Syntax.Kind
import RubyInfer.Syntax.Span
import RubyInfer.Text.Constant
import RubyInfer.Text.Hidden
import RubyInfer.Text.Letter
import RubyInfer.Text.Octets
import RubyInfer.Text.Quoted
import RubyInfer.Text.Run
import RubyInfer.Toml.Read
import RubyInfer.Toml.Scalar
import RubyInfer.Toml.Value
import RubyInfer.Ty.Basic
import RubyInfer.Ty.Operator
import RubyInfer.Proofs.Store.Definition
import RubyInfer.Proofs.Session.Unused
import RubyInfer.Proofs.Syntax.Forest
import RubyInfer.Proofs.Syntax.Conversion
import RubyInfer.Proofs.Json.Text
import RubyInfer.Proofs.Syntax.Codec
import RubyInfer.Proofs.Cache.Entry
import RubyInfer.Proofs.Cache.Work
import RubyInfer.Proofs.Recursion
import RubyInfer.Proofs.Session.Members
import RubyInfer.Proofs.Session.Termination
import RubyInfer.Proofs.Session.Catalogue
import RubyInfer.Proofs.Session.Draining
import RubyInfer.Proofs.Session.Bodies
import RubyInfer.Proofs.Session.Idempotence
import RubyInfer.Proofs.Session.Course
import RubyInfer.Proofs.Session.Telling
import RubyInfer.Proofs.Session.Reentry
import RubyInfer.Proofs.Session.Circular
import RubyInfer.Proofs.Cache.Tiers
import RubyInfer.Proofs.Session.Removal
import RubyInfer.Proofs.Ty.Twin
import RubyInfer.Proofs.Store.Twin
import RubyInfer.Proofs.Session.Twin
import RubyInfer.Proofs.Session.TwinSteps
import RubyInfer.Proofs.Session.Mirror
import RubyInfer.Proofs.Session.Alongside
import RubyInfer.Proofs.Session.Confined
import RubyInfer.Proofs.Session.Elsewhere
import RubyInfer.Proofs.Session.Shown
import RubyInfer.Proofs.Session.Reloading
import RubyInfer.Proofs.FileTree.Ordered
import RubyInfer.Proofs.FileTree.Below
import RubyInfer.Proofs.Cache.Paired
import RubyInfer.Proofs.Session.Settings
import RubyInfer.Proofs.Store.Ledger
import RubyInfer.Proofs.Ty.Order
import RubyInfer.Proofs.Ty.Canonical
import RubyInfer.Proofs.Session.Canonical
import RubyInfer.Proofs.Preorder
import RubyInfer.Proofs.Session.Resolution
import RubyInfer.Proofs.Session.Receivers
import RubyInfer.Proofs.Ty.Semilattice
import RubyInfer.Proofs.Ty.Shape
import RubyInfer.Proofs.Json.Torn
import RubyInfer.Proofs.Cache.Hits
import RubyInfer.Proofs.Session.Locals
import RubyInfer.Proofs.Session.Outcomes
import RubyInfer.Proofs.Session.Required
import RubyInfer.Proofs.Ty.Lawful
import RubyInfer.Proofs.Syntax.Copy
import RubyInfer.Proofs.Session.Delivery
