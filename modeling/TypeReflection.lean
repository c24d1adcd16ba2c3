import TypeReflection.Naming
import TypeReflection.Text.Search
import TypeReflection.Text.Alphanumeric
import TypeReflection.Text.Printable
import TypeReflection.Text.GraphemeExtend
import TypeReflection.Token.Basic
import TypeReflection.Token.Scan
import TypeReflection.Token.Stream
import TypeReflection.Token.Lexer
import TypeReflection.Token.Spelling
import TypeReflection.Decl.Basic
import TypeReflection.Decl.ReadOnly
import TypeReflection.Parse.Diagnostic
import TypeReflection.Parse.Cursor
import TypeReflection.Parse.Scan
import TypeReflection.Parse.Decorator
import TypeReflection.Parse.Member
import TypeReflection.Parse.Record
import TypeReflection.Parse.Enum
import TypeReflection.Parse.File
import TypeReflection.Text.WhiteSpace
import TypeReflection.FileId
import TypeReflection.Plan
import TypeReflection.Emit.Quote
import TypeReflection.Emit.Macro
import TypeReflection.Emit.Header
import TypeReflection.Emit.Project
import TypeReflection.EnumValue
import TypeReflection.Decimal.Shortest
import TypeReflection.Registry.Value
import TypeReflection.Registry.Object
import TypeReflection.Registry.Error
import TypeReflection.Registry.Enum
import TypeReflection.Registry.Property
import TypeReflection.Registry.Basic
import TypeReflection.Registry.Archive
import TypeReflection.Registry.Registration
import TypeReflection.Registry.Debug
import TypeReflection.Text.Utf8
import TypeReflection.Binary64
import TypeReflection.Text.Similarity
import TypeReflection.Path
import TypeReflection.Disk
import TypeReflection.Disk.Memory
import TypeReflection.HeaderFiles
import TypeReflection.Options.CommandLine
import TypeReflection.Options.SettingsFile
import TypeReflection.Options.Settings
import TypeReflection.Generation
import TypeReflection.Tool
import TypeReflection.Main
import TypeReflection.Proofs.Registry.Reachability
import TypeReflection.Proofs.Registry.Edges
import TypeReflection.Proofs.Registry.WellFormed
import TypeReflection.Proofs.Registry.Inheritance
import TypeReflection.Proofs.Registry.PropertyLookup
import TypeReflection.Proofs.Registry.AddParent
import TypeReflection.Proofs.Text.FirstOccurrence
import TypeReflection.Proofs.Emit.RecordedId
import TypeReflection.Proofs.Disk.Names
import TypeReflection.Proofs.Disk.Operations
import TypeReflection.Proofs.Disk.Run
import TypeReflection.Proofs.Disk.Scan
import TypeReflection.Proofs.Generation.ForcedRun
import TypeReflection.Proofs.Disk.Agree
import TypeReflection.Proofs.FileId.Render
import TypeReflection.Proofs.Generation.Reuse
import TypeReflection.Proofs.Generation.FirstRun
import TypeReflection.Proofs.Generation.Rerun
import TypeReflection.Proofs.Generation.ProjectEntries
import TypeReflection.Proofs.Token.Scan
import TypeReflection.Proofs.Token.Positions
import TypeReflection.Proofs.Emit.Literal
import TypeReflection.Proofs.Parse.Run
import TypeReflection.Proofs.Parse.Forward
import TypeReflection.Proofs.Parse.Rounds
import TypeReflection.Proofs.Parse.Braces
import TypeReflection.Proofs.Parse.Safety
import TypeReflection.Proofs.Parse.Passes
import TypeReflection.Proofs.Parse.Body
import TypeReflection.Proofs.Token.Join
import TypeReflection.Proofs.Parse.Names
import TypeReflection.Proofs.Emit.Macros
import TypeReflection.Proofs.Emit.HeaderMacros
import TypeReflection.Proofs.Parse.Follow
import TypeReflection.Proofs.Parse.DecoratorGrammar
import TypeReflection.Proofs.Parse.EnumValues
import TypeReflection.Proofs.Registry.PropertyWrite
import TypeReflection.Proofs.Registry.Serialization
import TypeReflection.Proofs.Parse.Relocate
import TypeReflection.Proofs.Registry.EnumEntries
import TypeReflection.Proofs.FileId.Reading
import TypeReflection.Proofs.Token.Markers
import TypeReflection.Proofs.Parse.Declarator
import TypeReflection.Proofs.Parse.Insertion
import TypeReflection.Proofs.Emit.Unescape
import TypeReflection.Proofs.Parse.MethodDeclaration
import TypeReflection.Proofs.Generation.ParseFailure
import TypeReflection.Proofs.Token.Lexemes
import TypeReflection.Proofs.Token.Reread
import TypeReflection.Proofs.Token.Respell
