import JpaScaffold.Batch
import JpaScaffold.CommandLine.Arguments
import JpaScaffold.CommandLine.Program
import JpaScaffold.Config
import JpaScaffold.Config.File
import JpaScaffold.Config.JavaType
import JpaScaffold.Config.Toml
import JpaScaffold.Ddl.Keywords
import JpaScaffold.Ddl.Marked
import JpaScaffold.Ddl.Script
import JpaScaffold.Entity
import JpaScaffold.Files.Path
import JpaScaffold.Files.Tree
import JpaScaffold.Formatter
import JpaScaffold.GeneratedFile
import JpaScaffold.Java.BuildError
import JpaScaffold.Java.Draft
import JpaScaffold.Java.Layout
import JpaScaffold.Java.Layout.Scope
import JpaScaffold.Java.Layout.State
import JpaScaffold.Java.Lexer
import JpaScaffold.Java.Name
import JpaScaffold.Java.Render
import JpaScaffold.Java.SourceError
import JpaScaffold.Java.Token
import JpaScaffold.Java.Tree
import JpaScaffold.Java.TypeDraft
import JpaScaffold.Java.TypeRef
import JpaScaffold.Java.UnitDraft
import JpaScaffold.Main
import JpaScaffold.NameMap
import JpaScaffold.Naming
import JpaScaffold.Notice
import JpaScaffold.Programs.Program
import JpaScaffold.Programs.Shell
import JpaScaffold.Programs.Simple
import JpaScaffold.Programs.Transliterate
import JpaScaffold.Sql.CreateTable
import JpaScaffold.Sql.DataTypeParser
import JpaScaffold.Sql.ExpressionParser
import JpaScaffold.Sql.Parser
import JpaScaffold.Sql.StatementParser
import JpaScaffold.Sql.Token
import JpaScaffold.Sql.TypeName
import JpaScaffold.Table
import JpaScaffold.Table.Reading
import JpaScaffold.TableError
import JpaScaffold.Text.Case
import JpaScaffold.Text.CaseContext
import JpaScaffold.Text.Count
import JpaScaffold.Text.Letters
import JpaScaffold.Text.Printable
import JpaScaffold.Text.Quoted
import JpaScaffold.Text.Span
import JpaScaffold.Text.Trim
import JpaScaffold.Text.Utf8
import JpaScaffold.Text.Words
import JpaScaffold.Toml.Document
import JpaScaffold.Toml.Printer
import JpaScaffold.Toml.Reader
import JpaScaffold.Toml.Scalar
import JpaScaffold.Toml.Value
import JpaScaffold.Units.EntityUnit
import JpaScaffold.Units.KeyUnit
import JpaScaffold.Units.Members
import JpaScaffold.Units.Policy
import JpaScaffold.Units.RepositoryUnit
import JpaScaffold.Units.TableUnits
import JpaScaffold.Units.ValueObjectUnit
import JpaScaffold.Proofs.Java.Lexeme
import JpaScaffold.Proofs.Java.Scan
import JpaScaffold.Proofs.Layout.Move
import JpaScaffold.Proofs.Layout.Page
import JpaScaffold.Proofs.Layout.CommentLines
import JpaScaffold.Proofs.Layout.Emission
import JpaScaffold.Proofs.Layout.Kept
import JpaScaffold.Proofs.Layout.Preservation
import JpaScaffold.Proofs.Layout.Growth
import JpaScaffold.Proofs.Layout.Held
import JpaScaffold.Proofs.Java.Build
import JpaScaffold.Proofs.Layout.Alike
import JpaScaffold.Proofs.Units.Fields
import JpaScaffold.Proofs.Layout.Annotations
import JpaScaffold.Proofs.Layout.Seams
import JpaScaffold.Proofs.Layout.Recurrence
import JpaScaffold.Proofs.Layout.Decorations
import JpaScaffold.Proofs.Layout.Idempotence
import JpaScaffold.Proofs.Layout.Members
import JpaScaffold.Proofs.Layout.Sources
import JpaScaffold.Proofs.Layout.Phrases
import JpaScaffold.Proofs.Java.Rendering
import JpaScaffold.Proofs.Java.TypeRef
import JpaScaffold.Proofs.Java.ImportSet
import JpaScaffold.Proofs.Java.Name
import JpaScaffold.Proofs.Units.Built
import JpaScaffold.Proofs.Units.Success
import JpaScaffold.Proofs.Units.Key
import JpaScaffold.Proofs.Units.FieldNames
import JpaScaffold.Proofs.Text.Trim
import JpaScaffold.Proofs.Results
import JpaScaffold.Proofs.Text.Utf8
import JpaScaffold.Proofs.Ddl.Mask
import JpaScaffold.Proofs.Ddl.Keywords
import JpaScaffold.Proofs.Ddl.Regions
import JpaScaffold.Proofs.Ddl.Bytes
import JpaScaffold.Proofs.Ddl.Offsets
import JpaScaffold.Proofs.Ddl.Scanning
import JpaScaffold.Proofs.Ddl.Safety
import JpaScaffold.Proofs.Ddl.Returns
import JpaScaffold.Proofs.Ddl.Ends
import JpaScaffold.Proofs.Ddl.Statements
import JpaScaffold.Proofs.Ddl.Extents
import JpaScaffold.Proofs.Table.Reading
import JpaScaffold.Proofs.Table.Clause
import JpaScaffold.Proofs.Batch.Tally
import JpaScaffold.Proofs.Batch.Completion
import JpaScaffold.Proofs.Batch.Paths
import JpaScaffold.Proofs.Batch.Filing
import JpaScaffold.Proofs.Batch.Written
import JpaScaffold.Proofs.Batch.Cleaning
import JpaScaffold.Proofs.Files.Frame
import JpaScaffold.Proofs.Sql.Lexemes
import JpaScaffold.Proofs.Sql.TableName
import JpaScaffold.Proofs.Ddl.Heading
import JpaScaffold.Proofs.Table.Name
import JpaScaffold.Proofs.Java.UnitSource
import JpaScaffold.Proofs.Units.Values
import JpaScaffold.Proofs.Units.Regular
import JpaScaffold.Proofs.Java.TypeText
import JpaScaffold.Proofs.Java.UnitParts
import JpaScaffold.Proofs.Units.Failure
import JpaScaffold.Proofs.Units.Precedence
import JpaScaffold.Proofs.Units.Identity
import JpaScaffold.Proofs.Batch.Defects
import JpaScaffold.Proofs.Units.Annotations
import JpaScaffold.Proofs.Java.CommentText
import JpaScaffold.Proofs.Layout.Delimiters
import JpaScaffold.Proofs.Toml.Strings
import JpaScaffold.Proofs.Toml.Values
import JpaScaffold.Proofs.Toml.Documents
import JpaScaffold.Proofs.Config.Overlay
import JpaScaffold.Proofs.Layout.Outline
import JpaScaffold.Proofs.Layout.Waiting
import JpaScaffold.Proofs.Layout.Placement
import JpaScaffold.Proofs.Units.Builders
import JpaScaffold.Proofs.Units.Setters
import JpaScaffold.Proofs.Table.Keys
import JpaScaffold.Proofs.Java.StringLiteral
import JpaScaffold.Proofs.Java.Shape
import JpaScaffold.Proofs.Java.Spelling
import JpaScaffold.Proofs.Java.Lines
import JpaScaffold.Proofs.Java.ClassParts
import JpaScaffold.Proofs.Java.Statements
import JpaScaffold.Proofs.Java.Wildcards
import JpaScaffold.Proofs.Text.Words
import JpaScaffold.Proofs.Sql.TypeName
import JpaScaffold.Proofs.Layout.Checked
import JpaScaffold.Proofs.Layout.ChainPoints
import JpaScaffold.Proofs.Layout.Iterations
import JpaScaffold.Proofs.Layout.Slices
