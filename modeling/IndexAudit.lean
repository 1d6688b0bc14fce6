import IndexAudit.Text.CharRun
import IndexAudit.Text.Alphabetic
import IndexAudit.Text.Numeric
import IndexAudit.Text.LetterCase
import IndexAudit.Text.CaseContext
import IndexAudit.Text.LowercaseShift
import IndexAudit.Text.Lowercase
import IndexAudit.Text.Blank
import IndexAudit.Text.Search
import IndexAudit.Naming
import IndexAudit.Nesting
import IndexAudit.Code.Line
import IndexAudit.Code.Glyph
import IndexAudit.Code.Literal
import IndexAudit.Code.Bracket
import IndexAudit.Code.AnnotationUse
import IndexAudit.Sql.Token
import IndexAudit.Mapping
import IndexAudit.Code.Declaration
import IndexAudit.Code.Segment
import IndexAudit.Entity
import IndexAudit.Query.Derived
import IndexAudit.Query.Jpql
import IndexAudit.Query.Native
import IndexAudit.Query.Column
import IndexAudit.Query.Suppression
import IndexAudit.Query.Repository
import IndexAudit.IndexDefinition
import IndexAudit.Sql.IndexStatement
import IndexAudit.Text.Utf8
import IndexAudit.Files.Path
import IndexAudit.Files.Tree
import IndexAudit.Decimal.Binary64
import IndexAudit.Decimal.Shortest
import IndexAudit.Yaml.Value
import IndexAudit.Yaml.Scalar
import IndexAudit.Yaml.Cursor
import IndexAudit.Yaml.Token
import IndexAudit.Yaml.Token.Scalar
import IndexAudit.Yaml.Token.Lexer
import IndexAudit.Yaml.Node
import IndexAudit.Yaml.Document
import IndexAudit.Changelog.Change
import IndexAudit.Changelog.OfYaml
import IndexAudit.Decimal.Scaled
import IndexAudit.Json.Value
import IndexAudit.Json.Token
import IndexAudit.Json.Document
import IndexAudit.Yaml.OfJson
import IndexAudit.Changelog.Document
import IndexAudit.Xml.Reference
import IndexAudit.Xml.Tag
import IndexAudit.Xml.Mark
import IndexAudit.Xml.Element
import IndexAudit.Changelog.OfXml
import IndexAudit.Changelog.Walk
import IndexAudit.Keyed
import IndexAudit.Finding
import IndexAudit.Exclusions
import IndexAudit.Comparison
import IndexAudit.Baseline.Comparison
import IndexAudit.Module.Analysis
import IndexAudit.Module.Layout
import IndexAudit.Module.Tasks
import IndexAudit.Json.Indented
import IndexAudit.Timestamp
import IndexAudit.Baseline.File
import IndexAudit.Text.Numeral
import IndexAudit.Toml.Value
import IndexAudit.Toml.Quoted
import IndexAudit.Toml.Number
import IndexAudit.Toml.Statement
import IndexAudit.Toml.Document
import IndexAudit.Config.Environment
import IndexAudit.Config.Logging
import IndexAudit.Config.Settings
import IndexAudit.Module.Discovery
import IndexAudit.Command.Error
import IndexAudit.Command.Project
import IndexAudit.Command.Parameter
import IndexAudit.Command.Options
import IndexAudit.Command.Request
import IndexAudit.Report.Line
import IndexAudit.Report.Check
import IndexAudit.Report.Program
import IndexAudit.Command.Run
import IndexAudit.Report.Usage
import IndexAudit.Main
import IndexAudit.Proofs.Text.Lowercase
import IndexAudit.Proofs.Keyed
import IndexAudit.Proofs.Comparison
import IndexAudit.Proofs.Baseline.File
import IndexAudit.Proofs.Json.Indented
import IndexAudit.Proofs.Files.Tree
import IndexAudit.Proofs.Baseline.Acceptance
import IndexAudit.Proofs.Files.Path
import IndexAudit.Proofs.Files.Place
import IndexAudit.Proofs.Changelog.Reference
import IndexAudit.Proofs.Changelog.Walk
import IndexAudit.Proofs.Changelog.Reach
import IndexAudit.Proofs.Sql.Spelling
import IndexAudit.Proofs.Query.Clause
import IndexAudit.Proofs.Sql.Nesting
import IndexAudit.Proofs.Query.Condition
import IndexAudit.Proofs.Query.Extent
import IndexAudit.Proofs.Query.Declaration
import IndexAudit.Proofs.Query.Scope
import IndexAudit.Proofs.Query.Native
import IndexAudit.Proofs.Query.StrayWord
import IndexAudit.Proofs.Query.Jpql
import IndexAudit.Proofs.Sql.Statement
import IndexAudit.Proofs.Sql.Key
import IndexAudit.Proofs.Sql.IndexScan
import IndexAudit.Proofs.Sql.Script
import IndexAudit.Proofs.Changelog.CompositeKey
import IndexAudit.Proofs.Changelog.SqlFile
import IndexAudit.Proofs.Changelog.Formats
import IndexAudit.Proofs.Changelog.Rollback
import IndexAudit.Proofs.Text.Search
import IndexAudit.Proofs.Query.FieldName
import IndexAudit.Proofs.Query.Suppression
import IndexAudit.Proofs.Entity.Mapping
import IndexAudit.Proofs.Files.Name
import IndexAudit.Proofs.Module.Identity
import IndexAudit.Proofs.Code.Closed
import IndexAudit.Proofs.Code.Following
import IndexAudit.Proofs.Code.Enclosure
import IndexAudit.Proofs.Code.Member
import IndexAudit.Proofs.Query.Placement
import IndexAudit.Proofs.Entity.Declaration
import IndexAudit.Proofs.Entity.ClassEnd
import IndexAudit.Proofs.Entity.Reading
import IndexAudit.Proofs.Entity.ExplicitColumn
import IndexAudit.Proofs.Offset.Slice
import IndexAudit.Proofs.Offset.Byte
import IndexAudit.Proofs.Offset.Search
import IndexAudit.Proofs.Offset.Mask
import IndexAudit.Proofs.Offset.Part
import IndexAudit.Proofs.Offset.Literal
import IndexAudit.Proofs.Offset.Annotation
import IndexAudit.Proofs.Offset.Argument
import IndexAudit.Proofs.Offset.Segment
import IndexAudit.Proofs.Offset.Member
import IndexAudit.Proofs.Offset.Derived
import IndexAudit.Proofs.Offset.Token
import IndexAudit.Proofs.Offset.Query
import IndexAudit.Proofs.Offset.Repository
import IndexAudit.Proofs.Offset.Field
import IndexAudit.Proofs.Offset.Heading
import IndexAudit.Proofs.Offset.Entity
import IndexAudit.Proofs.Offset.Geometry
import IndexAudit.Proofs.Code.Lockstep
import IndexAudit.Proofs.Code.LineEnding
import IndexAudit.Proofs.Module.Tasks
import IndexAudit.Proofs.Exclusions
import IndexAudit.Proofs.Query.MethodName
import IndexAudit.Proofs.Code.Stretch
import IndexAudit.Proofs.Query.QueryText
import IndexAudit.Proofs.Query.Waiting
import IndexAudit.Proofs.Query.MethodHead
import IndexAudit.Proofs.Query.Members
import IndexAudit.Proofs.Code.Row
import IndexAudit.Proofs.Query.NameLine
import IndexAudit.Proofs.Query.DeclarationScan
import IndexAudit.Proofs.Query.Occurrence
import IndexAudit.Proofs.Sql.LetterCase
import IndexAudit.Proofs.Query.LetterCase
import IndexAudit.Proofs.Code.Block
import IndexAudit.Proofs.Entity.Block
import IndexAudit.Proofs.Query.Block
import IndexAudit.Proofs.Sql.DefinitionCase
import IndexAudit.Proofs.Sql.Fragment
import IndexAudit.Proofs.Sql.OptionalWords
import IndexAudit.Proofs.Query.ArgumentList
import IndexAudit.Proofs.Sql.Rendering
import IndexAudit.Proofs.Offset.Division
import IndexAudit.Proofs.Config.Reference
import IndexAudit.Proofs.Config.Expansion
import IndexAudit.Proofs.Xml.Reading
import IndexAudit.Proofs.Changelog.XmlComment
