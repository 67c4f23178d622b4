import Renaming.Application
import Renaming.Bytes
import Renaming.CommandLine
import Renaming.Decimal
import Renaming.Descriptor
import Renaming.Extraction
import Renaming.FileTree
import Renaming.Java.Binding
import Renaming.Java.Binding.Declarations
import Renaming.Java.Binding.Expressions
import Renaming.Java.Binding.State
import Renaming.Java.Binding.Statements
import Renaming.Java.Catalogue
import Renaming.Java.ClassFile
import Renaming.Java.ClassFile.Positions
import Renaming.Java.ClassFile.Reader
import Renaming.Java.ClassFile.Writer
import Renaming.Java.Classpath
import Renaming.Java.Declaration
import Renaming.Java.Declared
import Renaming.Java.Declared.Members
import Renaming.Java.Declared.Registration
import Renaming.Java.Declared.Site
import Renaming.Java.Declared.Supertypes
import Renaming.Java.GenericSignature
import Renaming.Java.GenericType
import Renaming.Java.Grammar
import Renaming.Java.Grammar.Declarations
import Renaming.Java.Grammar.Expressions
import Renaming.Java.Grammar.Phrase
import Renaming.Java.Grammar.Statements
import Renaming.Java.Grammar.Types
import Renaming.Java.Hierarchy
import Renaming.Java.Imports
import Renaming.Java.Inference
import Renaming.Java.Overload
import Renaming.Java.Resolver
import Renaming.Java.Scope
import Renaming.Java.Syntax.Kind
import Renaming.Java.Syntax.Node
import Renaming.Java.Syntax.Token
import Renaming.Java.TypeIndex
import Renaming.Java.TypeUse
import Renaming.Json
import Renaming.Main
import Renaming.Occurrence
import Renaming.Proofs.Application.Accounts
import Renaming.Proofs.Application.Clean
import Renaming.Proofs.Application.InPlace
import Renaming.Proofs.Application.Log
import Renaming.Proofs.Application.Outcome
import Renaming.Proofs.Application.Units
import Renaming.Proofs.Descriptor
import Renaming.Proofs.Descriptor.Grammar
import Renaming.Proofs.Extraction
import Renaming.Proofs.Extraction.Overlaps
import Renaming.Proofs.FileTree
import Renaming.Proofs.Java.Binding.Declarations
import Renaming.Proofs.Java.Binding.Expressions
import Renaming.Proofs.Java.Binding.Locals
import Renaming.Proofs.Java.Binding.Statements
import Renaming.Proofs.Java.Binding.Steps
import Renaming.Proofs.Java.Binding.Survey
import Renaming.Proofs.Java.BoundChains
import Renaming.Proofs.Java.ClassFile
import Renaming.Proofs.Java.ClassFile.Extent
import Renaming.Proofs.Java.ClassFile.Interning
import Renaming.Proofs.Java.ClassFile.Positions
import Renaming.Proofs.Java.ClassFile.Reading
import Renaming.Proofs.Java.ClassFile.Slots
import Renaming.Proofs.Java.Classpath
import Renaming.Proofs.Java.Comments
import Renaming.Proofs.Java.Comments.Declarations
import Renaming.Proofs.Java.Comments.Expressions
import Renaming.Proofs.Java.Comments.Phrases
import Renaming.Proofs.Java.Declared.BinaryNames
import Renaming.Proofs.Java.Declared.Index
import Renaming.Proofs.Java.Declared.Members
import Renaming.Proofs.Java.Declared.Nesting
import Renaming.Proofs.Java.Declared.Rounds
import Renaming.Proofs.Java.Declared.Sites
import Renaming.Proofs.Java.Declared.Units
import Renaming.Proofs.Java.Descent
import Renaming.Proofs.Java.GenericSignature
import Renaming.Proofs.Java.GenericSignature.Bounds
import Renaming.Proofs.Java.GenericSignature.Descriptors
import Renaming.Proofs.Java.GenericSignature.Types
import Renaming.Proofs.Java.GenericSignature.Written
import Renaming.Proofs.Java.Grammar
import Renaming.Proofs.Java.Grammar.Declarations
import Renaming.Proofs.Java.Grammar.Expressions
import Renaming.Proofs.Java.Grammar.Statements
import Renaming.Proofs.Java.Grammar.Types
import Renaming.Proofs.Java.Grounding
import Renaming.Proofs.Java.Hierarchy
import Renaming.Proofs.Java.ImportSpelling
import Renaming.Proofs.Java.Inference
import Renaming.Proofs.Java.LocalNumbers
import Renaming.Proofs.Java.MemberLookup
import Renaming.Proofs.Java.Overload
import Renaming.Proofs.Java.Overload.Exact
import Renaming.Proofs.Java.Overload.Order
import Renaming.Proofs.Java.Overriding
import Renaming.Proofs.Java.PackageTables
import Renaming.Proofs.Java.Phrases
import Renaming.Proofs.Java.PrivateMembers
import Renaming.Proofs.Java.QualifiedNames
import Renaming.Proofs.Java.RawReceivers
import Renaming.Proofs.Java.Resolver
import Renaming.Proofs.Java.Scoping
import Renaming.Proofs.Java.Scoping.Conditions
import Renaming.Proofs.Java.Scoping.Declarations
import Renaming.Proofs.Java.Scoping.Expressions
import Renaming.Proofs.Java.Scoping.Leaves
import Renaming.Proofs.Java.Scoping.Statements
import Renaming.Proofs.Java.Scoping.Steps
import Renaming.Proofs.Java.Shape
import Renaming.Proofs.Java.Spelling
import Renaming.Proofs.Java.StaticImports
import Renaming.Proofs.Java.SupertypeOrder
import Renaming.Proofs.Java.SupertypeViews
import Renaming.Proofs.Java.SupertypeViews.Substitution
import Renaming.Proofs.Java.Tokens
import Renaming.Proofs.Java.Tree
import Renaming.Proofs.Java.TypeIndex
import Renaming.Proofs.Java.TypeUse
import Renaming.Proofs.Java.TypeUse.Agreement
import Renaming.Proofs.Java.TypeUse.Bounds
import Renaming.Proofs.Java.UnitOrder
import Renaming.Proofs.KeptNames
import Renaming.Proofs.MemoryStore
import Renaming.Proofs.Occurrence
import Renaming.Proofs.Octets
import Renaming.Proofs.Octets.Lossy
import Renaming.Proofs.Pipeline
import Renaming.Proofs.RangeMap.Groups
import Renaming.Proofs.RangeMap.Order
import Renaming.Proofs.RangeMap.Reading
import Renaming.Proofs.RangeMap.RoundTrip
import Renaming.Proofs.RangeMap.Survival
import Renaming.Proofs.RenameTable.Loading
import Renaming.Proofs.RenameTable.ParameterLines
import Renaming.Proofs.RenameTable.Spellings
import Renaming.Proofs.Run
import Renaming.Proofs.Signature
import Renaming.Proofs.SortedMap
import Renaming.Proofs.Splice
import Renaming.Proofs.Splice.Octets
import Renaming.Proofs.Splice.Replay
import Renaming.Proofs.Store.Agreement
import Renaming.Proofs.Store.Archive
import Renaming.Proofs.Store.Calls
import Renaming.Proofs.Store.Directory
import Renaming.Proofs.Store.Isolation
import Renaming.Proofs.Store.Spellings
import Renaming.Proofs.Store.UnitIds
import Renaming.Proofs.Symbol
import Renaming.Proofs.Text
import Renaming.Proofs.Text.Offsets
import Renaming.Proofs.TypeSpellings
import Renaming.RangeMap
import Renaming.RangeMap.Format
import Renaming.RenameTable
import Renaming.RenameTable.Reader
import Renaming.Run
import Renaming.SortedMap
import Renaming.Splice
import Renaming.Splice.Octets
import Renaming.Store
import Renaming.Store.Archive
import Renaming.Store.Directory
import Renaming.Store.Opened
import Renaming.Summary
import Renaming.Symbol
import Renaming.Text
import Renaming.Text.Letters
import Renaming.Text.Offsets
import Renaming.Trouble
import Renaming.Zip
import Renaming.Zip.Inflate
