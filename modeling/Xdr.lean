import Xdr.Text.Letter
import Xdr.Token.Scan
import Xdr.Schema.Naming
import Xdr.Schema.Grammar
import Xdr.Table
import Xdr.Integer
import Xdr.Code.Fragment
import Xdr.Resolve
import Xdr.Emission
import Xdr.Generate
import Xdr.Compile
import Xdr.CommandLine
import Xdr.Synthetic
import Xdr.Main
import Xdr.Text.Utf8
import Xdr.Text.Quoted
import Xdr.Decimal
import Xdr.Value.Container
import Xdr.Value.Dynamic
import Xdr.Sample.Record
import Xdr.Proofs.Code.Views
import Xdr.Proofs.Emission.Exclusive
import Xdr.Proofs.Emission.Unions
import Xdr.Proofs.Grammar.Output
import Xdr.Proofs.Grammar.RoundTrip
import Xdr.Proofs.Grammar.Steps
import Xdr.Proofs.Sample.Union
import Xdr.Proofs.Schema.Grammatical
import Xdr.Proofs.Schema.Nested
import Xdr.Proofs.Table.Reachable
import Xdr.Proofs.Token.Spelling
import Xdr.Proofs.Value.Union
import Xdr.Proofs.Schema.Naming
import Xdr.Proofs.Emission.Demand
import Xdr.Proofs.Emission.Names
import Xdr.Proofs.Emission.Inline
import Xdr.Proofs.Emission.Containers
import Xdr.Proofs.Code.TypeNames
import Xdr.Proofs.Schema.Tags
import Xdr.Proofs.Emission.Labels
import Xdr.Proofs.Emission.Order
import Xdr.Proofs.Emission.EnumNames
import Xdr.Proofs.Token.Concat
import Xdr.Proofs.Token.Split
import Xdr.Proofs.Token.Layout
import Xdr.Proofs.Grammar.Positions
import Xdr.Proofs.Grammar.Concat
import Xdr.Proofs.Table.Concat
import Xdr.Proofs.Table.Calls
import Xdr.Proofs.Table.InPlace
import Xdr.Proofs.Table.Chase
import Xdr.Proofs.Table.Failures
import Xdr.Proofs.Table.Layout
import Xdr.Proofs.Schema.Rules
import Xdr.Proofs.Schema.Shape
import Xdr.Proofs.Table.Acceptance
import Xdr.Proofs.Files.Tree
import Xdr.Proofs.Files.Drivers
import Xdr.Proofs.Text.Utf8
import Xdr.Proofs.Value.Bytes
import Xdr.Proofs.Value.Equality
import Xdr.Proofs.Sample.Equality
import Xdr.Proofs.Emission.Memo
import Xdr.Proofs.Emission.Bounds
import Xdr.Proofs.Emission.Constants
import Xdr.Proofs.Table.Circles
import Xdr.Proofs.Emission.TagNumbers
import Xdr.Proofs.Emission.EnumCasts
import Xdr.Proofs.Emission.MemberNames
import Xdr.Proofs.Emission.Malformed
import Xdr.Proofs.Emission.Numerals
import Xdr.Proofs.Grammar.Truncation
import Xdr.Proofs.Grammar.Faults
import Xdr.Proofs.Grammar.Discriminants
import Xdr.Proofs.Grammar.Switches
import Xdr.Proofs.Value.Vectors
import Xdr.Proofs.Emission.ConstRanges
import Xdr.Proofs.Schema.Numbered
import Xdr.Proofs.Token.Lines
import Xdr.Proofs.Synthetic.Reading
import Xdr.Proofs.Synthetic.Generation
import Xdr.Proofs.Emission.Warnings
import Xdr.Proofs.Table.Listed
import Xdr.Proofs.Sample.Generated
