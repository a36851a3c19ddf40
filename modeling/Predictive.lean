import Predictive.Grammar.Derivation
import Predictive.Packed.Recognizer
import Predictive.Main
import Predictive.Proofs.Analysis.FirstPass
import Predictive.Proofs.Analysis.First
import Predictive.Proofs.Analysis.Follow
import Predictive.Proofs.Table.Prediction
import Predictive.Proofs.Grammar.Draft
import Predictive.Proofs.Table.Recognition
import Predictive.Proofs.Layout.Numbering
import Predictive.Proofs.Layout.Placement
import Predictive.Proofs.Packed.Lookup
import Predictive.Proofs.Packed.Recognition
import Predictive.Proofs.Json.Values
import Predictive.Proofs.Layout.RoundTrip
import Predictive.Proofs.Packed.Identifier
import Predictive.Proofs.Search.Trial
import Predictive.Proofs.Search.Usable
import Predictive.Proofs.Search.Run
import Predictive.Proofs.Grammar.Renaming
import Predictive.Proofs.Grammar.Reordering
import Predictive.Proofs.Table.Renaming
import Predictive.Proofs.Packed.Reordering
import Predictive.Proofs.Search.Least
import Predictive.Proofs.Search.Records
import Predictive.Proofs.Search.Sequential
import Predictive.Proofs.Search.Rounds
import Predictive.Proofs.Layout.Reading
import Predictive.Proofs.Packed.Searched
import Predictive.Proofs.Analysis.Exactness
import Predictive.Proofs.Table.Disjoint
import Predictive.Proofs.Search.Improvements
import Predictive.Proofs.Packed.CToken
import Predictive.Proofs.Packed.CUnit
import Predictive.Proofs.Packed.CLines
import Predictive.Proofs.Packed.Coherence
import Predictive.Proofs.Packed.Emitted
import Predictive.Proofs.Analysis.Sentential
import Predictive.Proofs.Analysis.LeftRecursion
import Predictive.Proofs.Table.Predict
import Predictive.Proofs.Packed.Contents
import Predictive.Proofs.Search.Outcome
import Predictive.Proofs.Grammar.Authoring
import Predictive.Proofs.Grammar.Bnf
import Predictive.Proofs.Grammar.Digest
import Predictive.Proofs.Analysis.ReportedCycles
import Predictive.Proofs.Layout.Resolution
import Predictive.Proofs.Grammar.BnfRules
import Predictive.Proofs.Table.Reachable
import Predictive.Proofs.Packed.Agreement
import Predictive.Proofs.Layout.RawHash
import Predictive.Proofs.Search.Narrow
import Predictive.Proofs.Search.Failing
import Predictive.Proofs.Packed.CLiteral
import Predictive.Proofs.Grammar.Fingerprint
import Predictive.Proofs.Files.Path
import Predictive.Proofs.Files.Follow
import Predictive.Proofs.Files.Tree
import Predictive.Proofs.Files.LayoutFile
import Predictive.Proofs.Files.Saving
import Predictive.Proofs.Program.Search
