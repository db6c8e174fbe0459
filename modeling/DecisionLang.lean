import DecisionLang.Main
import DecisionLang.Proofs.Attribution
import DecisionLang.Proofs.Checking.ColumnTypes
import DecisionLang.Proofs.Checking.Containment
import DecisionLang.Proofs.Checking.Locality
import DecisionLang.Proofs.Checking.Tested
import DecisionLang.Proofs.Dependency.Repeated
import DecisionLang.Proofs.Expectation
import DecisionLang.Proofs.Files.Building
import DecisionLang.Proofs.Files.Joining
import DecisionLang.Proofs.Grammar.Grouping
import DecisionLang.Proofs.Grammar.RoundTrip
import DecisionLang.Proofs.Grammar.Unbroken
import DecisionLang.Proofs.Layout
import DecisionLang.Proofs.Moment.Calendar
import DecisionLang.Proofs.Reading.Inclusion
import DecisionLang.Proofs.Token.Cutting
import DecisionLang.Proofs.Token.Described
import DecisionLang.Proofs.Tree.Usages
import DecisionLang.Proofs.Typing.Answers
import DecisionLang.Proofs.Typing.Conformance
