import FlowSuite.Main
import FlowSuite.Proofs.CommandLine.ExitStatus
import FlowSuite.Proofs.Condition.Chains
import FlowSuite.Proofs.Condition.FlatReading
import FlowSuite.Proofs.Condition.Partition
import FlowSuite.Proofs.Condition.QuotedLiterals
import FlowSuite.Proofs.Condition.Reading
import FlowSuite.Proofs.Condition.Slices
import FlowSuite.Proofs.Condition.Spacing
import FlowSuite.Proofs.Condition.Termination
import FlowSuite.Proofs.Criterion.Locations
import FlowSuite.Proofs.Criterion.Meaning
import FlowSuite.Proofs.Criterion.RegexSplitting
import FlowSuite.Proofs.RuntimeExpr.SyntaxErrors
import FlowSuite.Proofs.Script.Templates
import FlowSuite.Proofs.TestCase.BodyPointers
import FlowSuite.Proofs.TestCase.EarlyReads
import FlowSuite.Proofs.TestCase.EmptySuites
import FlowSuite.Proofs.TestCase.FirstDeclaration
import FlowSuite.Proofs.TestCase.ForbiddenWords
import FlowSuite.Proofs.TestCase.Imports
import FlowSuite.Proofs.TestCase.LoggedConditions
import FlowSuite.Proofs.TestCase.NumberObjects
import FlowSuite.Proofs.TestCase.ParameterNames
import FlowSuite.Proofs.TestCase.Payloads
import FlowSuite.Proofs.TestCase.Skipping
import FlowSuite.Proofs.TestCase.StepReferences
import FlowSuite.Proofs.TestCase.Recording
