import TouchAutomata.Main
import TouchAutomata.Graphviz.Reader
import TouchAutomata.Proofs.Determinization.AcceptedWords
import TouchAutomata.Proofs.Determinization.MergedTriggers
import TouchAutomata.Proofs.Determinization.ReportedSets
import TouchAutomata.Proofs.Definition.CarriedTriggers
import TouchAutomata.Proofs.Determinization.RenamedStates
import TouchAutomata.Proofs.Definition.SpentNumbers
import TouchAutomata.Proofs.Automaton.Determinism
import TouchAutomata.Proofs.Determinization.HaltedExploration
import TouchAutomata.Proofs.Determinization.StateLimits
import TouchAutomata.Proofs.Automaton.Renumbering
import TouchAutomata.Proofs.Determinization.RenumberedStates
import TouchAutomata.Proofs.Determinization.RepeatedDeterminization
import TouchAutomata.Proofs.Automaton.ClosedPaths
import TouchAutomata.Proofs.Inspection.ReachableStates
import TouchAutomata.Proofs.Inspection.Cycles
import TouchAutomata.Proofs.Determinization.InspectedResults
import TouchAutomata.Proofs.Determinization.UnreachableEdges
import TouchAutomata.Proofs.Determinization.HaltedResults
import TouchAutomata.Proofs.Automaton.NestedEdges
import TouchAutomata.Proofs.Automaton.Edits
import TouchAutomata.Proofs.Definition.RebuiltAutomata
import TouchAutomata.Proofs.Json.WrittenData
import TouchAutomata.Proofs.Definition.ListedAutomata
import TouchAutomata.Proofs.CommandLine.FailedCommands
import TouchAutomata.Proofs.Determinization.StateBounds
import TouchAutomata.Proofs.Determinization.UnlimitedRounds
import TouchAutomata.Proofs.Determinization.FreshNumbers
import TouchAutomata.Proofs.Determinization.StateSetTexts
import TouchAutomata.Proofs.Text.Numerals
import TouchAutomata.Proofs.Touch.RewrittenNumbers
import TouchAutomata.Proofs.Touch.StrictReading
import TouchAutomata.Proofs.Definition.RefusedDefinitions
import TouchAutomata.Proofs.Definition.WrittenDefinitions
import TouchAutomata.Proofs.Automaton.AcyclicPaths
import TouchAutomata.Proofs.Inspection.InspectedPaths
import TouchAutomata.Proofs.Graphviz.DrawnArrows
import TouchAutomata.Proofs.Graphviz.DrawnLines
import TouchAutomata.Proofs.Settings.WrittenSettings
