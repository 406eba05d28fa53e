import RoutePattern.TraceTables
import RoutePattern.ScannerSessions
import RoutePattern.TokenInterchange
import RoutePattern.Proofs.EncodedText
import RoutePattern.Proofs.SourceTexts
import RoutePattern.Proofs.CursorStates
import RoutePattern.Proofs.EnclosedText
import RoutePattern.Proofs.ExtractedText
import RoutePattern.Proofs.CharacterKinds
import RoutePattern.Proofs.PatternGrammar
import RoutePattern.Proofs.Findings
import RoutePattern.Proofs.PathReading
import RoutePattern.Proofs.PatternReading
import RoutePattern.Proofs.UnfitTexts
import RoutePattern.Proofs.SentencePlaces
import RoutePattern.Proofs.Phrases
import RoutePattern.Proofs.SingleSteps
import RoutePattern.Proofs.ScanRuns
import RoutePattern.Proofs.LosslessTokens
import RoutePattern.Proofs.SpelledPatterns
import RoutePattern.Proofs.IllegalInput
import RoutePattern.Proofs.PromptFailures
import RoutePattern.Proofs.MaximalMunch
import RoutePattern.Proofs.CursorSimulation
import RoutePattern.Proofs.ReachedScanners
import RoutePattern.Proofs.SettledSessions
import RoutePattern.Proofs.SessionEvents
import RoutePattern.Proofs.TokenPositions
import RoutePattern.Proofs.ConsumedLiterals
import RoutePattern.Proofs.ScanLocality
import RoutePattern.Proofs.JoinedPatterns
import RoutePattern.Proofs.LoopTurns
import RoutePattern.Proofs.DrainedScanners
import RoutePattern.Proofs.WrittenTables
import RoutePattern.Proofs.DriverAgreement
import RoutePattern.Proofs.MethodDecisions
import RoutePattern.Proofs.TruncatedPatterns
import RoutePattern.Proofs.TruncatedConstructs
import RoutePattern.Proofs.MarkedPatterns
import RoutePattern.Proofs.MarkerLines
import RoutePattern.Proofs.TruthfulFailures
import RoutePattern.Proofs.InterchangeForms
import RoutePattern.Proofs.UnreadText
import RoutePattern.Proofs.EscapedQuotes
import RoutePattern.Proofs.NestedText
import RoutePattern.Proofs.WholeNames
import RoutePattern.Proofs.VisibleText
import RoutePattern.Proofs.TableLayout
import RoutePattern.Proofs.UnquotedText
import RoutePattern.Proofs.CursorInvariants
import RoutePattern.Proofs.DecodedWindows
import RoutePattern.Proofs.ChainedRuns
