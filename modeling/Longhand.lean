import Longhand.Digits.Value
import Longhand.Json.Write
import Longhand.Proofs.Operands
import Longhand.Proofs.Reading
import Longhand.Service.Session
import Longhand.Settings.Environment
import Longhand.Proofs.BroughtDigits
import Longhand.Proofs.LongDivision
import Longhand.Proofs.Spelling
import Longhand.Proofs.Parsing
import Longhand.Proofs.Grammar
import Longhand.Proofs.PostOrderTrees
import Longhand.Proofs.Columns
import Longhand.Proofs.ColumnPass
import Longhand.Proofs.ColumnAddition
import Longhand.Proofs.ColumnSubtraction
import Longhand.Proofs.LongMultiplication
import Longhand.Proofs.QuotientRounding
import Longhand.Proofs.FiniteDoubles
import Longhand.Proofs.RoundedDoubles
import Longhand.Proofs.ParseOutcome
import Longhand.Proofs.Outcomes
import Longhand.Proofs.WellFormedPages
import Longhand.Proofs.BinaryRounding
import Longhand.Proofs.PackedDoubles
import Longhand.Proofs.ShortestDecimals
import Longhand.Proofs.NearestDoubles
import Longhand.Proofs.WrittenNumbers
import Longhand.Proofs.ExactCalculation
import Longhand.Proofs.StatedAnswers
import Longhand.Proofs.RecordedOperands
import Longhand.Proofs.WholeDoubles
import Longhand.Proofs.SingleOperations
import Longhand.Proofs.ExpressionSteps
import Longhand.Proofs.BalancedParentheses
import Longhand.Proofs.WidePrecision
import Longhand.Proofs.WrittenDoubles
import Longhand.Proofs.WrittenJson
import Longhand.Proofs.SentResults
import Longhand.Proofs.SurroundingBlanks
import Longhand.Proofs.RemoteParsing
import Longhand.Proofs.RequestIds
import Longhand.Proofs.FiniteResults
import Longhand.Proofs.StepReplies
import Longhand.Proofs.ShortNumerals
import Longhand.Proofs.StepRequests
import Longhand.Proofs.JoinedTexts
import Longhand.Proofs.Interchange
import Longhand.Proofs.TokenPlaces
import Longhand.Proofs.LexicalLanguage
import Longhand.Proofs.TextLayout
import Longhand.Proofs.TypedNumbers
import Longhand.Proofs.DivisionColumns
import Longhand.Proofs.PlainNotation
import Longhand.Proofs.FeasibleProblems
import Longhand.Proofs.AcceptedTasks
import Longhand.Proofs.PlacesRounding
import Longhand.Proofs.RoundedQuotients
import Longhand.Proofs.ExpressionForms
import Longhand.Proofs.LeftmostExpressions
import Longhand.Proofs.ExtractedExpressions
import Longhand.Proofs.DigitCarries
import Longhand.Proofs.DigitSums
import Longhand.Proofs.LastNumbers
import Longhand.Proofs.PlaceNames
import Longhand.Proofs.RemoteAnswers
