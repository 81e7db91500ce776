import Lowering.Code.Patch
import Lowering.Target.Table
import Lowering.Selection.Setting
import Lowering.Selection.Run
import Lowering.Routine.Printer
import Lowering.Routine.Parser
import Lowering.Proofs.RoundTrip
import Lowering.Proofs.Relocation
import Lowering.Proofs.Repairs
import Lowering.Proofs.FinalBanks
import Lowering.Proofs.Prices
import Lowering.Proofs.Choices
import Lowering.Proofs.PaidCopies
import Lowering.Proofs.Agreement
import Lowering.Proofs.Exchange
import Lowering.Proofs.SignedFields
import Lowering.Proofs.PcRelative
import Lowering.Proofs.Loads
import Lowering.Proofs.ModeTotals
import Lowering.Proofs.OneBank
import Lowering.Proofs.BatchReports
import Lowering.Proofs.BatchOrder
import Lowering.Proofs.FieldMoves
import Lowering.Proofs.WideConstants
import Lowering.Proofs.Queries
import Lowering.Proofs.NearestRegister
import Lowering.Proofs.Completion
import Lowering.Proofs.LineByLine
import Lowering.Proofs.Fitting
import Lowering.Proofs.Widthless
import Lowering.Proofs.RefusedRow
import Lowering.Proofs.Annotations
import Lowering.Proofs.FirstTypes
import Lowering.Proofs.TrailingBlanks
import Lowering.Proofs.WordAccess
import Lowering.Proofs.LaterCode
import Lowering.Proofs.FieldPatch
import Lowering.Proofs.ScanText
import Lowering.Proofs.QueryFaults
import Lowering.Proofs.SplitFields
import Lowering.Proofs.StaleBits
import Lowering.Proofs.Literals
import Lowering.Proofs.TypeLanguage
import Lowering.Proofs.Spelling
