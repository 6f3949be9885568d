import Scriptlet.Main
import Scriptlet.Execution.Rounds
import Scriptlet.Proofs.ErrorContainment
import Scriptlet.Proofs.LexicalScope
import Scriptlet.Proofs.PiecewiseRun
import Scriptlet.Proofs.LosslessScan
import Scriptlet.Proofs.ScopeArena
import Scriptlet.Proofs.ScopeRestoration
import Scriptlet.Proofs.TreeHeight
import Scriptlet.Proofs.InvalidTargets
import Scriptlet.Proofs.RuntimeBlame
import Scriptlet.Proofs.FullSink
import Scriptlet.Proofs.EarlierOutput
import Scriptlet.Proofs.SessionRuns
import Scriptlet.Proofs.WordLayout
import Scriptlet.Proofs.CommandRuns
import Scriptlet.Proofs.KeywordRecovery
import Scriptlet.Proofs.LineNumbers
import Scriptlet.Proofs.MissingSemicolon
import Scriptlet.Proofs.BlamedPlaces
import Scriptlet.Proofs.ScopeLimit
import Scriptlet.Proofs.Braces
import Scriptlet.Proofs.UnnamedVariables
import Scriptlet.Proofs.ConsistentRenaming
import Scriptlet.Proofs.PrintedAgain
import Scriptlet.Proofs.PrintedTree
import Scriptlet.Proofs.EndOfInput
import Scriptlet.Proofs.CursorProgress
import Scriptlet.Proofs.UnfailingScan
