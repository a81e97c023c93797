import ScriptSyntax.Main
import ScriptSyntax.Proofs.Annotations
import ScriptSyntax.Proofs.BeyondEnd
import ScriptSyntax.Proofs.Callees
import ScriptSyntax.Proofs.CaretColumn
import ScriptSyntax.Proofs.Categories.Levels
import ScriptSyntax.Proofs.Categories.Sorts
import ScriptSyntax.Proofs.Concatenation
import ScriptSyntax.Proofs.Conservation
import ScriptSyntax.Proofs.Editing.Acceptance
import ScriptSyntax.Proofs.Editing.Replanting
import ScriptSyntax.Proofs.Editing.Slots
import ScriptSyntax.Proofs.Endings
import ScriptSyntax.Proofs.Faults.Source
import ScriptSyntax.Proofs.Foresight
import ScriptSyntax.Proofs.Grouping
import ScriptSyntax.Proofs.LineBreaks
import ScriptSyntax.Proofs.LongestMatch
import ScriptSyntax.Proofs.LoopHeads
import ScriptSyntax.Proofs.MemberNames
import ScriptSyntax.Proofs.MemberSpelling
import ScriptSyntax.Proofs.Nesting
import ScriptSyntax.Proofs.NumericEscapes
import ScriptSyntax.Proofs.OwnLines
import ScriptSyntax.Proofs.Payloads
import ScriptSyntax.Proofs.Postorder
import ScriptSyntax.Proofs.Progress
import ScriptSyntax.Proofs.Respacing
import ScriptSyntax.Proofs.RoundTrip.Program
import ScriptSyntax.Proofs.Semicolons
import ScriptSyntax.Proofs.SingleLines
import ScriptSyntax.Proofs.StringLiterals
import ScriptSyntax.Proofs.Thinning.Comments
import ScriptSyntax.Proofs.Walks.OutlineRows
import ScriptSyntax.Proofs.Walks.Pruning
import ScriptSyntax.Proofs.Walks.Takeover
import ScriptSyntax.Tree.Splice
