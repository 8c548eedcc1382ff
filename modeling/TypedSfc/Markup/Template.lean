import TypedSfc.Markup.Fold
import TypedSfc.Markup.Reader

/-!
# Reading a template

A template is read into its raw nodes, and chains and loops are made of those.
-/

namespace TypedSfc

namespace Markup

/-- Reads a template: its nodes, and its faults in the order in which they were met. -/
def parseTemplate (source : String) : Fragment × List ParseError :=
  let r := Reader.new source
  let (raw, r) := Reader.nodes (r.size + 1) [] r
  let (ns, errors) := Node.fold raw
  (⟨ns, ⟨0, r.size⟩⟩, r.errors ++ errors)

end Markup

end TypedSfc
