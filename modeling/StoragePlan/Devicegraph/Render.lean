import StoragePlan.Devicegraph.Basic
import StoragePlan.Text

/-!
# Devicegraphs as text and as drawings
-/

namespace StoragePlan.Devicegraph

/-- The line for a holder in a listing. -/
def holderText (h : Holder) : String := s!"{h.source} -> {h.target} {h.kind.name}"

/-- A listing: one line for each device, then one for each holder. -/
def text (g : Devicegraph) : String :=
  String.join ((g.devices.map Device.text ++ g.holders.map holderText).map fun line => line ++ "\n")

/-- The color of the devices of a kind. -/
def nodeColor : DeviceKind → String
  | .disk => "#ff0000"
  | .partitionTable => "#ff8800"
  | .partition => "#cc33cc"
  | .filesystem => "#0000ff"

/-- The line style of the holders of a kind. -/
def edgeStyle : HolderKind → String
  | .user => "solid"
  | .subdevice => "dashed"

/-- A device in a drawing. -/
def nodeLine (d : Device) : String :=
  s!"n{d.sid} [label=\"{d.kind.name}\\n" ++ Dot.escape d.displayName ++
    s!"\", color=\"{nodeColor d.kind}\", fillcolor=\"#ffffff\"];"

/-- A holder in a drawing. -/
def edgeLine (h : Holder) : String := s!"n{h.source} -> n{h.target} [style={edgeStyle h.kind}];"

/-- The devicegraph as a drawing. -/
def dot (g : Devicegraph) : String :=
  Dot.graph "devicegraph"
    ("node [shape=rectangle, style=filled, fontname=\"Arial\"];" ::
      g.devices.map nodeLine ++ g.holders.map edgeLine)

end StoragePlan.Devicegraph
