import SchemaDelta.Graph.Basic

/-!
Drawings of graphs in the DOT language: a line for each vertex and then a line for each edge, in
order. In a quoted text a quote is written as a backslash and a quote, and all else as it is.
-/

namespace SchemaDelta.Drawing

/-- A text as it is written between quotes. -/
def escape (text : String) : String :=
  String.ofList (text.toList.flatMap fun c => if c = '"' then "\\\"".toList else [c])

/-- How a vertex looks. -/
def style (v : Vertex) : String :=
  match v.kind with
  | .object | .interface | .inputObject => "shape=box"
  | .union | .enum => "shape=box,style=rounded"
  | .scalar => if v.isBuiltIn then "shape=box,style=dashed" else "shape=box"
  | .directive => "shape=parallelogram,color=royalblue"
  | .appliedDirective => "shape=ellipse,color=royalblue"
  | .field | .inputField | .argument | .enumValue => "shape=ellipse"

/-- The text on a vertex. -/
def caption (v : Vertex) : String :=
  v.kind.text ++ " " ++ v.path

/-- The line of a vertex. -/
def vertexLine (entry : Vertex × Nat) : String :=
  "    " ++ toString entry.2 ++ " [ label = \"" ++ escape (caption entry.1) ++ "\"," ++
    style entry.1 ++ "]\n"

/-- The line of an edge. -/
def edgeLine (e : Edge) : String :=
  "    " ++ toString e.one ++ " -> " ++ toString e.two ++ " [ label = \"" ++ escape e.label ++
    "\"]\n"

end SchemaDelta.Drawing

namespace SchemaDelta

/-- The drawing of a graph. -/
def Graph.drawing (g : Graph) : String :=
  "digraph \x7b\n" ++ String.join (g.vertices.zipIdx.map Drawing.vertexLine) ++
    String.join (g.edges.map Drawing.edgeLine) ++ "\x7d\n"

end SchemaDelta
