import GraphScript.Text.Lines

/-!
# The bundled example

The script that `Initialize` plays into a fresh graph.
-/

namespace GraphScript

/-- The lines of the bundled example. -/
def exampleLines : List String := [
  "Create Node 0 VALUE 10.",
  "Create Node 1 VALUE \"Start\".",
  "Create Node 2 VALUE true.",
  "Create Node 3 VALUE 3.14.",
  "Create Node 4.",
  "Create Node 5.",
  "Create Node 6.",
  "Create Node 7.",
  "Create Node 8.",
  "Create Node 9.",
  "Create Node 10.",
  "Create Node 11.",
  "Create Node 12.",
  "Create Node 13.",
  "Create Node 14.",
  "Create Node 15.",
  "Create Node 16.",
  "Set DIRECTED true.",
  "Connect 0 To 1.",
  "Connect 1 To 2.",
  "Connect 2 To 3.",
  "Connect 3 To 4.",
  "Connect 4 To 5.",
  "Connect 5 To 6.",
  "Connect 6 To 7.",
  "Connect 7 To 8.",
  "Connect 8 To 9.",
  "Connect 9 To 10.",
  "Connect 10 To 11.",
  "Connect 11 To 12.",
  "Remove EDGE 2 To 3.",
  "Connect 1 To 3.",
  "Connect 2 To 4.",
  "Remove EDGE 4 To 5.",
  "Connect 3 To 5.",
  "Connect 4 To 6.",
  "Remove EDGE 6 To 7.",
  "Connect 5 To 7.",
  "Connect 6 To 8.",
  "Remove EDGE 8 To 9.",
  "Connect 7 To 9.",
  "Connect 9 To 11.",
  "Connect 10 To 12.",
  "Connect 8 To 10.",
  "Connect 13 To 14.",
  "Connect 15 To 16.",
  "Connect 11 To 13.",
  "Connect 12 To 14.",
  "Connect 13 To 15.",
  "Connect 14 To 16.",
  "Remove EDGE 10 To 11.",
  "Set NODE_COLOR 2 red.",
  "Set NODE_COLOR 3 red.",
  "Set NODE_COLOR 5 red.",
  "Set NODE_COLOR 7 red.",
  "Set NODE_COLOR 11 red.",
  "Set NODE_COLOR 13 red.",
  "Set Background Black.",
  "",
  "Let counter = 0.",
  "For i = 5 to 8 \x7b",
  "    Create Node $i VALUE $counter.",
  "    Connect $i To 4.",
  "    Let counter = $counter + 1.",
  "\x7d",
  "",
  "If CONNECTED 0 1 \x7b",
  "    Set NODE_COLOR 0 blue.",
  "\x7d",
  "",
  "Create Node C.",
  "Connect C to 0.",
  "Create Node Coco.",
  "Set Node_Color Coco Pink.",
  "Connect Coco To C.",
  "Create Node Bigo.",
  "Connect Coco to Bigo.",
  "Create Node Women.",
  "Create Node Men.",
  "Connect Women To Men.",
  "Create Node Intelligence.",
  "Connect Men To Intelligence.",
  "Connect Women To Intelligence.",
  "Connect Intelligence To 0.",
  "Create Node Evil.",
  "Create Node Good.",
  "Connect Evil To Women.",
  "Connect Good To Men.",
  "Create Node Fool.",
  "Connect Fool To Men.",
  "Set Node_Color Women Red.",
  "Set Node_Color Evil Black.",
  "Create Node 🪙.",
  "Connect Coco To 🪙.",
  "Create Node Napoki.",
  "Connect Napoki To Bigo.",
  "Connect Coco To Napoki.",
  "Connect Bigo to 🪙.",
  "Create Node Monty.",
  "Connect Monty To C.",
  "Connect Monty To 🪙.",
  "Connect Monty To Coco.",
  "Create Node Disrespect.",
  "Connect Disrespect To Monty.",
  "Create Node Annoyance.",
  "Connect Annoyance To Coco."]

/-- The text of the bundled example. -/
def exampleText : String :=
  String.ofList (Text.unlines (exampleLines.map String.toList))

end GraphScript
