/-!
Text made safe to stand in an HTML document.
-/

namespace TargetCode.Text

/-- The five characters with a meaning of their own in markup are written
as references. -/
def htmlChar (c : Char) : List Char :=
  match c with
  | '&' => "&amp;".toList
  | '<' => "&lt;".toList
  | '>' => "&gt;".toList
  | '"' => "&quot;".toList
  | '\'' => "&#39;".toList
  | c => [c]

def escapeHtml (s : String) : String :=
  String.ofList (s.toList.flatMap htmlChar)

end TargetCode.Text
