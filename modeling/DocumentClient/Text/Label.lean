/-!
# Labels

Enumerated settings are also given by name, in any case of the letters from A to Z.
-/

namespace DocumentClient.Text

/-- A label with the letters from A to Z in lower case. -/
def lowerLabel (s : String) : String := String.ofList (s.toList.map Char.toLower)

/-- A label in lower case with underscores for hyphens. -/
def dashedLabel (s : String) : String :=
  String.ofList ((lowerLabel s).toList.map fun c => if c = '-' then '_' else c)

end DocumentClient.Text
