import FlaskXxlJob.Python.Str

/-! URL helper functions. -/
namespace FlaskXxlJob.Utils
open Python

def isSlash (c : Char) : Bool := c == '/'

/-- One slash between the base and a non-empty path. -/
def joinUrl (base path : String) : String :=
  let trimmedBase := rstripBy isSlash base
  let trimmedPath := rstripBy isSlash (lstripBy isSlash path)
  if trimmedPath = "" then trimmedBase else trimmedBase ++ "/" ++ trimmedPath

end FlaskXxlJob.Utils
