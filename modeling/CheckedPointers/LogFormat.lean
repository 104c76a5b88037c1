/-!
The shape of log output, as named by its setting.
-/
namespace CheckedPointers

inductive LogFormat where
  | text
  | tree
  | json
  deriving DecidableEq

namespace LogFormat

/-- Letters `A` to `Z` count as `a` to `z`; any other value means `text`. -/
def ofSetting (value : String) : LogFormat :=
  let name := value.map Char.toLower
  if name = "tree" then tree
  else if name = "json" then json
  else text

end LogFormat

end CheckedPointers
