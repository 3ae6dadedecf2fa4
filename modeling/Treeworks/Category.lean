/-! Categories of errors. -/
namespace Treeworks

/-- What an error is about. -/
inductive Category
  | parse | transform | compile | pipeline | config | internal | unknown
  deriving DecidableEq, Repr, Inhabited

namespace Category

/-- The word for a category. -/
def name : Category → String
  | .parse => "PARSE"
  | .transform => "TRANSFORM"
  | .compile => "COMPILE"
  | .pipeline => "PIPELINE"
  | .config => "CONFIG"
  | .internal => "INTERNAL"
  | .unknown => "UNKNOWN"

/-- Every category. -/
def all : List Category := [.parse, .transform, .compile, .pipeline, .config, .internal, .unknown]

/-- The category that a word names. -/
def ofName? (s : String) : Option Category := all.find? (·.name = s)

end Category

end Treeworks
