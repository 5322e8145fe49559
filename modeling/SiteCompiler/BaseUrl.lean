import SiteCompiler.ModuleId
import SiteCompiler.Text.Percent

namespace SiteCompiler.BaseUrl

def isEscaped (c : Char) : Bool :=
  " \"<>|\\^\x7b\x7d".toList.contains c || c.toNat = 0x60

/-- Escapes the text and cleans it as a path, so that it starts with a slash and ends with one only
if it is the root. -/
def clean (url : String) : String :=
  ModuleId.normalizeLocal (Text.Percent.encode isEscaped url)

def requestPrefix (baseUrl : String) : String :=
  if baseUrl = "/" then "" else baseUrl

end SiteCompiler.BaseUrl
