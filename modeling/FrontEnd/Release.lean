/-!
# Release

What the tool says about itself.
-/

namespace FrontEnd.Release

def toolName : String := "clitac"

def version : String := "0.1.0-alpha"

end FrontEnd.Release
