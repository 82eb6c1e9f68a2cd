import ModuleGraph.VirtualPath
import ModuleGraph.Text.Case
/-!
# Default libraries

Libraries such as `dom` are declaration files with names of one form, `lib.dom.d.ts`. They come
from the library directory first and from a bundled directory second.
-/

namespace ModuleGraph.Library

/-- The beginning of a library's file name. -/
def opening : String := "lib."

/-- The file name of a library: its name in lower case, with `lib.` in front and `.d.ts` behind
unless they are there (`library_file_name`). -/
def fileName (name : String) : String :=
  let name := Text.lower name
  let name := if Text.startsWith name opening then name else opening ++ name
  if Text.endsWith name declarationSuffix then name else name ++ declarationSuffix

/-- The URL of a library in the library directory (`LibraryLoader.primary_url`). -/
def primaryUrl (directory name : String) : Except Url.Problem String :=
  joinUrl directory [fileName name]

/-- The URL of a library in the bundled directory, whose files are plain texts
(`LibraryLoader.fallback_url`). -/
def fallbackUrl (directory name : String) : Except Url.Problem String :=
  joinUrl directory [fileName name ++ ".txt"]

end ModuleGraph.Library
