import ModuleGraph.FilePath
/-!
# Where responses are kept

Cached responses are kept in a directory of the user's, unless the environment names another one.
-/

namespace ModuleGraph.Fetch

/-- The variable that names another directory. -/
def directoryVariable : String := "VFS_HOST_CACHE_DIR"

/-- The user's directory, without slashes at its end unless it is the root. -/
def homeDirectory (home : String) : String :=
  let path := Text.trimEnd (· = '/') home
  if path = "" then "/" else path

/-- The directory of cached responses in an environment (`get_cache_dir`). -/
def cacheDirectory (environment : String → Option String) : String :=
  match environment directoryVariable with
  | some path => if path = "" then ofHome else FilePath.normalize path
  | none => ofHome
where
  /-- The directory below that of the user. -/
  ofHome : String :=
    let home := homeDirectory ((environment "HOME").getD "")
    FilePath.normalize (FilePath.append home ".vfs-host/cache/fetch")

end ModuleGraph.Fetch
