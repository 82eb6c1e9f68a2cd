import ModuleGraph.Proofs.Project.Configuration
import ModuleGraph.Proofs.Url.Below
/-!
# Directories in the import map of a project

An entry of an import map whose key ends in a slash is one for a directory. Its target is joined with
the URL of the configuration file once, and what a specifier has behind the key is put behind the
joined URL as it is. An entry that lists a single module has its target joined as a whole. So an
entry for a directory ought to stand for one entry for each module below it, dots in its target, a
target above the root and repeated slashes included.

It does but for one target: two slashes with nothing between them but tabs and line ends, which are
dropped when a URL is read. As the target of a directory they name the configuration file itself;
with a name behind them, they begin the name of a host.

Results:
* `ProjectConfig.resolve_of_declared`: what a specifier resolves to where an entry decides about it;
* `exists_fileBase`: the URL of a configuration file as a base;
* `stands_for_iff`: **main theorem**: an entry for a directory stands for those below it, but for one
  target;
* `stands_for_not_slashes`: that target.
-/

namespace ModuleGraph

namespace ProjectConfig

/-- The import map of the configuration has one entry for all importers, and none for some. -/
def Declares (c : ProjectConfig) (key target : String) : Prop :=
  c.declared = ⟨.ofList [(key, target)], .empty⟩

/-- Where an entry of a configuration decides about a specifier, the specifier stands for the joined
target with what follows the key behind it. -/
theorem resolve_of_declared {c : ProjectConfig} {url source key target joined rest : String}
    {m : ImportMap} (hm : c.importMap url = .ok m) (hjoin : Url.join url target = .ok joined)
    (h : c.declared.Decides source (key ++ rest) (key, target)) :
    m.resolve source (key ++ rest) = .ok (joined ++ rest) := by
  have hdecides : m.Decides source (key ++ rest) (key, joined) :=
    (importMap_eq_ok_iff.1 hm).decides_iff.2 ⟨(key, target), h, rfl, hjoin⟩
  rw [ImportMap.resolve_of_decides hdecides (String.toList_append ..), String.ofList_toList]

/-- The only entry of a configuration decides about the specifiers that it is for. -/
theorem Declares.decides {c : ProjectConfig} {key target specifier : String}
    (h : c.Declares key target) (hfor : Mapping.IsFor specifier key) (source : String) :
    c.declared.Decides source specifier (key, target) := by
  rw [h]
  refine .atTop (fun scope hs => absurd hs.mem List.not_mem_nil) ⟨List.mem_singleton_self _, hfor, ?_⟩
  intro e he _
  rw [List.mem_singleton.1 he]

theorem Declares.exists_importMap {c : ProjectConfig} {url key target joined : String}
    (h : c.Declares key target) (hjoin : Url.join url target = .ok joined) :
    ∃ m, c.importMap url = .ok m := by
  refine exists_importMap_iff.2 fun t ht => ?_
  rw [targets, h] at ht
  have heq : t = target := List.mem_singleton.1 ht
  exact ⟨joined, heq ▸ hjoin⟩

end ProjectConfig

/-! ## Configuration files -/

theorem Url.cutTail_cons_of_ne {c x : Char} (h : x ≠ c) (cs : List Char) :
    (cutTail c (x :: cs)).1 = x :: (cutTail c cs).1 := by
  unfold cutTail
  rw [Text.cutAt, if_neg h]
  cases Text.cutAt c cs with
  | none => rfl
  | some p => rfl

/-- The URL of a file, by a path from the root, is a base for references. -/
theorem exists_fileBase {path : List Char} (h : path.head? = some '/') :
    ∃ b, Url.IsFileBase ("file://".toList ++ path) b := by
  obtain ⟨path, rfl⟩ := List.head?_eq_some_iff.1 h
  have hclean : Url.clean ("file://".toList ++ '/' :: path) =
      "file".toList ++ ':' :: '/' :: '/' :: '/' :: path.filter fun c => !Url.isLineControl c := by
    have hfile := Url.clean_of_isScheme (a := "file".toList) (by decide) ('/' :: '/' :: '/' :: path)
    exact hfile
  refine ⟨.ofRest "file".toList [] ('/' :: path.filter fun c => !Url.isLineControl c), ?_, rfl, rfl,
    ?_⟩
  · rw [hclean, Url.splitClean_eq_ofRest, Url.cutScheme_of_isScheme (by decide)]
    rfl
  · rw [Url.Parts.ofRest]
    dsimp only
    rw [Url.cutTail_cons_of_ne (by decide), Url.cutTail_cons_of_ne (by decide), List.head?_cons]

/-! ## Directories -/

/-- As seen from `url`, an entry for a directory stands for one for what is below it: the joined
target with the rest behind it is where the rest is found if the target is joined with it, and it is
what the specifier resolves to, for every importer, whether the directory has the entry or the
module. -/
def StandsFor (url key target rest : String) : Prop :=
  ∃ joined, Url.join url target = .ok joined ∧
    Url.join url (target ++ rest) = .ok (joined ++ rest) ∧
    ∀ c : ProjectConfig,
      c.Declares key target ∨ c.Declares (key ++ rest) (target ++ rest) →
      ∃ m, c.importMap url = .ok m ∧
        ∀ source, m.resolve source (key ++ rest) = .ok (joined ++ rest)

/-- What both entries resolve to is what both joined URLs have in common. -/
theorem standsFor_of_join {url key target rest joined : String}
    (hkey : Text.endsWith key "/" = true) (hjoin : Url.join url target = .ok joined)
    (hbelow : Url.join url (target ++ rest) = .ok (joined ++ rest)) :
    StandsFor url key target rest := by
  refine ⟨joined, hjoin, hbelow, ?_⟩
  rintro c (hc | hc)
  · obtain ⟨m, hm⟩ := hc.exists_importMap hjoin
    have hfor : Mapping.IsFor (key ++ rest) key := by
      refine .inr ⟨Text.endsWith_iff.1 hkey, ?_⟩
      rw [String.toList_append]
      exact List.prefix_append _ _
    exact ⟨m, hm, fun source => ProjectConfig.resolve_of_declared hm hjoin (hc.decides hfor source)⟩
  · obtain ⟨m, hm⟩ := hc.exists_importMap hbelow
    refine ⟨m, hm, fun source => ?_⟩
    have hself : Mapping.IsFor (key ++ rest ++ "") (key ++ rest) := .inl String.append_empty
    have hresolve := ProjectConfig.resolve_of_declared hm hbelow (hc.decides hself source)
    rwa [String.append_empty, String.append_empty] at hresolve

theorem join_eq_ok_iff {url reference joined : String} : Url.join url reference = .ok joined ↔
    Url.joinChars url.toList reference.toList = .ok joined.toList := by
  rw [Url.join, Action.map_eq_ok_iff]
  constructor
  · rintro ⟨cs, h, rfl⟩
    rw [h, String.toList_ofList]
  · intro h
    exact ⟨joined.toList, h, String.ofList_toList⟩

theorem exists_join_iff {url reference : String} : (∃ joined, Url.join url reference = .ok joined) ↔
    ∃ cs, Url.joinChars url.toList reference.toList = .ok cs := by
  constructor
  · rintro ⟨joined, h⟩
    exact ⟨joined.toList, join_eq_ok_iff.1 h⟩
  · rintro ⟨cs, h⟩
    exact ⟨.ofList cs, join_eq_ok_iff.2 (by rw [h, String.toList_ofList])⟩

/-- **An entry for a directory stands for those below it.** The target is a directory as seen from
the configuration file, from the root, or of a host. The one exception is a target that is the sign
of an authority and nothing else, once it is cleaned; and a target that begins with that sign may be
no URL at all, which ends the configuration. -/
theorem stands_for_iff {path key target rest : String} (hpath : path.toList.head? = some '/')
    (hkey : Text.endsWith key "/" = true)
    (htarget : Url.IsDirectoryReference target.toList) (hrest : Url.IsBelow rest.toList) :
    (StandsFor ("file://" ++ path) key target rest ↔
      Url.clean target.toList ≠ ['/', '/'] ∧
        ∃ joined, Url.join ("file://" ++ path) target = .ok joined) ∧
    (¬ ['/', '/'] <+: Url.clean target.toList →
      ∃ joined, Url.join ("file://" ++ path) target = .ok joined) := by
  obtain ⟨b, hb⟩ := exists_fileBase hpath
  have hbase : Url.IsFileBase ("file://" ++ path).toList b := by
    rw [String.toList_append]
    exact hb
  generalize "file://" ++ path = url at hbase ⊢
  have hextends := Url.extends_iff hbase htarget hrest
  rw [exists_join_iff]
  refine ⟨⟨?_, fun h => ?_⟩, Url.exists_joinChars hbase htarget⟩
  · rintro ⟨joined, hjoin, hbelow, -⟩
    rw [join_eq_ok_iff, String.toList_append, String.toList_append] at hbelow
    exact hextends.1 ⟨joined.toList, join_eq_ok_iff.1 hjoin, hbelow⟩
  · obtain ⟨joined, hjoin, hbelow⟩ := hextends.2 h
    have hfirst : Url.join url target = .ok (.ofList joined) := by
      rw [join_eq_ok_iff, hjoin, String.toList_ofList]
    have hsecond : Url.join url (target ++ rest) = .ok (.ofList joined ++ rest) := by
      rw [join_eq_ok_iff, String.toList_append, hbelow, String.toList_append, String.toList_ofList]
    exact standsFor_of_join hkey hfirst hsecond

/-- Dots are carried out and repeated slashes are merged in the target, whichever way it is joined. -/
theorem stands_for_iff_vendor :
    let path := "/proj/app/deno.json"
    let target := "../vendor//./x/"
    (path.toList.head? = some '/' ∧ Text.endsWith "lib/" "/" = true ∧
      Url.IsDirectoryReference target.toList ∧ Url.IsBelow "a/b.ts".toList) ∧
    StandsFor ("file://" ++ path) "lib/" target "a/b.ts" ∧
    Url.join ("file://" ++ path) (target ++ "a/b.ts") = .ok "file:///proj/vendor/x/a/b.ts" := by
  intro path target
  have hpath : path.toList.head? = some '/' := by decide
  have hkey : Text.endsWith "lib/" "/" = true := by decide
  have htarget : Url.IsDirectoryReference target.toList :=
    ⟨.above (by decide), ⟨"../vendor//./x".toList, by decide⟩, by decide, by decide⟩
  have hrest : Url.IsBelow "a/b.ts".toList := by decide
  obtain ⟨hiff, hjoin⟩ := stands_for_iff hpath hkey htarget hrest
  exact ⟨⟨hpath, hkey, htarget, hrest⟩, hiff.2 ⟨by decide, hjoin (by decide)⟩, by decide +kernel⟩

/-- Two slashes with a tab between them name the configuration file itself. With a name behind them
they begin the name of a host, so the entry for the directory and the one for the module lead to
different places. -/
theorem stands_for_not_slashes :
    let url := "file:///p/deno.json"
    (Text.endsWith "x/" "/" = true ∧ Url.IsDirectoryReference "/\t/".toList ∧
      Url.IsBelow "a.ts".toList) ∧
    (Url.join url "/\t/" = .ok url ∧ Url.join url ("/\t/" ++ "a.ts") = .ok "file://a.ts") ∧
    ¬ StandsFor url "x/" "/\t/" "a.ts" := by
  intro url
  have hdirectory : Url.join url "/\t/" = .ok url := by decide +kernel
  have hmodule : Url.join url ("/\t/" ++ "a.ts") = .ok "file://a.ts" := by decide +kernel
  have htarget : Url.IsDirectoryReference "/\t/".toList :=
    ⟨.root (by decide) (by decide), ⟨"/\t".toList, by decide⟩, by decide, by decide⟩
  refine ⟨⟨by decide, htarget, by decide⟩, ⟨hdirectory, hmodule⟩, ?_⟩
  rintro ⟨joined, hjoin, hbelow, -⟩
  rw [hdirectory] at hjoin
  cases hjoin
  rw [hmodule] at hbelow
  exact absurd hbelow (by decide)

end ModuleGraph
