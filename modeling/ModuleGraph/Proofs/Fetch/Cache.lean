import ModuleGraph.Fetch.Cache
import ModuleGraph.Proofs.Digest
import ModuleGraph.Proofs.Fetch.Request
import ModuleGraph.Proofs.FileTree.Larger
import ModuleGraph.Proofs.Json.Writer
import ModuleGraph.Proofs.Utf8
/-!
# Entries of the response cache

The entries of a cache are files of one directory. Where that directory can be made, and neither an
entry nor a draft is a directory, keeping a response and dropping one go well, and each of them
changes the entry of one URL only.

Results:
* `isPlain_inDirectory`: digests are names of files;
* `readEntry_of_entry`: what is kept is read as it was written;
* `Usable.find_of_fresh`, `Usable.find_of_not_fresh`: a fresh entry is found and left alone, any
  other one is dropped;
* `Usable.keep`: a response that is kept is the entry of its URL.
-/

namespace ModuleGraph.Fetch.Cache

open FileTree (Sound IsName)

variable {c : Cache} {t t' : FileTree} {url v : String}

/-! ## Where entries stand -/

/-- The paths of a cache are made of names. -/
structure IsPlain (c : Cache) : Prop where
  directory : FileTree.IsPlain c.directory
  nonempty : c.directory ≠ ""
  characters : ∀ url, ∀ x ∈ (c.entryName url).toList, x ≠ '/' ∧ x ≠ '\x00'
  /-- There is room for an ending. -/
  short : ∀ url, Utf8.width (c.entryName url).toList + 5 ≤ FileTree.nameLimit

/-- The paths of a cache that names its entries by digests are made of names. -/
theorem isPlain_inDirectory {directory : String} {reading : Reading}
    (h : FileTree.IsPlain directory) (hne : directory ≠ "") :
    (inDirectory directory reading).IsPlain where
  directory := h
  nonempty := hne
  characters url x hx := ⟨(Digest.mem_ofText hx).1, (Digest.mem_ofText hx).2.1⟩
  short url := by
    change Utf8.width (Digest.ofText url).toList + 5 ≤ _
    rw [Utf8.width_ascii fun x hx => (Digest.mem_ofText hx).2.2, Digest.length_ofText]
    decide

/-- The endings of the names in a cache: of entries, and of drafts. -/
def endings : List String := [".json", ".tmp"]

namespace IsPlain

variable {ending : String} (hc : c.IsPlain) (he : ending ∈ endings)

include hc he

theorem component (url : String) :
    FilePath.IsComponent (c.entryName url ++ ending).toList ∧
      IsName (c.entryName url ++ ending).toList ∧ '\x00' ∉ (c.entryName url ++ ending).toList := by
  have hending : ('/' ∉ ending.toList ∧ '\x00' ∉ ending.toList) ∧
      (3 ≤ ending.toList.length ∧ Utf8.width ending.toList ≤ 5) := by
    have hall : ∀ ending ∈ endings, ('/' ∉ ending.toList ∧ '\x00' ∉ ending.toList) ∧
        (3 ≤ ending.toList.length ∧ Utf8.width ending.toList ≤ 5) := by decide
    exact hall ending he
  have hlength : 3 ≤ (c.entryName url ++ ending).toList.length := by
    rw [String.toList_append, List.length_append]
    omega
  refine ⟨⟨?_, ?_, ?_⟩, ⟨?_, ?_⟩, ?_⟩
  · rw [String.toList_append, List.mem_append, not_or]
    exact ⟨fun hx => (hc.characters url _ hx).1 rfl, hending.1.1⟩
  · intro hnil
    rw [hnil] at hlength
    cases hlength
  · intro hdot
    rw [hdot] at hlength
    exact absurd hlength (by decide)
  · intro hdots
    rw [hdots] at hlength
    exact absurd hlength (by decide)
  · have hshort := hc.short url
    rw [Utf8.width, String.toList_append, List.flatMap_append, List.length_append]
    rw [Utf8.width] at hshort hending
    omega
  · rw [String.toList_append, List.mem_append, not_or]
    exact ⟨fun hx => (hc.characters url _ hx).2 rfl, hending.1.2⟩

theorem path (url : String) :
    FileTree.IsPlain (FilePath.append c.directory (c.entryName url ++ ending)) := by
  obtain ⟨hcomponent, hname, hnul⟩ := hc.component he url
  exact hc.directory.append hcomponent hname hnul

/-- The files of a cache stand in its directory. -/
theorem place (t : FileTree) (url : String) :
    t.placeOf (FilePath.append c.directory (c.entryName url ++ ending)) =
      t.placeOf c.directory ++ [(c.entryName url ++ ending).toList] :=
  t.placeOf_append hc.nonempty (hc.component he url).1

end IsPlain

theorem json_mem_endings : ".json" ∈ endings := by decide

theorem tmp_mem_endings : ".tmp" ∈ endings := by decide

section

variable (hc : c.IsPlain)

include hc

theorem plain_entry (url : String) : FileTree.IsPlain (c.entryPath url) :=
  hc.path json_mem_endings url

theorem plain_draft (url : String) : FileTree.IsPlain (c.draftPath url) :=
  hc.path tmp_mem_endings url

theorem place_entry (t : FileTree) (url : String) : t.placeOf (c.entryPath url) =
    t.placeOf c.directory ++ [(c.entryName url ++ ".json").toList] :=
  hc.place json_mem_endings t url

theorem place_draft (t : FileTree) (url : String) : t.placeOf (c.draftPath url) =
    t.placeOf c.directory ++ [(c.entryName url ++ ".tmp").toList] :=
  hc.place tmp_mem_endings t url

theorem place_entry_ne (t : FileTree) (h : c.entryName v ≠ c.entryName url) :
    t.placeOf (c.entryPath v) ≠ t.placeOf (c.entryPath url) := by
  rw [place_entry hc, place_entry hc]
  intro he
  have hlast := List.singleton_inj.1 (List.append_cancel_left he)
  rw [String.toList_append, String.toList_append, List.append_cancel_right_eq] at hlast
  exact h (String.toList_injective hlast)

theorem place_entry_ne_draft (t : FileTree) (url v : String) :
    t.placeOf (c.entryPath v) ≠ t.placeOf (c.draftPath url) := by
  rw [place_entry hc, place_draft hc]
  intro he
  have hlast := List.singleton_inj.1 (List.append_cancel_left he)
  rw [String.toList_append, String.toList_append] at hlast
  have hend := congrArg List.getLast? hlast
  rw [List.getLast?_append, List.getLast?_append] at hend
  simp at hend

end

/-! ## Trees for a cache -/

/-- The directory of the cache is there or can be made, and no entry or draft is a directory. -/
structure Usable (c : Cache) (t : FileTree) : Prop where
  sound : t.Sound
  free : ∀ q, q <+: t.placeOf c.directory → t.isFileAt q = false
  entries : ∀ url, t.get? (t.placeOf (c.entryPath url)) ≠ some .directory
  drafts : ∀ url, t.get? (t.placeOf (c.draftPath url)) ≠ some .directory

/-- Where nothing is under the path of its directory, the cache is empty and can be used. -/
theorem usable_of_missing (hc : c.IsPlain) (ht : t.Sound)
    (hfree : ∀ q, q <+: t.placeOf c.directory → t.isFileAt q = false)
    (hmissing : t.get? (t.placeOf c.directory) = none) : c.Usable t ∧
      (∀ url, t.get? (t.placeOf (c.entryPath url)) = none) ∧
      ∀ url, t.get? (t.placeOf (c.draftPath url)) = none := by
  have hbelow : ∀ name, t.get? (t.placeOf c.directory ++ [name]) = none := by
    intro name
    rw [← Option.not_isSome_iff_eq_none]
    intro hs
    rw [ht.above _ name hs] at hmissing
    cases hmissing
  have hentry : ∀ url, t.get? (t.placeOf (c.entryPath url)) = none := fun url => by
    rw [place_entry hc, hbelow]
  have hdraft : ∀ url, t.get? (t.placeOf (c.draftPath url)) = none := fun url => by
    rw [place_draft hc, hbelow]
  refine ⟨⟨ht, hfree, fun url hd => ?_, fun url hd => ?_⟩, hentry, hdraft⟩
  · rw [hentry url] at hd
    cases hd
  · rw [hdraft url] at hd
    cases hd

/-- The bytes of a URL's entry, if it has one. -/
def entry? (c : Cache) (t : FileTree) (url : String) : Option (List UInt8) :=
  (t.bytes (c.entryPath url)).toOption

/-- The trees differ in the entry of one URL and its draft, and in directories that were made. -/
structure Confined (c : Cache) (url : String) (t t' : FileTree) : Prop where
  start : t'.start = t.start
  others : ∀ v, c.entryName v ≠ c.entryName url → c.entry? t' v = c.entry? t v
  keeps : ∀ q n, q ≠ t.placeOf (c.entryPath url) → q ≠ t.placeOf (c.draftPath url) →
    t.get? q = some n → t'.get? q = some n

namespace Confined

variable {t'' : FileTree}

theorem refl (c : Cache) (url : String) (t : FileTree) : c.Confined url t t :=
  ⟨rfl, fun _ _ => rfl, fun _ _ _ _ h => h⟩

theorem trans (h : c.Confined url t t') (h' : c.Confined url t' t'') : c.Confined url t t'' where
  start := h'.start.trans h.start
  others v hv := (h'.others v hv).trans (h.others v hv)
  keeps q n hentry hdraft hn := by
    refine h'.keeps q n ?_ ?_ (h.keeps q n hentry hdraft hn)
    · rwa [FileTree.placeOf_congr h.start]
    · rwa [FileTree.placeOf_congr h.start]

/-- What stood in a tree before there was an entry or a draft of the URL stays. -/
theorem grows (h : c.Confined url t t') {t₀ : FileTree} (hgrown : t₀.Extends t)
    (hentry : t₀.get? (t₀.placeOf (c.entryPath url)) = none)
    (hdraft : t₀.get? (t₀.placeOf (c.draftPath url)) = none) : t₀.Extends t' where
  start := h.start.trans hgrown.start
  keeps q n hn := by
    refine h.keeps q n ?_ ?_ (hgrown.keeps q n hn)
    · rintro rfl
      rw [FileTree.placeOf_congr hgrown.start, hentry] at hn
      cases hn
    · rintro rfl
      rw [FileTree.placeOf_congr hgrown.start, hdraft] at hn
      cases hn

end Confined

namespace Usable

variable (hc : c.IsPlain) (h : c.Usable t)

include hc h

theorem entry?_eq_some_iff {content : List UInt8} :
    c.entry? t url = some content ↔ t.get? (t.placeOf (c.entryPath url)) = some (.file content) := by
  rw [← FileTree.bytes_eq_ok_iff h.sound (plain_entry hc url), entry?]
  cases t.bytes (c.entryPath url) with
  | error o =>
    constructor
    · intro h
      cases h
    · intro h
      cases h
  | ok content' =>
    constructor
    · intro h
      cases h
      rfl
    · intro h
      cases h
      rfl

/-- A URL has an entry where its path leads to something. -/
theorem contains_iff : t.contains (c.entryPath url) = true ↔ (c.entry? t url).isSome = true := by
  rw [FileTree.contains_iff h.sound (plain_entry hc url), Option.isSome_iff_exists,
    Option.isSome_iff_exists]
  constructor
  · rintro ⟨n, hn⟩
    cases n with
    | file content => exact ⟨content, (h.entry?_eq_some_iff hc).2 hn⟩
    | directory => exact absurd hn (h.entries url)
  · rintro ⟨content, hcontent⟩
    exact ⟨_, (h.entry?_eq_some_iff hc).1 hcontent⟩

theorem entry?_congr (h' : c.Usable t') (hstart : t'.start = t.start)
    (hget : t'.get? (t.placeOf (c.entryPath url)) = t.get? (t.placeOf (c.entryPath url))) :
    c.entry? t' url = c.entry? t url := by
  ext content
  rw [h'.entry?_eq_some_iff hc, h.entry?_eq_some_iff hc, FileTree.placeOf_congr hstart, hget]

/-- A tree with no other directories but above the entries is as usable. -/
theorem change (hs : t'.Sound) (hstart : t'.start = t.start)
    (hfiles : ∀ q, q <+: t.placeOf c.directory → t'.isFileAt q = false)
    (hdirs : ∀ q, t'.get? q = some .directory →
      t.get? q = some .directory ∨ q <+: t.placeOf c.directory) : c.Usable t' := by
  have hbelow : ∀ name, ¬ (t.placeOf c.directory ++ [name] <+: t.placeOf c.directory) := by
    intro name hp
    have hlen := hp.length_le
    rw [List.length_append, List.length_singleton] at hlen
    omega
  refine ⟨hs, ?_, ?_, ?_⟩
  · rw [FileTree.placeOf_congr hstart]
    exact hfiles
  · intro url hdir
    rw [FileTree.placeOf_congr hstart] at hdir
    rcases hdirs _ hdir with hd | hp
    · exact h.entries url hd
    · rw [place_entry hc] at hp
      exact hbelow _ hp
  · intro url hdir
    rw [FileTree.placeOf_congr hstart] at hdir
    rcases hdirs _ hdir with hd | hp
    · exact h.drafts url hd
    · rw [place_draft hc] at hp
      exact hbelow _ hp

theorem erase {p : List (List Char)} (hp : ∃ content, t.get? p = some (.file content)) :
    c.Usable (t.erase p) := by
  have hne : p ≠ [] := by
    rintro rfl
    obtain ⟨content, hp⟩ := hp
    cases hp
  refine h.change hc (h.sound.erase hp) rfl ?_ ?_
  · intro q hq
    have hfree := h.free q hq
    rw [FileTree.isFileAt, t.get?_erase hne]
    split
    · next hsome =>
      split at hsome
      · cases hsome
      · rwa [FileTree.isFileAt, hsome] at hfree
    · rfl
  · intro q hq
    rw [t.get?_erase hne] at hq
    split at hq
    · cases hq
    · exact .inl hq

/-- A file is put into the directory of the cache. -/
theorem put {name : List Char} (hd : t.get? (t.placeOf c.directory) = some .directory)
    (hn : t.get? (t.placeOf c.directory ++ [name]) ≠ some .directory) (content : List UInt8) :
    c.Usable (t.set (t.placeOf c.directory ++ [name]) (.file content)) := by
  have hne : t.placeOf c.directory ++ [name] ≠ [] := by simp
  refine h.change hc (h.sound.set hne (by rwa [List.dropLast_concat]) fun hdir => absurd hdir hn)
    (FileTree.start_set ..) ?_ ?_
  · intro q hq
    have hfree := h.free q hq
    rw [FileTree.isFileAt, t.get?_set hne, if_neg]
    · exact hfree
    · rintro rfl
      have hlen := hq.length_le
      rw [List.length_append, List.length_singleton] at hlen
      omega
  · intro q hq
    rw [t.get?_set hne] at hq
    split at hq
    · cases hq
    · exact .inl hq

/-- The directory of the cache can be made. -/
theorem makeDirectory : ∃ made, t.makeDirectory c.directory = .ok made ∧
    made.start = t.start ∧ c.Usable made ∧
    made.get? (t.placeOf c.directory) = some .directory ∧
    ∀ q, ¬ q <+: t.placeOf c.directory → made.get? q = t.get? q := by
  obtain ⟨made, hmade, hstart, hget⟩ := FileTree.makeDirectory_eq h.sound h.free
  refine ⟨made, hmade, hstart, ?_, ?_, fun q hq => ?_⟩
  · refine h.change hc (h.sound.directories hstart hget) hstart ?_ ?_
    · intro q hq
      rw [FileTree.isFileAt, hget, if_pos hq]
    · intro q hq
      rw [hget] at hq
      split at hq
      · next hp => exact .inr hp
      · exact .inl hq
  · rw [hget, if_pos (List.prefix_refl _)]
  · rw [hget, if_neg hq]

/-! ## Keeping a response -/

/-- The draft is written, and then takes the place of the entry. -/
theorem draft_replaces (hdir : t.get? (t.placeOf c.directory) = some .directory) (url : String)
    (content : List UInt8) : ∃ drafted t', t.write (c.draftPath url) content = .ok drafted ∧
      drafted.replace (c.draftPath url) (c.entryPath url) = .ok t' ∧ t'.start = t.start ∧
      c.Usable t' ∧ t'.get? (t.placeOf (c.entryPath url)) = some (.file content) ∧
      ∀ q, q ≠ t.placeOf (c.entryPath url) → q ≠ t.placeOf (c.draftPath url) →
        t'.get? q = t.get? q := by
  have hentry := place_entry hc t url
  have hdraft := place_draft hc t url
  have hapart : t.placeOf (c.entryPath url) ≠ t.placeOf (c.draftPath url) :=
    place_entry_ne_draft hc t url url
  have hne : ∀ {name : List Char}, t.placeOf c.directory ++ [name] ≠ [] := by simp
  have hhome : ∀ {name : List Char}, t.placeOf c.directory ≠ t.placeOf c.directory ++ [name] := by
    simp
  have hentryNe : t.placeOf (c.entryPath url) ≠ [] := hentry ▸ hne
  have hdraftNe : t.placeOf (c.draftPath url) ≠ [] := hdraft ▸ hne
  have hwrite := FileTree.write_eq h.sound (plain_draft hc url) content
    (by rwa [hdraft, List.dropLast_concat]) (h.drafts url)
  set drafted := t.set (t.placeOf (c.draftPath url)) (.file content) with hdrafted
  have hstart : drafted.start = t.start := FileTree.start_set ..
  have husable : c.Usable drafted := by
    rw [hdrafted, hdraft]
    exact h.put hc hdir (hdraft ▸ h.drafts url) content
  have hsource : drafted.get? (t.placeOf (c.draftPath url)) = some (.file content) := by
    rw [hdrafted, t.get?_set hdraftNe, if_pos rfl]
  have hdir' : drafted.get? (t.placeOf c.directory) = some .directory := by
    rw [hdrafted, t.get?_set hdraftNe, if_neg (hdraft ▸ hhome), hdir]
  have hreplace := FileTree.replace_eq husable.sound (plain_draft hc url) (plain_entry hc url)
    (by rwa [FileTree.placeOf_congr hstart])
    (by rwa [FileTree.placeOf_congr hstart, hentry, List.dropLast_concat]) (husable.entries url)
  rw [FileTree.placeOf_congr hstart, FileTree.placeOf_congr hstart] at hreplace
  have herased := husable.erase hc ⟨content, hsource⟩
  have herasedStart : (drafted.erase (t.placeOf (c.draftPath url))).start = t.start := hstart
  have hplaced := herased.put hc
    (by rw [FileTree.placeOf_congr herasedStart, drafted.get?_erase hdraftNe,
      if_neg (hdraft ▸ hhome), hdir'])
    (place_entry hc _ url ▸ herased.entries url) content
  rw [FileTree.placeOf_congr herasedStart, ← hentry] at hplaced
  refine ⟨drafted, _, hwrite, hreplace, ?_, hplaced, ?_, fun q hq hq' => ?_⟩
  · rw [FileTree.start_set, herasedStart]
  · rw [FileTree.get?_set _ hentryNe, if_pos rfl]
  · rw [FileTree.get?_set _ hentryNe, if_neg hq, drafted.get?_erase hdraftNe, if_neg hq', hdrafted,
      t.get?_set hdraftNe, if_neg hq']

/-- What is kept is the entry of its URL, and nothing else changes. -/
theorem write (r : CachedResponse) : ∃ t', c.write t r = (t', none) ∧ c.Usable t' ∧
    c.entry? t' r.url = some (Utf8.encode r.toDocument) ∧ c.Confined r.url t t' := by
  obtain ⟨made, hmade, hstart, husable, hdir, hsame⟩ := h.makeDirectory hc
  rw [← FileTree.placeOf_congr hstart] at hdir
  obtain ⟨drafted, t', hwrite, hreplace, hstart', husable', hentry, hother⟩ :=
    husable.draft_replaces hc hdir r.url (Utf8.encode r.toDocument)
  refine ⟨t', ?_, husable', ?_, hstart'.trans hstart, fun v hv => ?_, fun q n hq hq' hn => ?_⟩
  · rw [Cache.write, hmade]
    simp only [hwrite, hreplace]
  · rw [husable'.entry?_eq_some_iff hc, FileTree.placeOf_congr hstart', hentry]
  · refine h.entry?_congr hc husable' (hstart'.trans hstart) ?_
    rw [← FileTree.placeOf_congr hstart,
      hother _ (place_entry_ne hc made hv) (place_entry_ne_draft hc made r.url v)]
    refine hsame _ fun hp => ?_
    rw [FileTree.placeOf_congr hstart, place_entry hc] at hp
    have hlen := hp.length_le
    rw [List.length_append, List.length_singleton] at hlen
    omega
  · rw [FileTree.placeOf_congr hstart] at hother hdir
    rw [hother q hq (by rwa [FileTree.placeOf_congr hstart])]
    by_cases hp : q <+: t.placeOf c.directory
    · -- What stands above the entries is a directory already.
      have hfree := h.free q hp
      rw [FileTree.isFileAt, hn] at hfree
      cases n with
      | file content => cases hfree
      | directory => exact husable.sound.above_prefix hp hdir
    · rw [hsame q hp, hn]

/-- An entry that is dropped is gone, and nothing else changes. -/
theorem remove {content : List UInt8} (hentry : c.entry? t url = some content) :
    ∃ t', t.remove (c.entryPath url) = .ok t' ∧ c.Usable t' ∧ c.entry? t' url = none ∧
      c.Confined url t t' := by
  have hget := (h.entry?_eq_some_iff hc).1 hentry
  have hne : t.placeOf (c.entryPath url) ≠ [] := by
    rw [place_entry hc]
    simp
  have husable := h.erase hc ⟨content, hget⟩
  refine ⟨_, FileTree.remove_eq h.sound (plain_entry hc url) hget, husable, ?_, t.start_erase _,
    fun v hv => ?_, fun q n hq _ hn => ?_⟩
  · refine Option.eq_none_iff_forall_ne_some.2 fun content' hcontent => ?_
    have hgone := (husable.entry?_eq_some_iff hc).1 hcontent
    rw [FileTree.placeOf_congr (t.start_erase _), t.get?_erase hne, if_pos rfl] at hgone
    cases hgone
  · refine h.entry?_congr hc husable (t.start_erase _) ?_
    rw [t.get?_erase hne, if_neg (place_entry_ne hc t hv)]
  · rw [t.get?_erase hne, if_neg hq, hn]

end Usable

/-! ## Reading an entry -/

theorem oneLineEnd_eq {cs : List Char} (h : '\r' ∉ cs) : FileTree.oneLineEnd cs = cs := by
  induction cs with
  | nil => rfl
  | cons x cs ih =>
    rw [List.mem_cons, not_or] at h
    rw [FileTree.oneLineEnd, if_neg (Ne.symm h.1), ih h.2]
    rintro r rfl
    exact absurd rfl h.1

/-- What it takes to read an entry. -/
theorem readEntry_eq_ok_iff {path : String} {r : CachedResponse} :
    c.readEntry t path = .ok r ↔ ∃ content text, t.bytes path = .ok content ∧
      Utf8.decode content = .ok text ∧
      c.reading.entry (.ofList (FileTree.oneLineEnd text.toList)) = .ok r := by
  rw [readEntry, FileTree.text, Action.bind_eq_ok_iff]
  simp only [Action.mapError_eq_ok_iff, Action.bind_eq_ok_iff]
  constructor
  · rintro ⟨document, ⟨content, hbytes, text, hdecode, hdocument⟩, hr⟩
    cases hdocument
    exact ⟨content, text, hbytes, hdecode, hr⟩
  · rintro ⟨content, text, hbytes, hdecode, hr⟩
    exact ⟨_, ⟨content, hbytes, text, hdecode, rfl⟩, hr⟩

/-- What is written as an entry is read as the document that was written. -/
theorem readEntry_of_entry (hc : c.IsPlain) (h : c.Usable t) {r : CachedResponse}
    (hentry : c.entry? t url = some (Utf8.encode r.toDocument))
    (hr : c.reading.entry r.toDocument = .ok r) : c.readEntry t (c.entryPath url) = .ok r := by
  refine readEntry_eq_ok_iff.2 ⟨_, r.toDocument, ?_, (Utf8.decode_eq_ok_iff _ _).2 rfl, ?_⟩
  · exact (FileTree.bytes_eq_ok_iff h.sound (plain_entry hc url)).2
      ((h.entry?_eq_some_iff hc).1 hentry)
  · have hline : '\r' ∉ r.toDocument.toList := fun hmem =>
      absurd (Json.isShown_write (by decide) (by decide) r.toJson _ hmem) (by decide)
    rw [oneLineEnd_eq hline, String.ofList_toList, hr]

/-! ## Finding and keeping -/

/-- The response that the entry of a URL holds, if the entry can be read and is not too old. -/
structure Fresh (c : Cache) (w : World) (url : String) (r : CachedResponse) : Prop where
  read : ∃ content text, w.files.bytes (c.entryPath url) = .ok content ∧
    Utf8.decode content = .ok text ∧
    c.reading.entry (.ofList (FileTree.oneLineEnd text.toList)) = .ok r
  young : w.now - r.fetchedAt.micros ≤ c.timeToLive

variable {w : World} {r : CachedResponse}

theorem fresh_iff : c.Fresh w url r ↔
    c.readEntry w.files (c.entryPath url) = .ok r ∧ age w.now r ≤ c.timeToLive := by
  rw [readEntry_eq_ok_iff]
  exact ⟨fun h => ⟨h.read, h.young⟩, fun h => ⟨h.1, h.2⟩⟩

namespace Usable

variable (hc : c.IsPlain) (h : c.Usable w.files)

include hc h

/-- A fresh entry is found. -/
theorem find_of_fresh (hf : c.Fresh w url r) : (c.find url).run w = (.ok (some r), w) := by
  obtain ⟨hread, hyoung⟩ := fresh_iff.1 hf
  have hcontains : w.files.contains (c.entryPath url) = true := by
    obtain ⟨content, -, hbytes, -⟩ := hf.read
    rw [h.contains_iff hc, entry?, hbytes]
    rfl
  rw [find, Action.run_get_bind, hcontains, hread]
  simp only [Bool.not_true, Bool.false_eq_true, if_false, if_neg (Int.not_lt.2 hyoung)]
  rfl

/-- An entry that is not fresh is dropped. -/
theorem find_of_not_fresh (hn : ∀ r, ¬ c.Fresh w url r) : ∃ files lines,
    (c.find url).run w = (.ok none, { w with files := files, log := w.log ++ lines }) ∧
      c.Usable files ∧ c.entry? files url = none ∧ (∀ v, fetching v ∉ lines) ∧
      c.Confined url w.files files := by
  rw [find, Action.run_get_bind]
  by_cases hcontains : w.files.contains (c.entryPath url) = true
  · obtain ⟨content, hcontent⟩ := Option.isSome_iff_exists.1 ((h.contains_iff hc).1 hcontains)
    obtain ⟨files, hremove, husable, hgone, hconfined⟩ := h.remove hc hcontent
    have hdrop : ∀ level message, (∀ v, fetching v ≠ ⟨logger, level, message⟩) →
        ∃ files lines, (do
            set (w.tell level message)
            discard (c.entryPath url)
            return none : Action (Option CachedResponse)).run w =
              (.ok none, { w with files := files, log := w.log ++ lines }) ∧
          c.Usable files ∧ c.entry? files url = none ∧ (∀ v, fetching v ∉ lines) ∧
          c.Confined url w.files files := by
      intro level message hline
      refine ⟨files, [⟨logger, level, message⟩], ?_, husable, hgone, ?_, hconfined⟩
      · have hdiscard : (discard (c.entryPath url)).run (w.tell level message) =
            (.ok (), { w.tell level message with files := files }) := by
          have hremove' : (w.tell level message).files.remove (c.entryPath url) = .ok files :=
            hremove
          rw [discard, Action.run_get_bind, hremove']
          rfl
        rw [Action.run_bind, Action.run_set]
        exact Action.run_bind_of_ok hdiscard
      · intro v hv
        exact hline v (List.mem_singleton.1 hv)
    rw [hcontains]
    cases hread : c.readEntry w.files (c.entryPath url) with
    | error e =>
      refine hdrop .warning _ fun v hv => ?_
      cases congrArg LogRecord.level hv
    | ok r =>
      have hold : c.timeToLive < age w.now r :=
        Int.not_le.1 fun hyoung => hn r (fresh_iff.2 ⟨hread, hyoung⟩)
      simp only [Bool.not_true, Bool.false_eq_true, if_false, if_pos hold]
      refine hdrop _ _ fun v hv => ?_
      have hfirst := congrArg (fun line : LogRecord => line.message.toList.head?) hv
      simp [fetching] at hfirst
  · have hnone : c.entry? w.files url = none := by
      rwa [h.contains_iff hc, Option.not_isSome_iff_eq_none] at hcontains
    refine ⟨w.files, [], ?_, h, hnone, fun v hv => absurd hv List.not_mem_nil, .refl c url _⟩
    rw [Bool.eq_false_iff.2 hcontains, List.append_nil]
    rfl

/-- Keeping a response changes the entry of its URL only. -/
theorem keep (r : CachedResponse) : ∃ files, (c.keep r).run w = (.ok (), { w with files := files }) ∧
    c.Usable files ∧ c.entry? files r.url = some (Utf8.encode r.toDocument) ∧
    c.Confined r.url w.files files := by
  obtain ⟨files, hwrite, husable, hentry, hconfined⟩ := h.write hc r
  refine ⟨files, ?_, husable, hentry, hconfined⟩
  rw [Cache.keep, Action.run_get_bind, hwrite]
  rfl

end Usable

end ModuleGraph.Fetch.Cache
