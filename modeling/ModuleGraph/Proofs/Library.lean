import ModuleGraph.Proofs.Host
import ModuleGraph.Proofs.Url.Join
/-!
# Names of libraries

A loader makes the file name of a library from its name, and a host makes it from the name of the
file that it is asked for, after the extension of that name is gone. Both make names of one form.
They make one name from the name of a declaration file.

Results:
* `fileName_spec`: what a file name consists of;
* `fileName_fileName`: the file name of a library is its own;
* `exists_ending`: a name that ends in `.d.ts` once it is in lower case;
* `foldLibraryName_eq`: the host makes the name that the loader makes.
-/

namespace ModuleGraph.Library

open Host (stem foldLibraryName IsLibraryStem)

/-- The characters of the text may stand in the name of a file. -/
def IsName (s : String) : Prop := ∀ c ∈ s.toList, Url.isNameChar c = true

instance (s : String) : Decidable (IsName s) := List.decidableBAll _ s.toList

/-- The text ends like a declaration file, in capitals or not. -/
def IsDeclaration (s : String) : Prop :=
  Text.endsWith (Text.lower s) declarationSuffix = true

variable {s name : String}

/-! ## Characters -/

theorem isNameChar_ascii :
    ∀ n < 0x80, Url.isNameChar (Char.ofNat n) = true →
      Url.isNameChar (Text.lowerChar (Char.ofNat n)) = true := by
  decide +kernel

theorem isNameChar_lowerChar {c : Char} (h : Url.isNameChar c = true) :
    Url.isNameChar (Text.lowerChar c) = true := by
  have hc := isNameChar_ascii c.toNat (Url.isNameChar_spec h).2.1
  rw [Char.ofNat_toNat] at hc
  exact hc h

theorem IsName.toList_lower (h : IsName s) :
    (Text.lower s).toList = s.toList.map Text.lowerChar :=
  Text.toList_lower fun c hc => (Url.isNameChar_spec (h c hc)).2.1

theorem IsName.lower (h : IsName s) : IsName (Text.lower s) := by
  intro c hc
  rw [h.toList_lower] at hc
  obtain ⟨d, hd, rfl⟩ := List.mem_map.1 hc
  exact isNameChar_lowerChar (h d hd)

theorem IsName.no_slash (h : IsName s) : '/' ∉ s.toList :=
  fun hmem => (Url.isNameChar_spec (h '/' hmem)).2.2.1 (by decide)

/-! ## The name that a loader makes -/

/-- The text with `lib.` in front, unless it is there. -/
def opened (s : String) : String := if Text.startsWith s opening then s else opening ++ s

theorem startsWith_opened (s : String) : Text.startsWith (opened s) opening = true := by
  unfold opened
  split_ifs with h
  · exact h
  · rw [Text.startsWith_iff, String.toList_append]
    exact List.prefix_append _ _

theorem endsWith_opened {stop : String} (h : Text.endsWith s stop = true) :
    Text.endsWith (opened s) stop = true := by
  unfold opened
  split_ifs
  · exact h
  · exact Text.endsWith_append_right h

theorem fileName_eq (name : String) : fileName name =
    if Text.endsWith (opened (Text.lower name)) declarationSuffix then opened (Text.lower name)
    else opened (Text.lower name) ++ declarationSuffix := rfl

/-- A file name has the form that it is given, and no characters but those of the name in lower
case and of the form. -/
theorem fileName_spec (name : String) : Text.startsWith (fileName name) opening = true ∧
    Text.endsWith (fileName name) declarationSuffix = true ∧
    ∀ c ∈ (fileName name).toList, c ∈ (Text.lower name).toList ∨ c ∈ "lib..d.ts".toList := by
  have hopened : ∀ c ∈ (opened (Text.lower name)).toList,
      c ∈ (Text.lower name).toList ∨ c ∈ "lib..d.ts".toList := by
    intro c hc
    unfold opened at hc
    split_ifs at hc
    · exact .inl hc
    · rw [String.toList_append, List.mem_append] at hc
      exact hc.symm.imp_right fun hc => List.mem_append_left ".d.ts".toList hc
  rw [fileName_eq]
  split_ifs with h
  · exact ⟨startsWith_opened _, h, hopened⟩
  · refine ⟨Text.startsWith_append (startsWith_opened _), endsWith_append _ _, fun c hc => ?_⟩
    rw [String.toList_append, List.mem_append] at hc
    rcases hc with hc | hc
    · exact hopened c hc
    · exact .inr (List.mem_append_right "lib.".toList hc)

theorem isLowered_form : ∀ c ∈ "lib..d.ts".toList,
    (Text.lowerChar c = c ∧ c.toNat ≠ 0x3A3 ∧ c.toNat ≠ 0x130) ∧ Url.isNameChar c = true :=
  List.all_iff_forall_prop.1 (by decide +kernel)

theorem lower_fileName (name : String) : Text.lower (fileName name) = fileName name := by
  refine Text.lower_eq_self fun c hc => ?_
  rcases (fileName_spec name).2.2 c hc with hc | hc
  · exact Text.isLowered_of_mem_lower hc
  · exact (isLowered_form c hc).1

/-- The file name of a library is its own file name. -/
theorem fileName_fileName (name : String) : fileName (fileName name) = fileName name := by
  obtain ⟨hopening, hclosing, -⟩ := fileName_spec name
  have hopened : opened (fileName name) = fileName name := if_pos hopening
  rw [fileName_eq, lower_fileName, hopened, if_pos hclosing]

theorem IsName.fileName (h : IsName name) : IsName (fileName name) := by
  intro c hc
  rcases (fileName_spec name).2.2 c hc with hc | hc
  · exact h.lower c hc
  · exact (isLowered_form c hc).2

theorem isDeclaration_fileName (name : String) : IsDeclaration (fileName name) := by
  rw [IsDeclaration, lower_fileName]
  exact (fileName_spec name).2.1

/-- A file name names neither a directory nor the one above. -/
theorem IsName.isFileName (h : IsName name) : Url.IsFileName (Library.fileName name).toList := by
  obtain ⟨r, hr⟩ := Text.startsWith_iff.1 (fileName_spec name).1
  refine ⟨?_, h.fileName, ?_, ?_⟩ <;> rw [← hr] <;> simp [opening]

/-! ## The name that a host makes -/

/-- A name that ends in `.d.ts`, in capitals or not, ends in two points, the letter between them and
two letters behind them. -/
theorem exists_ending (h : IsName s) (hend : IsDeclaration s) : ∃ g d t u,
    s.toList = g ++ '.' :: d :: '.' :: [t, u] ∧ Text.lowerChar d = 'd' ∧ Text.lowerChar t = 't' ∧
      Text.lowerChar u = 's' := by
  obtain ⟨r, hr⟩ := Text.endsWith_iff.1 hend
  rw [h.toList_lower] at hr
  obtain ⟨g, ending, hs, -, hending⟩ := List.map_eq_append_iff.1 hr.symm
  obtain ⟨a, rest, rfl, ha, hrest⟩ := List.map_eq_cons_iff.1 hending
  obtain ⟨d, rest, rfl, hd, hrest⟩ := List.map_eq_cons_iff.1 hrest
  obtain ⟨b, rest, rfl, hb, hrest⟩ := List.map_eq_cons_iff.1 hrest
  obtain ⟨t, rest, rfl, ht, hrest⟩ := List.map_eq_cons_iff.1 hrest
  obtain ⟨u, rest, rfl, hu, hrest⟩ := List.map_eq_cons_iff.1 hrest
  obtain rfl : rest = [] := List.map_eq_nil_iff.1 hrest
  obtain rfl : a = '.' := Text.eq_of_lowerChar (by decide) ha
  obtain rfl : b = '.' := Text.eq_of_lowerChar (by decide) hb
  exact ⟨g, d, t, u, hs, hd, ht, hu⟩

theorem lowerChar_point : Text.lowerChar '.' = '.' := by decide +kernel

/-- Without the extension, such a name is what ends in `.d` in lower case. -/
theorem lower_eq_stem (h : IsName s) (hend : IsDeclaration s) :
    Text.lower s = Text.lower (stem s) ++ ".ts" ∧ Text.endsWith (Text.lower (stem s)) ".d" = true := by
  obtain ⟨g, d, t, u, hs, hd, ht, hu⟩ := exists_ending h hend
  have hpoint : ∀ c e, Text.lowerChar c = e → e ≠ '.' → c ≠ '.' := by
    rintro c e hc he rfl
    exact he (hc.symm.trans lowerChar_point)
  have hcut : Text.cutAtLast '.' s.toList = some (g ++ ['.', d], [t, u]) := by
    have hbehind : '.' ∉ [t, u] := by
      simp [(hpoint t _ ht (by decide)).symm, (hpoint u _ hu (by decide)).symm]
    rw [hs, ← Text.cutAtLast_append hbehind, List.append_assoc]
    rfl
  have hstem : stem s = .ofList (g ++ ['.', d]) := by
    rw [stem, hcut]
    simp [hpoint d _ hd (by decide)]
  have hname : IsName (stem s) := by
    intro c hc
    exact h c (Host.mem_of_mem_stem hc)
  have hlower : (Text.lower (stem s)).toList = g.map Text.lowerChar ++ ".d".toList := by
    rw [hname.toList_lower, hstem, String.toList_ofList, List.map_append]
    simp [lowerChar_point, hd]
  constructor
  · rw [← String.toList_inj, String.toList_append, hlower, h.toList_lower, hs, List.map_append]
    simp [lowerChar_point, hd, ht, hu]
  · rw [Text.endsWith_iff, hlower]
    exact List.suffix_append _ _

/-- The extension is of no use for the beginning of a name. -/
theorem startsWith_stem_iff {x : String} (hx : Text.endsWith x ".d" = true) :
    Text.startsWith (x ++ ".ts") opening = Text.startsWith x opening := by
  rw [Bool.eq_iff_iff]
  refine ⟨fun h => ?_, Text.startsWith_append⟩
  rw [Text.startsWith_iff, String.toList_append] at h
  rw [Text.startsWith_iff]
  refine (List.prefix_or_prefix_of_prefix h (List.prefix_append x.toList _)).resolve_right fun hx' => ?_
  -- There is no `d` in the beginning.
  have hd : 'd' ∈ x.toList := (Text.endsWith_iff.1 hx).subset (by decide)
  exact absurd (hx'.subset hd) (by decide)

/-- **One name.** From the name of a declaration file, a host makes the name that a loader makes. -/
theorem foldLibraryName_eq (h : IsName s) (hend : IsDeclaration s) :
    foldLibraryName s = fileName s := by
  obtain ⟨hlower, hd⟩ := lower_eq_stem h hend
  have hfold : foldLibraryName s = (if Text.endsWith (opened (Text.lower (stem s))) ".d" then
      opened (Text.lower (stem s)) else opened (Text.lower (stem s)) ++ ".d") ++ ".ts" := rfl
  have hopened : opened (Text.lower (stem s) ++ ".ts") = opened (Text.lower (stem s)) ++ ".ts" := by
    unfold opened
    rw [startsWith_stem_iff hd]
    split_ifs
    · rfl
    · rw [String.append_assoc]
  have hclosing : Text.endsWith (opened (Text.lower s)) declarationSuffix = true :=
    endsWith_opened hend
  rw [hfold, if_pos (endsWith_opened hd), fileName_eq, if_pos hclosing, hlower, hopened]

end ModuleGraph.Library
