import ModuleGraph.Proofs.Url.Join
/-!
# References that name absolute URLs

A text is absolute if it begins with a scheme and a colon. Such a text keeps its scheme when it is
cut into parts, since nothing at its beginning is passed over or dropped. A reference that is
absolute, or begins with a point or a slash, names an absolute URL as seen from a file or a host:
it is either the reference itself or written from parts that have the scheme of the base.

Results:
* `hasSchemeForm_iff`: the test for the outer form of an absolute URL;
* `scheme_of_hasScheme`: the scheme is found again among the parts;
* `joinChars_cases`: what a joined URL begins with;
* `hasScheme_of_join`: it is absolute.
-/

namespace ModuleGraph

theorem Text.cutAt_of_not_mem {c : Char} {a : List Char} (h : c ∉ a) (b : List Char) :
    cutAt c (a ++ c :: b) = some (a, b) := by
  induction a with
  | nil => simp [cutAt]
  | cons x a ih =>
    rw [List.mem_cons, not_or] at h
    rw [List.cons_append, cutAt, if_neg (Ne.symm h.1), ih h.2]
    rfl

namespace Url

/-- The text begins with a scheme and a colon. -/
def HasScheme (cs : List Char) : Prop := ∃ a r, cs = a ++ ':' :: r ∧ isScheme a = true

/-! ## Schemes -/

/-- A character of a scheme is visible and is not the colon behind it. -/
theorem isSchemeChar_spec {c : Char} (h : isSchemeChar c = true) :
    0x20 < c.toNat ∧ c ≠ ':' ∧ isLineControl c = false := by
  have hrange : 0x2B ≤ c.toNat ∧ c.toNat ≠ 0x3A := by
    simp only [isSchemeChar, Bool.or_eq_true, decide_eq_true_eq] at h
    rcases h with ((h | rfl) | rfl) | rfl
    · have hascii := toNat_of_isAlphanum h
      omega
    all_goals decide
  refine ⟨by omega, ?_, ?_⟩
  · rintro rfl
    exact hrange.2 rfl
  · simp only [isLineControl, Bool.or_eq_false_iff, decide_eq_false_iff_not]
    refine ⟨⟨?_, ?_⟩, ?_⟩ <;> rintro rfl <;> revert hrange <;> decide

theorem isSchemeChar_of_isLetter {c : Char} (h : isLetter c = true) : isSchemeChar c = true := by
  have halpha : c.isAlpha = true := h
  simp [isSchemeChar, Char.isAlphanum, halpha]

theorem isSchemeChar_of_mem {a : List Char} (h : isScheme a = true) {c : Char} (hc : c ∈ a) :
    isSchemeChar c = true := by
  cases a with
  | nil => cases hc
  | cons x a =>
    simp only [isScheme, Bool.and_eq_true, List.all_eq_true] at h
    rcases List.mem_cons.1 hc with rfl | hc
    · exact isSchemeChar_of_isLetter h.1
    · exact h.2 c hc

/-- The colon behind a scheme is the first one. -/
theorem cutAt_of_isScheme {a : List Char} (h : isScheme a = true) (r : List Char) :
    Text.cutAt ':' (a ++ ':' :: r) = some (a, r) :=
  Text.cutAt_of_not_mem (fun hmem => (isSchemeChar_spec (isSchemeChar_of_mem h hmem)).2.1 rfl) r

/-- A text that begins with a point or a slash has no scheme. -/
theorem not_hasScheme_of_head? {cs : List Char} (h : cs.head? = some '.' ∨ cs.head? = some '/') :
    ¬ HasScheme cs := by
  rintro ⟨a, r, rfl, ha⟩
  cases a with
  | nil => cases ha
  | cons c a =>
    rw [isScheme, Bool.and_eq_true] at ha
    rcases h with h | h
    · cases h
      exact absurd ha.1 (by decide)
    · cases h
      exact absurd ha.1 (by decide)

/-! ## Parts of an absolute text -/

/-- Nothing of a scheme is dropped. -/
theorem clean_of_isScheme {a : List Char} (h : isScheme a = true) (r : List Char) :
    clean (a ++ ':' :: r) = a ++ ':' :: r.filter fun c => !isLineControl c := by
  have hkept : a.filter (fun c => !isLineControl c) = a := by
    rw [List.filter_eq_self]
    intro c hc
    rw [(isSchemeChar_spec (isSchemeChar_of_mem h hc)).2.2]
    rfl
  cases a with
  | nil => cases h
  | cons c a =>
    have hfirst := (isSchemeChar_spec (isSchemeChar_of_mem h List.mem_cons_self)).1
    rw [clean, List.cons_append, List.dropWhile_cons_of_neg (by simpa using hfirst),
      ← List.cons_append, List.filter_append, hkept]
    rfl

/-- Nothing is passed over in front of a point or a slash. -/
theorem head?_clean {cs : List Char} {c : Char} (h : cs.head? = some c)
    (hc : 0x20 < c.toNat ∧ isLineControl c = false) : (clean cs).head? = some c := by
  cases cs with
  | nil => cases h
  | cons x cs =>
    cases h
    rw [clean, List.dropWhile_cons_of_neg (by simpa using hc.1),
      List.filter_cons_of_pos (by simp [hc.2])]
    rfl

theorem cutScheme_of_isScheme {a : List Char} (h : isScheme a = true) (inherited r : List Char) :
    cutScheme inherited (a ++ ':' :: r) = (a.map Char.toLower, r) := by
  simp [cutScheme, cutAt_of_isScheme h, h]

/-- A text without a scheme of its own has that of its base. -/
theorem cutScheme_of_not_hasScheme {cs : List Char} (h : ¬ HasScheme cs) (inherited : List Char) :
    cutScheme inherited cs = (inherited, cs) := by
  unfold cutScheme
  split
  · next a r hcut =>
    refine if_neg fun ha => h ⟨a, r, ?_, ha⟩
    exact (Text.cutAt_eq_some hcut).1
  · rfl

/-- The scheme of an absolute text is found among its parts. -/
theorem scheme_of_hasScheme {cs inherited : List Char} {p : Parts} (h : HasScheme cs)
    (hp : splitClean inherited (clean cs) = .ok p) : p.scheme ≠ [] := by
  obtain ⟨a, r, rfl, ha⟩ := h
  rw [scheme_of_splitClean hp, clean_of_isScheme ha, cutScheme_of_isScheme ha]
  intro hnil
  rw [List.map_eq_nil_iff] at hnil
  rw [hnil] at ha
  cases ha

/-! ## Joined URLs -/

/-- A URL with a scheme is written from scheme, authority and path; what else it has comes last. -/
theorem written_prefix_unsplit {p : Parts} (h : p.scheme ≠ []) :
    written p.scheme p.authority (rooted p.path) <+: unsplit p := by
  have hscheme : p.scheme.isEmpty = false := by simpa using h
  have htail : ∀ (front url : List Char) (mark : Char) part, front <+: url →
      front <+: if part.isEmpty then url else url ++ mark :: part := by
    intro front url mark part hurl
    split_ifs
    · exact hurl
    · exact hurl.trans (List.prefix_append _ _)
  unfold unsplit
  simp only [hscheme, Bool.not_false, Bool.or_true, Bool.true_or, Bool.false_eq_true, if_true,
    if_false]
  refine htail _ _ _ _ (htail _ _ _ _ ?_)
  simp [written, rooted]

/-- A URL is written with its scheme in front, if it has one. -/
theorem prefix_unsplit {p : Parts} (h : p.scheme ≠ []) : p.scheme ++ [':'] <+: unsplit p := by
  refine List.IsPrefix.trans ?_ (written_prefix_unsplit h)
  exact ⟨'/' :: '/' :: p.authority ++ rooted p.path, by simp [written]⟩

/-- As seen from a base whose scheme has relative references, a reference names itself, if it has a
scheme of its own, or a URL with the scheme of the base. -/
theorem joinChars_cases {base reference url : List Char} {b : Parts}
    (hb : splitClean [] (clean base) = .ok b) (hscheme : b.scheme ≠ [])
    (hrelative : hierarchical.contains (.ofList b.scheme) = true) (hne : reference ≠ [])
    (h : joinChars base reference = .ok url) :
    (url = reference ∧ HasScheme (clean reference)) ∨ b.scheme ++ [':'] <+: url := by
  have hbase : base ≠ [] := by
    rintro rfl
    cases hb
    exact hscheme rfl
  unfold joinChars at h
  rw [if_neg (by simpa using hbase), if_neg (by simpa using hne)] at h
  obtain ⟨b', hb', h⟩ := Action.bind_eq_ok_iff.1 h
  rw [hb] at hb'
  cases hb'
  obtain ⟨r, hr, h⟩ := Action.bind_eq_ok_iff.1 h
  generalize cutParameters r.scheme r.path = cut, cutParameters b.scheme b.path = baseCut at h
  obtain ⟨path, parameters⟩ := cut
  obtain ⟨basePath, baseParameters⟩ := baseCut
  dsimp only at h
  have hwritten : ∀ p : Parts, p.scheme = b.scheme → b.scheme ++ [':'] <+: unsplit p := by
    intro p hp
    rw [← hp] at hscheme ⊢
    exact prefix_unsplit hscheme
  by_cases hsame : r.scheme = b.scheme
  · refine .inr ?_
    rw [if_neg (by simpa [hsame] using hrelative)] at h
    split_ifs at h
    all_goals
      cases h
      exact hwritten _ hsame
  · -- The reference has another scheme, so it is one of its own.
    rw [if_pos (by simp [hsame])] at h
    cases h
    refine .inl ⟨rfl, ?_⟩
    by_contra hnone
    exact hsame (by rw [scheme_of_splitClean hr, cutScheme_of_not_hasScheme hnone])

/-- As seen from a file or a host, an absolute reference and a path both name an absolute URL. -/
theorem hasScheme_of_join {source reference url : String}
    (hsource : scheme source = .ok "file" ∨ scheme source = .ok "https")
    (hreference : HasScheme reference.toList ∨ reference.toList.head? = some '.' ∨
      reference.toList.head? = some '/')
    (h : join source reference = .ok url) : HasScheme url.toList := by
  obtain ⟨b, hb, hscheme⟩ : ∃ b, split source = .ok b ∧
      (b.scheme = "file".toList ∨ b.scheme = "https".toList) := by
    rcases hsource with hs | hs
    all_goals
      obtain ⟨b, hb, hs⟩ := Action.map_eq_ok_iff.1 hs
      refine ⟨b, hb, ?_⟩
      rw [← hs, String.toList_ofList]
      simp
  have hlawful : isScheme b.scheme = true ∧ b.scheme ≠ [] ∧
      hierarchical.contains (.ofList b.scheme) = true := by
    rcases hscheme with hs | hs <;> rw [hs] <;> decide
  have hne : reference.toList ≠ [] := by
    intro hnil
    rw [hnil] at hreference
    rcases hreference with ⟨a, r, heq, -⟩ | heq | heq
    · simp at heq
    · cases heq
    · cases heq
  obtain ⟨cs, hcs, rfl⟩ := Action.map_eq_ok_iff.1 h
  rw [String.toList_ofList]
  rcases joinChars_cases hb hlawful.2.1 hlawful.2.2 hne hcs with ⟨rfl, hclean⟩ | ⟨rest, rfl⟩
  · rcases hreference with hs | hhead
    · exact hs
    · refine absurd hclean (not_hasScheme_of_head? ?_)
      rcases hhead with hhead | hhead
      · exact .inl (head?_clean hhead (by decide))
      · exact .inr (head?_clean hhead (by decide))
  · exact ⟨b.scheme, rest, (List.append_cons _ _ _).symm, hlawful.1⟩

end Url

/-! ## Tests for absolute URLs -/

theorem hasSchemeForm_iff {s : String} : hasSchemeForm s = true ↔ Url.HasScheme s.toList := by
  unfold hasSchemeForm
  constructor
  · intro h
    split at h
    · next a r hcut => exact ⟨a, r, (Text.cutAt_eq_some hcut).1, h⟩
    · cases h
  · rintro ⟨a, r, hs, ha⟩
    rw [hs, Url.cutAt_of_isScheme ha]
    exact ha

/-- A text that begins with a scheme and a colon is an absolute URL if it has parts. -/
theorem isAbsoluteUrl_of_hasScheme {s : String} (h : Url.HasScheme s.toList) :
    isAbsoluteUrl s = (Url.split s).map fun _ => true := by
  rw [isAbsoluteUrl, if_pos (hasSchemeForm_iff.2 h), Url.scheme]
  cases hp : Url.split s with
  | error p => rfl
  | ok p =>
    have hne : String.ofList p.scheme ≠ "" := by
      simpa using Url.scheme_of_hasScheme h hp
    simp [Except.map, hne]

theorem isAbsoluteUrl_of_not_hasScheme {s : String} (h : ¬ Url.HasScheme s.toList) :
    isAbsoluteUrl s = .ok false := by
  rw [isAbsoluteUrl, if_neg (fun hs => h (hasSchemeForm_iff.1 hs))]

end ModuleGraph
