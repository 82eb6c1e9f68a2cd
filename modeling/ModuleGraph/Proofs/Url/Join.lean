import ModuleGraph.Proofs.FilePath
import ModuleGraph.Proofs.Text.Affix
import ModuleGraph.Proofs.VirtualPath
/-!
# A file name joined with the URL of a directory

The URL of a directory is taken as it is written, with a slash behind it unless it ends in one. The
reference is a plain name. What comes out is written from the parts of the directory: scheme,
authority, and the path without the slashes at its end, which is made to begin with a slash if it
does not.

Results:
* `splitClean_append_slash`: the parts of a URL with one more slash;
* `mergedPath_eq`: the name behind the path of the directory;
* `joinChars_name`: the joined URL;
* `split_written`: its parts.
-/

namespace ModuleGraph

namespace Text

theorem cutAt_append {c : Char} {cs a b : List Char} (h : cutAt c cs = some (a, b))
    (ds : List Char) : cutAt c (cs ++ ds) = some (a, b ++ ds) := by
  induction cs generalizing a with
  | nil => cases h
  | cons x r ih =>
    rw [List.cons_append, cutAt]
    rw [cutAt] at h
    split_ifs at h ⊢ with hx
    · cases h
      rfl
    · obtain ⟨⟨a', b'⟩, h', heq⟩ := Option.map_eq_some_iff.1 h
      cases heq
      rw [ih h']
      rfl

theorem piecesAt_replicate (c : Char) (n : Nat) :
    piecesAt c (List.replicate n c) = List.replicate (n + 1) [] := by
  induction n with
  | zero => rfl
  | succ n ih => rw [List.replicate_succ, piecesAt, if_pos rfl, ih, ← List.replicate_succ]

/-- Separators at the end of a list are empty pieces. -/
theorem piecesAt_append_replicate (c : Char) (a : List Char) (n : Nat) :
    piecesAt c (a ++ List.replicate n c) = piecesAt c a ++ List.replicate n [] := by
  cases n with
  | zero => simp
  | succ n => rw [List.replicate_succ, piecesAt_append, piecesAt_replicate]

/-- A list is what is left of it once its end is trimmed, and the end. -/
theorem exists_trimEndList (c : Char) (a : List Char) :
    ∃ n, a = trimEndList (· = c) a ++ List.replicate n c := by
  refine ⟨(a.reverse.takeWhile (· = c)).length, ?_⟩
  have hall : a.reverse.takeWhile (· = c) =
      List.replicate (a.reverse.takeWhile (· = c)).length c := by
    refine List.eq_replicate_iff.2 ⟨rfl, fun d hd => ?_⟩
    simpa using List.mem_takeWhile_imp hd
  rw [← List.reverse_inj, List.reverse_append, List.reverse_replicate, ← hall, trimEndList,
    List.reverse_reverse, List.takeWhile_append_dropWhile]

end Text

namespace Url

/-! ## Texts without control characters -/

theorem clean_append_slash (cs : List Char) : clean (cs ++ ['/']) = clean cs ++ ['/'] := by
  have hdrop : (cs ++ ['/']).dropWhile (fun c => decide (c.toNat ≤ 0x20)) =
      cs.dropWhile (fun c => decide (c.toNat ≤ 0x20)) ++ ['/'] := by
    induction cs with
    | nil => rfl
    | cons c cs ih =>
      rw [List.cons_append, List.dropWhile_cons, List.dropWhile_cons]
      split_ifs
      · exact ih
      · rfl
  rw [clean, hdrop, List.filter_append]
  rfl

theorem mem_of_mem_clean {cs : List Char} {c : Char} (h : c ∈ clean cs) :
    c ∈ cs ∧ isLineControl c = false := by
  obtain ⟨hmem, hline⟩ := List.mem_filter.1 h
  exact ⟨(List.dropWhile_suffix _).subset hmem, by simpa using hline⟩

/-- A text that begins with a visible character and has no tabs and line ends is cut as it is. -/
theorem clean_eq_self {c : Char} {cs : List Char} (hc : 0x20 < c.toNat)
    (h : ∀ d ∈ c :: cs, isLineControl d = false) : clean (c :: cs) = c :: cs := by
  rw [clean, List.dropWhile_cons_of_neg (by simpa using hc), List.filter_eq_self]
  intro d hd
  rw [h d hd]
  rfl

/-! ## Parts -/

theorem cutTail_of_not_mem {c : Char} {cs : List Char} (h : c ∉ cs) : cutTail c cs = (cs, []) := by
  rw [cutTail, Text.cutAt_eq_none.2 h]

/-- A scheme of its own is what stands before the first colon. -/
theorem exists_rest {cs : List Char} {s : List Char} (h : (cutScheme [] cs).1 = s) (hs : s ≠ []) :
    ∃ a r, Text.cutAt ':' cs = some (a, r) ∧ isScheme a = true ∧ a.map Char.toLower = s ∧
      (cutScheme [] cs).2 = r := by
  unfold cutScheme at h ⊢
  cases hcut : Text.cutAt ':' cs with
  | none =>
    rw [hcut] at h
    exact absurd h.symm hs
  | some x =>
    obtain ⟨a, r⟩ := x
    rw [hcut] at h
    cases ha : isScheme a with
    | false =>
      simp only [ha, Bool.false_eq_true, if_false] at h
      exact absurd h.symm hs
    | true =>
      simp only [ha, if_true] at h
      exact ⟨a, r, rfl, ha, h, by simp [ha]⟩

theorem cutScheme_suffix (inherited cs : List Char) : (cutScheme inherited cs).2 <:+ cs := by
  unfold cutScheme
  split
  · next a r hcut =>
    obtain ⟨rfl, -⟩ := Text.cutAt_eq_some hcut
    split_ifs
    · exact ⟨a ++ [':'], by simp⟩
    · exact List.suffix_rfl
  · exact List.suffix_rfl

theorem cutAuthority_suffix (cs : List Char) : (cutAuthority cs).2 <:+ cs := by
  unfold cutAuthority
  split
  · next r => exact (List.dropWhile_suffix _).trans ⟨['/', '/'], rfl⟩
  · exact List.suffix_rfl

theorem mem_of_mem_cutAuthority {cs : List Char} {c : Char}
    (h : c ∈ (cutAuthority cs).1 ∨ c ∈ (cutAuthority cs).2) : c ∈ cs := by
  unfold cutAuthority at h
  split at h
  · next r =>
    refine List.mem_cons_of_mem _ (List.mem_cons_of_mem _ ?_)
    rcases h with h | h
    · exact (List.takeWhile_prefix _).subset h
    · exact (List.dropWhile_suffix _).subset h
  · rcases h with h | h
    · cases h
    · exact h

/-- A text without marks is cut into scheme, authority and path. -/
theorem splitClean_eq {inherited cs : List Char} (hq : '?' ∉ cs) (hf : '#' ∉ cs) :
    splitClean inherited cs =
      match authorityProblem (cutAuthority (cutScheme inherited cs).2).1 with
      | some e => .error e
      | none => .ok ⟨(cutScheme inherited cs).1, (cutAuthority (cutScheme inherited cs).2).1,
          (cutAuthority (cutScheme inherited cs).2).2, [], []⟩ := by
  have hmark : ∀ c, c ∉ cs → c ∉ (cutAuthority (cutScheme inherited cs).2).2 :=
    fun c hc hmem =>
      hc (((cutAuthority_suffix _).trans (cutScheme_suffix inherited cs)).subset hmem)
  cases hproblem : authorityProblem (cutAuthority (cutScheme inherited cs).2).1 with
  | some e =>
    unfold splitClean
    dsimp only
    rw [hproblem]
  | none =>
    unfold splitClean
    dsimp only
    rw [hproblem]
    dsimp only
    rw [cutTail_of_not_mem (hmark '#' hf)]
    dsimp only
    rw [cutTail_of_not_mem (hmark '?' hq)]

/-- What is known of the parts of a text without marks. -/
structure PlainParts (cs : List Char) (p : Parts) : Prop where
  query : p.query = []
  fragment : p.fragment = []
  problem : authorityProblem p.authority = none
  mem : ∀ c, c ∈ p.authority ∨ c ∈ p.path → c ∈ cs
  authority : ∀ c ∈ p.authority, endsAuthority c = false

theorem plainParts {cs : List Char} {p : Parts} (h : splitClean [] cs = .ok p) (hq : '?' ∉ cs)
    (hf : '#' ∉ cs) (hs : p.scheme ≠ []) : PlainParts cs p := by
  obtain ⟨a, r, hcut, -, -, hr⟩ := exists_rest (scheme_of_splitClean h).symm hs
  rw [splitClean_eq hq hf, hr] at h
  obtain ⟨rfl, -⟩ := Text.cutAt_eq_some hcut
  split at h
  · cases h
  · next hproblem =>
    cases h
    refine ⟨rfl, rfl, hproblem, fun c hc => ?_, fun c hc => ?_⟩
    · exact List.mem_append_right _ (List.mem_cons_of_mem _ (mem_of_mem_cutAuthority hc))
    · unfold cutAuthority at hc
      split at hc
      · simpa using List.mem_takeWhile_imp hc
      · cases hc

theorem takeWhile_append_slash (t : List Char) :
    (t ++ ['/']).takeWhile (fun c => !endsAuthority c) =
      t.takeWhile fun c => !endsAuthority c := by
  induction t with
  | nil => rfl
  | cons c t ih => rw [List.cons_append, List.takeWhile_cons, List.takeWhile_cons, ih]

theorem dropWhile_append_slash (t : List Char) :
    (t ++ ['/']).dropWhile (fun c => !endsAuthority c) =
      t.dropWhile (fun c => !endsAuthority c) ++ ['/'] := by
  induction t with
  | nil => rfl
  | cons c t ih =>
    rw [List.cons_append, List.dropWhile_cons, List.dropWhile_cons, ih]
    split_ifs <;> rfl

theorem cutAuthority_of_not_slashes {cs : List Char} (h : ∀ t, cs ≠ '/' :: '/' :: t) :
    cutAuthority cs = ([], cs) := by
  unfold cutAuthority
  split
  · exact absurd rfl (h _)
  · rfl

/-- One more slash is one more at the end of the path, unless it makes the sign of an authority. -/
theorem cutAuthority_append_slash {r : List Char} (h : r ≠ ['/']) :
    cutAuthority (r ++ ['/']) = ((cutAuthority r).1, (cutAuthority r).2 ++ ['/']) := by
  by_cases hslashes : ∃ t, r = '/' :: '/' :: t
  · obtain ⟨t, rfl⟩ := hslashes
    simp only [List.cons_append, cutAuthority, takeWhile_append_slash, dropWhile_append_slash]
  · rw [not_exists] at hslashes
    rw [cutAuthority_of_not_slashes hslashes, cutAuthority_of_not_slashes]
    intro t ht
    match r with
    | [] => cases ht
    | [c] =>
      cases ht
      exact h rfl
    | c :: d :: r =>
      cases ht
      exact hslashes _ rfl

/-- One more slash at the end of a text is one more at the end of its path. -/
theorem splitClean_append_slash {cs : List Char} {p : Parts} (h : splitClean [] cs = .ok p)
    (hq : '?' ∉ cs) (hf : '#' ∉ cs) (hs : p.scheme ≠ []) (hroot : p.path ≠ ['/']) :
    splitClean [] (cs ++ ['/']) = .ok { p with path := p.path ++ ['/'] } := by
  obtain ⟨a, r, hcut, ha, hscheme, hr⟩ := exists_rest (scheme_of_splitClean h).symm hs
  have hcut' : cutScheme [] (cs ++ ['/']) = (p.scheme, r ++ ['/']) := by
    rw [cutScheme, Text.cutAt_append hcut]
    simp [ha, hscheme]
  rw [splitClean_eq (by simpa using hq) (by simpa using hf), hcut']
  have hown := scheme_of_splitClean h
  rw [splitClean_eq hq hf, hr, ← hown] at h
  split at h
  · cases h
  · next hproblem =>
    obtain ⟨scheme, authority, path, query, fragment⟩ := p
    simp only [Except.ok.injEq, Parts.mk.injEq] at h
    obtain ⟨-, hauthority, hpath, rfl, rfl⟩ := h
    have hne : r ≠ ['/'] := by
      rintro rfl
      exact hroot hpath.symm
    rw [hauthority] at hproblem
    simp only [cutAuthority_append_slash hne, hauthority, hpath, hproblem]

/-- The end of a text that ends in a slash ends in one, if it is not empty. -/
theorem eq_append_slash_of_suffix {a cs : List Char} (h : a <:+ cs ++ ['/']) :
    a = [] ∨ ∃ q, a = q ++ ['/'] := by
  rcases List.eq_nil_or_concat a with rfl | ⟨q, c, rfl⟩
  · exact .inl rfl
  · obtain ⟨front, hfront⟩ := h
    rw [List.concat_eq_append, ← List.append_assoc] at hfront
    rw [List.concat_eq_append, (List.append_inj' hfront rfl).2]
    exact .inr ⟨q, rfl⟩

/-- The path of a text without marks is the end of the text. -/
theorem path_suffix {inherited cs : List Char} {p : Parts} (h : splitClean inherited cs = .ok p)
    (hq : '?' ∉ cs) (hf : '#' ∉ cs) : p.path <:+ cs := by
  rw [splitClean_eq hq hf] at h
  split at h
  · cases h
  · cases h
    exact (cutAuthority_suffix _).trans (cutScheme_suffix inherited cs)

/-- The path of a text that ends in a slash ends in one, if there is a path. -/
theorem path_of_append_slash {inherited cs : List Char} {p : Parts}
    (h : splitClean inherited (cs ++ ['/']) = .ok p) (hq : '?' ∉ cs ++ ['/'])
    (hf : '#' ∉ cs ++ ['/']) : p.path = [] ∨ ∃ q, p.path = q ++ ['/'] :=
  eq_append_slash_of_suffix (path_suffix h hq hf)

/-! ## Merging paths -/

/-- A character of a file name: a letter or digit of ASCII, a point, a hyphen or an underscore. -/
def isNameChar (c : Char) : Bool := c.isAlphanum || c = '.' || c = '-' || c = '_'

/-- The numbers of the letters and digits of ASCII. -/
theorem toNat_of_isAlphanum {c : Char} (h : c.isAlphanum = true) :
    (0x30 ≤ c.toNat ∧ c.toNat ≤ 0x39) ∨ (0x41 ≤ c.toNat ∧ c.toNat ≤ 0x5A) ∨
      0x61 ≤ c.toNat ∧ c.toNat ≤ 0x7A := by
  have hbounds (low high : UInt32) (hc : low ≤ c.val ∧ c.val ≤ high) :
      low.toNat ≤ c.toNat ∧ c.toNat ≤ high.toNat :=
    ⟨UInt32.le_iff_toNat_le.1 hc.1, UInt32.le_iff_toNat_le.1 hc.2⟩
  have hcases : ((c.isUpper || c.isLower) || c.isDigit) = true := h
  rw [Bool.or_eq_true, Bool.or_eq_true] at hcases
  rcases hcases with (hupper | hlower) | hdigit
  · exact .inr (.inl (hbounds 'A'.val 'Z'.val (of_decide_eq_true hupper)))
  · have hlower := (Bool.and_eq_true ..).mp hlower
    exact .inr (.inr (hbounds 'a'.val 'z'.val
      ⟨of_decide_eq_true hlower.1, of_decide_eq_true hlower.2⟩))
  · have hdigit := (Bool.and_eq_true ..).mp hdigit
    exact .inl (hbounds '0'.val '9'.val ⟨of_decide_eq_true hdigit.1, of_decide_eq_true hdigit.2⟩)

/-- The marks of URLs and everything invisible are in no file name. -/
theorem isNameChar_spec {c : Char} (h : isNameChar c = true) :
    0x20 < c.toNat ∧ c.toNat < 0x80 ∧ c ∉ ['/', ':', '?', '#', ';', '%'] ∧
      isLineControl c = false := by
  have hrange : 0x2D ≤ c.toNat ∧ c.toNat < 0x80 ∧ c.toNat ≠ 0x2F ∧ c.toNat ≠ 0x3A ∧
      c.toNat ≠ 0x3B ∧ c.toNat ≠ 0x3F := by
    simp only [isNameChar, Bool.or_eq_true, decide_eq_true_eq] at h
    rcases h with ((h | rfl) | rfl) | rfl
    · have hascii := toNat_of_isAlphanum h
      omega
    all_goals decide
  refine ⟨by omega, hrange.2.1, ?_, ?_⟩
  · simp only [List.mem_cons, List.not_mem_nil, or_false, not_or]
    refine ⟨?_, ?_, ?_, ?_, ?_, ?_⟩ <;> rintro rfl <;> revert hrange <;> decide
  · simp only [isLineControl, Bool.or_eq_false_iff, decide_eq_false_iff_not]
    refine ⟨⟨?_, ?_⟩, ?_⟩ <;> rintro rfl <;> revert hrange <;> decide

/-- A file name: not empty, and neither the directory itself nor the one above it. -/
structure IsFileName (cs : List Char) : Prop where
  nonempty : cs ≠ []
  chars : ∀ c ∈ cs, isNameChar c = true
  notHere : cs ≠ ['.']
  notAbove : cs ≠ ['.', '.']

theorem IsFileName.not_mem {cs : List Char} (h : IsFileName cs) {c : Char}
    (hc : c ∈ ['/', ':', '?', '#', ';', '%']) : c ∉ cs :=
  fun hmem => (isNameChar_spec (h.chars c hmem)).2.2.1 hc

theorem IsFileName.clean_eq {cs : List Char} (h : IsFileName cs) : clean cs = cs := by
  obtain ⟨c, r, rfl⟩ := List.exists_cons_of_ne_nil h.nonempty
  exact clean_eq_self (isNameChar_spec (h.chars c List.mem_cons_self)).1
    fun d hd => (isNameChar_spec (h.chars d hd)).2.2.2

/-- The segments of a directory: none is empty but the first, and none is `.` or `..`. -/
structure IsDirectoryPath (path : List Char) : Prop where
  nonempty : ∀ s ∈ (Text.piecesAt '/' path).tail, s ≠ []
  noDots : ∀ s ∈ Text.piecesAt '/' path, s ≠ ['.'] ∧ s ≠ ['.', '.']

/-- The segment stays where it is when dots are carried out. -/
def IsPlain (s : List Char) : Prop := s ≠ ['.'] ∧ s ≠ ['.', '.']

theorem foldl_walkSegment {segments : List (List Char)} (h : ∀ s ∈ segments, IsPlain s)
    (done : List (List Char)) : segments.foldl walkSegment done = segments.reverse ++ done := by
  induction segments generalizing done with
  | nil => rfl
  | cons s segments ih =>
    obtain ⟨hhere, habove⟩ := h s List.mem_cons_self
    rw [List.foldl_cons, walkSegment, if_neg habove, if_neg hhere,
      ih fun x hx => h x (List.mem_cons_of_mem s hx), List.reverse_cons, List.append_assoc]
    rfl

/-- Dots only matter to the segments in front of them. -/
theorem removeDots_append (front : List (List Char)) {segments : List (List Char)}
    (h : ∀ s ∈ segments, IsPlain s) (hne : segments ≠ []) :
    removeDots (front ++ segments) = (front.foldl walkSegment []).reverse ++ segments := by
  obtain ⟨inner, last, rfl⟩ := (List.eq_nil_or_concat segments).resolve_left hne
  obtain ⟨hhere, habove⟩ := h last (by simp)
  have hlast : (front ++ inner.concat last).getLast? = some last := by simp
  unfold removeDots
  rw [hlast, List.foldl_append, foldl_walkSegment h, List.reverse_append, List.reverse_reverse]
  simp [hhere, habove]

theorem removeDots_eq_self {segments : List (List Char)} (h : ∀ s ∈ segments, IsPlain s) :
    removeDots segments = segments := by
  cases segments with
  | nil => rfl
  | cons s segments => exact removeDots_append [] h (List.cons_ne_nil s segments)

theorem joinSegments_append {a b : List (List Char)} (ha : a ≠ []) (hb : b ≠ []) :
    joinSegments (a ++ b) = joinSegments a ++ '/' :: joinSegments b := by
  have hcons (s : List Char) {r : List (List Char)} (hr : r ≠ []) :
      joinSegments (s :: r) = s ++ '/' :: joinSegments r := by
    cases r with
    | nil => exact absurd rfl hr
    | cons s' r => rfl
  induction a with
  | nil => exact absurd rfl ha
  | cons s a ih =>
    cases a with
    | nil => exact hcons s hb
    | cons s' a =>
      have hne : s' :: a ≠ [] := List.cons_ne_nil s' a
      rw [List.cons_append, hcons s (List.append_ne_nil_of_left_ne_nil hne b), ih hne,
        hcons s hne, List.append_assoc, List.cons_append]

theorem joinSegments_piecesAt (path : List Char) :
    joinSegments (Text.piecesAt '/' path) = path := by
  induction path with
  | nil => rfl
  | cons c path ih =>
    obtain ⟨s, segments, hs⟩ := List.exists_cons_of_ne_nil (Text.piecesAt_ne_nil '/' path)
    rw [Text.piecesAt]
    rw [hs] at ih ⊢
    by_cases hc : c = '/'
    · rw [if_pos hc, joinSegments, ih, hc]
      · rfl
      · exact List.cons_ne_nil s segments
    · rw [if_neg hc]
      cases segments with
      | nil => exact congrArg (c :: ·) ih
      | cons s' segments => exact congrArg (c :: ·) ih

theorem dropInnerEmpty_concat (first last : List Char) (inner : List (List Char)) :
    dropInnerEmpty (first :: (inner ++ [last])) =
      first :: (inner.filter fun s => !s.isEmpty) ++ [last] := by
  simp [dropInnerEmpty]

/-- The empty segments that slashes at the end of a directory leave are dropped. -/
theorem dropInnerEmpty_eq {first name : List Char} {segments : List (List Char)}
    (h : ∀ s ∈ segments, s ≠ []) (n : Nat) :
    dropInnerEmpty (first :: segments ++ List.replicate n [] ++ [name]) =
      first :: segments ++ [name] := by
  have hsegments : segments.filter (fun s => !s.isEmpty) = segments := by
    rw [List.filter_eq_self]
    intro s hs
    simpa using h s hs
  have hempty : (List.replicate n ([] : List Char)).filter (fun s => !s.isEmpty) = [] := by
    rw [List.filter_eq_nil_iff]
    intro s hs
    rw [(List.mem_replicate.1 hs).2]
    decide
  rw [List.cons_append, List.cons_append, dropInnerEmpty_concat, List.filter_append, hsegments,
    hempty, List.append_nil]

/-- The name stands behind the path of the directory. -/
theorem mergedPath_eq {path name : List Char} (hp : IsDirectoryPath path) (hn : IsFileName name)
    {n : Nat} (h : 0 < n ∨ path = []) :
    mergedPath (path ++ List.replicate n '/') name = path ++ '/' :: name := by
  have hslash : '/' ∉ name := hn.not_mem (by decide)
  have hhead : name.head? ≠ some '/' := fun hhead => hslash (List.mem_of_head? hhead)
  obtain ⟨first, segments, hpieces⟩ := List.exists_cons_of_ne_nil (Text.piecesAt_ne_nil '/' path)
  have hnonempty : ∀ s ∈ segments, s ≠ [] := by
    have := hp.nonempty
    rwa [hpieces] at this
  have hlast : (Text.piecesAt '/' (path ++ List.replicate n '/')).getLast? = some [] := by
    rw [Text.piecesAt_append_replicate]
    rcases h with hpos | rfl
    · obtain ⟨m, rfl⟩ := Nat.exists_eq_add_of_lt hpos
      rw [Nat.zero_add, List.replicate_succ', ← List.append_assoc, List.getLast?_concat]
    · cases n with
      | zero => rfl
      | succ n => rw [List.replicate_succ', ← List.append_assoc, List.getLast?_concat]
  have hmerged : mergedSegments (path ++ List.replicate n '/') name =
      Text.piecesAt '/' path ++ [name] := by
    unfold mergedSegments
    dsimp only
    rw [if_neg hhead, if_pos hlast, Text.piecesAt_of_not_mem hslash, Text.piecesAt_append_replicate,
      hpieces]
    exact dropInnerEmpty_eq hnonempty n
  have hdots : ∀ s ∈ Text.piecesAt '/' path ++ [name], s ≠ ['.'] ∧ s ≠ ['.', '.'] := by
    intro s hs
    rcases List.mem_append.1 hs with hs | hs
    · exact hp.noDots s hs
    · rw [List.mem_singleton.1 hs]
      exact ⟨hn.notHere, hn.notAbove⟩
  rw [mergedPath, hmerged, removeDots_eq_self hdots,
    joinSegments_append (Text.piecesAt_ne_nil '/' path) (List.cons_ne_nil name []),
    joinSegments_piecesAt, joinSegments]
  split
  · next heq => exact absurd heq (by simp)
  · rfl

/-! ## Joining -/

/-- The path, made to begin with a slash unless it is empty. -/
def rooted (path : List Char) : List Char :=
  if !path.isEmpty && path.head? != some '/' then '/' :: path else path

/-- A URL as it is written from its scheme, its authority and its path. -/
def written (scheme authority path : List Char) : List Char :=
  scheme ++ ':' :: '/' :: '/' :: authority ++ path

theorem rooted_append (path name : List Char) :
    rooted (path ++ '/' :: name) = rooted path ++ '/' :: name := by
  cases path with
  | nil => simp [rooted]
  | cons c path =>
    by_cases hc : c = '/'
    · simp [rooted, hc]
    · simp [rooted, hc]

/-- The parts of a base URL: one of a file or of a host, and a path that is one of a directory up to
slashes at its end. -/
structure IsBase (b : Parts) (path : List Char) : Prop where
  scheme : b.scheme = "file".toList ∨ b.scheme = "https".toList
  directory : IsDirectoryPath path
  slashes : ∃ n, b.path = path ++ List.replicate n '/' ∧ (0 < n ∨ path = [])

/-- A name has no parameters, and neither has a path that ends in a slash. -/
theorem cutParameters_name {scheme name : List Char} (h : IsFileName name) :
    cutParameters scheme name = (name, []) := by
  unfold cutParameters
  split_ifs
  · rfl
  · rw [Text.cutAtLast_eq_none.2 (h.not_mem (by decide))]
    exact cutTail_of_not_mem (h.not_mem (by decide))

theorem cutParameters_base {b : Parts} {path : List Char} (h : IsBase b path) :
    cutParameters b.scheme b.path = (b.path, []) := by
  obtain ⟨n, hpath, hn⟩ := h.slashes
  unfold cutParameters
  split_ifs
  · rfl
  · rw [hpath]
    cases n with
    | zero =>
      obtain rfl : path = [] := hn.resolve_left (Nat.lt_irrefl 0)
      rfl
    | succ n =>
      rw [List.replicate_succ', ← List.append_assoc, Text.cutAtLast_append List.not_mem_nil]
      rfl

/-- The reference is a path and nothing else. -/
theorem splitClean_name {scheme name : List Char} (h : IsFileName name) :
    splitClean scheme name = .ok ⟨scheme, [], name, [], []⟩ := by
  have hscheme : cutScheme scheme name = (scheme, name) := by
    rw [cutScheme, Text.cutAt_eq_none.2 (h.not_mem (by decide))]
  have hauthority : cutAuthority name = ([], name) := by
    refine cutAuthority_of_not_slashes fun t ht => h.not_mem (c := '/') (by decide) ?_
    rw [ht]
    exact List.mem_cons_self
  rw [splitClean_eq (h.not_mem (by decide)) (h.not_mem (by decide)), hscheme, hauthority]
  rfl

/-- A name joined with a base is written behind the path of the base. -/
theorem joinChars_name {base name : List Char} {b : Parts} {path : List Char}
    (hb : splitClean [] (clean base) = .ok b) (hbase : IsBase b path) (hn : IsFileName name) :
    joinChars base name =
      .ok (written b.scheme b.authority (rooted path ++ '/' :: name)) := by
  have hne : base ≠ [] := by
    rintro rfl
    cases hb
    rcases hbase.scheme with h | h <;> cases h
  have hhierarchical : hierarchical.contains (.ofList b.scheme) = true := by
    rcases hbase.scheme with h | h <;> rw [h] <;> decide
  have hscheme : b.scheme ≠ [] := by
    rcases hbase.scheme with h | h <;> rw [h] <;> decide
  obtain ⟨n, hpath, hslashes⟩ := hbase.slashes
  unfold joinChars
  rw [if_neg (by simpa using hne), if_neg (by simpa using hn.nonempty), hb, hn.clean_eq]
  simp only [bind, Except.bind, splitClean_name hn, hhierarchical, cutParameters_name hn,
    cutParameters_base hbase, pure, Except.pure]
  rw [if_neg (by simp), if_neg (by simp), if_neg (by simpa using hn.nonempty), hpath,
    mergedPath_eq hbase.directory hn hslashes]
  have hroot := rooted_append path name
  unfold rooted at hroot
  simp only [unsplit, withParameters, written, rooted, List.isEmpty_nil, if_true, hroot]
  simp [hscheme]

section

variable {scheme authority path : List Char}

theorem mem_written {c : Char} (hc : c ∈ written scheme authority path) :
    c ∈ scheme ∨ c = ':' ∨ c = '/' ∨ c ∈ authority ∨ c ∈ path := by
  simp only [written, List.mem_append, List.mem_cons] at hc
  rcases hc with (hc | rfl | rfl | rfl | hc) | hc
  · exact .inl hc
  · exact .inr (.inl rfl)
  · exact .inr (.inr (.inl rfl))
  · exact .inr (.inr (.inl rfl))
  · exact .inr (.inr (.inr (.inl hc)))
  · exact .inr (.inr (.inr (.inr hc)))

theorem clean_written (hs : scheme = "file".toList ∨ scheme = "https".toList)
    (hline : ∀ c, c ∈ authority ∨ c ∈ path → isLineControl c = false) :
    clean (written scheme authority path) = written scheme authority path := by
  have hscheme : ∀ c ∈ scheme, isLineControl c = false := by
    rcases hs with rfl | rfl <;> simp [isLineControl]
  have hline' : ∀ c ∈ written scheme authority path, isLineControl c = false := by
    intro c hc
    rcases mem_written hc with hc | rfl | rfl | hc | hc
    · exact hscheme c hc
    · rfl
    · rfl
    · exact hline c (.inl hc)
    · exact hline c (.inr hc)
  rcases hs with rfl | rfl
  · exact clean_eq_self (by decide) hline'
  · exact clean_eq_self (by decide) hline'

/-- A mark that begins the end of a URL is in none of the parts. -/
theorem not_mem_written {m : Char} (hm : m = '?' ∨ m = '#')
    (hs : scheme = "file".toList ∨ scheme = "https".toList)
    (ha : ∀ c ∈ authority, endsAuthority c = false) (hmarks : m ∉ path) :
    m ∉ written scheme authority path := by
  intro hc
  rcases mem_written hc with hc | hc | hc | hc | hc
  · rcases hs with rfl | rfl <;> rcases hm with rfl | rfl <;> simp at hc
  · rcases hm with rfl | rfl <;> cases hc
  · rcases hm with rfl | rfl <;> cases hc
  · have hends := ha m hc
    rcases hm with rfl | rfl <;> cases hends
  · exact hmarks hc

theorem cutScheme_written (hs : scheme = "file".toList ∨ scheme = "https".toList) :
    cutScheme [] (written scheme authority path) = (scheme, '/' :: '/' :: authority ++ path) := by
  have hcut : Text.cutAt ':' (written scheme authority path) =
      some (scheme, '/' :: '/' :: authority ++ path) := by
    rcases hs with rfl | rfl <;> rfl
  rw [cutScheme, hcut]
  rcases hs with rfl | rfl <;> rfl

theorem cutAuthority_written (ha : ∀ c ∈ authority, endsAuthority c = false)
    (hhead : path.head? = some '/') :
    cutAuthority ('/' :: '/' :: authority ++ path) = (authority, path) := by
  obtain ⟨r, rfl⟩ : ∃ r, path = '/' :: r := by
    cases path with
    | nil => cases hhead
    | cons c r => exact ⟨r, by rw [Option.some.inj hhead]⟩
  have hall : ∀ c ∈ authority, (!endsAuthority c) = true := fun c hc => by rw [ha c hc]; rfl
  simp only [List.cons_append, cutAuthority]
  rw [List.takeWhile_append_of_pos hall, List.dropWhile_append_of_pos hall,
    List.takeWhile_cons_of_neg (by decide), List.dropWhile_cons_of_neg (by decide),
    List.append_nil]

/-- What is written is cut into the parts again. -/
theorem split_written (hs : scheme = "file".toList ∨ scheme = "https".toList)
    (hproblem : authorityProblem authority = none)
    (ha : ∀ c ∈ authority, endsAuthority c = false) (hhead : path.head? = some '/')
    (hmarks : '?' ∉ path ∧ '#' ∉ path)
    (hline : ∀ c, c ∈ authority ∨ c ∈ path → isLineControl c = false) :
    split (.ofList (written scheme authority path)) = .ok ⟨scheme, authority, path, [], []⟩ := by
  rw [split, String.toList_ofList, clean_written hs hline,
    splitClean_eq (not_mem_written (.inl rfl) hs ha hmarks.1)
      (not_mem_written (.inr rfl) hs ha hmarks.2), cutScheme_written hs]
  dsimp only
  rw [cutAuthority_written ha hhead, hproblem]

end

end Url

end ModuleGraph
