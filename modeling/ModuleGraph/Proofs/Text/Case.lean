import Mathlib.Data.Bool.AllAny
import ModuleGraph.Text.Case
/-!
# Texts in lower case

Lower-casing reaches its form in one pass: no character that it yields has another lower-case form,
and none of them is a capital sigma, whose form depends on what stands around it. So a text whose
characters all come from lower-casing is left as it is.

Results:
* `isLowered_lowerChar`: the form of a character has no other form;
* `isLowered_of_mem_lower`: what lower-casing yields is in lower case;
* `toList_lower`: lower-casing a text of ASCII;
* `lower_eq_self`: a text in lower case is left as it is;
* `not_mem_lower`: lower-casing brings no slash into a text.
-/

namespace ModuleGraph.Text

/-- The character is its own lower-case form, wherever it stands. -/
def IsLowered (c : Char) : Prop := lowerChar c = c ∧ c.toNat ≠ 0x3A3 ∧ c.toNat ≠ 0x130

/-! ## The table of runs -/

/-- The character with this number belongs to a run. -/
def inRun (n : Nat) (run : Nat × Nat × Nat × Int) : Bool :=
  run.1 ≤ n && n ≤ run.2.1 && (n - run.1) % run.2.2.1 == 0

/-- The numbers from `low` to `high` at a distance of `stride` are all outside of a run. -/
def avoids (low high stride : Nat) (run : Nat × Nat × Nat × Int) : Bool :=
  Nat.blt high run.1 || Nat.blt run.2.1 low ||
    ((low == high || stride % run.2.2.1 == 0) && (low - run.1) % run.2.2.1 != 0)

/-- The lower-case forms of a run are characters, and none of them has another form. -/
def isFinal (run : Nat × Nat × Nat × Int) : Bool :=
  let low := ((run.1 : Int) + run.2.2.2).toNat
  let high := low + (run.2.1 - run.1)
  (low : Int) == run.1 + run.2.2.2 && 0x2F < low && (high < 0x130 || 0x130 < low) &&
    (high < 0xD800 || (0xDFFF < low && high < 0x110000)) &&
    lowerRuns.all (avoids low high run.2.2.1)

set_option maxRecDepth 100000 in
theorem isFinal_of_mem : ∀ run ∈ lowerRuns, isFinal run = true := by
  rw [← List.all_eq_true]
  decide +kernel

theorem not_inRun_of_avoids {low high stride n : Nat} {run : Nat × Nat × Nat × Int}
    (h : avoids low high stride run = true) (hlow : low ≤ n) (hhigh : n ≤ high)
    (hstride : (n - low) % stride = 0) : inRun n run = false := by
  obtain ⟨first, last, s, d⟩ := run
  simp only [avoids, Bool.or_eq_true, Bool.and_eq_true, Nat.blt_eq, beq_iff_eq, bne_iff_ne] at h
  simp only [inRun, Bool.and_eq_false_iff, decide_eq_false_iff_not, beq_eq_false_iff_ne]
  rcases h with (h | h) | ⟨hstep, hodd⟩
  · left; left; omega
  · left; right; omega
  · by_cases hfirst : first ≤ low
    · right
      have hn : n - first = (low - first) + (n - low) := by omega
      have hs : (n - low) % s = 0 := by
        rcases hstep with rfl | hdvd
        · rw [Nat.le_antisymm hhigh hlow, Nat.sub_self, Nat.zero_mod]
        · exact Nat.mod_eq_zero_of_dvd
            (Nat.dvd_trans (Nat.dvd_of_mod_eq_zero hdvd) (Nat.dvd_of_mod_eq_zero hstride))
      rw [hn, Nat.add_mod, hs, Nat.add_zero, Nat.mod_mod]
      exact hodd
    · rw [Nat.sub_eq_zero_of_le (by omega), Nat.zero_mod] at hodd
      exact absurd rfl hodd

/-- The form of a character of a run belongs to no run. -/
theorem form_of_inRun {n : Nat} {run : Nat × Nat × Nat × Int} (hrun : run ∈ lowerRuns)
    (hn : inRun n run = true) :
    let m := ((n : Int) + run.2.2.2).toNat
    m.isValidChar ∧ 0x2F < m ∧ m ≠ 0x130 ∧ ∀ r ∈ lowerRuns, inRun m r = false := by
  have hfinal := isFinal_of_mem run hrun
  obtain ⟨first, last, s, d⟩ := run
  simp only [inRun, Bool.and_eq_true, decide_eq_true_eq, beq_iff_eq] at hn
  simp only [isFinal, Bool.and_eq_true, Bool.or_eq_true, decide_eq_true_eq, beq_iff_eq,
    List.all_eq_true] at hfinal
  obtain ⟨⟨hfirst, hlast⟩, hmod⟩ := hn
  obtain ⟨⟨⟨⟨hlow, hslash⟩, hdotted⟩, hvalid⟩, hall⟩ := hfinal
  generalize hl : ((first : Int) + d).toNat = low at *
  have hm : ((n : Int) + d).toNat = low + (n - first) := by omega
  simp only [hm]
  refine ⟨?_, by omega, by omega, fun r hr => ?_⟩
  · rcases hvalid with h | ⟨h, h'⟩
    · exact .inl (by omega)
    · exact .inr ⟨by omega, by omega⟩
  · exact not_inRun_of_avoids (hall r hr) (by omega) (by omega)
      (by rw [Nat.add_sub_cancel_left]; exact hmod)

/-! ## Characters -/

theorem toNat_ofNat_of_isValidChar {n : Nat} (h : n.isValidChar) : (Char.ofNat n).toNat = n := by
  rw [Char.ofNat, dif_pos h]
  rfl

/-- Lower-casing leaves a character as it is or gives it the form of its run. -/
theorem lowerChar_cases (c : Char) : lowerChar c = c ∨
    ∃ run ∈ lowerRuns, inRun c.toNat run = true ∧
      lowerChar c = Char.ofNat ((c.toNat : Int) + run.2.2.2).toNat := by
  unfold lowerChar
  simp only
  by_cases hlow : c.toNat < 0x80
  · rw [if_pos hlow]
    by_cases hcapital : 0x41 ≤ c.toNat ∧ c.toNat ≤ 0x5A
    · rw [if_pos hcapital]
      refine .inr ⟨(0x41, 0x5A, 1, 32), List.mem_cons_self, ?_, rfl⟩
      simp [inRun, hcapital, Nat.mod_one]
    · rw [if_neg hcapital]
      exact .inl rfl
  · rw [if_neg hlow]
    split
    · next run hfind =>
      exact .inr ⟨_, List.mem_of_find?_eq_some hfind, List.find?_some hfind, rfl⟩
    · exact .inl rfl

/-- A character outside of all runs is left as it is. -/
theorem lowerChar_of_outside {c : Char} (h : ∀ run ∈ lowerRuns, inRun c.toNat run = false) :
    lowerChar c = c := by
  rcases lowerChar_cases c with hc | ⟨run, hrun, hin, -⟩
  · exact hc
  · rw [h run hrun] at hin
    cases hin

set_option maxRecDepth 10000 in
/-- The form of a character has no other form. -/
theorem isLowered_lowerChar {c : Char} (hsigma : c.toNat ≠ 0x3A3) (hdotted : c.toNat ≠ 0x130) :
    IsLowered (lowerChar c) := by
  rcases lowerChar_cases c with hc | ⟨run, hrun, hin, hc⟩
  · rw [hc]
    exact ⟨hc, hsigma, hdotted⟩
  · obtain ⟨hvalid, -, hne, hout⟩ := form_of_inRun hrun hin
    have hm := toNat_ofNat_of_isValidChar hvalid
    rw [hc]
    refine ⟨lowerChar_of_outside ?_, ?_, ?_⟩
    · rwa [hm]
    · rw [hm]
      intro h
      have hcapital := hout (0x3A3, 0x3AB, 1, 32) (by decide)
      rw [h] at hcapital
      cases hcapital
    · rwa [hm]

/-- A character up to the slash in the order of ASCII is the form of itself only. -/
theorem eq_of_lowerChar {c d : Char} (hd : d.toNat ≤ 0x2F) (h : lowerChar c = d) : c = d := by
  rcases lowerChar_cases c with hc | ⟨run, hrun, hin, hc⟩
  · exact hc.symm.trans h
  · obtain ⟨hvalid, habove, -, -⟩ := form_of_inRun hrun hin
    rw [← toNat_ofNat_of_isValidChar hvalid, ← hc, h] at habove
    omega

/-! ## Texts -/

theorem isLowered_of_special :
    ∀ d ∈ [Char.ofNat 0x3C2, Char.ofNat 0x3C3, 'i', Char.ofNat 0x307],
      (lowerChar d = d ∧ d.toNat ≠ 0x3A3 ∧ d.toNat ≠ 0x130) ∧ d ≠ '/' :=
  List.all_iff_forall_prop.1 (by decide)

/-- What stands in the place of the characters of a text is in lower case, and a slash is one of
the characters. -/
theorem isLowered_of_mem_lowerFrom {before cs : List Char} {d : Char}
    (h : d ∈ lowerFrom before cs) : IsLowered d ∧ (d = '/' → '/' ∈ cs) := by
  induction cs generalizing before with
  | nil => cases h
  | cons c r ih =>
    have special (hd : d ∈ [Char.ofNat 0x3C2, Char.ofNat 0x3C3, 'i', Char.ofNat 0x307]) :
        IsLowered d ∧ (d = '/' → '/' ∈ c :: r) :=
      ⟨(isLowered_of_special d hd).1, fun hs => absurd hs (isLowered_of_special d hd).2⟩
    rw [lowerFrom] at h
    rcases List.mem_append.1 h with h | h
    · split at h
      · refine special ?_
        rw [List.mem_singleton] at h
        split at h <;> simp [h]
      · next hsigma =>
        split at h
        · refine special ?_
          simp only [List.mem_cons, List.not_mem_nil, or_false] at h ⊢
          rcases h with h | h <;> simp [h]
        · next hdotted =>
          rw [List.mem_singleton] at h
          subst h
          refine ⟨isLowered_lowerChar hsigma hdotted, fun hs => ?_⟩
          rw [← eq_of_lowerChar (by decide) hs]
          exact List.mem_cons_self
    · exact ⟨(ih h).1, fun hs => List.mem_cons_of_mem c ((ih h).2 hs)⟩

theorem lowerFrom_eq_self {before cs : List Char} (h : ∀ c ∈ cs, IsLowered c) :
    lowerFrom before cs = cs := by
  induction cs generalizing before with
  | nil => rfl
  | cons c r ih =>
    obtain ⟨hc, hsigma, hdotted⟩ := h c List.mem_cons_self
    rw [lowerFrom, if_neg hsigma, if_neg hdotted, hc,
      ih fun d hd => h d (List.mem_cons_of_mem c hd), List.singleton_append]

/-- In a text of ASCII every character has one form. -/
theorem toList_lower {s : String} (h : ∀ c ∈ s.toList, c.toNat < 0x80) :
    (lower s).toList = s.toList.map lowerChar := by
  have hfrom : ∀ (cs before : List Char), (∀ c ∈ cs, c.toNat < 0x80) →
      lowerFrom before cs = cs.map lowerChar := by
    intro cs
    induction cs with
    | nil => exact fun _ _ => rfl
    | cons c cs ih =>
      intro before h
      have hc := h c List.mem_cons_self
      rw [lowerFrom, if_neg (by omega), if_neg (by omega),
        ih _ fun d hd => h d (List.mem_cons_of_mem c hd)]
      rfl
  rw [lower, String.toList_ofList, hfrom _ [] h]

/-- What lower-casing yields is in lower case. -/
theorem isLowered_of_mem_lower {s : String} {c : Char} (h : c ∈ (lower s).toList) :
    IsLowered c := by
  rw [lower, String.toList_ofList] at h
  exact (isLowered_of_mem_lowerFrom h).1

/-- Lower-casing brings no slash into a text. -/
theorem not_mem_lower {s : String} (h : '/' ∉ s.toList) : '/' ∉ (lower s).toList := by
  rw [lower, String.toList_ofList]
  exact fun hmem => h ((isLowered_of_mem_lowerFrom hmem).2 rfl)

/-- A text in lower case is left as it is. -/
theorem lower_eq_self {s : String} (h : ∀ c ∈ s.toList, IsLowered c) : lower s = s := by
  rw [lower, lowerFrom_eq_self h, String.ofList_toList]

end ModuleGraph.Text
