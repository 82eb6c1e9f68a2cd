import Mathlib.Tactic.SplitIfs
import ModuleGraph.Json.Writer
/-!
# Written JSON

Results:
* `isShown_write`: a value is written on one line, without control characters.
-/

namespace ModuleGraph.Json

/-- No character of the text is a control character of ASCII. -/
def IsShown (s : String) : Prop := ∀ c ∈ s.toList, 0x20 ≤ c.toNat

instance (s : String) : Decidable (IsShown s) :=
  decidable_of_iff (s.toList.all fun c => 0x20 ≤ c.toNat) (by simp [IsShown])

theorem IsShown.append {s t : String} (hs : IsShown s) (ht : IsShown t) : IsShown (s ++ t) := by
  intro c hc
  rw [String.toList_append] at hc
  exact (List.mem_append.1 hc).elim (hs c) (ht c)

theorem IsShown.intercalate {sep : String} {texts : List String} (hsep : IsShown sep)
    (h : ∀ s ∈ texts, IsShown s) : IsShown (sep.intercalate texts) := by
  intro c hc
  rw [String.toList_intercalate, List.intercalate, List.mem_flatten] at hc
  obtain ⟨cs, hcs, hc⟩ := hc
  have hmem : cs = sep.toList ∨ cs ∈ texts.map String.toList := by
    clear h hc
    generalize texts.map String.toList = ls at hcs
    induction ls with
    | nil => cases hcs
    | cons l ls ih =>
      cases ls with
      | nil => exact .inr hcs
      | cons l' ls =>
        rcases List.mem_cons.1 hcs with rfl | hcs
        · exact .inr List.mem_cons_self
        · rcases List.mem_cons.1 hcs with rfl | hcs
          · exact .inl rfl
          · exact (ih hcs).imp_right (List.mem_cons_of_mem _)
  rcases hmem with rfl | hmem
  · exact hsep c hc
  · obtain ⟨s, hs, rfl⟩ := List.mem_map.1 hmem
    exact h s hs c hc

theorem isShown_nat (n : Nat) : IsShown (toString n) := by
  intro c hc
  have hdigit : c.isDigit = true :=
    Nat.isDigit_of_mem_toDigits (by decide) (Nat.le_refl 10) (Nat.toList_repr ▸ hc)
  have hlow := (Char.isDigit_iff_toNat.1 hdigit).1
  exact Nat.le_trans (by decide) hlow

theorem isShown_int (n : Int) : IsShown (toString n) := by
  cases n with
  | ofNat m => exact isShown_nat m
  | negSucc m => exact IsShown.append (by decide) (isShown_nat (m + 1))

theorem isShown_writeDecimal (d : Decimal) : IsShown (writeDecimal d) := by
  have hsign : IsShown (if d.negative then "-" else "") := by
    split <;> decide
  exact ((hsign.append (isShown_nat _)).append (by decide)).append (isShown_int _)

theorem isShown_writeString (s : String) : IsShown (writeString s) := by
  have hchar : ∀ x c, c ∈ escapedChar x → 0x20 ≤ c.toNat := by
    intro x c hc
    rw [escapedChar] at hc
    split_ifs at hc with _ _ _ _ _ _ _ hlow
    iterate 7
      · rw [List.mem_cons, List.mem_singleton] at hc
        rcases hc with rfl | rfl <;> decide
    · rw [List.mem_cons, List.mem_cons] at hc
      rcases hc with rfl | rfl | hc
      · decide
      · decide
      · obtain ⟨m, hm, rfl⟩ := Hex.mem_digits hc
        exact (show ∀ m < 16, 0x20 ≤ (Hex.lowerDigit m).toNat by decide) m hm
    · rw [List.mem_singleton] at hc
      exact hc ▸ Nat.not_lt.1 hlow
  intro c hc
  rw [writeString, String.toList_ofList, List.cons_append, List.mem_cons, List.mem_append,
    List.mem_flatMap, List.mem_singleton] at hc
  rcases hc with rfl | ⟨x, -, hc⟩ | rfl
  · decide
  · exact hchar x c hc
  · decide

/-- A value is written without control characters. -/
theorem isShown_write {sp : Spacing} (hcomma : IsShown sp.comma) (hcolon : IsShown sp.colon)
    (v : Json) : IsShown (write sp v) := by
  refine write.induct (fun v => IsShown (write sp v))
    (fun members => ∀ s ∈ writeMembers sp members, IsShown s)
    (fun items => ∀ s ∈ writeItems sp items, IsShown s)
    ?_ ?_ ?_ ?_ ?_ ?_ ?_ ?_ ?_ ?_ ?_ ?_ ?_ ?_ ?_ v
  · simp [write, IsShown]
  · simp [write, IsShown]
  · simp [write, IsShown]
  · intro n
    rw [write]
    exact isShown_int n
  · intro d
    rw [write]
    exact isShown_writeDecimal d
  · simp [write, IsShown]
  · simp [write, IsShown]
  · intro negative hn
    simp [write, hn, IsShown]
  · intro s
    rw [write]
    exact isShown_writeString s
  · intro items hitems
    rw [write]
    exact (IsShown.append (by decide) (hcomma.intercalate hitems)).append
      (by decide)
  · intro members hmembers
    rw [write]
    exact (IsShown.append (by decide) (hcomma.intercalate hmembers)).append
      (by decide)
  · simp [writeItems]
  · intro v r hv hr s hs
    rw [writeItems] at hs
    rcases List.mem_cons.1 hs with rfl | hs
    · exact hv
    · exact hr s hs
  · simp [writeMembers]
  · intro name v r hv hr s hs
    rw [writeMembers] at hs
    rcases List.mem_cons.1 hs with rfl | hs
    · exact ((isShown_writeString name).append hcolon).append hv
    · exact hr s hs

end ModuleGraph.Json
