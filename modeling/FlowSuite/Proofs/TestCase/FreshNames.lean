import Mathlib.Data.List.Nodup
import FlowSuite.TestCase.Request

/-!
# Names for constants are free

`bindingName` gives a name that is not taken, whatever the name of the parameter is and whatever is taken. If the last
number tried were taken too, then so many names with different numbers would be taken that there are more of them than
taken names. Behind an identifier stand digits only, so the name is an identifier too (`isIdentifier_bindingName`).

So a search through all numbers that stops at the first free name ends, and finds this name (`finds_iff`).
-/

namespace FlowSuite

open Script

theorem append_toString_injective (base : String) : Function.Injective fun n : Nat => base ++ toString n := by
  intro m n h
  have h := congrArg (fun ds => Nat.ofDigitChars 10 ds 0) (congrArg String.toList ((String.append_right_inj base).mp h))
  simpa using h

/-- Where the last number is taken, so is every number tried. -/
theorem mem_of_numbered_mem {taken : List String} {base : String} : ∀ {tries n : Nat},
    numbered taken base tries n ∈ taken → ∀ k ≤ tries, base ++ toString (n + k) ∈ taken
  | 0, n, h, k, hk => by
    obtain rfl : k = 0 := by omega
    exact h
  | tries + 1, n, h, k, hk => by
    rw [numbered] at h
    split at h
    · next hn =>
      cases k with
      | zero => exact hn
      | succ k =>
        have := mem_of_numbered_mem h k (by omega)
        rwa [Nat.add_right_comm, Nat.add_assoc] at this
    · next hn => exact absurd h hn

/-- What is tried are numbers behind the name. -/
theorem exists_numbered (taken : List String) (base : String) :
    ∀ tries n : Nat, ∃ k : Nat, numbered taken base tries n = base ++ toString k
  | 0, n => ⟨n, rfl⟩
  | tries + 1, n => by
    rw [numbered]
    split
    · exact exists_numbered taken base tries (n + 1)
    · exact ⟨n, rfl⟩

/-- Of one more numbers than there are taken names, one makes a free name. -/
theorem exists_free (taken : List String) (base : String) (n : Nat) :
    ∃ k ≤ taken.length, base ++ toString (n + k) ∉ taken := by
  by_contra h
  have hnodup : ((List.range (taken.length + 1)).map fun k => base ++ toString (n + k)).Nodup :=
    List.Nodup.map (fun k l hkl => by have := append_toString_injective base hkl; omega) List.nodup_range
  have hsubset : ((List.range (taken.length + 1)).map fun k => base ++ toString (n + k)) ⊆ taken := by
    intro x hx
    obtain ⟨k, hk, rfl⟩ := List.mem_map.mp hx
    by_contra hfree
    exact h ⟨k, Nat.le_of_lt_succ (List.mem_range.mp hk), hfree⟩
  have hlength := hnodup.length_le_of_subset hsubset
  rw [List.length_map, List.length_range] at hlength
  omega

/-- One more number than there are taken names is enough. -/
theorem numbered_not_mem (taken : List String) (base : String) (n : Nat) :
    numbered taken base taken.length n ∉ taken := by
  intro hmem
  obtain ⟨k, hk, hfree⟩ := exists_free taken base n
  exact hfree (mem_of_numbered_mem hmem k hk)

/-- **The name of a constant is free.** -/
theorem bindingName_not_mem (name : String) (taken : List String) : bindingName name taken ∉ taken := by
  simp only [bindingName]
  split
  · exact numbered_not_mem taken _ 2
  · assumption

/-! ## Names are identifiers -/

theorem Script.isIdentifier_append {cs ds : List Char} (h : isIdentifier cs) (hds : ∀ c ∈ ds, isIdentifierChar c) :
    isIdentifier (cs ++ ds) := by
  cases cs with
  | nil => cases h
  | cons c cs =>
    simp only [List.cons_append, isIdentifier, List.all_append, Bool.and_eq_true] at h ⊢
    exact ⟨h.1, h.2, List.all_eq_true.mpr hds⟩

theorem isIdentifier_bindingName (name : String) (taken : List String) :
    isIdentifier (bindingName name taken).toList := by
  have hbase : isIdentifier (String.ofList (bindable name.toList)).toList := by
    rw [String.toList_ofList]
    exact bindable_isIdentifier name.toList
  simp only [bindingName]
  split
  · obtain ⟨k, hk⟩ := exists_numbered taken (String.ofList (bindable name.toList)) taken.length 2
    rw [hk, String.toList_append]
    refine isIdentifier_append hbase fun c hc => ?_
    rw [Nat.toString_eq_ofList_toDigits, String.toList_ofList] at hc
    have hdigit : c.isDigit := Nat.isDigit_of_mem_toDigits (by decide) (by decide) hc
    simp [isIdentifierChar, Char.isAlphanum, hdigit]
  · exact hbase

/-! ## The search -/

/-- A search without an end for a free name, from a candidate on. A candidate that is free is found; in place of one
that is taken comes the base with the next number. -/
inductive Finds (taken : List String) (base : String) : (candidate : String) → (n : Nat) → (found : String) → Prop
  | free {candidate : String} {n : Nat} : candidate ∉ taken → Finds taken base candidate n candidate
  | next {candidate found : String} {n : Nat} : candidate ∈ taken →
      Finds taken base (base ++ toString n) (n + 1) found → Finds taken base candidate n found

section

variable {taken : List String} {base candidate found other : String} {n : Nat}

theorem Finds.unique (h : Finds taken base candidate n found) (h' : Finds taken base candidate n other) :
    found = other := by
  induction h with
  | free hfree =>
    cases h' with
    | free _ => rfl
    | next htaken _ => exact absurd htaken hfree
  | next htaken _ ih =>
    cases h' with
    | free hfree => exact absurd htaken hfree
    | next _ hnext => exact ih hnext

/-- A bounded search that finds a free name finds what the search finds. -/
theorem finds_numbered : ∀ {tries n : Nat}, numbered taken base tries n ∉ taken →
    Finds taken base (base ++ toString n) (n + 1) (numbered taken base tries n)
  | 0, n, h => .free h
  | tries + 1, n, h => by
    rw [numbered] at h ⊢
    split
    · next hmem =>
      rw [if_pos hmem] at h
      exact .next hmem (finds_numbered h)
    · next hfree => exact .free hfree

end

/-- **The search for the name of a constant ends, and finds one name.** -/
theorem finds_iff (name : String) (taken : List String) (found : String) :
    Finds taken (String.ofList (bindable name.toList)) (String.ofList (bindable name.toList)) 2 found ↔
      found = bindingName name taken := by
  have hends : Finds taken (String.ofList (bindable name.toList))
      (String.ofList (bindable name.toList)) 2 (bindingName name taken) := by
    simp only [bindingName]
    split
    · next hmem => exact .next hmem (finds_numbered (numbered_not_mem taken _ 2))
    · next hfree => exact .free hfree
  exact ⟨fun h => h.unique hends, fun h => h ▸ hends⟩

end FlowSuite
