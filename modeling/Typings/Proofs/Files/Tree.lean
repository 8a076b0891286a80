import Mathlib.Data.List.Basic
import Typings.Files.Tree

/-!
# What is where in a file tree

A tree is seen through what a look-up finds.  Putting an entry at a place changes what is found
there and nowhere else (`lookup_set_self`, `lookup_set_of_ne`).  `Same` trees have the same things
at the same places, whatever the order of their entries; a tree that `Extends` another still has
all that paths lead through there.
-/

namespace Typings.FileTree

variable {t t' : FileTree} {l l' : Location} {e : Entry}

/-! ## Looking up -/

@[simp] theorem lookup_nil (t : FileTree) : t.lookup [] = some .directory := rfl

theorem lookup_of_ne_nil (hl : l ≠ []) : t.lookup l = t.entries.lookup l := if_neg hl

theorem lookup_set_self (t : FileTree) (hl : l ≠ []) (e : Entry) :
    (t.set l e).lookup l = some e := by
  rw [lookup_of_ne_nil hl, set, List.lookup_cons_self]

theorem lookup_set_of_ne (t : FileTree) (h : l' ≠ l) (e : Entry) :
    (t.set l e).lookup l' = t.lookup l' := by
  have hfilter : ∀ xs : List (Location × Entry),
      (xs.filter (·.1 != l)).lookup l' = xs.lookup l' := by
    intro xs
    induction xs with
    | nil => rfl
    | cons x xs ih =>
      by_cases hx : x.1 = l
      · have hne : (l' == x.1) = false := beq_eq_false_iff_ne.mpr (hx ▸ h)
        rw [List.filter_cons_of_neg (by simp [hx]), ih, List.lookup_cons, hne]
      · rw [List.filter_cons_of_pos (by simp [hx]), List.lookup_cons, List.lookup_cons, ih]
  by_cases hl : l' = []
  · rw [hl, lookup_nil, lookup_nil]
  · rw [lookup_of_ne_nil hl, lookup_of_ne_nil hl, set, List.lookup_cons,
      beq_eq_false_iff_ne.mpr h, hfilter]

/-! ## Trees with the same things -/

/-- The trees have the same things at the same places. -/
structure Same (t t' : FileTree) : Prop where
  working : t.working = t'.working
  lookup : ∀ l, t.lookup l = t'.lookup l

theorem Same.set (h : Same t t') (l : Location) (e : Entry) : Same (t.set l e) (t'.set l e) := by
  refine ⟨h.working, fun l' ↦ ?_⟩
  by_cases hl : l' = l
  · subst hl
    by_cases hn : l' = []
    · rw [hn, lookup_nil, lookup_nil]
    · rw [lookup_set_self t hn, lookup_set_self t' hn]
  · rw [lookup_set_of_ne t hl, lookup_set_of_ne t' hl, h.lookup]

/-! ## Trees with more -/

/-- Directories and links of `t` are in `t'` too, and its files, which may hold another text. -/
structure Extends (t t' : FileTree) : Prop where
  working : t'.working = t.working
  directory : ∀ l, t.lookup l = some .directory → t'.lookup l = some .directory
  link : ∀ l target, t.lookup l = some (.link target) → t'.lookup l = some (.link target)
  file : ∀ l text, t.lookup l = some (.file text) → ∃ text', t'.lookup l = some (.file text')

theorem Extends.trans {t'' : FileTree} (h : Extends t t') (h' : Extends t' t'') :
    Extends t t'' := by
  refine ⟨h'.working.trans h.working, fun l hl ↦ h'.directory l (h.directory l hl),
    fun l target hl ↦ h'.link l target (h.link l target hl), fun l text hl ↦ ?_⟩
  obtain ⟨text', hl'⟩ := h.file l text hl
  exact h'.file l text' hl'

/-- An entry can be put where there was none, and a file where there was a file. -/
theorem extends_set
    (h : ∀ e', t.lookup l = some e' → (∃ text, e' = .file text) ∧ ∃ text, e = .file text) :
    Extends t (t.set l e) := by
  have hne : ∀ {l' e'}, t.lookup l' = some e' → (∀ text, e' ≠ .file text) → l' ≠ l := by
    rintro l' e' hl' hfile rfl
    obtain ⟨⟨text, he'⟩, _⟩ := h _ hl'
    exact hfile text he'
  refine ⟨rfl, fun l' hl' ↦ ?_, fun l' target hl' ↦ ?_, fun l' text hl' ↦ ?_⟩
  · rw [lookup_set_of_ne t (hne hl' nofun), hl']
  · rw [lookup_set_of_ne t (hne hl' nofun), hl']
  · by_cases hl : l' = l
    · subst hl
      obtain ⟨_, text', rfl⟩ := h _ hl'
      have hn : l' ≠ [] := by
        rintro rfl
        cases hl'
      exact ⟨text', lookup_set_self t hn _⟩
    · exact ⟨text, by rw [lookup_set_of_ne t hl, hl']⟩

end Typings.FileTree
