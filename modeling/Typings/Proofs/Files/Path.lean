import Typings.Files.Path
import Typings.Proofs.Text.Basic

/-!
# Names in a path

A slash separates the names of a path, so that a file name joined to the path of a directory is the
last name of the whole (`names_join`).  The extension of a file name is what follows its last dot
(`extension?_eq_some_iff`).
-/

namespace Typings.Path

variable {p q name stem e : Text} {c : Char}

/-- A name that may stand in a directory. -/
structure IsFileName (name : Text) : Prop where
  ne_nil : name ≠ []
  notSlash : '/' ∉ name
  notSelf : name ≠ ['.']
  notParent : name ≠ ['.', '.']

instance : DecidablePred IsFileName := fun name ↦
  decidable_of_iff (name ≠ [] ∧ '/' ∉ name ∧ name ≠ ['.'] ∧ name ≠ ['.', '.'])
    ⟨fun h ↦ ⟨h.1, h.2.1, h.2.2.1, h.2.2.2⟩,
      fun h ↦ ⟨h.ne_nil, h.notSlash, h.notSelf, h.notParent⟩⟩

/-! ## Pieces -/

theorem pieces_cons_of_ne (hc : c ≠ '/') (p : Path) :
    pieces (c :: p) = Text.consFirst c (pieces p) := if_neg (by simpa using hc)

theorem pieces_ne_nil (p : Path) : pieces p ≠ [] := by
  cases p with
  | nil => exact List.cons_ne_nil _ _
  | cons c p =>
    by_cases hc : c = '/'
    · rw [hc]
      exact List.cons_ne_nil _ _
    · rw [pieces_cons_of_ne hc]
      cases pieces p <;> exact List.cons_ne_nil _ _

theorem pieces_append_slash (p q : Path) : pieces (p ++ '/' :: q) = pieces p ++ pieces q := by
  induction p with
  | nil => rfl
  | cons c p ih =>
    by_cases hc : c = '/'
    · subst hc
      exact congrArg ([] :: ·) ih
    · rw [List.cons_append, pieces_cons_of_ne hc, pieces_cons_of_ne hc, ih]
      cases hp : pieces p with
      | nil => exact absurd hp (pieces_ne_nil p)
      | cons x xs => rfl

theorem pieces_of_notMem (h : '/' ∉ name) : pieces name = [name] := by
  induction name with
  | nil => rfl
  | cons c name ih =>
    rw [List.mem_cons, not_or] at h
    rw [pieces_cons_of_ne (fun hc ↦ h.1 hc.symm), ih h.2]
    rfl

/-! ## Names -/

theorem names_append_slash (p q : Path) : names (p ++ '/' :: q) = names p ++ names q := by
  rw [names, pieces_append_slash, List.filter_append]
  rfl

theorem names_of_isFileName (h : IsFileName name) : names name = [name] := by
  rw [names, pieces_of_notMem h.notSlash, List.filter_cons_of_pos (by simpa using h.ne_nil)]
  rfl

theorem isAbsolute_of_isFileName (h : IsFileName name) : isAbsolute name = false := by
  cases name with
  | nil => rfl
  | cons c name =>
    have hc : c ≠ '/' := fun hc ↦ h.notSlash (hc ▸ List.mem_cons_self)
    simpa [isAbsolute] using hc

/-! ## Joined paths -/

variable {dir : Path}

/-- A file name joined to a path that is not empty comes behind a slash. -/
theorem exists_join_eq (hdir : dir ≠ []) (h : IsFileName name) :
    ∃ p, join dir name = p ++ '/' :: name ∧ names dir = names p ∧
      isAbsolute dir = isAbsolute (p ++ ['/']) := by
  have hempty : dir.isEmpty = false := by simpa using hdir
  have habsolute : ∀ p : Path, p ≠ [] → isAbsolute p = isAbsolute (p ++ ['/']) := by
    intro p hp
    rw [isAbsolute, isAbsolute, List.head?_append_of_ne_nil _ hp]
  rw [join, isAbsolute_of_isFileName h, hempty, Bool.false_or, if_neg (by decide)]
  split
  · next hlast =>
    obtain ⟨p, rfl⟩ : ∃ p, dir = p ++ ['/'] :=
      ⟨dir.dropLast, (List.dropLast_append_getLast? '/' (by simpa using hlast)).symm⟩
    refine ⟨p, by simp, ?_, rfl⟩
    rw [names_append_slash]
    exact List.append_nil _
  · exact ⟨dir, rfl, rfl, habsolute dir hdir⟩

theorem names_join (hdir : dir ≠ []) (h : IsFileName name) :
    names (join dir name) = names dir ++ [name] := by
  obtain ⟨p, hjoin, hnames, _⟩ := exists_join_eq hdir h
  rw [hjoin, names_append_slash, names_of_isFileName h, hnames]

theorem isAbsolute_join (hdir : dir ≠ []) (h : IsFileName name) :
    isAbsolute (join dir name) = isAbsolute dir := by
  obtain ⟨p, hjoin, _, habsolute⟩ := exists_join_eq hdir h
  rw [hjoin, habsolute]
  cases p <;> rfl

theorem endsInSlash_join (hdir : dir ≠ []) (h : IsFileName name) :
    endsInSlash (join dir name) = false := by
  obtain ⟨p, hjoin, _, _⟩ := exists_join_eq hdir h
  have hlast : name.getLast h.ne_nil ≠ '/' := fun hc ↦
    h.notSlash (hc ▸ List.getLast_mem h.ne_nil)
  have hconcat : join dir name =
      (p ++ '/' :: name.dropLast) ++ [name.getLast h.ne_nil] := by
    rw [List.append_assoc, List.cons_append, List.dropLast_append_getLast, hjoin]
  rw [endsInSlash, hconcat, List.getLast?_concat]
  simpa using hlast

/-! ## Extensions -/

theorem extension?_eq_some_iff : extension? name = some e ↔
    name ≠ "..".toList ∧ ∃ stem, stem ≠ [] ∧ '.' ∉ e ∧ name = stem ++ '.' :: e := by
  constructor
  · intro h
    rw [extension?] at h
    split at h
    · cases h
    · next hparent =>
      have hname := List.takeWhile_append_dropWhile (p := (· != '.')) (l := name.reverse)
      have hstops := Text.stops_dropWhile (· != '.') name.reverse
      split at h
      · cases h
      · cases h
      · next d hnil hone =>
        obtain rfl := Option.some.inj h
        cases hd : name.reverse.dropWhile (· != '.') with
        | nil => exact absurd hd hnil
        | cons c stem =>
          rw [hd] at hname hstops
          obtain rfl : c = '.' := by simpa using hstops
          refine ⟨hparent, stem.reverse, ?_, ?_, ?_⟩
          · rintro hstem
            exact hone '.' (by rw [hd, List.reverse_eq_nil_iff.mp hstem])
          · intro hmem
            have := List.mem_takeWhile_imp (List.mem_reverse.mp hmem)
            simp at this
          · simpa using (congrArg List.reverse hname).symm
  · rintro ⟨hparent, stem, hstem, he, rfl⟩
    have hdots : ∀ c ∈ e.reverse, (c != '.') = true :=
      Text.bne_of_notMem fun h ↦ he (List.mem_reverse.mp h)
    have hstops : Text.Stops (· != '.') ('.' :: stem.reverse) := Text.stops_cons.mpr rfl
    have hreverse : (stem ++ '.' :: e).reverse = e.reverse ++ '.' :: stem.reverse := by simp
    rw [extension?, if_neg hparent, hreverse, Text.dropWhile_append_of_stops hdots hstops,
      Text.takeWhile_append_of_stops hdots hstops, List.reverse_reverse]
    cases hs : stem.reverse with
    | nil => exact absurd (List.reverse_eq_nil_iff.mp hs) hstem
    | cons => rfl

end Typings.Path
