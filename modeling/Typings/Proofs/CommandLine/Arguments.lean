import Typings.CommandLine
import Typings.Proofs.Text.Basic

/-!
# Settings as arguments

A setting is given as an argument by its flag.  Options are taken one by one as their arguments are
read (`Reading.read_argument`, `Reading.read_options`), and what is behind two dashes goes to the
setting without a flag (`Reading.read_positional`).  So the settings are given values in the order
of the arguments, all of them or up to the first that is refused (`Reading.giveAll`).
-/

namespace Typings

/-! ## Spelling -/

namespace Spelling

variable {name : Text}

theorem of_flag (hne : name ≠ []) (heq : '=' ∉ name) :
    of ('-' :: '-' :: name) = .flag name none := by
  have hall : ∀ c ∈ name, (c != '=') = true := Text.bne_of_notMem heq
  have htake : name.takeWhile (· != '=') = name := by simpa using hall
  have hdrop : name.dropWhile (· != '=') = [] := by simpa using hall
  rw [of.eq_2 _ hne, htake, hdrop]
  rfl

theorem of_flag_value (heq : '=' ∉ name) (value : Text) :
    of ('-' :: '-' :: (name ++ '=' :: value)) = .flag name (some value) := by
  have hall : ∀ c ∈ name, (c != '=') = true := Text.bne_of_notMem heq
  have hstops : Text.Stops (· != '=') ('=' :: value) := by simp
  rw [of.eq_2 _ (by simp), Text.takeWhile_append_of_stops hall hstops,
    Text.dropWhile_append_of_stops hall hstops]
  rfl

end Spelling

namespace Setting

/-- The word for a setting, which is its flag if it has one. -/
def key : Setting → Text
  | .enumsInput => "input".toList
  | .docsDir => "dir".toList
  | s => s.flag?.getD []

/-- Writes a setting as an argument. -/
def argument (s : Setting) (value : Text) : Text :=
  '-' :: '-' :: (if s.isSwitch then s.key else s.key ++ '=' :: value)

/-- A switch is on or not given. -/
def Admits (s : Setting) (value : Text) : Prop := s.isSwitch = true → value = "true".toList

end Setting

/-- The flag of an option leads back to it. -/
theorem Scope.flag?_key (command : Command) : ∀ s ∈ command.options,
    s.key ≠ [] ∧ '=' ∉ s.key ∧ (Scope.command command).flag? s.key = some (.setting s) := by
  cases command <;> decide

namespace Reading

variable {command : Command} {s : Setting} {value : Text} {given : List (Setting × Text)}

/-- An option is taken when its argument is read. -/
theorem read_argument (hs : s ∈ command.options) (hvalue : s.Admits value)
    (given : List (Setting × Text)) (rest : List Text) :
    read (.command command) { given } (s.argument value :: rest) =
      give given s value >>= fun given ↦ read (.command command) { given } rest := by
  obtain ⟨hne, heq, hflag⟩ := Scope.flag?_key command s hs
  have hspelling : Spelling.of (s.argument value) =
      .flag s.key (if s.isSwitch then none else some value) := by
    unfold Setting.argument
    split
    · exact Spelling.of_flag hne heq
    · exact Spelling.of_flag_value heq value
  have htake : flag { given } (.setting s) (if s.isSwitch then none else some value) =
      give given s value >>= fun given ↦ pure { given } := by
    cases hswitch : s.isSwitch with
    | true =>
      rw [hvalue hswitch]
      simp only [flag, hswitch, if_true]
      rfl
    | false =>
      simp only [flag, hswitch, Bool.false_eq_true, if_false]
      rfl
  rw [read.eq_2, command?]
  simp [hspelling, hflag, htake]

/-- Gives values to settings one by one. -/
def giveAll (given : List (Setting × Text)) (values : List (Setting × Text)) :
    Except Usage (List (Setting × Text)) :=
  values.foldlM (fun given v ↦ give given v.1 v.2) given

theorem read_options {order : List Setting} {option? : Setting → Option Text}
    (horder : ∀ s ∈ order, s ∈ command.options)
    (hvalues : ∀ s ∈ order, ∀ value ∈ option? s, s.Admits value)
    (given : List (Setting × Text)) (rest : List Text) :
    read (.command command) { given }
        (order.filterMap (fun s ↦ (option? s).map s.argument) ++ rest) =
      giveAll given (order.filterMap fun s ↦ (option? s).map (s, ·)) >>= fun given ↦
        read (.command command) { given } rest := by
  induction order generalizing given with
  | nil => rfl
  | cons s order ih =>
    rw [List.forall_mem_cons] at horder hvalues
    cases h : option? s with
    | none => simpa [h] using ih horder.2 hvalues.2 given
    | some value =>
      simp only [List.filterMap_cons, h, Option.map_some, List.cons_append]
      rw [read_argument horder.1 (hvalues.1 value h), giveAll, List.foldlM_cons, bind_assoc]
      exact bind_congr fun given ↦ ih horder.2 hvalues.2 given

/-- What is behind two dashes awaits its settlement even if it looks like a flag. -/
theorem read_positional (hs : command.positional? = some s) (hgiven : given.lookup s = none)
    (subject : Text) :
    read (.command command) { given } ["--".toList, subject] =
      .ok ({ given, pending := some (s, some subject), separated := true }, none) := by
  have hpositional : (Scope.command command).positional? = some s := hs
  rw [read.eq_2, command?]
  simp [read.eq_2, plain, hpositional, hgiven, await, settle, read.eq_1]
  rfl

/-! ## Giving values -/

theorem giveAll_of_forall {values : List (Setting × Text)}
    (hnodup : (given.map (·.1) ++ values.map (·.1)).Nodup)
    (h : ∀ v ∈ values, v.1.refusal? v.2 = none) :
    giveAll given values = .ok (given ++ values) := by
  induction values generalizing given with
  | nil =>
    rw [List.append_nil]
    rfl
  | cons v values ih =>
    obtain ⟨hv, hvalues⟩ := List.forall_mem_cons.mp h
    have hgiven : given.lookup v.1 = none := by
      rw [List.lookup_eq_none_iff]
      intro g hg
      rw [bne_iff_ne]
      exact fun e ↦ (List.nodup_append.mp hnodup).2.2 _ (List.mem_map_of_mem hg) _
        List.mem_cons_self e.symm
    have hgive : give given v.1 v.2 = .ok (given ++ [v]) := by
      simp [give, hgiven, hv]
    have hnext : ((given ++ [v]).map (·.1) ++ values.map (·.1)).Nodup := by simpa using hnodup
    have hih := ih hnext hvalues
    rw [List.append_assoc, List.singleton_append] at hih
    rw [giveAll, List.foldlM_cons, hgive]
    exact hih

theorem refusal?_of_give {given' : List (Setting × Text)} (h : give given s value = .ok given') :
    s.refusal? value = none := by
  unfold give at h
  split at h
  · cases h
  · split at h
    · cases h
    · assumption

theorem exists_giveAll_eq_error {values : List (Setting × Text)} {v : Setting × Text}
    (hv : v ∈ values) (h : v.1.refusal? v.2 ≠ none) (given : List (Setting × Text)) :
    ∃ u, giveAll given values = .error u := by
  induction values generalizing given with
  | nil => cases hv
  | cons w values ih =>
    rw [giveAll, List.foldlM_cons]
    cases hgive : give given w.1 w.2 with
    | error u => exact ⟨u, rfl⟩
    | ok given' =>
      rcases List.mem_cons.mp hv with rfl | hv
      · exact absurd (refusal?_of_give hgive) h
      · exact ih hv given'

end Reading

end Typings
