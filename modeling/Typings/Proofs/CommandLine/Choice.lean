import Typings.Proofs.CommandLine.Arguments

/-!
# Choices of settings

A choice gives the settings of one command as texts.  Its arguments are an option for each setting
with a flag that is given, in any order, and the path that the command works on behind two dashes.
They set the task of the choice if no path is empty and the format is known, and are refused
otherwise (`Choice.parse_arguments`, `Choice.exists_parse_arguments_eq_error`).
-/

namespace Typings

/-- The format that is chosen by name, or by default. -/
def Format.chosen? : Option Text → Option Format
  | none => some .declarations
  | some name => Format.ofName? name

/-- The settings of one command. -/
inductive Choice where
  | enums (input : Text) (output banner format : Option Text)
  | docs (dir : Text) (extension exclude : Option Text) (stream : Bool)
      (output format : Option Text)
deriving DecidableEq, Repr

namespace Choice

def command : Choice → Command
  | .enums .. => .enums
  | .docs .. => .docs

/-- The setting without a flag. -/
def positional : Choice → Setting
  | .enums .. => .enumsInput
  | .docs .. => .docsDir

/-- The path that the command works on. -/
def subject : Choice → Text
  | .enums input .. => input
  | .docs dir .. => dir

def output? : Choice → Option Text
  | .enums _ output .. => output
  | .docs _ _ _ _ output _ => output

def format? : Choice → Option Text
  | .enums _ _ _ format => format
  | .docs _ _ _ _ _ format => format

/-- What is given for a setting with a flag. -/
def option? : Choice → Setting → Option Text
  | .enums _ output _ _, .enumsOutput => output
  | .enums _ _ banner _, .banner => banner
  | .enums _ _ _ format, .format => format
  | .docs _ extension .., .docsExtension => extension
  | .docs _ _ exclude .., .docsExclude => exclude
  | .docs _ _ _ stream .., .docsStream => if stream then some "true".toList else none
  | .docs _ _ _ _ output _, .docsOutput => output
  | .docs _ _ _ _ _ format, .format => format
  | _, _ => none

/-- The options that are given, in order. -/
def options (c : Choice) (order : List Setting) : List (Setting × Text) :=
  order.filterMap fun s ↦ (c.option? s).map (s, ·)

/-- All that is given, the path last. -/
def given (c : Choice) (order : List Setting) : List (Setting × Text) :=
  c.options order ++ [(c.positional, c.subject)]

def arguments (c : Choice) (order : List Setting) : List Text :=
  c.command.name :: (order.filterMap (fun s ↦ (c.option? s).map s.argument) ++
    ["--".toList, c.subject])

example : (docs "-d".toList none (some "a=b".toList) true none none).arguments
    Command.docs.options = ["docs", "--exclude=a=b", "--stream", "--", "-d"].map (·.toList) := by
  decide

/-- The task that the settings describe, if their format is known. -/
def task? : Choice → Option Task
  | .enums input output banner format =>
    (Format.chosen? format).map fun format ↦ .enums { input, output, banner, format }
  | .docs dir extension exclude stream output format =>
    (Format.chosen? format).map fun format ↦
      .docs { dir, extension, exclude, output, stream, format }

variable {c : Choice} {order : List Setting} {s : Setting}

/-! ## What is given -/

theorem mem_options {v : Setting × Text} :
    v ∈ c.options order ↔ v.1 ∈ order ∧ c.option? v.1 = some v.2 := by
  obtain ⟨s, value⟩ := v
  simp only [options, List.mem_filterMap, Option.map_eq_some_iff, Prod.mk.injEq]
  constructor
  · rintro ⟨s, hs, value, hvalue, rfl, rfl⟩
    exact ⟨hs, hvalue⟩
  · rintro ⟨hs, hvalue⟩
    exact ⟨s, hs, value, hvalue, rfl, rfl⟩

theorem map_fst_options (c : Choice) (order : List Setting) :
    (c.options order).map (·.1) = order.filter fun s ↦ (c.option? s).isSome := by
  induction order with
  | nil => rfl
  | cons s order ih =>
    unfold options at ih ⊢
    cases h : c.option? s with
    | none => simp [h, ih]
    | some value => simp [h, ih]

theorem positional?_command (c : Choice) : c.command.positional? = some c.positional := by
  cases c <;> rfl

theorem positional_notMem (c : Choice) : c.positional ∉ c.command.options := by
  cases c <;> simp [positional, command, Command.options]

theorem nodup_given (horder : order.Perm c.command.options) :
    ((c.given order).map (·.1)).Nodup := by
  have hnodup : order.Nodup := by
    rw [horder.nodup_iff]
    cases c <;> simp [command, Command.options]
  rw [given, List.map_append, map_fst_options, List.nodup_append]
  refine ⟨hnodup.filter _, List.nodup_cons.mpr ⟨List.not_mem_nil, List.nodup_nil⟩, ?_⟩
  rintro s hs t ht rfl
  rw [List.map_singleton, List.mem_singleton] at ht
  rw [ht] at hs
  exact positional_notMem c (horder.mem_iff.mp (List.mem_filter.mp hs).1)

theorem lookup_options (c : Choice) (order : List Setting) (s : Setting) :
    (c.options order).lookup s = if s ∈ order then c.option? s else none := by
  induction order with
  | nil => rfl
  | cons t order ih =>
    unfold options at ih ⊢
    by_cases hst : s = t
    · subst hst
      cases h : c.option? s with
      | none => simp [h, ih]
      | some value => simp [h]
    · have hbeq : (s == t) = false := beq_false_of_ne hst
      cases h : c.option? t with
      | none => simp [h, ih, hst]
      | some value => simp [h, ih, hst, hbeq, List.lookup_cons]

theorem lookup_given_of_mem (horder : order.Perm c.command.options) (hs : s ∈ c.command.options) :
    (c.given order).lookup s = c.option? s := by
  have hne : (s == c.positional) = false := by
    apply beq_false_of_ne
    rintro rfl
    exact positional_notMem c hs
  rw [given, List.lookup_append, lookup_options, if_pos (horder.mem_iff.mpr hs)]
  simp [List.lookup_cons, hne]

theorem lookup_given_positional (horder : order.Perm c.command.options) :
    (c.given order).lookup c.positional = some c.subject := by
  have hs : c.positional ∉ order := fun h ↦ positional_notMem c (horder.mem_iff.mp h)
  rw [given, List.lookup_append, lookup_options, if_neg hs]
  simp

/-! ## What is refused -/

/-- No path is empty. -/
def HasPaths (c : Choice) : Prop := c.subject ≠ [] ∧ ∀ output ∈ c.output?, output ≠ []

/-- What a command line asks of settings one by one. -/
def IsAdmitted (c : Choice) : Prop := c.HasPaths ∧ c.task? ≠ none

theorem task?_ne_none_iff : c.task? ≠ none ↔ ∀ name ∈ c.format?, Format.ofName? name ≠ none := by
  cases c with
  | enums _ _ _ name => cases name <;> simp [task?, format?, Format.chosen?]
  | docs _ _ _ _ _ name => cases name <;> simp [task?, format?, Format.chosen?]

theorem forall_given_iff :
    (∀ v ∈ c.given order, v.1.refusal? v.2 = none) ↔
      (∀ v ∈ c.options order, v.1.refusal? v.2 = none) ∧
        c.positional.refusal? c.subject = none := by
  rw [given, List.forall_mem_append, List.forall_mem_singleton]

theorem forall_refusal?_iff (horder : order.Perm c.command.options) :
    (∀ v ∈ c.given order, v.1.refusal? v.2 = none) ↔ c.IsAdmitted := by
  have hoptions : (∀ v ∈ c.options order, v.1.refusal? v.2 = none) ↔
      ∀ s ∈ c.command.options, ∀ value ∈ c.option? s, s.refusal? value = none := by
    constructor
    · intro h s hs value hvalue
      exact h (s, value) (mem_options.mpr ⟨horder.mem_iff.mpr hs, hvalue⟩)
    · intro h v hv
      obtain ⟨hs, hvalue⟩ := mem_options.mp hv
      exact h v.1 (horder.mem_iff.mp hs) v.2 hvalue
  rw [forall_given_iff, hoptions, IsAdmitted, HasPaths, task?_ne_none_iff, and_comm, and_assoc]
  cases c with
  | enums input output banner format =>
    simp only [command, Command.options, List.forall_mem_cons, option?, positional, subject,
      output?, format?, Setting.refusal?, ite_eq_right_iff, reduceCtorEq, imp_false,
      List.isEmpty_iff, Option.isNone_iff_eq_none, implies_true, List.not_mem_nil, true_and,
      and_true, ne_eq, false_implies]
  | docs dir extension exclude stream output format =>
    have hswitch : ∀ value ∈ (if stream then some "true".toList else none),
        ¬ Text.switch? value = none := by
      cases stream <;> decide
    simp only [command, Command.options, List.forall_mem_cons, option?, positional, subject,
      output?, format?, Setting.refusal?, ite_eq_right_iff, reduceCtorEq, imp_false,
      List.isEmpty_iff, Option.isNone_iff_eq_none, implies_true, List.not_mem_nil, true_and,
      and_true, ne_eq, false_implies, eq_true hswitch]

/-! ## Arguments -/

theorem fill_eq_ok (given : List (Setting × Text)) (settings : List Setting) :
    Command.fill (fun _ ↦ none) given settings = .ok given := by
  induction settings with
  | nil => rfl
  | cons s settings ih =>
    rw [Command.fill]
    cases given.lookup s <;> exact ih

theorem read_program (c : Choice) (rest : List Text) :
    Reading.read .program {} (c.command.name :: rest) = .ok ({}, some (c.command, rest)) := by
  cases c <;> rfl

/-- What has been read of a choice before its path is settled. -/
def reading (c : Choice) (order : List Setting) : Reading where
  given := c.options order
  pending := some (c.positional, some c.subject)
  separated := true

theorem lookup_options_positional (horder : order.Perm c.command.options) :
    (c.options order).lookup c.positional = none := by
  rw [lookup_options, if_neg]
  exact fun h ↦ positional_notMem c (horder.mem_iff.mp h)

theorem read_options (horder : order.Perm c.command.options) :
    Reading.read (.command c.command) {} (c.arguments order).tail =
      Reading.giveAll [] (c.options order) >>= fun given ↦
        Reading.read (.command c.command) { given } ["--".toList, c.subject] := by
  apply Reading.read_options
  · exact fun s hs ↦ horder.mem_iff.mp hs
  · intro s _ value hvalue hswitch
    cases s with
    | docsStream =>
      cases c with
      | enums => cases hvalue
      | docs _ _ _ stream =>
        cases stream with
        | true => exact (Option.some.inj hvalue).symm
        | false => cases hvalue
    | _ => cases hswitch

/-- Options that are all accepted are read in order. -/
theorem read_arguments (horder : order.Perm c.command.options)
    (h : ∀ v ∈ c.options order, v.1.refusal? v.2 = none) :
    Reading.read (.command c.command) {} (c.arguments order).tail =
      .ok (c.reading order, none) := by
  have hnodup : ((c.options order).map (·.1)).Nodup := by
    have := nodup_given horder
    rw [given, List.map_append, List.nodup_append] at this
    exact this.1
  rw [read_options horder, Reading.giveAll_of_forall (by simpa using hnodup) h]
  exact Reading.read_positional (positional?_command c) (lookup_options_positional horder) _

theorem settle_reading (horder : order.Perm c.command.options)
    (h : c.positional.refusal? c.subject = none) :
    (c.reading order).settle =
      .ok { given := c.given order, pending := none, separated := true } := by
  simp only [reading, Reading.settle, Reading.give, lookup_options_positional horder, h]
  rfl

theorem settle_reading_of_refusal? {u : Usage} (horder : order.Perm c.command.options)
    (h : c.positional.refusal? c.subject = some u) : (c.reading order).settle = .error u := by
  simp [reading, Reading.settle, Reading.give, lookup_options_positional horder, h]

theorem formatOf_eq {values : List (Setting × Text)} {format : Format}
    (h : Format.chosen? (values.lookup .format) = some format) :
    Command.formatOf values = format := by
  unfold Command.formatOf
  cases hname : values.lookup .format with
  | none =>
    rw [hname] at h
    exact Option.some.inj h
  | some name =>
    rw [hname] at h
    rw [Option.bind_some, show Format.ofName? name = some format from h, Option.getD_some]

theorem task_given {task : Task} (horder : order.Perm c.command.options)
    (h : c.task? = some task) : c.command.task (c.given order) = .ok task := by
  have hpositional := lookup_given_positional horder
  cases c with
  | enums input output banner name =>
    obtain ⟨format, hname, rfl⟩ := Option.map_eq_some_iff.mp h
    have hoption : ∀ s ∈ Command.enums.options, _ := fun s hs ↦ lookup_given_of_mem horder hs
    have hformat := formatOf_eq ((congrArg Format.chosen? (hoption .format (by decide))).trans hname)
    rw [positional, subject] at hpositional
    simp only [command, Command.task, hpositional, hoption .enumsOutput (by decide),
      hoption .banner (by decide), hformat, option?]
  | docs dir extension exclude stream output name =>
    obtain ⟨format, hname, rfl⟩ := Option.map_eq_some_iff.mp h
    have hoption : ∀ s ∈ Command.docs.options, _ := fun s hs ↦ lookup_given_of_mem horder hs
    have hformat := formatOf_eq ((congrArg Format.chosen? (hoption .format (by decide))).trans hname)
    have hstream : ((if stream then some "true".toList else none).bind Text.switch?).getD false =
        stream := by
      cases stream <;> decide
    rw [positional, subject] at hpositional
    simp only [command, Command.task, hpositional, hoption .docsExtension (by decide),
      hoption .docsExclude (by decide), hoption .docsOutput (by decide),
      hoption .docsStream (by decide), hformat, option?, hstream]

theorem lookup_log (horder : order.Perm c.command.options) :
    (c.given order).lookup .log = none := by
  have hlog : Setting.log ∉ order := by
    rw [horder.mem_iff]
    cases c <;> simp [command, Command.options]
  rw [given, List.lookup_append, lookup_options, if_neg hlog]
  cases c <;> rfl

theorem parse_eq (c : Choice) (order : List Setting) :
    CommandLine.parse (fun _ ↦ none) (c.arguments order) = (do
      let (inner, _) ← Reading.read (.command c.command) {} (c.arguments order).tail
      let inner ← inner.settle
      let values ← Command.fill (fun _ ↦ none) inner.given c.command.settings
      let task ← c.command.task values
      pure {
        logFilter := CommandLine.chooseLogFilter (fun _ ↦ none) inner.given []
        task }) := by
  rw [CommandLine.parse, arguments, read_program]
  rfl

/-- Arguments that are admitted set the task of their choice. -/
theorem parse_arguments (horder : order.Perm c.command.options) (hadmitted : c.IsAdmitted) :
    ∃ task, c.task? = some task ∧ CommandLine.parse (fun _ ↦ none) (c.arguments order) =
      .ok { logFilter := CommandLine.defaultLogFilter, task } := by
  obtain ⟨hoptions, hsubject⟩ := forall_given_iff.mp ((forall_refusal?_iff horder).mpr hadmitted)
  obtain ⟨task, htask⟩ := Option.ne_none_iff_exists'.mp hadmitted.2
  have hfilter : CommandLine.chooseLogFilter (fun _ ↦ none) (c.given order) [] =
      CommandLine.defaultLogFilter := by
    rw [CommandLine.chooseLogFilter, lookup_log horder]
    rfl
  refine ⟨task, htask, ?_⟩
  rw [parse_eq, read_arguments horder hoptions]
  change (c.reading order).settle >>= _ = _
  rw [settle_reading horder hsubject]
  change Command.fill _ (c.given order) _ >>= _ = _
  rw [fill_eq_ok]
  change c.command.task (c.given order) >>= _ = _
  rw [task_given horder htask, ← hfilter]
  rfl

theorem exists_parse_arguments_eq_error (horder : order.Perm c.command.options)
    (hadmitted : ¬ c.IsAdmitted) :
    ∃ u, CommandLine.parse (fun _ ↦ none) (c.arguments order) = .error u := by
  rw [parse_eq]
  by_cases hoptions : ∀ v ∈ c.options order, v.1.refusal? v.2 = none
  · have hsubject : c.positional.refusal? c.subject ≠ none := by
      intro hsubject
      rw [← forall_refusal?_iff horder, forall_given_iff] at hadmitted
      exact hadmitted ⟨hoptions, hsubject⟩
    obtain ⟨u, hu⟩ := Option.ne_none_iff_exists'.mp hsubject
    rw [read_arguments horder hoptions]
    change ∃ u, (c.reading order).settle >>= _ = _
    rw [settle_reading_of_refusal? horder hu]
    exact ⟨u, rfl⟩
  · push Not at hoptions
    obtain ⟨v, hv, hrefusal⟩ := hoptions
    obtain ⟨u, hu⟩ := Reading.exists_giveAll_eq_error hv hrefusal []
    rw [read_options horder, hu]
    exact ⟨u, rfl⟩

end Choice

end Typings
