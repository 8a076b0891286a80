import Mathlib.Data.List.Nodup
import Typings.JobFile
import Typings.Proofs.CommandLine.Choice
import Typings.Proofs.Toml.Written

/-!
# Settings in a job file

A job file holds a choice of settings if its only table is that of the command and has the settings
under their keys (`Choice.IsIn`).  It then has one job, which is made from the settings after their
paths were taken from the base directory (`JobFile.parse_of_isIn`).  There is such a file for each
choice (`Choice.isIn_document`).
-/

namespace Typings

open Toml (Node Fields)

/-- What a setting that may be left out is under its key.  A switch may also be off. -/
def Setting.IsUnder (s : Setting) (value : Option Text) (n : Option Node) : Prop :=
  if s.isSwitch then n = some (.boolean value.isSome) ∨ (n = none ∧ value = none)
  else n = value.map .text

namespace Choice

/-- A table has the settings of a choice and nothing else. -/
structure IsHeldBy (c : Choice) (fs : Fields) : Prop where
  subject : fs.lookup c.positional.key = some (.text c.subject)
  option : ∀ s ∈ c.command.options, s.IsUnder (c.option? s) (fs.lookup s.key)
  only : ∀ f ∈ fs, ∃ s ∈ c.command.settings, s.key = f.1

/-- The only table of a document is that of a command and has the settings of a choice. -/
def IsIn (c : Choice) (contents : Text) : Prop :=
  ∃ origin fs, Toml.Document.read? contents = some [(c.command.name, .table origin fs)] ∧
    c.IsHeldBy fs

end Choice

variable {c : Choice} {s : Setting} {value : Option Text} {n : Option Node} {fs : Fields}

/-! ## Values -/

theorem Setting.IsUnder.eq (h : s.IsUnder value n) (hs : s.isSwitch = false) :
    n = value.map .text := by
  rwa [Setting.IsUnder, if_neg (by simp [hs])] at h

namespace Toml.Node

theorem optional?_text (value : Option Text) : optional? text? (value.map .text) = some value := by
  cases value <;> rfl

theorem default?_format (value : Option Text) :
    default? format? .declarations (value.map .text) = Format.chosen? value := by
  cases value <;> rfl

theorem default?_boolean (h : s.IsUnder value n) (hs : s.isSwitch = true) :
    default? boolean? false n = some value.isSome := by
  rw [Setting.IsUnder, if_pos hs] at h
  rcases h with rfl | ⟨rfl, rfl⟩
  · rfl
  · rfl

end Toml.Node

theorem Toml.Fields.hasOnly_of_settings (command : Command) (keys : List String)
    (hfs : ∀ f ∈ fs, ∃ s ∈ command.settings, s.key = f.1)
    (hkeys : ∀ s ∈ command.settings, ∃ k ∈ keys, k.toList = s.key) :
    hasOnly fs keys = true := by
  rw [hasOnly, List.all_eq_true]
  intro f hf
  obtain ⟨s, hs, hsf⟩ := hfs f hf
  obtain ⟨k, hk, hks⟩ := hkeys s hs
  rw [List.any_eq_true]
  exact ⟨k, hk, by simp [hks, hsf]⟩

/-! ## Tables -/

theorem EnumsSettings.ofNode?_table {input : Text} {output banner name : Option Text}
    (h : (Choice.enums input output banner name).IsHeldBy fs) (origin : Toml.Origin) :
    ofNode? (.table origin fs) =
      (Format.chosen? name).map fun format ↦ { input, output, banner, format } := by
  have honly := Toml.Fields.hasOnly_of_settings .enums ["input", "output", "banner", "format"]
    h.only (by decide)
  have hoption : ∀ s ∈ Command.enums.options, s.isSwitch = false → _ :=
    fun s hs hswitch ↦ (h.option s hs).eq hswitch
  have hinput : fs.lookup "input".toList = some (.text input) := h.subject
  have houtput : fs.lookup "output".toList = output.map .text :=
    hoption .enumsOutput (by decide) rfl
  have hbanner : fs.lookup "banner".toList = banner.map .text := hoption .banner (by decide) rfl
  have hformat : fs.lookup "format".toList = name.map .text := hoption .format (by decide) rfl
  rw [ofNode?, honly, hinput, houtput, hbanner, hformat]
  change ofValues? (.text input) _ _ _ = _
  rw [ofValues?, Node.optional?_text, Node.optional?_text, Node.default?_format]
  cases Format.chosen? name <;> rfl

theorem DocsSettings.ofNode?_table {dir : Text} {extension exclude output name : Option Text}
    {stream : Bool}
    (h : (Choice.docs dir extension exclude stream output name).IsHeldBy fs)
    (origin : Toml.Origin) :
    ofNode? (.table origin fs) = (Format.chosen? name).map fun format ↦
      { dir, extension, exclude, output, stream, format } := by
  have honly := Toml.Fields.hasOnly_of_settings .docs
    ["dir", "extension", "exclude", "output", "stream", "format"] h.only (by decide)
  have hunder : ∀ s ∈ Command.docs.options, _ := h.option
  have hoption : ∀ s ∈ Command.docs.options, s.isSwitch = false → _ :=
    fun s hs hswitch ↦ (hunder s hs).eq hswitch
  have hdir : fs.lookup "dir".toList = some (.text dir) := h.subject
  have hextension : fs.lookup "extension".toList = extension.map .text :=
    hoption .docsExtension (by decide) rfl
  have hexclude : fs.lookup "exclude".toList = exclude.map .text :=
    hoption .docsExclude (by decide) rfl
  have houtput : fs.lookup "output".toList = output.map .text :=
    hoption .docsOutput (by decide) rfl
  have hformat : fs.lookup "format".toList = name.map .text := hoption .format (by decide) rfl
  have hstream : Node.default? Node.boolean? false (fs.lookup "stream".toList) = some stream := by
    have hdefault := Node.default?_boolean (hunder .docsStream (by decide)) rfl
    cases stream with
    | true => exact hdefault
    | false => exact hdefault
  rw [ofNode?, honly, hdir, hextension, hexclude, houtput, hformat]
  change ofValues? (.text dir) _ _ _ _ _ = _
  rw [ofValues?, Node.optional?_text, Node.optional?_text, Node.optional?_text,
    Node.default?_format, hstream]
  cases Format.chosen? name <;> rfl

/-! ## Jobs -/

/-- The job of a task, its paths taken from a base directory. -/
def Task.job? (base : Path) : Task → Option Job
  | .enums settings => (settings.below base).request.toOption.map .enums
  | .docs settings => (settings.below base).request.toOption.map .docs
  | .run _ => none

namespace JobFile

theorem ofFields?_enums (n : Node) :
    ofFields? [("enums".toList, n)] =
      (EnumsSettings.ofNode? n).map fun settings ↦ { enums := some settings } := by
  have hlookup : List.lookup "enums".toList [("enums".toList, n)] = some n := rfl
  have hdocs : List.lookup "docs".toList [("enums".toList, n)] = none := rfl
  have honly : Fields.hasOnly [("enums".toList, n)] ["enums", "docs"] = true := rfl
  rw [ofFields?, hlookup, hdocs, honly, Node.optional?, Node.optional?]
  cases EnumsSettings.ofNode? n <;> rfl

theorem ofFields?_docs (n : Node) :
    ofFields? [("docs".toList, n)] =
      (DocsSettings.ofNode? n).map fun settings ↦ { docs := some settings } := by
  have hlookup : List.lookup "docs".toList [("docs".toList, n)] = some n := rfl
  have henums : List.lookup "enums".toList [("docs".toList, n)] = none := rfl
  have honly : Fields.hasOnly [("docs".toList, n)] ["enums", "docs"] = true := rfl
  rw [ofFields?, hlookup, henums, honly, Node.optional?, Node.optional?]
  cases DocsSettings.ofNode? n <;> rfl

/-- A file that sets what a task sets. -/
def ofTask : Task → JobFile
  | .enums settings => { enums := some settings }
  | .docs settings => { docs := some settings }
  | .run _ => {}

theorem read?_of_isIn {contents : Text} (h : c.IsIn contents) :
    read? contents = c.task?.map ofTask := by
  obtain ⟨origin, fs, hread, hfs⟩ := h
  rw [read?, hread, Option.bind_some]
  cases c with
  | enums input output banner name =>
    have hnode := EnumsSettings.ofNode?_table hfs origin
    refine (ofFields?_enums _).trans ?_
    rw [hnode, Choice.task?, Option.map_map, Option.map_map]
    rfl
  | docs dir extension exclude stream output name =>
    have hnode := DocsSettings.ofNode?_table hfs origin
    refine (ofFields?_docs _).trans ?_
    rw [hnode, Choice.task?, Option.map_map, Option.map_map]
    rfl

theorem jobs_enums (base : Path) (settings : EnumsSettings) :
    jobs base { enums := some settings } =
      (settings.below base).request.map fun request ↦ [.enums request] := by
  simp only [jobs]
  cases (settings.below base).request <;> rfl

theorem jobs_docs (base : Path) (settings : DocsSettings) :
    jobs base { docs := some settings } =
      (settings.below base).request.map fun request ↦ [.docs request] := by
  simp only [jobs]
  cases (settings.below base).request <;> rfl

/-- A file that holds a choice of settings has the one job of its task. -/
theorem parse_of_isIn {contents : Text} (h : c.IsIn contents) (base : Path) :
    (parse base contents).toOption = (c.task?.bind (Task.job? base)).map fun job ↦ [job] := by
  rw [parse, read?_of_isIn h]
  cases c.task? with
  | none => rfl
  | some task =>
    cases task with
    | enums settings =>
      simp only [Option.map_some, ofTask, jobs_enums, Option.bind_some, Task.job?]
      cases (settings.below base).request <;> rfl
    | docs settings =>
      simp only [Option.map_some, ofTask, jobs_docs, Option.bind_some, Task.job?]
      cases (settings.below base).request <;> rfl
    | run _ => rfl

end JobFile

/-! ## Written files -/

namespace Setting

/-- A setting as it is written in a job file. -/
def entry (v : Setting × Text) : Text × Toml.Atom :=
  (v.1.key, if v.1.isSwitch then .boolean true else .text v.2)

theorem isUnder_entry (s : Setting) (value : Option Text) :
    s.IsUnder value (value.map fun value ↦ (entry (s, value)).2.node) := by
  unfold IsUnder
  split
  · next hs =>
    cases value with
    | none => exact .inr ⟨rfl, rfl⟩
    | some value => simp [entry, hs, Toml.Atom.node]
  · next hs => simp [entry, hs, Toml.Atom.node]

theorem isBareKey_key (command : Command) : ∀ s ∈ command.settings, Toml.IsBareKey s.key := by
  cases command <;> decide

theorem key_injOn (command : Command) :
    ∀ s ∈ command.settings, ∀ t ∈ command.settings, s.key = t.key → s = t := by
  cases command <;> decide

theorem lookup_map_key {values : List (Setting × Text)} (node : Setting × Text → Node)
    (hvalues : ∀ v ∈ values, v.1.key = s.key → v.1 = s) :
    (values.map fun v ↦ (v.1.key, node v)).lookup s.key =
      (values.lookup s).map fun value ↦ node (s, value) := by
  induction values with
  | nil => rfl
  | cons v values ih =>
    obtain ⟨t, value⟩ := v
    obtain ⟨hv, hvalues⟩ := List.forall_mem_cons.mp hvalues
    by_cases hts : t = s
    · subst hts
      simp
    · have hst : (s == t) = false := beq_false_of_ne (Ne.symm hts)
      have hkey : (s.key == t.key) = false := beq_false_of_ne fun h ↦ hts (hv h.symm)
      rw [List.map_cons, List.lookup_cons, List.lookup_cons, hst, hkey]
      exact ih hvalues

end Setting

namespace Choice

variable {order : List Setting}

/-- The lines of a job file, one for each setting that is given. -/
def entries (c : Choice) (order : List Setting) : List (Text × Toml.Atom) :=
  (c.given order).map Setting.entry

/-- Writes a job file with the table of the command alone. -/
def document (c : Choice) (order : List Setting) : Text :=
  Toml.Document.write c.command.name (c.entries order)

theorem mem_settings_iff : s ∈ c.command.settings ↔ s = c.positional ∨ s ∈ c.command.options := by
  rw [Command.settings, positional?_command, Option.toList_some, List.singleton_append,
    List.mem_cons]

theorem mem_settings_of_mem_given (horder : order.Perm c.command.options) :
    ∀ v ∈ c.given order, v.1 ∈ c.command.settings := by
  intro v hv
  rw [mem_settings_iff]
  rcases List.mem_append.mp hv with hv | hv
  · exact .inr (horder.mem_iff.mp (mem_options.mp hv).1)
  · rw [List.mem_singleton.mp hv]
    exact .inl rfl

theorem isBareKey_of_mem_entries (horder : order.Perm c.command.options) :
    ∀ e ∈ c.entries order, Toml.IsBareKey e.1 := by
  intro e he
  obtain ⟨v, hv, rfl⟩ := List.mem_map.mp he
  exact Setting.isBareKey_key c.command v.1 (mem_settings_of_mem_given horder v hv)

theorem nodup_entries (horder : order.Perm c.command.options) :
    ((c.entries order).map (·.1)).Nodup := by
  have hmem := mem_settings_of_mem_given horder
  have hmap : (c.entries order).map (·.1) = ((c.given order).map (·.1)).map Setting.key := by
    rw [entries, List.map_map, List.map_map]
    rfl
  rw [hmap]
  refine List.Nodup.map_on ?_ (nodup_given horder)
  intro s hs t ht
  obtain ⟨v, hv, rfl⟩ := List.mem_map.mp hs
  obtain ⟨w, hw, rfl⟩ := List.mem_map.mp ht
  exact Setting.key_injOn c.command _ (hmem v hv) _ (hmem w hw)

theorem lookup_entries (horder : order.Perm c.command.options) (hs : s ∈ c.command.settings) :
    ((c.entries order).map fun e ↦ (e.1, e.2.node)).lookup s.key =
      ((c.given order).lookup s).map fun value ↦ (Setting.entry (s, value)).2.node := by
  have hmem := mem_settings_of_mem_given horder
  rw [entries, List.map_map]
  exact Setting.lookup_map_key _ fun v hv ↦ Setting.key_injOn c.command _ (hmem v hv) _ hs

/-- A written file holds the settings that it was written for. -/
theorem isIn_document (horder : order.Perm c.command.options) : c.IsIn (c.document order) := by
  have hname : Toml.IsBareKey c.command.name := by cases c.command <;> decide
  have hread := Toml.Document.read?_write hname (isBareKey_of_mem_entries horder)
    (nodup_entries horder)
  refine ⟨_, _, hread, ?_, ?_, ?_⟩
  · rw [lookup_entries horder (mem_settings_iff.mpr (.inl rfl)), lookup_given_positional horder]
    cases c <;> rfl
  · intro s hs
    rw [lookup_entries horder (mem_settings_iff.mpr (.inr hs)), lookup_given_of_mem horder hs]
    exact Setting.isUnder_entry s _
  · intro f hf
    rw [entries, List.map_map] at hf
    obtain ⟨v, hv, rfl⟩ := List.mem_map.mp hf
    exact ⟨v.1, mem_settings_of_mem_given horder v hv, rfl⟩

end Choice

end Typings
